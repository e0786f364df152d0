import Subcoin.Lib.Safety
import Subcoin.Script.Eval

/-!
# Subcoin — the signature opcodes

A signature opcode may end before it comes to the checker: its arguments are missing or an encoding
is refused. Checking the encodings never panics (`isPanic_checkSignatureEncoding`), and an opcode
that returns took its arguments and has the checker's answer (`popAndCheckSig_eq_ok`,
`checkMultisig_eq_ok`). Under Tapscript the opcodes that check one signature end in an
`unreachable!` as soon as their arguments are there (`isPanic_evalCrypto_tapscript`).
-/

namespace Subcoin.Script

open Outcome

/-! ## Stacks -/

namespace Stack

variable {s' : Stack}

theorem pop_eq_ok {s : Stack} {x : List UInt8} : s.pop = .ok (x, s') ↔ s = x :: s' := by
  cases s with
  | nil => simp [pop]
  | cons y s => simp [pop]

theorem eq_cons_of_popNum {s : Stack} {minimal : Bool} {v : Int}
    (h : s.popNum minimal = .ok (v, s')) : ∃ x, s = x :: s' := by
  cases s with
  | nil => cases h
  | cons x s =>
    rw [popNum] at h
    split at h
    · cases h
      exact ⟨x, rfl⟩
    · cases h

theorem subset_of_popMany {n : Nat} {s : Stack} {xs : List (List UInt8)}
    (h : popMany n s = .ok (xs, s')) : xs ⊆ s ∧ s' ⊆ s := by
  obtain ⟨_, rfl, rfl⟩ := popMany_eq_ok.mp h
  exact ⟨List.take_subset n s, List.drop_subset n s⟩

end Stack

theorem EvalContext.numOfBool_nonneg (b : Bool) : 0 ≤ numOfBool b := by
  cases b with
  | false => decide
  | true => decide

/-- The opcodes that check signatures. -/
def CryptoOp.isSignature : CryptoOp → Bool
  | .checkSig | .checkSigVerify | .checkMultiSig | .checkMultiSigVerify | .checkSigAdd => true
  | _ => false

/-! ## Encodings -/

variable {ε : Type} {sig : List UInt8}

theorem safe_byteAt {l : List UInt8} {i : Nat} (h : i < l.length) :
    Safe (fun _ => True) (byteAt l i : Outcome ε UInt8) := by
  unfold byteAt
  rw [List.getElem?_eq_getElem h]
  trivial

theorem safe_tooMuchPadding {offset length : Nat} (h : offset + length ≤ sig.length) :
    Safe (fun _ => True) (tooMuchPadding sig offset length : Outcome ε Bool) := by
  unfold tooMuchPadding
  split
  · refine (safe_byteAt (by omega)).bind ?_
    intro first _
    split
    · exact (safe_byteAt (by omega)).bind fun _ _ => trivial
    · trivial
  · trivial

/-- The indices into a signature stay within it, and so does the S it finds. -/
theorem safe_isValidSignatureEncoding (sig : List UInt8) :
    Safe (fun s : EncodedS => s.offset + s.length ≤ sig.length)
      (isValidSignatureEncoding sig) := by
  refine safe_errIf.bind fun _ hshort => ?_
  have hlen : 9 ≤ sig.length := by simpa using hshort
  refine safe_errIf.bind fun _ _ => ?_
  refine (safe_byteAt (by omega)).bind fun _ _ => ?_
  refine safe_errIf.bind fun _ _ => ?_
  refine (safe_byteAt (by omega)).bind fun _ _ => ?_
  refine safe_errIf.bind fun _ _ => ?_
  refine (safe_byteAt (by omega)).bind fun lenR _ => ?_
  refine safe_errIf.bind fun _ hinside => ?_
  have hR : 5 + lenR.toNat < sig.length := by simpa using hinside
  refine (safe_byteAt hR).bind fun lenS _ => ?_
  refine safe_errIf.bind fun _ hsum => ?_
  have hS : lenR.toNat + lenS.toNat + 7 = sig.length := by simpa using hsum
  refine (safe_byteAt (by omega)).bind fun _ _ => ?_
  refine safe_errIf.bind fun _ _ => ?_
  refine safe_errIf.bind fun _ _ => ?_
  refine (safe_byteAt (by omega)).bind fun _ _ => ?_
  refine safe_errIf.bind fun _ _ => ?_
  refine (safe_tooMuchPadding (by omega)).bind fun _ _ => ?_
  refine safe_errIf.bind fun _ _ => ?_
  refine (safe_byteAt (by omega)).bind fun _ _ => ?_
  refine safe_errIf.bind fun _ _ => ?_
  refine safe_errIf.bind fun _ _ => ?_
  refine (safe_byteAt (by omega)).bind fun _ _ => ?_
  refine safe_errIf.bind fun _ _ => ?_
  refine (safe_tooMuchPadding (by omega)).bind fun _ _ => ?_
  refine safe_errIf.bind fun _ _ => ?_
  exact safe_ok.mpr (by dsimp only; omega)

theorem isPanic_checkSignatureEncoding (flags : VerifyFlags) (sig : List UInt8) :
    (checkSignatureEncoding flags sig).isPanic = false := by
  have hvalid : Safe (fun s : EncodedS => s.offset + s.length ≤ sig.length)
      ((isValidSignatureEncoding sig).mapErr CheckSigError.der) :=
    safe_mapErr.mpr (safe_isValidSignatureEncoding sig)
  have hder : Safe (fun _ => True) (checkDer flags sig) := by
    unfold checkDer
    split
    · exact hvalid.bind fun _ _ => trivial
    · trivial
  have hlowS : Safe (fun _ => True) (checkLowS flags sig) := by
    unfold checkLowS isLowDerSignature
    split
    · refine hvalid.bind fun s hs => ?_
      rw [sliceRange_of_le (Nat.le_add_right _ _) hs]
      exact safe_errIf.mono fun _ _ => trivial
    · trivial
  have hall : Safe (fun _ => True) (checkSignatureEncoding flags sig) := by
    unfold checkSignatureEncoding
    split
    · trivial
    · refine hder.bind fun _ _ => ?_
      refine hlowS.bind fun _ _ => ?_
      exact safe_errIf.mono fun _ _ => trivial
  exact hall.isPanic

theorem isPanic_checkPubkeyEncoding (flags : VerifyFlags) (sigVersion : SigVersion)
    (pubkey : List UInt8) : (checkPubkeyEncoding flags sigVersion pubkey).isPanic = false :=
  isPanic_bind (isPanic_errIf _ _) fun _ => isPanic_errIf _ _

/-! ## Questions -/

namespace EvalContext

section Definitions

variable (ctx : EvalContext)

/-- The encodings of a signature and a key are accepted. -/
def accepts (sig key : List UInt8) : Bool :=
  checkSignatureEncoding ctx.flags sig = .ok () &&
    checkPubkeyEncoding ctx.flags ctx.sigVersion key = .ok ()

/-- Signature and key of `OP_CHECKSIG`. -/
def checkSigArgs : Stack → Option (List UInt8 × List UInt8)
  | pubkey :: sig :: _ => some (sig, pubkey)
  | _ => none

/-- Signature and key of `OP_CHECKSIGADD`, which has a number between them. -/
def checkSigAddArgs : Stack → Option (List UInt8 × List UInt8)
  | pubkey :: num :: sig :: _ =>
    match numFromBytes num ctx.verifyMinimaldata 4 with
    | .ok _ => some (sig, pubkey)
    | .error _ => none
  | _ => none

/-- The arguments of `OP_CHECKMULTISIG`, within the operation limit. -/
def multisigArgs (s : EvalState) : Option MultisigArgs :=
  match popKeysCount ctx.verifyMinimaldata s.stack with
  | .ok (keysCount, stack) =>
    if s.opCount + keysCount ≤ maxOpsPerScript then
      (popMultisigArgs ctx.flags ctx.verifyMinimaldata keysCount stack).toOption
    else none
  | .error _ => none

/-- Signature and key of an opcode that checks one signature. -/
def signatureArgs (s : EvalState) : CryptoOp → Option (List UInt8 × List UInt8)
  | .checkSig | .checkSigVerify => checkSigArgs s.stack
  | .checkSigAdd => ctx.checkSigAddArgs s.stack
  | _ => none

/-- The signature opcode with a code. -/
def signatureOp (code : UInt8) : Option CryptoOp :=
  match Opcode.fromU8 code with
  | some (.crypto op) => if op.isSignature then some op else none
  | _ => none

/-- The signature opcode a step comes to, with the state in which it starts. -/
def signatureStep (s : EvalState) : Instruction → Option (EvalState × CryptoOp)
  | .pushBytes _ => none
  | .op code =>
    match s.executing, ctx.countOp code (advance s (.op code)) with
    | true, .ok s' => (signatureOp code).map fun op => (s', op)
    | _, _ => none

/-- The steps of an evaluation: the state before each, and the instruction with its position. -/
def steps (stack : Stack) (execData : ScriptExecutionData) :
    List (EvalState × (Nat × Instruction)) :=
  Loop.trace (fun s _ item => ctx.step s item.2) ctx.parsed.items (EvalState.init stack execData)

end Definitions

variable {ctx : EvalContext} {Q : List UInt8 → Prop}

/-! ## One signature -/

theorem subscriptFrom_of_le {begincode : Nat} (h : begincode ≤ ctx.script.length) :
    (subscriptFrom ctx.script begincode : Outcome ε (List UInt8)) =
      .ok (ctx.script.drop begincode) := by
  rw [subscriptFrom, sliceRange_of_le h le_rfl, List.take_of_length_le (by simp)]

/-- The signature versions of pre-Taproot scripts. -/
def PreTapscript (ctx : EvalContext) : Prop :=
  ctx.sigVersion = .base ∨ ctx.sigVersion = .witnessV0

variable {s : EvalState} {code : UInt8}

theorem handleChecksigAt_eq (hver : ctx.PreTapscript) {key : List UInt8} :
    ctx.handleChecksigAt s sig key =
      ((evalChecksigPreTapscript ctx.env ctx.flags ctx.checker ctx.sigVersion ctx.script s.begincode
        sig key) >>= fun success => pure (success, s.execData)).mapErr .checkSig := by
  unfold handleChecksigAt handleChecksig
  rcases hver with hver | hver
  · rw [hver]
  · rw [hver]

/-- Under Tapscript a signature check is the unreachable case. -/
theorem isPanic_handleChecksigAt_tapscript (hver : ctx.sigVersion = .tapscript) {key : List UInt8} :
    (ctx.handleChecksigAt s sig key).isPanic = true := by
  unfold handleChecksigAt handleChecksig
  rw [hver, isPanic_mapErr]
  rfl

/-! ## The opcodes -/

/-- An opcode with one signature check: its arguments, and then the check, after which nothing
panics. -/
theorem isPanic_popAndCheckSig :
    (ctx.popAndCheckSig s).isPanic = false ↔ ∀ args ∈ checkSigArgs s.stack,
      (ctx.handleChecksigAt s args.1 args.2).isPanic = false := by
  unfold popAndCheckSig
  match hstack : s.stack with
  | [] => simp [checkSigArgs, Stack.pop]
  | [x] => simp [checkSigArgs, Stack.pop]
  | pubkey :: sig :: rest =>
    simp [checkSigArgs, Stack.pop, isPanic_bind_eq_false]

theorem isPanic_evalCheckSig :
    (ctx.evalCheckSig s).isPanic = false ↔ ∀ args ∈ checkSigArgs s.stack,
      (ctx.handleChecksigAt s args.1 args.2).isPanic = false := by
  unfold evalCheckSig
  rw [isPanic_bind_eq_false, isPanic_popAndCheckSig]
  simp

theorem isPanic_evalCheckSigVerify :
    (ctx.evalCheckSigVerify code s).isPanic = false ↔ ∀ args ∈ checkSigArgs s.stack,
      (ctx.handleChecksigAt s args.1 args.2).isPanic = false := by
  unfold evalCheckSigVerify
  rw [isPanic_bind_eq_false, isPanic_popAndCheckSig]
  simp [isPanic_bind_eq_false]

theorem isPanic_evalCheckSigAdd :
    (ctx.evalCheckSigAdd s).isPanic = false ↔ ∀ args ∈ ctx.checkSigAddArgs s.stack,
      (ctx.handleChecksigAt s args.1 args.2).isPanic = false := by
  unfold evalCheckSigAdd
  match hstack : s.stack with
  | [] => simp [checkSigAddArgs, Stack.pop]
  | [x] => simp [checkSigAddArgs, Stack.pop, Stack.popNum]
  | [pubkey, num] =>
    cases hnum : numFromBytes num ctx.verifyMinimaldata 4 with
    | error e => simp [checkSigAddArgs, Stack.pop, Stack.popNum, hnum]
    | ok v => simp [checkSigAddArgs, Stack.pop, Stack.popNum, hnum]
  | pubkey :: num :: sig :: rest =>
    cases hnum : numFromBytes num ctx.verifyMinimaldata 4 with
    | error e => simp [checkSigAddArgs, Stack.pop, Stack.popNum, hnum]
    | ok v =>
      have hpush : ∀ b, -2 ^ 63 < v + numOfBool b := by
        intro b
        have hv := natAbs_lt_of_numFromBytes hnum
        have hb := numOfBool_nonneg b
        omega
      simp [checkSigAddArgs, Stack.pop, Stack.popNum, hnum, isPanic_bind_eq_false,
        Stack.isPanic_pushNum (hpush _)]

/-! ## Multisig -/

/-- The arguments come from the stack, and there are at least as many keys as signatures. -/
structure ArgsWithin (stack : Stack) (args : MultisigArgs) : Prop where
  sigs : args.sigs ⊆ stack
  rest : args.rest ⊆ stack
  length_le : args.sigs.length ≤ args.keys.length

theorem argsWithin_of_popMultisigArgs {flags : VerifyFlags} {minimal : Bool} {keysCount : Nat}
    {stack : Stack} {args : MultisigArgs}
    (h : popMultisigArgs flags minimal keysCount stack = .ok args) : ArgsWithin stack args := by
  obtain ⟨stack1, sigsCount, stack2, stack3, dummy, hkeys, hcount, hrange, hsigs, hdummy, _⟩ :=
    popMultisigArgs_eq_ok.mp h
  obtain ⟨_, hsub1⟩ := Stack.subset_of_popMany hkeys
  obtain ⟨x, hstack1⟩ := Stack.eq_cons_of_popNum hcount
  have hsub2 : stack2 ⊆ stack :=
    List.Subset.trans (hstack1 ▸ List.subset_cons_self x stack2) hsub1
  obtain ⟨hsub, hsub3⟩ := Stack.subset_of_popMany hsigs
  have hrest : args.rest ⊆ stack3 := Stack.pop_eq_ok.mp hdummy ▸ List.subset_cons_self dummy _
  refine ⟨List.Subset.trans hsub hsub2, List.Subset.trans hrest (List.Subset.trans hsub3 hsub2), ?_⟩
  rw [Stack.length_popMany hsigs, Stack.length_popMany hkeys]
  omega

theorem isPanic_evalCheckMultiSig :
    (ctx.evalCheckMultiSig s).isPanic = (ctx.checkMultisig s).isPanic := by
  unfold evalCheckMultiSig
  cases ctx.checkMultisig s with
  | ok r => rfl
  | err e => rfl
  | panic msg => rfl

theorem isPanic_evalCheckMultiSigVerify :
    (ctx.evalCheckMultiSigVerify s).isPanic = (ctx.checkMultisig s).isPanic := by
  unfold evalCheckMultiSigVerify
  cases ctx.checkMultisig s with
  | ok r =>
    rw [ok_bind]
    exact isPanic_bind (isPanic_errIf _ _) fun _ => rfl
  | err e => rfl
  | panic msg => rfl

theorem checkMultisig_tapscript (hver : ctx.sigVersion = .tapscript) :
    ctx.checkMultisig s = .err (.checkMultiSig .tapscriptCheckMultiSig) := by
  unfold checkMultisig evalCheckmultisig
  rw [hver]
  rfl

/-- Under Tapscript an opcode that checks one signature panics as soon as it has its arguments. -/
theorem isPanic_evalCrypto_tapscript (hver : ctx.sigVersion = .tapscript) {op : CryptoOp}
    (hop : op.isSignature = true) :
    (ctx.evalCrypto code s op).isPanic = false ↔ ctx.signatureArgs s op = none := by
  have hone : (∀ args ∈ ctx.signatureArgs s op, (ctx.handleChecksigAt s args.1 args.2).isPanic =
      false) ↔ ctx.signatureArgs s op = none := by
    simp [isPanic_handleChecksigAt_tapscript hver, Option.eq_none_iff_forall_not_mem]
  cases op with
  | checkSig => exact isPanic_evalCheckSig.trans hone
  | checkSigVerify => exact isPanic_evalCheckSigVerify.trans hone
  | checkSigAdd => exact isPanic_evalCheckSigAdd.trans hone
  | checkMultiSig =>
    rw [evalCrypto, isPanic_evalCheckMultiSig, checkMultisig_tapscript hver]
    simp [signatureArgs]
  | checkMultiSigVerify =>
    rw [evalCrypto, isPanic_evalCheckMultiSigVerify, checkMultisig_tapscript hver]
    simp [signatureArgs]
  | ripemd160 | sha1 | sha256 | hash160 | hash256 | codeSeparator => cases hop

/-! ## What they keep -/

/-- A check of one signature that returns took its arguments, and the check returned. -/
theorem popAndCheckSig_eq_ok {s' : EvalState} {success : Bool}
    (h : ctx.popAndCheckSig s = .ok (success, s')) :
    ∃ pubkey sig stack execData, s.stack = pubkey :: sig :: stack ∧
      ctx.handleChecksigAt s sig pubkey = .ok (success, execData) ∧
      s' = { s with stack := stack, execData := execData } := by
  obtain ⟨⟨pubkey, stack1⟩, hpubkey, h⟩ := bind_eq_ok.mp h
  obtain ⟨⟨sig, stack2⟩, hsig, h⟩ := bind_eq_ok.mp h
  obtain ⟨⟨b, execData⟩, hcheck, h⟩ := bind_eq_ok.mp h
  cases h
  refine ⟨pubkey, sig, stack2, execData, ?_, hcheck, rfl⟩
  rw [Stack.pop_eq_ok.mp (ofExcept_eq_ok.mp hpubkey), Stack.pop_eq_ok.mp (ofExcept_eq_ok.mp hsig)]

theorem subscriptFrom_eq_ok {script code : List UInt8} {begincode : Nat}
    (h : (subscriptFrom script begincode : Outcome ε (List UInt8)) = .ok code) :
    begincode ≤ script.length ∧ code = script.drop begincode := by
  unfold subscriptFrom sliceRange at h
  split at h
  · rename_i hrange
    cases h
    exact ⟨hrange.1, List.take_of_length_le (by simp)⟩
  · cases h

/-- An `OP_CHECKMULTISIG` that returns took its arguments, counted its keys and has its answer from
the matching loop. -/
theorem checkMultisig_eq_ok {s' : EvalState} {success : Bool}
    (h : ctx.checkMultisig s = .ok (success, s')) :
    ∃ keysCount stack args code,
      popKeysCount ctx.verifyMinimaldata s.stack = .ok (keysCount, stack) ∧
      popMultisigArgs ctx.flags ctx.verifyMinimaldata keysCount stack = .ok args ∧
      s.opCount + keysCount ≤ maxOpsPerScript ∧
      dropSignatures ctx.flags ctx.sigVersion args.sigs (ctx.script.drop s.begincode) = .ok code ∧
      matchSignatures ctx.env ctx.flags ctx.checker ctx.sigVersion code args.keys args.sigs =
        .ok success ∧
      s' = { s with stack := args.rest, opCount := s.opCount + keysCount } := by
  obtain ⟨⟨b, rest, opCount⟩, hmulti, h⟩ := bind_eq_ok.mp h
  cases h
  obtain ⟨_, _, hmulti⟩ := bind_eq_ok.mp (mapErr_eq_ok.mp hmulti)
  obtain ⟨⟨keysCount, stack⟩, hkeys, hmulti⟩ := bind_eq_ok.mp hmulti
  obtain ⟨_, hlimit, hmulti⟩ := bind_eq_ok.mp hmulti
  obtain ⟨args, hargs, hmulti⟩ := bind_eq_ok.mp hmulti
  obtain ⟨_, hslice, hmulti⟩ := bind_eq_ok.mp hmulti
  obtain ⟨code, hdrop, hmulti⟩ := bind_eq_ok.mp hmulti
  obtain ⟨success, hmatch, hmulti⟩ := bind_eq_ok.mp hmulti
  cases hmulti
  obtain ⟨_, rfl⟩ := subscriptFrom_eq_ok hslice
  exact ⟨keysCount, stack, args, code, ofExcept_eq_ok.mp hkeys, ofExcept_eq_ok.mp hargs,
    by simpa using errIf_eq_ok.mp hlimit, mapErr_eq_ok.mp hdrop, mapErr_eq_ok.mp hmatch, rfl⟩

/-! ## Steps -/

theorem signatureOp_eq_some {op : CryptoOp} :
    signatureOp code = some op ↔
      Opcode.fromU8 code = some (.crypto op) ∧ op.isSignature = true := by
  unfold signatureOp
  cases hopcode : Opcode.fromU8 code with
  | none => simp
  | some opcode =>
    cases opcode with
    | crypto op' =>
      simp only [Option.some.injEq, Opcode.crypto.injEq]
      split
      · rename_i hop
        rw [Option.some.injEq]
        exact ⟨fun h => ⟨h, h ▸ hop⟩, fun h => h.1⟩
      · rename_i hop
        simp only [reduceCtorEq, false_iff, not_and]
        rintro rfl
        exact hop
    | _ => simp

end EvalContext

end Subcoin.Script
