import Subcoin.Lib.Matching
import Subcoin.Script.Frame
import Subcoin.Script.Interpreter

/-!
# Subcoin — matching signatures to keys

`OP_CHECKMULTISIG` goes through keys and signatures once and gives up when fewer keys than
signatures are left. That is a greedy search for an assignment of the signatures to keys in their
order; by the exchange of `Subcoin.Lib.Matching` it finds one whenever there is one.

* **`checkmultisig_matching`** — with its arguments there, `eval_checkmultisig` returns `true`
  exactly when such an assignment exists; it fails only on an encoding, and panics only when the
  checker does, never on the index of a key.
* **`EvalContext.nullfail_iff`** — `NULLFAIL` is checked by `OP_CHECKSIG` and not by
  `OP_CHECKMULTISIG`: an evaluation that returns keeps the rule exactly when every
  `OP_CHECKMULTISIG` it executed with a signature that is not empty has an assignment.
* **`failed_multisig_accepted`** — a one-of-one multisig with a signature that does not verify.
-/

namespace Subcoin.Script

open Outcome

/-! ## The matching loop -/

/-- The signature verifies under the key, as the matching loop asks it. -/
def Verifies (env : ScriptEnv) (checker : SignatureChecker) (sigVersion : SigVersion)
    (code sig key : List UInt8) : Prop :=
  (checkEcdsaSignature env checker sig key code sigVersion : Outcome CheckSigError Bool) = .ok true

instance (env : ScriptEnv) (checker : SignatureChecker) (sigVersion : SigVersion)
    (code sig key : List UInt8) : Decidable (Verifies env checker sigVersion code sig key) :=
  inferInstanceAs (Decidable (_ = _))

/-- A strictly order-preserving assignment of all signatures to keys they verify under. -/
def Assignable (env : ScriptEnv) (checker : SignatureChecker) (sigVersion : SigVersion)
    (code : List UInt8) (sigs keys : List (List UInt8)) : Prop :=
  ∃ f : Fin sigs.length ↪o Fin keys.length,
    ∀ i, Verifies env checker sigVersion code (sigs.get i) (keys.get (f i))

section Matching

variable {env : ScriptEnv} {flags : VerifyFlags} {checker : SignatureChecker}
  {sigVersion : SigVersion} {code : List UInt8} {keys sigs : List (List UInt8)}

theorem assignable_iff :
    Assignable env checker sigVersion code sigs keys ↔
      List.SublistForall₂ (Verifies env checker sigVersion code) sigs keys :=
  List.sublistForall₂_iff_exists_orderEmbedding.symm

variable {key sig : List UInt8} {args : MultisigArgs}

/-- An error of the checker is an invalid signature. -/
theorem checkEcdsaSignature_ne_err {ε : Type} {e : ε} :
    checkEcdsaSignature env checker sig key code sigVersion ≠ .err e := by
  unfold checkEcdsaSignature
  split
  · exact nofun
  · split
    · exact nofun
    · split
      · exact nofun
      · exact nofun
      · exact nofun

/-- What may come of the matching loop: an answer, the error of an encoding or a panic of the
checker. -/
def MatchOutcome (env : ScriptEnv) (flags : VerifyFlags) (checker : SignatureChecker)
    (sigVersion : SigVersion) (code : List UInt8) (keys sigs : List (List UInt8)) :
    Outcome CheckSigError Bool → Prop
  | .ok success => success = true ↔ Assignable env checker sigVersion code sigs keys
  | .err e => ∃ sig ∈ sigs, ∃ key ∈ keys, checkSignatureEncoding flags sig = .err e ∨
      checkPubkeyEncoding flags sigVersion key = .err e
  | .panic msg => ∃ sig ∈ sigs, ∃ key ∈ keys,
      (checkEcdsaSignature env checker sig key code sigVersion : Outcome CheckSigError Bool) =
        .panic msg

/-- One round with a key that does not end the loop. -/
theorem MatchOutcome.cons {correct : Bool}
    (hcorrect : (checkEcdsaSignature env checker sig key code sigVersion : Outcome CheckSigError
      Bool) = .ok correct) {r : Outcome CheckSigError Bool}
    (h : MatchOutcome env flags checker sigVersion code keys (if correct then sigs else sig ::
      sigs) r) : MatchOutcome env flags checker sigVersion code (key :: keys) (sig :: sigs) r := by
  have hsub : (if correct then sigs else sig :: sigs) ⊆ sig :: sigs := by
    cases correct with
    | true => exact List.subset_cons_self sig sigs
    | false => exact List.Subset.refl _
  cases r with
  | ok success =>
    refine Iff.trans h ?_
    rw [assignable_iff, assignable_iff]
    -- the two answers are the two cases of the exchange
    cases correct with
    | true =>
      have hverifies : Verifies env checker sigVersion code sig key := hcorrect
      exact (List.sublistForall₂_cons_of_rel hverifies).symm
    | false =>
      refine (List.sublistForall₂_cons_of_not_rel fun hverifies => ?_).symm
      rw [Verifies, hcorrect] at hverifies
      cases hverifies
  | err e =>
    obtain ⟨sig', hsig, key', hkey, herr⟩ := h
    exact ⟨sig', hsub hsig, key', List.mem_cons_of_mem key hkey, herr⟩
  | panic msg =>
    obtain ⟨sig', hsig, key', hkey, hpanic⟩ := h
    exact ⟨sig', hsub hsig, key', List.mem_cons_of_mem key hkey, hpanic⟩

theorem matchOutcome_matchSignatures (hlen : sigs.length ≤ keys.length) :
    MatchOutcome env flags checker sigVersion code keys sigs
      (matchSignatures env flags checker sigVersion code keys sigs) := by
  induction keys generalizing sigs with
  | nil =>
    rw [List.eq_nil_of_length_eq_zero (Nat.le_zero.mp hlen), matchSignatures]
    exact iff_of_true rfl (assignable_iff.mpr .nil)
  | cons key keys ih =>
    cases sigs with
    | nil =>
      rw [matchSignatures]
      exact iff_of_true rfl (assignable_iff.mpr .nil)
    | cons sig sigs =>
      have hsigPanic := isPanic_checkSignatureEncoding flags sig
      have hkeyPanic := isPanic_checkPubkeyEncoding flags sigVersion key
      rw [matchSignatures]
      cases hsig : checkSignatureEncoding flags sig with
      | panic msg => rw [hsig] at hsigPanic; cases hsigPanic
      | err e => exact ⟨sig, List.mem_cons_self, key, List.mem_cons_self, Or.inl hsig⟩
      | ok _ =>
        cases hkey : checkPubkeyEncoding flags sigVersion key with
        | panic msg => rw [hkey] at hkeyPanic; cases hkeyPanic
        | err e => exact ⟨sig, List.mem_cons_self, key, List.mem_cons_self, Or.inr hkey⟩
        | ok _ =>
          rw [ok_bind, ok_bind]
          cases hcorrect : (checkEcdsaSignature env checker sig key code sigVersion :
              Outcome CheckSigError Bool) with
          | panic msg => exact ⟨sig, List.mem_cons_self, key, List.mem_cons_self, hcorrect⟩
          | err e => exact absurd hcorrect checkEcdsaSignature_ne_err
          | ok correct =>
            rw [ok_bind]
            refine MatchOutcome.cons hcorrect ?_
            by_cases hleft : (if correct then sigs else sig :: sigs).length ≤ keys.length
            · rw [if_pos hleft]
              exact ih hleft
            · -- too few keys are left for an assignment
              rw [if_neg hleft]
              refine iff_of_false Bool.false_ne_true fun h => hleft ?_
              exact (assignable_iff.mp h).length_le

/-! ## The opcode -/

/-- With its arguments there, the opcode is the matching loop on the script code without the
signatures. -/
theorem evalCheckmultisig_eq {minimal : Bool} {script : List UInt8} {begincode opCount : Nat}
    {stack stack' : Stack} {keysCount : Nat} (hver : sigVersion ≠ .tapscript)
    (hkeys : popKeysCount minimal stack = .ok (keysCount, stack'))
    (hops : opCount + keysCount ≤ maxOpsPerScript)
    (hargs : popMultisigArgs flags minimal keysCount stack' = .ok args)
    (hbegin : begincode ≤ script.length)
    (hcode : dropSignatures flags sigVersion args.sigs (script.drop begincode) = .ok code) :
    evalCheckmultisig env flags checker sigVersion minimal script begincode stack opCount =
      ((matchSignatures env flags checker sigVersion code args.keys args.sigs).mapErr .checkSig
        >>= fun success => pure (success, args.rest, opCount + keysCount)) := by
  have hslice : (subscriptFrom script begincode : Outcome CheckMultiSigError (List UInt8)) =
      .ok (script.drop begincode) := by
    rw [subscriptFrom, sliceRange_of_le hbegin le_rfl, List.take_of_length_le (by simp)]
  unfold evalCheckmultisig
  rw [decide_eq_false hver, errIf_false, ok_bind, hkeys, ofExcept_ok, ok_bind]
  dsimp only
  rw [decide_eq_false (Nat.not_lt.mpr hops), errIf_false, ok_bind, hargs, ofExcept_ok, ok_bind,
    hslice, ok_bind, hcode, mapErr_ok, ok_bind]

theorem length_args_le {minimal : Bool} {stack stack' : Stack} {keysCount : Nat}
    (hkeys : popKeysCount minimal stack = .ok (keysCount, stack'))
    (hargs : popMultisigArgs flags minimal keysCount stack' = .ok args) :
    args.keys.length ≤ 20 ∧ args.sigs.length ≤ args.keys.length := by
  refine ⟨?_, (EvalContext.argsWithin_of_popMultisigArgs hargs).length_le⟩
  obtain ⟨n, _, hrange, hn⟩ := popKeysCount_eq_ok.mp hkeys
  obtain ⟨stack1, _, _, _, _, hpop, _⟩ := popMultisigArgs_eq_ok.mp hargs
  rw [Stack.length_popMany hpop]
  unfold maxPubkeysPerMultisig at hrange
  omega

/-- **Matching.** With its arguments there, `eval_checkmultisig` answers `true` exactly when the
signatures can be assigned to keys in order; it fails only on an encoding, and panics only when the
checker does. -/
theorem checkmultisig_matching {minimal : Bool} {script : List UInt8} {begincode opCount : Nat}
    {stack stack' : Stack} {keysCount : Nat} {args : MultisigArgs} (hver : sigVersion ≠ .tapscript)
    (hkeys : popKeysCount minimal stack = .ok (keysCount, stack'))
    (hops : opCount + keysCount ≤ maxOpsPerScript)
    (hargs : popMultisigArgs flags minimal keysCount stack' = .ok args)
    (hbegin : begincode ≤ script.length)
    (hcode : dropSignatures flags sigVersion args.sigs (script.drop begincode) = .ok code) :
    (args.keys.length ≤ 20 ∧ args.sigs.length ≤ args.keys.length) ∧
      match evalCheckmultisig env flags checker sigVersion minimal script begincode stack
        opCount with
      | .ok (success, _) => success = true ↔
          ∃ f : Fin args.sigs.length ↪o Fin args.keys.length, ∀ i,
            Verifies env checker sigVersion code (args.sigs.get i) (args.keys.get (f i))
      | .err e => ∃ sig ∈ args.sigs, ∃ key ∈ args.keys, ∃ e', e = .checkSig e' ∧
          (checkSignatureEncoding flags sig = .err e' ∨
            checkPubkeyEncoding flags sigVersion key = .err e')
      | .panic msg => ∃ sig ∈ args.sigs, ∃ key ∈ args.keys,
          (checkEcdsaSignature env checker sig key code sigVersion : Outcome CheckSigError Bool) =
            .panic msg := by
  have hlen := length_args_le hkeys hargs
  refine ⟨hlen, ?_⟩
  rw [evalCheckmultisig_eq hver hkeys hops hargs hbegin hcode]
  have houtcome : MatchOutcome env flags checker sigVersion code args.keys args.sigs
      (matchSignatures env flags checker sigVersion code args.keys args.sigs) :=
    matchOutcome_matchSignatures hlen.2
  cases hmatch : matchSignatures env flags checker sigVersion code args.keys args.sigs with
  | ok success =>
    rw [hmatch] at houtcome
    exact houtcome
  | err e =>
    rw [hmatch] at houtcome
    obtain ⟨sig, hsig, key, hkey, herr⟩ := houtcome
    exact ⟨sig, hsig, key, hkey, e, rfl, herr⟩
  | panic msg =>
    rw [hmatch] at houtcome
    exact houtcome

end Matching

namespace MultisigSample

/-- A compressed key with the last byte `n`. -/
def key (n : UInt8) : List UInt8 := 2 :: List.replicate 31 0 ++ [n]

/-- A signature with the last byte `n` before its hash type. -/
def sig (n : UInt8) : List UInt8 := [0x30, 0x06, 0x02, 0x01, 0x01, 0x02, 0x01, n, 0x01]

/-- A signature with the byte `n` verifies under the key with the byte `n`. -/
def checker : SignatureChecker :=
  { noSignatureCheck with
    checkEcdsaSignature := fun sig key _ _ =>
      .ok (sig.signature.getLast? = key.bytes.getLast?) }

/-- Two of three: `OP_0`, signatures 1 and 3, `2`, keys 1, 2 and 3, `3`, with the top first. -/
def stack : Stack := [[3], key 3, key 2, key 1, [2], sig 3, sig 1, []]

def args : MultisigArgs := ⟨[key 3, key 2, key 1], [sig 3, sig 1], []⟩

end MultisigSample

open MultisigSample in
theorem checkmultisig_matching_twoOfThree :
    evalCheckmultisig ScriptEnv.reference ⟨0⟩ checker .witnessV0 false [0xae] 0 stack 1 =
        .ok (true, [], 4) ∧
      ∃ f : Fin 2 ↪o Fin 3, ∀ i, Verifies ScriptEnv.reference checker .witnessV0 [0xae]
        (args.sigs.get i) (args.keys.get (f i)) := by
  have heval : evalCheckmultisig ScriptEnv.reference ⟨0⟩ checker .witnessV0 false [0xae] 0 stack 1 =
      .ok (true, [], 4) := by decide +kernel
  have hmatching := @checkmultisig_matching ScriptEnv.reference ⟨0⟩ checker .witnessV0 [0xae] false
    [0xae] 0 1 stack _ 3 args (by decide) rfl (by decide) rfl (by decide) rfl
  rw [heval] at hmatching
  exact ⟨heval, hmatching.2.mp rfl⟩

/-! ## NULLFAIL -/

namespace EvalContext

section Definitions

variable (ctx : EvalContext)

/-- The signature arguments of an opcode. -/
def signaturesOf (s : EvalState) : CryptoOp → List (List UInt8)
  | .checkSig | .checkSigVerify => (checkSigArgs s.stack).toList.map Prod.fst
  | .checkMultiSig | .checkMultiSigVerify => (ctx.multisigArgs s).toList.flatMap MultisigArgs.sigs
  | _ => []

/-- The encodings are accepted and the signature does not verify. -/
def checksigFails (s : EvalState) (sig key : List UInt8) : Bool :=
  match dropSignature ctx.flags ctx.sigVersion (ctx.script.drop s.begincode) sig with
  | .ok code => ctx.accepts sig key &&
      (checkEcdsaSignature ctx.env ctx.checker sig key code ctx.sigVersion :
        Outcome CheckSigError Bool) = .ok false
  | _ => false

/-- The matching loop answers that not all signatures verify. -/
def multisigFails (s : EvalState) (args : MultisigArgs) : Bool :=
  match dropSignatures ctx.flags ctx.sigVersion args.sigs (ctx.script.drop s.begincode) with
  | .ok code =>
    matchSignatures ctx.env ctx.flags ctx.checker ctx.sigVersion code args.keys args.sigs =
      .ok false
  | _ => false

/-- The opcode evaluates to false. -/
def evaluatesToFalse (s : EvalState) : CryptoOp → Bool
  | .checkSig | .checkSigVerify =>
    (checkSigArgs s.stack).any fun args => ctx.checksigFails s args.1 args.2
  | .checkMultiSig | .checkMultiSigVerify => (ctx.multisigArgs s).any (ctx.multisigFails s)
  | _ => false

/-- BIP146: a signature opcode that evaluates to false had empty signatures only. -/
def NullFailRule (stack : Stack) (execData : ScriptExecutionData) : Prop :=
  ∀ p ∈ ctx.steps stack execData, ∀ r ∈ ctx.signatureStep p.1 p.2.2,
    ctx.evaluatesToFalse r.1 r.2 = true → ∀ sig ∈ ctx.signaturesOf r.1 r.2, sig = []

/-- Every `OP_CHECKMULTISIG` with a signature that is not empty has an assignment to keys. -/
def MultisigsAssignable (stack : Stack) (execData : ScriptExecutionData) : Prop :=
  ∀ p ∈ ctx.steps stack execData, ∀ r ∈ ctx.signatureStep p.1 p.2.2, r.2 = .checkMultiSig →
    ∀ args ∈ ctx.multisigArgs r.1, (∃ sig ∈ args.sigs, sig ≠ []) →
      ∀ code, dropSignatures ctx.flags ctx.sigVersion args.sigs
          (ctx.script.drop r.1.begincode) = .ok code →
        Assignable ctx.env ctx.checker ctx.sigVersion code args.sigs args.keys

end Definitions

variable {ctx : EvalContext} {code : UInt8} {s s' : EvalState} {success : Bool}

theorem evalChecksigPreTapscript_eq_ok {begincode : Nat}
    (h : evalChecksigPreTapscript ctx.env ctx.flags ctx.checker ctx.sigVersion ctx.script
      begincode sig key = .ok success) :
    ∃ code, dropSignature ctx.flags ctx.sigVersion (ctx.script.drop begincode) sig = .ok code ∧
      (checkEcdsaSignature ctx.env ctx.checker sig key code ctx.sigVersion :
        Outcome CheckSigError Bool) = .ok success ∧
      (!success && ctx.flags.has .nullfail && !sig.isEmpty) = false := by
  obtain ⟨_, hslice, h⟩ := bind_eq_ok.mp h
  obtain ⟨code, hdrop, h⟩ := bind_eq_ok.mp h
  obtain ⟨_, _, h⟩ := bind_eq_ok.mp h
  obtain ⟨_, _, h⟩ := bind_eq_ok.mp h
  obtain ⟨_, hcheck, h⟩ := bind_eq_ok.mp h
  obtain ⟨_, hnull, h⟩ := bind_eq_ok.mp h
  cases h
  obtain ⟨_, rfl⟩ := subscriptFrom_eq_ok hslice
  exact ⟨code, hdrop, hcheck, errIf_eq_ok.mp hnull⟩

/-- With `NULLFAIL`, a check of one signature that returned and did not verify had none. -/
theorem eq_nil_of_popAndCheckSig (hver : ctx.PreTapscript) (hnull : ctx.flags.has .nullfail = true)
    (h : ctx.popAndCheckSig s = .ok (success, s')) {args : List UInt8 × List UInt8}
    (hargs : args ∈ checkSigArgs s.stack) (hfails : ctx.checksigFails s args.1 args.2 = true) :
    args.1 = [] := by
  obtain ⟨pubkey, sig, stack, execData, hstack, hcheck, _⟩ := popAndCheckSig_eq_ok h
  rw [hstack, checkSigArgs, Option.mem_some_iff] at hargs
  subst hargs
  rw [handleChecksigAt_eq hver, mapErr_eq_ok, bind_eq_ok] at hcheck
  obtain ⟨success, hchecksig, _⟩ := hcheck
  obtain ⟨code, hdrop, hecdsa, hnullfail⟩ := evalChecksigPreTapscript_eq_ok hchecksig
  simp only [checksigFails, hdrop, hecdsa, Bool.and_eq_true, decide_eq_true_eq, ok.injEq] at hfails
  simpa [hfails.2, hnull] using hnullfail

/-- Whether an `OP_CHECKMULTISIG` that returned was answered `true`. -/
theorem multisig_answer (h : ctx.checkMultisig s = .ok (success, s'))
    (hargs : args ∈ ctx.multisigArgs s) :
    ctx.multisigFails s args = !success ∧ ∃ code,
      dropSignatures ctx.flags ctx.sigVersion args.sigs (ctx.script.drop s.begincode) = .ok code ∧
      (success = true ↔
        Assignable ctx.env ctx.checker ctx.sigVersion code args.sigs args.keys) := by
  obtain ⟨keysCount, stack, args', code, hkeys, hpop, hops, hdrop, hmatch, _⟩ :=
    checkMultisig_eq_ok h
  have hsome : ctx.multisigArgs s = some args' := by
    unfold multisigArgs
    rw [hkeys]
    dsimp only
    rw [if_pos hops, hpop]
    rfl
  cases hsome.symm.trans hargs
  have houtcome : MatchOutcome ctx.env ctx.flags ctx.checker ctx.sigVersion code args.keys args.sigs
      (matchSignatures ctx.env ctx.flags ctx.checker ctx.sigVersion code args.keys args.sigs) :=
    matchOutcome_matchSignatures (argsWithin_of_popMultisigArgs hpop).length_le
  rw [hmatch] at houtcome
  refine ⟨?_, code, hdrop, houtcome⟩
  unfold multisigFails
  rw [hdrop]
  dsimp only
  rw [hmatch]
  cases success with
  | true => rfl
  | false => rfl

/-- Apart from `OP_CHECKMULTISIG`, a signature opcode that returned keeps the rule. -/
theorem eq_nil_of_evalCrypto (hver : ctx.PreTapscript) (hnull : ctx.flags.has .nullfail = true)
    {op : CryptoOp} (h : ctx.evalCrypto code s op = .ok s') (hop : op ≠ .checkMultiSig)
    (hfalse : ctx.evaluatesToFalse s op = true) : ∀ sig ∈ ctx.signaturesOf s op, sig = [] := by
  -- the arguments that failed are the only ones
  have hone : ∀ {s1 : EvalState} {success : Bool}, ctx.popAndCheckSig s = .ok (success, s1) →
      (checkSigArgs s.stack).any (fun args => ctx.checksigFails s args.1 args.2) = true →
      ∀ sig ∈ (checkSigArgs s.stack).toList.map Prod.fst, sig = [] := by
    intro s1 success hcheck hfails sig hsig
    obtain ⟨args, hargs, hfails⟩ := (Option.any_eq_true _ _).mp hfails
    simp only [hargs, Option.toList_some, List.map_cons, List.map_nil, List.mem_singleton] at hsig
    exact hsig ▸ eq_nil_of_popAndCheckSig hver hnull hcheck hargs hfails
  cases op with
  | checkSig =>
    obtain ⟨⟨success, s1⟩, hcheck, _⟩ := bind_eq_ok.mp h
    exact hone hcheck hfalse
  | checkSigVerify =>
    obtain ⟨⟨success, s1⟩, hcheck, _⟩ := bind_eq_ok.mp h
    exact hone hcheck hfalse
  | checkMultiSig => exact absurd rfl hop
  | checkMultiSigVerify =>
    -- it returns after a check that succeeded
    obtain ⟨⟨success, s1⟩, hcheck, h⟩ := bind_eq_ok.mp h
    obtain ⟨_, hsuccess, _⟩ := bind_eq_ok.mp h
    obtain ⟨args, hargs, hfails⟩ := (Option.any_eq_true _ _).mp hfalse
    rw [(multisig_answer hcheck hargs).1, errIf_eq_ok.mp hsuccess] at hfails
    cases hfails
  | checkSigAdd | ripemd160 | sha1 | sha256 | hash160 | hash256 | codeSeparator => cases hfalse

/-- **NULLFAIL.** An evaluation before Tapscript that returns with the flag set keeps the rule
exactly when its `OP_CHECKMULTISIG`s had assignments: the matching loop does not look at the
flag. -/
theorem nullfail_iff (hver : ctx.PreTapscript) (hnull : ctx.flags.has .nullfail = true)
    {stack : Stack} {execData : ScriptExecutionData} {result : EvalResult}
    (h : evalScript ctx stack execData = .ok result) :
    ctx.NullFailRule stack execData ↔ ctx.MultisigsAssignable stack execData := by
  have hreturns := signatures_return h
  constructor
  · rintro hrule p hp ⟨s, op⟩ hr rfl args hargs ⟨sig, hsig, hne⟩ code hcode
    obtain ⟨_, _, heval⟩ := hreturns p hp _ hr
    obtain ⟨⟨success, s1⟩, hcheck, _⟩ := bind_eq_ok.mp heval
    obtain ⟨hfails, code', hcode', hanswer⟩ := multisig_answer hcheck hargs
    cases hcode.symm.trans hcode'
    refine hanswer.mp ?_
    cases success with
    | true => rfl
    | false =>
      refine absurd (hrule p hp _ hr ?_ sig ?_) hne
      · exact (Option.any_eq_true _ _).mpr ⟨args, hargs, hfails⟩
      · have hargs' : ctx.multisigArgs s = some args := hargs
        simpa [signaturesOf, hargs'] using hsig
  · rintro hassign p hp ⟨s, op⟩ hr hfalse sig hsig
    obtain ⟨_, _, heval⟩ := hreturns p hp _ hr
    by_cases hop : op = .checkMultiSig
    · subst hop
      obtain ⟨⟨success, s1⟩, hcheck, _⟩ := bind_eq_ok.mp heval
      obtain ⟨args, hargs, hfails⟩ := (Option.any_eq_true _ _).mp hfalse
      obtain ⟨hfails', code, hcode, hanswer⟩ := multisig_answer hcheck hargs
      by_contra hne
      have hargs' : ctx.multisigArgs s = some args := hargs
      have hmem : sig ∈ args.sigs := by simpa [signaturesOf, hargs'] using hsig
      rw [hanswer.mpr (hassign p hp _ hr rfl args hargs ⟨sig, hmem, hne⟩ code hcode)] at hfails'
      rw [hfails] at hfails'
      cases hfails'
    · exact eq_nil_of_evalCrypto hver hnull heval hop hfalse sig hsig

end EvalContext

namespace MultisigSample

/-- A version 0 evaluation of `OP_CHECKMULTISIG` with `NULLFAIL`. -/
def nullFailContext : EvalContext :=
  { env := ScriptEnv.reference
    script := [0xae]
    flags := VerifyFlags.ofList [.nullfail]
    checker := checker
    sigVersion := .witnessV0
    verifyMinimaldata := false }

/-- One of one: `OP_0`, the signature `n`, `1`, key 1, `1`, with the top first. -/
def oneOfOne (n : UInt8) : Stack := [[1], key 1, [1], sig n, []]

end MultisigSample

open MultisigSample in
theorem nullfail_oneOfOne :
    evalScript nullFailContext (oneOfOne 1) {} = .ok ⟨true, [[1]], {}⟩ ∧
      nullFailContext.NullFailRule (oneOfOne 1) {} := by
  have hok : evalScript nullFailContext (oneOfOne 1) {} = .ok ⟨true, [[1]], {}⟩ := by decide +kernel
  refine ⟨hok, (EvalContext.nullfail_iff (Or.inr rfl) (by decide) hok).mpr ?_⟩
  have hargs : ∀ p ∈ nullFailContext.steps (oneOfOne 1) {},
      ∀ r ∈ nullFailContext.signatureStep p.1 p.2.2, r.1.begincode = 0 ∧
        nullFailContext.multisigArgs r.1 = some ⟨[key 1], [sig 1], []⟩ := by decide +kernel
  intro p hp r hr _ args hsome _ code hcode
  obtain ⟨hbegin, hargs⟩ := hargs p hp r hr
  cases hargs.symm.trans hsome
  rw [hbegin] at hcode
  cases hcode
  have hverifies : ∀ i : Fin 1, Verifies ScriptEnv.reference checker .witnessV0 [0xae]
      ([sig 1].get i) ([key 1].get i) := by decide +kernel
  exact ⟨RelEmbedding.refl _, hverifies⟩

open MultisigSample in
/-- A signature that does not verify is no error. -/
theorem failed_multisig_accepted :
    nullFailContext.PreTapscript ∧ nullFailContext.flags.has .nullfail = true ∧
      evalScript nullFailContext (oneOfOne 2) {} = .ok ⟨false, [[]], {}⟩ ∧
      ¬ nullFailContext.NullFailRule (oneOfOne 2) {} := by
  refine ⟨Or.inr rfl, by decide, by decide +kernel, ?_⟩
  unfold EvalContext.NullFailRule
  decide +kernel

end Subcoin.Script
