import Subcoin.Script.LockTimeOps
import Subcoin.Script.Questions

/-!
# Subcoin — what an opcode leaves alone

Beside the stacks and the conditions the state of the interpreter has a position, the position after
the last code separator, an operation count and the validation weight of Tapscript. `Frame` says
that an opcode changes none of them, and `Acts` in addition that what it leaves on the stacks was
there before or is short; only `OP_CODESEPARATOR` and the signature opcodes do not keep to the
frame, and what they change is stated for each. `positions_of_step` puts it together for a step of
the loop.
-/

namespace Subcoin.Script

open Outcome

/-- Position, code separator, operation count and validation weight are the same. -/
structure EvalState.Frame (s s' : EvalState) : Prop where
  pc_eq : s'.pc = s.pc
  begincode_eq : s'.begincode = s.begincode
  opCount_eq : s'.opCount = s.opCount
  weight_eq : s'.execData.validationWeightLeft = s.execData.validationWeightLeft

/-! ## Where elements come from -/

/-- Every element of the second stack is one of the first or short enough to be pushed. -/
def Stack.Draws (s s' : Stack) : Prop := ∀ x ∈ s', x ∈ s ∨ x.length ≤ maxScriptElementSize

namespace Stack

variable {s s' s'' : Stack} {x : List UInt8}

theorem Draws.of_subset (h : s' ⊆ s) : Draws s s' := fun _ hx => .inl (h hx)

theorem Draws.refl (s : Stack) : Draws s s := .of_subset (List.Subset.refl s)

theorem Draws.trans (h : Draws s s') (h' : Draws s' s'') : Draws s s'' := by
  intro x hx
  rcases h' x hx with hx | hx
  · exact h x hx
  · exact .inr hx

theorem Draws.tail (h : Draws s (x :: s')) : Draws s s' :=
  fun y hy => h y (List.mem_cons_of_mem x hy)

section

variable (h : Draws s s')

include h

theorem Draws.cons (hx : x ∈ s ∨ x.length ≤ maxScriptElementSize) : Draws s (x :: s') :=
  List.forall_mem_cons.mpr ⟨hx, h⟩

theorem Draws.pushBool (b : Bool) : Draws s (s'.pushBool b) := by
  refine h.cons (.inr ?_)
  cases b with
  | false => decide
  | true => decide

variable {ε : Type}

theorem Draws.pushNum {v : Int} (hpush : (pushNum v s' : Outcome ε Stack) = .ok s'') :
    Draws s s'' := by
  obtain ⟨bytes, hbytes, hpush⟩ := bind_eq_ok.mp hpush
  cases hpush
  exact h.cons (.inr ((length_numAsBytes_le hbytes).trans (by decide)))

theorem Draws.pop {f : StackError → ε} (hpop : ofExcept f s'.pop = .ok (x, s'')) : Draws s s'' := by
  rw [pop_eq_ok.mp (ofExcept_eq_ok.mp hpop)] at h
  exact h.tail

theorem Draws.popBool {f : StackError → ε} {b : Bool}
    (hpop : ofExcept f s'.popBool = .ok (b, s'')) : Draws s s'' := by
  cases s' with
  | nil => cases hpop
  | cons y s' =>
    cases hpop
    exact h.tail

theorem Draws.popNum {f : StackError → ε} {v : Int} {minimal : Bool}
    (hpop : ofExcept f (s'.popNum minimal) = .ok (v, s'')) : Draws s s'' := by
  obtain ⟨y, rfl⟩ := eq_cons_of_popNum (ofExcept_eq_ok.mp hpop)
  exact h.tail

end

theorem subset_of_requireThen {n : Nat} {f : Stack → Stack} (hf : f s ⊆ s)
    (h : requireThen n f s = .ok s') : s' ⊆ s := by
  unfold requireThen at h
  split at h
  · cases h
  · cases h
    exact hf

theorem subset_of_nip (h : nip s = .ok s') : s' ⊆ s := by
  unfold nip at h
  split at h
  · cases h
    grind
  · cases h

theorem subset_of_tuck (h : tuck s = .ok s') : s' ⊆ s := by
  unfold tuck at h
  split at h
  · cases h
    grind
  · cases h

end Stack

/-! ## Opcodes on the main stack -/

/-- What the operation returns draws on its stack. -/
def Drawing (f : Stack → Outcome Error Stack) : Prop := ∀ s s', f s = .ok s' → s.Draws s'

theorem drawing_liftStack {f : Stack → Except StackError Stack}
    (hf : ∀ s s', f s = .ok s' → s' ⊆ s) : Drawing (liftStack f) :=
  fun s s' h => .of_subset (hf s s' (ofExcept_eq_ok.mp h))

namespace EvalContext

open Stack

variable {ctx : EvalContext} {code : UInt8} {executing : Bool}

theorem drawing_dropN (n : Nat) : Drawing (liftStack (dropN n)) :=
  drawing_liftStack fun _ _ => subset_of_requireThen (List.drop_subset _ _)

theorem drawing_dupN (n : Nat) : Drawing (liftStack (dupN n)) :=
  drawing_liftStack fun s _ => subset_of_requireThen
    (List.append_subset.mpr ⟨List.take_subset n s, List.Subset.refl s⟩)

theorem take_drop_subset (s : Stack) (n m : Nat) : (s.drop n).take m ⊆ s :=
  List.Subset.trans (List.take_subset _ _) (List.drop_subset _ _)

theorem drawing_overN (n : Nat) : Drawing (liftStack (overN n)) :=
  drawing_liftStack fun s _ => subset_of_requireThen
    (List.append_subset.mpr ⟨take_drop_subset s _ _, List.Subset.refl s⟩)

theorem drawing_rotN (n : Nat) : Drawing (liftStack (rotN n)) :=
  drawing_liftStack fun s _ => subset_of_requireThen (List.append_subset.mpr
    ⟨List.append_subset.mpr ⟨take_drop_subset s _ _, List.take_subset _ _⟩, List.drop_subset _ _⟩)

theorem drawing_swapN (n : Nat) : Drawing (liftStack (swapN n)) :=
  drawing_liftStack fun s _ => subset_of_requireThen (List.append_subset.mpr
    ⟨List.append_subset.mpr ⟨take_drop_subset s _ _, List.take_subset _ _⟩, List.drop_subset _ _⟩)

theorem drawing_evalVerify : Drawing (evalVerify code) := by
  intro s s' h
  obtain ⟨⟨_, s1⟩, hpop, h⟩ := bind_eq_ok.mp h
  obtain ⟨_, _, h⟩ := bind_eq_ok.mp h
  cases h
  exact (Draws.refl s).popBool hpop

theorem drawing_evalIfDup : Drawing evalIfDup := by
  intro s s' h
  obtain ⟨value, _, h⟩ := bind_eq_ok.mp h
  cases value with
  | false =>
    cases h
    exact Draws.refl s
  | true => exact drawing_dupN 1 s s' h

theorem drawing_evalPickRoll {roll : Bool} : Drawing (ctx.evalPickRoll roll) := by
  intro s s' h
  obtain ⟨⟨n, s1⟩, hpop, h⟩ := bind_eq_ok.mp h
  have hdraws := (Draws.refl s).popNum hpop
  dsimp only at h
  split at h
  · cases h
  · split at h
    · obtain ⟨⟨v, s2⟩, hremove, h⟩ := bind_eq_ok.mp h
      cases h
      have hremove := ofExcept_eq_ok.mp hremove
      unfold remove at hremove
      split at hremove
      · rename_i y hy
        cases hremove
        exact (hdraws.trans (.of_subset List.eraseIdx_subset)).cons
          (hdraws v (List.mem_of_getElem? hy))
      · cases hremove
    · obtain ⟨v, htop, h⟩ := bind_eq_ok.mp h
      cases h
      have htop := ofExcept_eq_ok.mp htop
      unfold top at htop
      split at htop
      · rename_i y hy
        cases htop
        exact hdraws.cons (hdraws v (List.mem_of_getElem? hy))
      · cases htop

theorem drawing_evalSize : Drawing evalSize := by
  intro s s' h
  obtain ⟨x, _, h⟩ := bind_eq_ok.mp h
  exact (Draws.refl s).pushNum h

theorem draws_popEqual {s s' : Stack} {b : Bool} (h : popEqual s = .ok (b, s')) : s.Draws s' := by
  obtain ⟨⟨_, s1⟩, hx, h⟩ := bind_eq_ok.mp h
  obtain ⟨⟨_, s2⟩, hy, h⟩ := bind_eq_ok.mp h
  cases h
  exact ((Draws.refl s).pop hx).pop hy

theorem drawing_evalEqual : Drawing evalEqual := by
  intro s s' h
  obtain ⟨⟨b, s1⟩, hequal, h⟩ := bind_eq_ok.mp h
  cases h
  exact (draws_popEqual hequal).pushBool b

theorem drawing_evalEqualVerify : Drawing (evalEqualVerify code) := by
  intro s s' h
  obtain ⟨⟨b, s1⟩, hequal, h⟩ := bind_eq_ok.mp h
  obtain ⟨_, _, h⟩ := bind_eq_ok.mp h
  cases h
  exact draws_popEqual hequal

theorem drawing_unaryNum {f : Int → Except NumError Int} : Drawing (ctx.unaryNum f) := by
  intro s s' h
  obtain ⟨⟨n, s1⟩, hpop, h⟩ := bind_eq_ok.mp h
  obtain ⟨r, _, h⟩ := bind_eq_ok.mp h
  exact ((Draws.refl s).popNum hpop).pushNum h

theorem draws_popTwoNums {s s' : Stack} {v : Int × Int} (h : ctx.popTwoNums s = .ok (v, s')) :
    s.Draws s' := by
  obtain ⟨⟨_, s1⟩, h1, h⟩ := bind_eq_ok.mp h
  obtain ⟨⟨_, s2⟩, h2, h⟩ := bind_eq_ok.mp h
  cases h
  exact ((Draws.refl s).popNum h1).popNum h2

theorem drawing_binaryNum {f : Int → Int → Except NumError Int} : Drawing (ctx.binaryNum f) := by
  intro s s' h
  obtain ⟨⟨v, s1⟩, hpop, h⟩ := bind_eq_ok.mp h
  obtain ⟨r, _, h⟩ := bind_eq_ok.mp h
  exact (draws_popTwoNums hpop).pushNum h

theorem drawing_evalNumEqualVerify : Drawing (ctx.evalNumEqualVerify code) := by
  intro s s' h
  obtain ⟨⟨v, s1⟩, hpop, h⟩ := bind_eq_ok.mp h
  obtain ⟨_, _, h⟩ := bind_eq_ok.mp h
  cases h
  exact draws_popTwoNums hpop

theorem drawing_evalWithin : Drawing ctx.evalWithin := by
  intro s s' h
  obtain ⟨⟨v, s1⟩, hpop, h⟩ := bind_eq_ok.mp h
  obtain ⟨⟨v3, s2⟩, hpop', h⟩ := bind_eq_ok.mp h
  cases h
  exact ((draws_popTwoNums hpop).popNum hpop').pushBool _

theorem drawing_hashTop {hash : List UInt8 → List UInt8}
    (hlen : ∀ x, (hash x).length ≤ maxScriptElementSize) : Drawing (hashTop hash) := by
  intro s s' h
  obtain ⟨⟨x, s1⟩, hpop, h⟩ := bind_eq_ok.mp h
  cases h
  exact ((Draws.refl s).pop hpop).cons (.inr (hlen x))

end EvalContext

/-! ## Opcodes that keep the frame -/

/-- Every element of the stacks of the second state is on a stack of the first or short. -/
def EvalState.Draws (s s' : EvalState) : Prop :=
  Stack.Draws (s.stack ++ s.altStack) (s'.stack ++ s'.altStack)

/-- What an opcode does that keeps the frame. -/
structure EvalState.Acts (s s' : EvalState) : Prop extends s.Frame s' where
  draws : s.Draws s'

namespace EvalContext

variable {ctx : EvalContext} {code : UInt8} {executing : Bool} {s s' : EvalState}

theorem draws_of_stack (h : Stack.Draws s.stack s'.stack) (halt : s'.altStack = s.altStack) :
    s.Draws s' := by
  intro x hx
  rw [halt, List.mem_append] at hx
  rw [List.mem_append]
  rcases hx with hx | hx
  · exact (h x hx).imp_left .inl
  · exact .inl (.inr hx)

theorem draws_of_eq (hstack : s'.stack = s.stack) (halt : s'.altStack = s.altStack) :
    s.Draws s' :=
  draws_of_stack (hstack ▸ Stack.Draws.refl _) halt

theorem acts_refl : s.Acts s := ⟨⟨rfl, rfl, rfl, rfl⟩, draws_of_eq rfl rfl⟩

theorem acts_execStack {execStack : List Bool} : s.Acts { s with execStack := execStack } :=
  ⟨⟨rfl, rfl, rfl, rfl⟩, draws_of_eq rfl rfl⟩

theorem acts_onStack {f : Stack → Outcome Error Stack} (hf : Drawing f)
    (h : onStack f s = .ok s') : s.Acts s' := by
  obtain ⟨stack, hstack, h⟩ := bind_eq_ok.mp h
  cases h
  exact ⟨⟨rfl, rfl, rfl, rfl⟩, draws_of_stack (hf _ _ hstack) rfl⟩

theorem acts_evalIf {negate : Bool} (h : ctx.evalIf negate executing s = .ok s') : s.Acts s' := by
  unfold evalIf at h
  split at h
  · obtain ⟨⟨top, stack⟩, hpop, h⟩ := bind_eq_ok.mp h
    obtain ⟨_, _, h⟩ := bind_eq_ok.mp h
    cases h
    exact ⟨⟨rfl, rfl, rfl, rfl⟩, draws_of_stack ((Stack.Draws.refl _).pop hpop) rfl⟩
  · cases h
    exact acts_execStack

theorem acts_evalFlow {op : FlowOp} (h : ctx.evalFlow code executing s op = .ok s') :
    s.Acts s' := by
  cases op with
  | nop =>
    cases h
    exact acts_refl
  | «if» => exact acts_evalIf h
  | notIf => exact acts_evalIf h
  | «else» =>
    simp only [evalFlow, evalElse] at h
    split at h
    · cases h
    · cases h
      exact acts_execStack
  | endIf =>
    simp only [evalFlow, evalEndIf] at h
    split at h
    · cases h
    · cases h
      exact acts_execStack
  | verify => exact acts_onStack drawing_evalVerify h
  | «return» => cases h

theorem acts_evalStack {op : StackOp} (h : ctx.evalStack s op = .ok s') : s.Acts s' := by
  cases op with
  | toAltStack =>
    obtain ⟨⟨v, stack⟩, hpop, h⟩ := bind_eq_ok.mp h
    cases h
    have hstack := Stack.pop_eq_ok.mp (ofExcept_eq_ok.mp hpop)
    refine ⟨⟨rfl, rfl, rfl, rfl⟩, .of_subset fun x hx => ?_⟩
    rw [hstack]
    grind
  | fromAltStack =>
    obtain ⟨⟨v, altStack⟩, hpop, h⟩ := bind_eq_ok.mp h
    cases h
    have hstack := Stack.pop_eq_ok.mp (ofExcept_eq_ok.mp hpop)
    refine ⟨⟨rfl, rfl, rfl, rfl⟩, .of_subset fun x hx => ?_⟩
    rw [hstack]
    grind
  | twoDrop | drop => exact acts_onStack (drawing_dropN _) h
  | twoDup | threeDup | dup => exact acts_onStack (drawing_dupN _) h
  | twoOver | overOne => exact acts_onStack (drawing_overN _) h
  | twoRot | rot => exact acts_onStack (drawing_rotN _) h
  | twoSwap | swap => exact acts_onStack (drawing_swapN _) h
  | ifDup => exact acts_onStack drawing_evalIfDup h
  | depth => exact acts_onStack (fun s _ => (Stack.Draws.refl s).pushNum) h
  | nip => exact acts_onStack (drawing_liftStack fun _ _ => Stack.subset_of_nip) h
  | tuck => exact acts_onStack (drawing_liftStack fun _ _ => Stack.subset_of_tuck) h
  | pick | roll => exact acts_onStack drawing_evalPickRoll h

theorem acts_evalArithmetic {op : ArithmeticOp} (h : ctx.evalArithmetic code s op = .ok s') :
    s.Acts s' := by
  cases op with
  | twoMul | twoDiv | mul | div | mod | lshift | rshift => cases h
  | oneAdd | oneSub | negate | abs | not | zeroNotEqual => exact acts_onStack drawing_unaryNum h
  | numEqualVerify => exact acts_onStack drawing_evalNumEqualVerify h
  | within => exact acts_onStack drawing_evalWithin h
  | _ => exact acts_onStack drawing_binaryNum h

theorem frame_finishInstruction (h : finishInstruction s = .ok s') : s.Frame s' := by
  obtain ⟨_, _, h⟩ := bind_eq_ok.mp h
  cases h
  exact ⟨rfl, rfl, rfl, rfl⟩

variable {op : CryptoOp}

theorem acts_evalHash (h : ctx.evalCrypto code s op = .ok s') (hop : op.isSignature = false)
    (hsep : op ≠ .codeSeparator) : s.Acts s' := by
  cases op with
  | ripemd160 | sha1 | hash160 =>
    exact acts_onStack (drawing_hashTop fun x => by rw [Hash160.length_eq]; decide) h
  | sha256 | hash256 =>
    exact acts_onStack (drawing_hashTop fun x => by rw [Hash256.length_eq]; decide) h
  | codeSeparator => exact absurd rfl hsep
  | checkSig | checkSigVerify | checkMultiSig | checkMultiSigVerify | checkSigAdd => cases hop

end EvalContext

/-- The opcode may change more than stacks and conditions. -/
def Opcode.leavesFrame : Opcode → Bool
  | .crypto op => op.isSignature || op = .codeSeparator
  | _ => false

namespace EvalContext

variable {ctx : EvalContext} {code : UInt8} {executing : Bool} {s s' : EvalState}

variable {opcode : Opcode} {instruction : Instruction}

theorem acts_evalOpcode (hopcode : opcode.leavesFrame = false)
    (h : ctx.evalOpcode code executing s opcode = .ok s') : s.Acts s' := by
  cases opcode with
  | push c => cases h
  | constant c => exact acts_onStack (fun s _ => (Stack.Draws.refl s).pushNum) h
  | flow op => exact acts_evalFlow h
  | stack op => exact acts_evalStack h
  | splice op =>
    cases op with
    | size => exact acts_onStack drawing_evalSize h
    | _ => cases h
  | bitwise op =>
    cases op with
    | equal => exact acts_onStack drawing_evalEqual h
    | equalVerify => exact acts_onStack drawing_evalEqualVerify h
    | _ => cases h
  | arithmetic op => exact acts_evalArithmetic h
  | crypto op =>
    simp only [Opcode.leavesFrame, Bool.or_eq_false_iff, decide_eq_false_iff_not] at hopcode
    exact acts_evalHash h hopcode.1 hopcode.2
  | locktime op =>
    rw [evalLocktime_eq_ok h]
    exact acts_refl
  | reserved op =>
    cases op with
    | reserved | ver | reserved1 | reserved2 =>
      simp only [evalOpcode, evalReserved] at h
      split at h
      · cases h
      · cases h
        exact acts_refl
    | verIf | verNotIf => cases h
    | _ =>
      obtain ⟨_, _, h⟩ := bind_eq_ok.mp h
      cases h
      exact acts_refl

/-! ## The others -/

/-- `OP_CODESEPARATOR` notes the position after it. -/
theorem evalCodeSeparator_eq_ok (h : ctx.evalCodeSeparator s = .ok s') :
    s' = { s with
      begincode := s.pc
      execData := { s.execData with codeseparatorPos := s.opcodePos } } := by
  obtain ⟨_, _, h⟩ := bind_eq_ok.mp h
  cases h
  rfl

theorem evalCheckSigAdd_eq_ok (h : ctx.evalCheckSigAdd s = .ok s') :
    ∃ pubkey num sig stack success execData stack',
      s.stack.pop = .ok (pubkey, stack) ∧ ctx.handleChecksigAt s sig pubkey =
        .ok (success, execData) ∧ s' = { s with stack := stack', execData := execData } ∧
      (∃ rest, stack.popNum ctx.verifyMinimaldata = .ok (num, sig :: rest)) := by
  obtain ⟨⟨pubkey, stack1⟩, hpubkey, h⟩ := bind_eq_ok.mp h
  obtain ⟨⟨num, stack2⟩, hnum, h⟩ := bind_eq_ok.mp h
  obtain ⟨⟨sig, stack3⟩, hsig, h⟩ := bind_eq_ok.mp h
  obtain ⟨⟨success, execData⟩, hcheck, h⟩ := bind_eq_ok.mp h
  obtain ⟨stack4, _, h⟩ := bind_eq_ok.mp h
  cases h
  have hstack := Stack.pop_eq_ok.mp (ofExcept_eq_ok.mp hsig)
  exact ⟨pubkey, num, sig, stack1, success, execData, stack4, ofExcept_eq_ok.mp hpubkey, hcheck,
    rfl, stack3, hstack ▸ ofExcept_eq_ok.mp hnum⟩

/-- A signature opcode that returns leaves the positions alone. -/
theorem positions_of_evalCrypto (hop : op.isSignature = true)
    (h : ctx.evalCrypto code s op = .ok s') : s'.pc = s.pc ∧ s'.begincode = s.begincode := by
  cases op with
  | checkSig =>
    obtain ⟨⟨success, s1⟩, hcheck, h⟩ := bind_eq_ok.mp h
    cases h
    obtain ⟨_, _, _, _, _, _, rfl⟩ := popAndCheckSig_eq_ok hcheck
    exact ⟨rfl, rfl⟩
  | checkSigVerify =>
    obtain ⟨⟨success, s1⟩, hcheck, h⟩ := bind_eq_ok.mp h
    obtain ⟨_, _, h⟩ := bind_eq_ok.mp h
    cases h
    obtain ⟨_, _, _, _, _, _, rfl⟩ := popAndCheckSig_eq_ok hcheck
    exact ⟨rfl, rfl⟩
  | checkMultiSig =>
    obtain ⟨⟨success, s1⟩, hcheck, h⟩ := bind_eq_ok.mp h
    cases h
    obtain ⟨_, _, _, _, _, _, _, _, _, rfl⟩ := checkMultisig_eq_ok hcheck
    exact ⟨rfl, rfl⟩
  | checkMultiSigVerify =>
    obtain ⟨⟨success, s1⟩, hcheck, h⟩ := bind_eq_ok.mp h
    obtain ⟨_, _, h⟩ := bind_eq_ok.mp h
    cases h
    obtain ⟨_, _, _, _, _, _, _, _, _, rfl⟩ := checkMultisig_eq_ok hcheck
    exact ⟨rfl, rfl⟩
  | checkSigAdd =>
    obtain ⟨_, _, _, _, _, _, _, _, _, rfl, _⟩ := evalCheckSigAdd_eq_ok h
    exact ⟨rfl, rfl⟩
  | ripemd160 | sha1 | sha256 | hash160 | hash256 | codeSeparator => cases hop

/-! ## Steps -/

theorem frame_countOp (h : ctx.countOp code s = .ok s') :
    s' = { s with opCount := s'.opCount } := by
  unfold countOp at h
  split at h
  · obtain ⟨_, _, h⟩ := bind_eq_ok.mp h
    cases h
    rfl
  · cases h
    rfl

/-- An opcode that returns was counted and known, and then it was a lock time that is not enabled or
it was evaluated. -/
theorem evalOp_eq_ok_cases (h : ctx.evalOp code executing s = .ok s') :
    ∃ s1 opcode, ctx.countOp code s = .ok s1 ∧ Opcode.fromU8 code = some opcode ∧
      (s' = s1 ∧ opcode.leavesFrame = false ∨
        ∃ s2, ctx.evalOpcode code executing s1 opcode = .ok s2 ∧ s2.Frame s') := by
  obtain ⟨s1, hcount, h⟩ := bind_eq_ok.mp h
  obtain ⟨opcode, hopcode, h⟩ := bind_eq_ok.mp h
  refine ⟨s1, opcode, hcount, okOr_eq_ok.mp hopcode, ?_⟩
  unfold evalCounted at h
  split at h
  · rename_i hlock
    cases h
    refine Or.inl ⟨rfl, ?_⟩
    cases opcode with
    | locktime op => rfl
    | _ => cases hlock
  · obtain ⟨s2, heval, hfinish⟩ := bind_eq_ok.mp h
    exact Or.inr ⟨s2, heval, frame_finishInstruction hfinish⟩

theorem codeSeparator_of_fromU8 : Opcode.fromU8 0xab = some (.crypto .codeSeparator) := by
  decide +kernel

theorem eq_codeSeparator_of_fromU8 (h : Opcode.fromU8 code = some (.crypto .codeSeparator)) :
    code = 0xab := by
  have htable : ∀ e ∈ Opcode.table, e.2 = .crypto .codeSeparator → e.1 = 0xab := by decide
  exact htable _ (Opcode.mem_table_of_crypto h) rfl

theorem signatureStep_eq_some {s1 : EvalState} :
    ctx.signatureStep s instruction = some (s1, op) ↔
      ∃ code, instruction = .op code ∧ s.executing = true ∧
        ctx.countOp code (advance s instruction) = .ok s1 ∧ signatureOp code = some op := by
  cases instruction with
  | pushBytes data => simp [signatureStep]
  | op code =>
    unfold signatureStep
    cases s.executing with
    | false => simp
    | true =>
      cases hcount : ctx.countOp code (advance s (.op code)) with
      | ok s2 => simp [hcount, and_comm]
      | err e => simp [hcount]
      | panic msg => simp [hcount]

/-- In a step that returns, the signature opcode it came to returned. -/
theorem evalCrypto_of_step (h : ctx.step s instruction = .ok s') {s1 : EvalState}
    (hop : ctx.signatureStep s instruction = some (s1, op)) :
    ∃ code s2, ctx.evalCrypto code s1 op = .ok s2 ∧ s2.Frame s' := by
  obtain ⟨code, rfl, hexec, hcount, hsig⟩ := signatureStep_eq_some.mp hop
  obtain ⟨hopcode, hcrypto⟩ := signatureOp_eq_some.mp hsig
  have hhandles : handles s (.op code) = true := by
    unfold handles
    rw [hexec, Bool.true_or]
  unfold step at h
  rw [if_pos hhandles] at h
  obtain ⟨s1', opcode, hcount', hopcode', hcases⟩ := evalOp_eq_ok_cases h
  cases hcount.symm.trans hcount'
  cases hopcode.symm.trans hopcode'
  rcases hcases with ⟨_, hleaves⟩ | ⟨s2, heval, hframe⟩
  · simp [Opcode.leavesFrame, hcrypto] at hleaves
  · exact ⟨code, s2, heval, hframe⟩

theorem positions_of_evalOpcode (h : ctx.evalOpcode code executing s opcode = .ok s') :
    s'.pc = s.pc ∧
      s'.begincode = if opcode = .crypto .codeSeparator then s.pc else s.begincode := by
  cases hleaves : opcode.leavesFrame with
  | false =>
    have hframe := acts_evalOpcode hleaves h
    rw [if_neg]
    · exact ⟨hframe.pc_eq, hframe.begincode_eq⟩
    · rintro rfl
      cases hleaves
  | true =>
    cases opcode with
    | crypto op =>
      by_cases hsep : op = .codeSeparator
      · subst hsep
        rw [if_pos rfl, evalCodeSeparator_eq_ok h]
        exact ⟨rfl, rfl⟩
      · have hop : op.isSignature = true := by simpa [Opcode.leavesFrame, hsep] using hleaves
        rw [if_neg fun heq => hsep (Opcode.crypto.inj heq)]
        exact positions_of_evalCrypto hop h
    | _ => cases hleaves

/-- An executed `OP_CODESEPARATOR`. -/
def separates (s : EvalState) (instruction : Instruction) : Bool :=
  s.executing && isCodeseparator instruction

/-- It is handled in executed branches only. -/
theorem separates_of_handles (hhandles : handles s (.op code) = true)
    (hopcode : Opcode.fromU8 code = some opcode) :
    separates s (.op code) = decide (opcode = .crypto .codeSeparator) := by
  by_cases hcode : code = 0xab
  · subst hcode
    have hexec : s.executing = true := by simpa [handles, isConditional] using hhandles
    cases hopcode.symm.trans codeSeparator_of_fromU8
    rw [separates, hexec]
    rfl
  · have hne : opcode ≠ .crypto .codeSeparator := by
      rintro rfl
      exact hcode (eq_codeSeparator_of_fromU8 hopcode)
    simp [separates, isCodeseparator, hcode, hne]

/-- A step moves the position by the length the interpreter counts, and an executed
`OP_CODESEPARATOR` notes it. -/
theorem positions_of_step (h : ctx.step s instruction = .ok s') :
    s'.pc = s.pc + instruction.step ∧ s'.begincode =
      if separates s instruction then s.pc + instruction.step else s.begincode := by
  unfold step at h
  split at h
  · cases instruction with
    | pushBytes data =>
      obtain ⟨_, _, h⟩ := bind_eq_ok.mp h
      have hframe := frame_finishInstruction h
      rw [separates, isCodeseparator, Bool.and_false]
      exact ⟨hframe.pc_eq, hframe.begincode_eq⟩
    | op code =>
      rename_i hhandles
      obtain ⟨s1, opcode, hcount, hopcode, hcases⟩ := evalOp_eq_ok_cases h
      have hs1 := frame_countOp hcount
      have hpc1 : s1.pc = s.pc + (Instruction.op code).step := by rw [hs1]; rfl
      have hbegin1 : s1.begincode = s.begincode := by rw [hs1]; rfl
      rw [separates_of_handles hhandles hopcode]
      rcases hcases with ⟨rfl, hleaves⟩ | ⟨s2, heval, hframe⟩
      · rw [decide_eq_false, if_neg Bool.false_ne_true]
        · exact ⟨hpc1, hbegin1⟩
        · rintro rfl
          cases hleaves
      · obtain ⟨hpc, hbegin⟩ := positions_of_evalOpcode heval
        rw [hframe.pc_eq, hframe.begincode_eq, hpc, hbegin, hpc1, hbegin1]
        simp
  · rename_i hhandles
    cases h
    have hexec : s.executing = false := by
      simp only [handles, Bool.or_eq_true, not_or, Bool.not_eq_true] at hhandles
      exact hhandles.1
    rw [separates, hexec, Bool.false_and]
    exact ⟨rfl, rfl⟩

/-! ## Evaluations -/

variable {stack : Stack} {execData : ScriptExecutionData} {result : EvalResult}

theorem evalScript_eq_ok (h : evalScript ctx stack execData = .ok result) :
    ∃ s, ctx.run ctx.parsed.items (EvalState.init stack execData) = .ok s ∧
      ctx.parsed.error = none ∧ s.execStack = [] ∧
      result = ⟨topIsTrue s.stack, s.stack, s.execData⟩ := by
  obtain ⟨_, _, h⟩ := bind_eq_ok.mp h
  obtain ⟨s, hrun, h⟩ := bind_eq_ok.mp h
  obtain ⟨_, hread, h⟩ := bind_eq_ok.mp h
  obtain ⟨_, hbalanced, h⟩ := bind_eq_ok.mp h
  cases h
  refine ⟨s, hrun, ?_, by simpa using errIf_eq_ok.mp hbalanced, rfl⟩
  cases herror : ctx.parsed.error with
  | none => rfl
  | some e => rw [herror] at hread; cases hread

/-- In an evaluation that returns, every signature opcode it came to returned. -/
theorem signatures_return (h : evalScript ctx stack execData = .ok result) :
    ∀ p ∈ ctx.steps stack execData, ∀ r ∈ ctx.signatureStep p.1 p.2.2,
      ∃ code s2, ctx.evalCrypto code r.1 r.2 = .ok s2 := by
  obtain ⟨s, hrun, _⟩ := evalScript_eq_ok h
  have hstep : ∀ (s : EvalState) (_ : Nat) (item : Nat × Instruction) (s' : EvalState),
      ctx.step s item.2 = .ok s' → ∀ r ∈ ctx.signatureStep s item.2,
        ∃ code s2, ctx.evalCrypto code r.1 r.2 = .ok s2 := by
    intro s _ item s' h r hr
    obtain ⟨code, s2, heval, _⟩ := evalCrypto_of_step h hr
    exact ⟨code, s2, heval⟩
  exact Loop.forall_mem_traceFrom hstep hrun

end EvalContext

end Subcoin.Script
