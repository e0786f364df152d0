import Subcoin.Script.Frame

/-!
# Subcoin — the limits of the stacks

The main and the alt stack may hold 1000 elements together, of at most 520 bytes each. The
interpreter checks the size of what is pushed and, at the end of the loop body, the number of
elements. A lock time opcode that is not enabled leaves the body before that check.

* **`draws_evalOpcode`** — every element an opcode leaves on a stack was there before or is short.
* **`stackLimits_iff`** — the limits hold after every instruction exactly when the initial stack
  keeps them or the script does not begin with such an opcode.
-/

namespace Subcoin.Script

open Outcome

/-! ## Opcodes -/

namespace EvalContext

variable {ctx : EvalContext} {code : UInt8} {executing : Bool} {s s' : EvalState}

theorem draws_popAndCheckSig {success : Bool} (h : ctx.popAndCheckSig s = .ok (success, s')) :
    s.stack.Draws s'.stack ∧ s'.altStack = s.altStack := by
  obtain ⟨pubkey, sig, stack, _, hstack, _, rfl⟩ := popAndCheckSig_eq_ok h
  rw [hstack]
  exact ⟨(Stack.Draws.refl _).tail.tail, rfl⟩

theorem draws_checkMultisig {success : Bool} (h : ctx.checkMultisig s = .ok (success, s')) :
    s.stack.Draws s'.stack ∧ s'.altStack = s.altStack := by
  obtain ⟨_, stack, args, _, hkeys, hargs, _, _, _, rfl⟩ := checkMultisig_eq_ok h
  obtain ⟨n, hpop, _⟩ := popKeysCount_eq_ok.mp hkeys
  obtain ⟨x, hstack⟩ := Stack.eq_cons_of_popNum hpop
  rw [hstack]
  exact ⟨(Stack.Draws.refl _).tail.trans
    (.of_subset (argsWithin_of_popMultisigArgs hargs).rest), rfl⟩

theorem draws_evalCrypto {op : CryptoOp} (h : ctx.evalCrypto code s op = .ok s') :
    s.Draws s' := by
  cases op with
  | ripemd160 | sha1 | sha256 | hash160 | hash256 => exact (acts_evalHash h rfl nofun).draws
  | codeSeparator =>
    rw [evalCodeSeparator_eq_ok h]
    exact draws_of_eq rfl rfl
  | checkSig =>
    obtain ⟨⟨success, s1⟩, hcheck, h⟩ := bind_eq_ok.mp h
    cases h
    obtain ⟨hdraws, halt⟩ := draws_popAndCheckSig hcheck
    exact draws_of_stack (hdraws.pushBool success) halt
  | checkSigVerify =>
    obtain ⟨⟨success, s1⟩, hcheck, h⟩ := bind_eq_ok.mp h
    obtain ⟨_, _, h⟩ := bind_eq_ok.mp h
    cases h
    obtain ⟨hdraws, halt⟩ := draws_popAndCheckSig hcheck
    exact draws_of_stack hdraws halt
  | checkMultiSig =>
    obtain ⟨⟨success, s1⟩, hcheck, h⟩ := bind_eq_ok.mp h
    cases h
    obtain ⟨hdraws, halt⟩ := draws_checkMultisig hcheck
    exact draws_of_stack (hdraws.pushBool success) halt
  | checkMultiSigVerify =>
    obtain ⟨⟨success, s1⟩, hcheck, h⟩ := bind_eq_ok.mp h
    obtain ⟨_, _, h⟩ := bind_eq_ok.mp h
    cases h
    obtain ⟨hdraws, halt⟩ := draws_checkMultisig hcheck
    exact draws_of_stack hdraws halt
  | checkSigAdd =>
    obtain ⟨⟨_, stack1⟩, hpubkey, h⟩ := bind_eq_ok.mp h
    obtain ⟨⟨_, stack2⟩, hnum, h⟩ := bind_eq_ok.mp h
    obtain ⟨⟨_, stack3⟩, hsig, h⟩ := bind_eq_ok.mp h
    obtain ⟨_, _, h⟩ := bind_eq_ok.mp h
    obtain ⟨_, hpush, h⟩ := bind_eq_ok.mp h
    cases h
    have hpops := (((Stack.Draws.refl s.stack).pop hpubkey).popNum hnum).pop hsig
    exact draws_of_stack (hpops.pushNum hpush) rfl

/-- Whatever an opcode leaves on the stacks was there before or is short. -/
theorem draws_evalOpcode {opcode : Opcode} (h : ctx.evalOpcode code executing s opcode = .ok s') :
    s.Draws s' := by
  cases opcode with
  | crypto op => exact draws_evalCrypto h
  | _ => exact (acts_evalOpcode rfl h).draws

end EvalContext

/-! ## The loop -/

def EvalState.size (s : EvalState) : Nat := s.stack.length + s.altStack.length

/-- The two states have the same stacks. -/
def EvalState.SameStacks (s s' : EvalState) : Prop :=
  s'.stack = s.stack ∧ s'.altStack = s.altStack

namespace EvalContext

variable {ctx : EvalContext} {code : UInt8} {executing : Bool} {s s' : EvalState}

theorem finishInstruction_eq_ok (h : finishInstruction s = .ok s') :
    s.SameStacks s' ∧ s'.size ≤ maxStackSize := by
  obtain ⟨_, hsize, h⟩ := bind_eq_ok.mp h
  cases h
  exact ⟨⟨rfl, rfl⟩, by simpa [errIf_eq_ok, EvalState.size] using hsize⟩

/-- The instruction is a lock time opcode that is not enabled. -/
def isVoid (ctx : EvalContext) : Instruction → Bool
  | .op code => (Opcode.fromU8 code).any ctx.isDisabledLocktime
  | .pushBytes _ => false

variable {instruction : Instruction}

/-- A handled instruction is void and changes no stack, or its result is checked. -/
theorem evalInstruction_cases (h : ctx.evalInstruction executing s instruction = .ok s') :
    (ctx.isVoid instruction = true ∧ s.SameStacks s') ∨
      ctx.isVoid instruction = false ∧ s'.size ≤ maxStackSize ∧ s.Draws s' := by
  cases instruction with
  | pushBytes data =>
    obtain ⟨_, hdata, h⟩ := bind_eq_ok.mp h
    obtain ⟨⟨hstack, halt⟩, hsize⟩ := finishInstruction_eq_ok h
    refine .inr ⟨rfl, hsize, draws_of_stack ?_ halt⟩
    rw [hstack]
    exact (Stack.Draws.refl _).cons (.inr (by simpa [errIf_eq_ok] using hdata))
  | op code =>
    obtain ⟨s1, hcount, h⟩ := bind_eq_ok.mp h
    obtain ⟨opcode, hopcode, h⟩ := bind_eq_ok.mp h
    have hcount := frame_countOp hcount
    rw [isVoid, okOr_eq_ok.mp hopcode, Option.any_some]
    unfold evalCounted at h
    split at h
    · rename_i hvoid
      cases h
      rw [hcount]
      exact .inl ⟨hvoid, rfl, rfl⟩
    · rename_i hvoid
      obtain ⟨s2, heval, hfinish⟩ := bind_eq_ok.mp h
      obtain ⟨⟨hstack, halt⟩, hsize⟩ := finishInstruction_eq_ok hfinish
      have hdraws := draws_evalOpcode heval
      rw [hcount] at hdraws
      refine .inr ⟨by simpa using hvoid, hsize, ?_⟩
      unfold EvalState.Draws
      rw [hstack, halt]
      exact hdraws

theorem step_cases (h : ctx.step s instruction = .ok s') :
    ((handles s instruction = true → ctx.isVoid instruction = true) ∧ s.SameStacks s') ∨
      ctx.isVoid instruction = false ∧ s'.size ≤ maxStackSize ∧ s.Draws s' := by
  unfold step at h
  split at h
  · rcases evalInstruction_cases h with ⟨hvoid, hsame⟩ | hchecked
    · exact .inl ⟨fun _ => hvoid, hsame⟩
    · exact .inr hchecked
  · rename_i hignored
    cases h
    exact .inl ⟨fun hhandles => absurd hhandles hignored, rfl, rfl⟩

variable {stack : Stack} {execData : ScriptExecutionData}

/-- After every instruction the stacks keep to both limits. -/
def StackLimits (ctx : EvalContext) (stack : Stack) (execData : ScriptExecutionData) : Prop :=
  ∀ pre item post s, ctx.parsed.items = pre ++ item :: post →
    ctx.run (pre ++ [item]) (EvalState.init stack execData) = .ok s →
    s.size ≤ maxStackSize ∧ ∀ x ∈ s.stack ++ s.altStack, x.length ≤ maxScriptElementSize

/-- The first instruction is void. -/
def startsVoid (ctx : EvalContext) : Bool :=
  ctx.parsed.items.head?.any fun item => ctx.isVoid item.2

/-- Until the first check the state is the initial one; from then on the limit holds. -/
theorem limits_of_run (hshort : ∀ x ∈ stack, x.length ≤ maxScriptElementSize)
    (hinit : stack.length ≤ maxStackSize ∨ ctx.startsVoid = false)
    {l rest : List (Nat × Instruction)}
    (hitems : ctx.parsed.items = l ++ rest)
    (hrun : ctx.run l (EvalState.init stack execData) = .ok s) :
    (l = [] ∨ s.size ≤ maxStackSize) ∧
      ∀ x ∈ s.stack ++ s.altStack, x.length ≤ maxScriptElementSize := by
  have hinv : (l = [] ∧ s = EvalState.init stack execData ∨ s.size ≤ maxStackSize) ∧
      ∀ x ∈ s.stack ++ s.altStack, x.length ≤ maxScriptElementSize := by
    refine Loop.forEnum_invariant
      (fun (pre : List (Nat × Instruction)) (s : EvalState) =>
        (pre = [] ∧ s = EvalState.init stack execData ∨ s.size ≤ maxStackSize) ∧
          ∀ x ∈ s.stack ++ s.altStack, x.length ≤ maxScriptElementSize) ?_ ?_ hrun
    · exact ⟨.inl ⟨rfl, rfl⟩, by simpa [EvalState.init] using hshort⟩
    intro pre item post s s' hl ⟨hsize, hlen⟩ hstep
    rcases step_cases hstep with ⟨hvoid, hstack, halt⟩ | ⟨-, hchecked, hdraws⟩
    · have hsame : s'.size = s.size := by rw [EvalState.size, hstack, halt, EvalState.size]
      rw [hstack, halt, hsame]
      refine ⟨.inr ?_, hlen⟩
      rcases hsize with ⟨rfl, rfl⟩ | hsize
      · -- the first instruction is executed, so it is void
        have hstarts : ctx.startsVoid = true := by
          rw [startsVoid, hitems, hl]
          exact hvoid rfl
        rcases hinit with hle | hnot
        · exact hle
        · rw [hnot] at hstarts
          cases hstarts
      · exact hsize
    · refine ⟨.inr hchecked, fun x hx => ?_⟩
      rcases hdraws x hx with hx | hx
      · exact hlen x hx
      · exact hx
  exact ⟨hinv.1.imp_left And.left, hinv.2⟩

/-- **Stack limits.** In an evaluation that returns, the limits hold after every instruction exactly
when the initial stack keeps to the first one or the script does not begin with a lock time opcode
that is not enabled. -/
theorem stackLimits_iff {result : EvalResult} (hok : evalScript ctx stack execData = .ok result)
    (hshort : ∀ x ∈ stack, x.length ≤ maxScriptElementSize) :
    ctx.StackLimits stack execData ↔ stack.length ≤ maxStackSize ∨ ctx.startsVoid = false := by
  obtain ⟨final, hrun, _⟩ := evalScript_eq_ok hok
  constructor
  · intro hlimits
    by_contra hcontra
    rw [not_or, Bool.not_eq_false] at hcontra
    obtain ⟨hlarge, hvoid⟩ := hcontra
    obtain ⟨item, hhead, hvoid⟩ := (Option.any_eq_true _ _).mp hvoid
    obtain ⟨rest, hitems⟩ := List.head?_eq_some_iff.mp hhead
    rw [hitems, ← List.nil_append (item :: rest)] at hrun
    obtain ⟨_, s, hnil, hstep, _⟩ := Loop.forEnum_split hrun
    cases hnil
    have hsize := (hlimits [] item rest s hitems (Loop.forEnum_snoc rfl hstep)).1
    rcases step_cases hstep with ⟨-, hstack, halt⟩ | ⟨hnot, -⟩
    · rw [EvalState.size, hstack, halt] at hsize
      exact hlarge hsize
    · rw [hvoid] at hnot
      cases hnot
  · intro hinit pre item post s hitems hrun
    have hsplit : ctx.parsed.items = (pre ++ [item]) ++ post := by simp [hitems]
    obtain ⟨hsize, hlen⟩ := limits_of_run hshort hinit hsplit hrun
    exact ⟨hsize.resolve_left (by simp), hlen⟩

/-! ## A no-op on a tall stack -/

namespace LimitSample

/-- `OP_CHECKLOCKTIMEVERIFY` without its flag. -/
def noop : EvalContext where
  env := .reference
  script := [0xb1]
  flags := ⟨0⟩
  checker := noSignatureCheck
  sigVersion := .witnessV0
  verifyMinimaldata := false

def ones (n : Nat) : Stack := List.replicate n [1]

theorem length_ones (n : Nat) : (ones n).length = n := List.length_replicate

theorem evalScript_noop (n : Nat) :
    evalScript noop (ones (n + 1)) {} = .ok ⟨true, ones (n + 1), {}⟩ := by
  have hparsed : noop.parsed = ⟨[(0, .op 0xb1)], none⟩ := by decide
  have hstep : noop.step (EvalState.init (ones (n + 1)) {}) (.op 0xb1) =
      .ok { EvalState.init (ones (n + 1)) {} with opCount := 1, pc := 1 } := rfl
  rw [evalScript, hparsed]
  simp only [run, Loop.forEnum, Loop.forEnumFrom_cons, hstep]
  rfl

theorem short_ones {n : Nat} : ∀ x ∈ ones n, x.length ≤ maxScriptElementSize := by
  intro x hx
  rw [List.eq_of_mem_replicate hx]
  decide

/-- With 1000 elements the script keeps to the limits. -/
theorem stackLimits_noop_full : noop.StackLimits (ones 1000) {} :=
  (stackLimits_iff (evalScript_noop 999) short_ones).mpr (.inl (length_ones 1000).le)

/-- With 1001 it returns as well, and all of them are still there after the instruction. -/
theorem not_stackLimits_noop :
    evalScript noop (ones 1001) {} = .ok ⟨true, ones 1001, {}⟩ ∧
      (∀ x ∈ ones 1001, x.length ≤ maxScriptElementSize) ∧ ¬ noop.StackLimits (ones 1001) {} := by
  refine ⟨evalScript_noop 1000, short_ones, ?_⟩
  intro hlimits
  have hsize := (hlimits [] (0, .op 0xb1) []
    { EvalState.init (ones 1001) {} with opCount := 1, pc := 1 } (by decide) rfl).1
  simp only [EvalState.size, EvalState.init, length_ones] at hsize
  exact absurd hsize (by decide)

end LimitSample

end EvalContext

end Subcoin.Script
