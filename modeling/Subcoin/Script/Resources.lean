import Subcoin.Script.Frame
import Subcoin.Script.Interpreter

/-!
# Subcoin — the resource rules of scripts

The consensus rules bound a script as a whole: its length, the length of its pushes, the opcodes it
contains and how many of them it has, whether or not a branch is executed. The interpreter checks
pushes and opcodes when it handles an instruction, and it ignores instructions outside the executed
branches before it looks at them; the length of the script it does not check.

* **`EvalContext.resource_rules_iff`** — when an evaluation returns, the rules hold exactly when the
  script is short enough and the ignored instructions would have passed the checks.
* **`disabled_opcode_ignored`** — a script with `OP_CAT` in a branch that is not executed.
-/

namespace Subcoin.Script

open Outcome

/-! ## The rules -/

/-- `MAX_SCRIPT_SIZE` of the consensus rules. -/
def consensusMaxScriptSize : Nat := 10000

/-- `OP_CAT`, `OP_SUBSTR`, `OP_LEFT`, `OP_RIGHT`, `OP_INVERT`, `OP_AND`, `OP_OR`, `OP_XOR`,
`OP_2MUL`, `OP_2DIV`, `OP_MUL`, `OP_DIV`, `OP_MOD`, `OP_LSHIFT` and `OP_RSHIFT`. -/
def disabledCodes : List UInt8 :=
  [0x7e, 0x7f, 0x80, 0x81, 0x83, 0x84, 0x85, 0x86, 0x8d, 0x8e, 0x95, 0x96, 0x97, 0x98, 0x99]

namespace Instruction

/-- A push that is too long. -/
def isOversized : Instruction → Bool
  | .pushBytes data => maxScriptElementSize < data.length
  | .op _ => false

def isDisabled : Instruction → Bool
  | .pushBytes _ => false
  | .op code => disabledCodes.contains code

/-- An opcode above `OP_16`, which counts towards the limit. -/
def isCounted : Instruction → Bool
  | .pushBytes _ => false
  | .op code => 0x60 < code

def isMultisig : Instruction → Bool
  | .pushBytes _ => false
  | .op code => code = 0xae || code = 0xaf

end Instruction

namespace EvalContext

section Definitions

variable (ctx : EvalContext)

/-- The number of public keys on the top of the stack. -/
def keysCount (stack : Stack) : Nat :=
  match popKeysCount ctx.verifyMinimaldata stack with
  | .ok r => r.1
  | .error _ => 0

/-- The public keys that a step counts, if it is an executed `OP_CHECKMULTISIG`. -/
def executedKeys (s : EvalState) (instruction : Instruction) : Nat :=
  if s.executing && instruction.isMultisig then ctx.keysCount s.stack else 0

/-- The public key counts of the executed `OP_CHECKMULTISIG`s of an evaluation. -/
def totalKeys (stack : Stack) (execData : ScriptExecutionData) : Nat :=
  ((ctx.steps stack execData).map fun p => ctx.executedKeys p.1 p.2.2).sum

/-- The rules, for all instructions of the script. -/
structure ResourceRules (stack : Stack) (execData : ScriptExecutionData) : Prop where
  length_le : ctx.script.length ≤ consensusMaxScriptSize
  pushes : ∀ item ∈ ctx.parsed.items, item.2.isOversized = false
  opcodes : ∀ item ∈ ctx.parsed.items, item.2.isDisabled = false
  count_le : ctx.parsed.items.countP (fun item => item.2.isCounted) + ctx.totalKeys stack execData ≤
    maxOpsPerScript

/-- The steps that are handled, and those that are ignored. -/
def handledSteps (stack : Stack) (execData : ScriptExecutionData) :
    List (EvalState × (Nat × Instruction)) :=
  (ctx.steps stack execData).filter fun p => handles p.1 p.2.2

def ignoredSteps (stack : Stack) (execData : ScriptExecutionData) :
    List (EvalState × (Nat × Instruction)) :=
  (ctx.steps stack execData).filter fun p => !handles p.1 p.2.2

/-- What the interpreter leaves unchecked: the length of the script, and the instructions it
ignores. The ignored opcodes may not exceed what the handled ones leave of the limit. -/
structure IgnoredWithinRules (stack : Stack) (execData : ScriptExecutionData) : Prop where
  length_le : ctx.script.length ≤ consensusMaxScriptSize
  pushes : ∀ p ∈ ctx.ignoredSteps stack execData, p.2.2.isOversized = false
  opcodes : ∀ p ∈ ctx.ignoredSteps stack execData, p.2.2.isDisabled = false
  count_le : (ctx.ignoredSteps stack execData).countP (fun p => p.2.2.isCounted) ≤
    maxOpsPerScript - ((ctx.handledSteps stack execData).countP (fun p => p.2.2.isCounted) +
      ctx.totalKeys stack execData)

end Definitions

end EvalContext

/-! ## Disabled opcodes -/

def Opcode.isDisabled : Opcode → Bool
  | .splice .size => false
  | .splice _ => true
  | .bitwise .equal | .bitwise .equalVerify => false
  | .bitwise _ => true
  | .arithmetic .twoMul | .arithmetic .twoDiv | .arithmetic .mul | .arithmetic .div
  | .arithmetic .mod | .arithmetic .lshift | .arithmetic .rshift => true
  | _ => false

namespace EvalContext

variable {ctx : EvalContext} {code : UInt8} {executing : Bool} {s s' : EvalState}

variable {opcode : Opcode}

theorem isDisabled_of_mem (hcode : disabledCodes.contains code = true)
    (hopcode : Opcode.fromU8 code = some opcode) : opcode.isDisabled = true := by
  have hall : ∀ c ∈ disabledCodes, (Opcode.fromU8 c).all Opcode.isDisabled = true := by
    decide +kernel
  have h := hall code (List.contains_iff_mem.mp hcode)
  rw [hopcode] at h
  exact h

theorem evalOpcode_of_isDisabled (h : opcode.isDisabled = true) :
    ctx.evalOpcode code executing s opcode = .err (.disabledOpcode code) := by
  cases opcode with
  | splice op =>
    cases op with
    | size => cases h
    | cat | substr | left | right => rfl
  | bitwise op =>
    cases op with
    | equal | equalVerify => cases h
    | invert | and | or | xor => rfl
  | arithmetic op =>
    cases op with
    | twoMul | twoDiv | mul | div | mod | lshift | rshift => rfl
    | _ => cases h
  | _ => cases h

end EvalContext

/-! ## The operation count -/

/-- From one state to the next the count goes up by `n` and keeps to the limit. -/
structure EvalState.Charges (s : EvalState) (n : Nat) (s' : EvalState) : Prop where
  opCount_eq : s'.opCount = s.opCount + n
  le : s.opCount ≤ maxOpsPerScript → s'.opCount ≤ maxOpsPerScript

variable {s s' : EvalState}

theorem EvalState.Charges.of_eq (h : s'.opCount = s.opCount) : s.Charges 0 s' :=
  ⟨h, fun hle => h ▸ hle⟩

theorem EvalState.Charges.of_frame (h : s.Frame s') : s.Charges 0 s' :=
  .of_eq h.opCount_eq

theorem EvalState.Charges.trans {n m : Nat} {s1 : EvalState} (h : s.Charges n s1)
    (h' : s1.Charges m s') : s.Charges (n + m) s' :=
  ⟨by rw [h'.opCount_eq, h.opCount_eq, Nat.add_assoc], fun hle => h'.le (h.le hle)⟩

namespace EvalContext

variable {ctx : EvalContext} {code : UInt8} {executing : Bool} {s s' : EvalState}

/-- `OP_CHECKMULTISIG` counts its keys, within the limit. -/
theorem charges_checkMultisig {success : Bool} (h : ctx.checkMultisig s = .ok (success, s')) :
    s.Charges (ctx.keysCount s.stack) s' := by
  obtain ⟨n, stack, args, _, hkeys, _, hlimit, _, _, rfl⟩ := checkMultisig_eq_ok h
  have hcount : ctx.keysCount s.stack = n := by
    unfold keysCount
    rw [hkeys]
  exact ⟨by rw [hcount], fun _ => hlimit⟩

end EvalContext

def CryptoOp.isMultisig : CryptoOp → Bool
  | .checkMultiSig | .checkMultiSigVerify => true
  | _ => false

def Opcode.isMultisig : Opcode → Bool
  | .crypto op => op.isMultisig
  | _ => false

namespace EvalContext

variable {ctx : EvalContext} {code : UInt8} {executing : Bool} {s s' : EvalState}

theorem charges_evalCrypto {op : CryptoOp} (h : ctx.evalCrypto code s op = .ok s') :
    s.Charges (if op.isMultisig then ctx.keysCount s.stack else 0) s' := by
  cases op with
  | ripemd160 | sha1 | sha256 | hash160 | hash256 =>
    exact .of_frame (acts_evalHash h rfl nofun).toFrame
  | codeSeparator =>
    rw [evalCodeSeparator_eq_ok h]
    exact .of_eq rfl
  | checkSig =>
    obtain ⟨⟨b, s1⟩, hcheck, h⟩ := bind_eq_ok.mp h
    cases h
    obtain ⟨_, _, _, _, _, _, rfl⟩ := popAndCheckSig_eq_ok hcheck
    exact .of_eq rfl
  | checkSigVerify =>
    obtain ⟨⟨b, s1⟩, hcheck, h⟩ := bind_eq_ok.mp h
    obtain ⟨_, _, h⟩ := bind_eq_ok.mp h
    cases h
    obtain ⟨_, _, _, _, _, _, rfl⟩ := popAndCheckSig_eq_ok hcheck
    exact .of_eq rfl
  | checkSigAdd =>
    obtain ⟨_, _, _, _, _, _, _, _, _, rfl, _⟩ := evalCheckSigAdd_eq_ok h
    exact .of_eq rfl
  | checkMultiSig =>
    obtain ⟨⟨b, s1⟩, hcheck, h⟩ := bind_eq_ok.mp h
    cases h
    have hcharges := charges_checkMultisig hcheck
    exact ⟨hcharges.opCount_eq, hcharges.le⟩
  | checkMultiSigVerify =>
    obtain ⟨⟨b, s1⟩, hcheck, h⟩ := bind_eq_ok.mp h
    obtain ⟨_, _, h⟩ := bind_eq_ok.mp h
    cases h
    exact charges_checkMultisig hcheck

/-- Among the opcodes only `OP_CHECKMULTISIG` adds to the count. -/
theorem charges_evalOpcode (h : ctx.evalOpcode code executing s opcode = .ok s') :
    s.Charges (if opcode.isMultisig then ctx.keysCount s.stack else 0) s' := by
  cases opcode with
  | crypto op => exact charges_evalCrypto h
  | _ => exact .of_frame (acts_evalOpcode rfl h).toFrame

/-- Before tapscript every opcode above `OP_16` that is handled is counted. -/
theorem charges_countOp (hver : ctx.PreTapscript) (h : ctx.countOp code s = .ok s') :
    s.Charges (if 0x60 < code then 1 else 0) s' ∧ s'.stack = s.stack := by
  have hver' : (ctx.sigVersion = .base || ctx.sigVersion = .witnessV0) = true := by
    simpa [PreTapscript] using hver
  unfold countOp at h
  rw [hver', Bool.true_and] at h
  split at h
  · rename_i hcode
    obtain ⟨_, hlimit, h⟩ := bind_eq_ok.mp h
    cases h
    rw [if_pos (of_decide_eq_true hcode)]
    exact ⟨⟨rfl, fun _ => by simpa using errIf_eq_ok.mp hlimit⟩, rfl⟩
  · rename_i hcode
    cases h
    rw [if_neg fun hlt => hcode (decide_eq_true hlt)]
    exact ⟨.of_eq rfl, rfl⟩

theorem isMultisig_of_fromU8 (h : Opcode.fromU8 code = some opcode) :
    (Instruction.op code).isMultisig = opcode.isMultisig := by
  rcases Opcode.fromU8_cases h with ⟨hle, rfl⟩ | ⟨hconst, rfl⟩ | hmem
  · simp only [Instruction.isMultisig, Opcode.isMultisig, Bool.or_eq_false_iff,
      decide_eq_false_iff_not]
    constructor <;> rintro rfl <;> exact absurd hle (by decide)
  · simp only [Instruction.isMultisig, Opcode.isMultisig, Bool.or_eq_false_iff,
      decide_eq_false_iff_not]
    constructor <;> rintro rfl <;> exact absurd hconst (by decide)
  · have htable : ∀ e ∈ Opcode.table, (Instruction.op e.1).isMultisig = e.2.isMultisig := by decide
    exact htable _ hmem

theorem isDisabled_of_evalCounted (h : ctx.evalCounted code executing opcode s = .ok s') :
    opcode.isDisabled = false := by
  unfold evalCounted at h
  split at h
  · rename_i hlock
    cases opcode with
    | locktime op => rfl
    | _ => cases hlock
  · obtain ⟨s1, hop, _⟩ := bind_eq_ok.mp h
    by_contra hdisabled
    rw [evalOpcode_of_isDisabled (Bool.not_eq_false _ ▸ hdisabled)] at hop
    cases hop

theorem charges_evalCounted (h : ctx.evalCounted code executing opcode s = .ok s') :
    s.Charges (if opcode.isMultisig then ctx.keysCount s.stack else 0) s' := by
  unfold evalCounted at h
  split at h
  · rename_i hlock
    cases h
    cases opcode with
    | locktime op => exact .of_eq rfl
    | _ => cases hlock
  · obtain ⟨s1, hop, h⟩ := bind_eq_ok.mp h
    exact (charges_evalOpcode hop).trans (.of_frame (frame_finishInstruction h))

/-- The count of an instruction that is handled. -/
def cost (ctx : EvalContext) (s : EvalState) (instruction : Instruction) : Nat :=
  (if instruction.isCounted && handles s instruction then 1 else 0) +
    ctx.executedKeys s instruction

theorem evalOp_eq_ok (hver : ctx.PreTapscript) (h : ctx.evalOp code executing s = .ok s') :
    (Instruction.op code).isDisabled = false ∧
      s.Charges ((if 0x60 < code then 1 else 0) +
        if (Instruction.op code).isMultisig then ctx.keysCount s.stack else 0) s' := by
  obtain ⟨s1, hcount, h⟩ := bind_eq_ok.mp h
  obtain ⟨opcode, hopcode, h⟩ := bind_eq_ok.mp h
  rw [okOr_eq_ok] at hopcode
  obtain ⟨hcharges, hstack⟩ := charges_countOp hver hcount
  constructor
  · by_contra hdisabled
    have hopcode' := isDisabled_of_mem (Bool.not_eq_false _ ▸ hdisabled) hopcode
    rw [isDisabled_of_evalCounted h] at hopcode'
    cases hopcode'
  · rw [isMultisig_of_fromU8 hopcode, ← hstack]
    exact hcharges.trans (charges_evalCounted h)

/-- A multisig opcode is handled in executed branches only. -/
theorem isConditional_of_isMultisig {instruction : Instruction}
    (h : instruction.isMultisig = true) : isConditional instruction = false := by
  cases instruction with
  | pushBytes data => rfl
  | op code =>
    simp only [Instruction.isMultisig, Bool.or_eq_true, decide_eq_true_eq] at h
    rcases h with rfl | rfl <;> rfl

/-- What a step that returns tells about its instruction. -/
theorem step_eq_ok (hver : ctx.PreTapscript) {instruction : Instruction}
    (h : ctx.step s instruction = .ok s') :
    (handles s instruction = true →
        instruction.isOversized = false ∧ instruction.isDisabled = false) ∧
      s.Charges (ctx.cost s instruction) s' := by
  unfold step at h
  unfold cost executedKeys
  split at h
  · rename_i hhandles
    rw [hhandles, Bool.and_true]
    cases instruction with
    | pushBytes data =>
      obtain ⟨_, hsize, h⟩ := bind_eq_ok.mp h
      refine ⟨fun _ => ⟨errIf_eq_ok.mp hsize, rfl⟩, ?_⟩
      have hcharges : s.Charges 0 s' := .of_eq (frame_finishInstruction h).opCount_eq
      simpa [Instruction.isMultisig, Instruction.isCounted] using hcharges
    | op code =>
      obtain ⟨hdisabled, hcharges⟩ := evalOp_eq_ok hver h
      refine ⟨fun _ => ⟨rfl, hdisabled⟩, ?_⟩
      -- a multisig opcode that is handled stands in an executed branch
      have hexec : (s.executing && (Instruction.op code).isMultisig) =
          (Instruction.op code).isMultisig := by
        cases hmulti : (Instruction.op code).isMultisig with
        | false => simp
        | true => simpa [handles, isConditional_of_isMultisig hmulti] using hhandles
      rw [hexec]
      have hcounted : (Instruction.op code).isCounted = decide (0x60 < code) := rfl
      simp only [hcounted, decide_eq_true_eq]
      exact ⟨hcharges.opCount_eq, hcharges.le⟩
  · -- an ignored instruction: nothing is checked and nothing is counted
    rename_i hhandles
    have hexec : s.executing = false := by
      simp only [handles, Bool.or_eq_true, not_or, Bool.not_eq_true] at hhandles
      exact hhandles.1
    cases h
    rw [Bool.not_eq_true] at hhandles
    rw [hhandles, hexec, Bool.and_false]
    refine ⟨fun hne => ?_, .of_eq rfl⟩
    cases hne

/-! ## The rules of an evaluation that returns -/

variable {stack : Stack} {execData : ScriptExecutionData}

/-- The instructions of an evaluation that returns are those of the script. -/
theorem map_snd_steps (hrun : ctx.run ctx.parsed.items (EvalState.init stack execData) = .ok s) :
    (ctx.steps stack execData).map Prod.snd = ctx.parsed.items :=
  Loop.map_snd_traceFrom hrun

/-- An instruction of the script is a handled or an ignored step. -/
theorem forall_mem_items_iff {P : Instruction → Prop}
    (hrun : ctx.run ctx.parsed.items (EvalState.init stack execData) = .ok s)
    (hhandled : ∀ p ∈ ctx.steps stack execData, handles p.1 p.2.2 = true → P p.2.2) :
    (∀ item ∈ ctx.parsed.items, P item.2) ↔ ∀ p ∈ ctx.ignoredSteps stack execData, P p.2.2 := by
  rw [← map_snd_steps hrun]
  constructor
  · intro h p hp
    exact h p.2 (List.mem_map_of_mem (List.mem_of_mem_filter hp))
  · intro h item hitem
    obtain ⟨p, hp, rfl⟩ := List.mem_map.mp hitem
    cases hhandles : handles p.1 p.2.2 with
    | true => exact hhandled p hp hhandles
    | false => exact h p (List.mem_filter.mpr ⟨hp, by rw [hhandles]; rfl⟩)

theorem sum_ite_eq_countP {α : Type} (c : α → Bool) (l : List α) :
    (l.map fun a => if c a then 1 else 0).sum = l.countP c := by
  induction l with
  | nil => rfl
  | cons a l ih => rw [List.map_cons, List.sum_cons, ih, List.countP_cons, Nat.add_comm]

/-- The opcodes the loop counted. -/
theorem handled_count_le (hver : ctx.PreTapscript)
    (hrun : ctx.run ctx.parsed.items (EvalState.init stack execData) = .ok s) :
    (ctx.handledSteps stack execData).countP (fun p => p.2.2.isCounted) +
      ctx.totalKeys stack execData ≤ maxOpsPerScript := by
  have hstep : ∀ (s : EvalState) (_ : Nat) (item : Nat × Instruction) (s' : EvalState),
      ctx.step s item.2 = .ok s' → s'.opCount = s.opCount + ctx.cost s item.2 :=
    fun _ _ _ _ h => (step_eq_ok hver h).2.opCount_eq
  have hsum : s.opCount = 0 + ((ctx.steps stack execData).map fun p => ctx.cost p.1 p.2.2).sum :=
    Loop.sum_cost_traceFrom EvalState.opCount
      (fun s (item : Nat × Instruction) => ctx.cost s item.2) hstep hrun
  have hle : s.opCount ≤ maxOpsPerScript :=
    Loop.forEnum_invariant (fun _ s => s.opCount ≤ maxOpsPerScript) (Nat.zero_le _)
      (fun _ _ _ _ _ _ hinv h => (step_eq_ok hver h).2.le hinv) hrun
  unfold cost at hsum
  rw [List.sum_map_add, sum_ite_eq_countP] at hsum
  unfold handledSteps totalKeys
  rw [List.countP_filter]
  omega

/-- **The resource rules.** When an evaluation before tapscript returns, its script keeps the rules
exactly when the parts the interpreter does not check do. -/
theorem resource_rules_iff (hver : ctx.PreTapscript) {result : EvalResult}
    (h : evalScript ctx stack execData = .ok result) :
    ctx.ResourceRules stack execData ↔ ctx.IgnoredWithinRules stack execData := by
  obtain ⟨s, hrun, _⟩ := evalScript_eq_ok h
  have hstep : ∀ (s : EvalState) (_ : Nat) (item : Nat × Instruction) (s' : EvalState),
      ctx.step s item.2 = .ok s' → handles s item.2 = true →
        item.2.isOversized = false ∧ item.2.isDisabled = false :=
    fun _ _ _ _ h => (step_eq_ok hver h).1
  have hsteps := Loop.forall_mem_traceFrom hstep hrun
  have hpushes := forall_mem_items_iff (P := fun i => i.isOversized = false) hrun
    fun p hp hh => (hsteps p hp hh).1
  have hopcodes := forall_mem_items_iff (P := fun i => i.isDisabled = false) hrun
    fun p hp hh => (hsteps p hp hh).2
  -- a run that returns came to every instruction, so its steps split them into the two kinds
  have hcount : ctx.parsed.items.countP (fun item => item.2.isCounted) =
      (ctx.handledSteps stack execData).countP (fun p => p.2.2.isCounted) +
        (ctx.ignoredSteps stack execData).countP (fun p => p.2.2.isCounted) := by
    rw [← map_snd_steps hrun, List.countP_map]
    exact List.countP_eq_countP_filter_add (ctx.steps stack execData) _ _
  have hle := handled_count_le hver hrun
  constructor
  · rintro ⟨hlength, hpush, hop, hops⟩
    exact ⟨hlength, hpushes.mp hpush, hopcodes.mp hop, by omega⟩
  · rintro ⟨hlength, hpush, hop, hops⟩
    exact ⟨hlength, hpushes.mpr hpush, hopcodes.mpr hop, by omega⟩

end EvalContext

namespace ResourceSample

/-- A pre-segwit evaluation without flags. -/
def context (script : List UInt8) : EvalContext :=
  baseContext ScriptEnv.reference ⟨0⟩ noSignatureCheck script

/-- `OP_0 OP_IF OP_RETURN OP_ENDIF OP_1`. -/
def returnIgnored : List UInt8 := [0x00, 0x63, 0x6a, 0x68, 0x51]

/-- `OP_0 OP_IF OP_CAT OP_ENDIF OP_1`. -/
def catIgnored : List UInt8 := [0x00, 0x63, 0x7e, 0x68, 0x51]

end ResourceSample

open ResourceSample in
theorem resource_rules_returnIgnored : (context returnIgnored).ResourceRules [] {} := by
  have hok : evalScript (context returnIgnored) [] {} = .ok ⟨true, [[1]], {}⟩ := by decide +kernel
  refine (EvalContext.resource_rules_iff (Or.inl rfl) hok).mpr ?_
  exact ⟨by decide, by decide +kernel, by decide +kernel, by decide +kernel⟩

open ResourceSample in
/-- A disabled opcode passes in a branch that is not executed. -/
theorem disabled_opcode_ignored :
    (context catIgnored).PreTapscript ∧
      evalScript (context catIgnored) [] {} = .ok ⟨true, [[1]], {}⟩ ∧
      ¬ (context catIgnored).ResourceRules [] {} := by
  refine ⟨Or.inl rfl, by decide +kernel, ?_⟩
  intro h
  have hcat : (2, Instruction.op 0x7e) ∈ (context catIgnored).parsed.items := by decide +kernel
  exact absurd (h.opcodes _ hcat) (by decide)

end Subcoin.Script
