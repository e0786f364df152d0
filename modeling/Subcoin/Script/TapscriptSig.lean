import Subcoin.Script.Frame
import Subcoin.Script.Interpreter

/-!
# Subcoin — signature opcodes of Tapscript

BIP 342 has its own rules for `OP_CHECKSIG`, `OP_CHECKSIGVERIFY` and `OP_CHECKSIGADD`: an empty
signature is the way to fail a check, every other one is paid for from a budget, and one that does
not verify fails the script. `handle_checksig` dispatches on the signature version, and has the two
versions of Taproot the wrong way round: what it does for `Tapscript` is an `unreachable!`.

* **`EvalContext.tapscript_signatures_iff`** — the rules hold in an evaluation exactly when none of
  these opcodes comes to be executed with its arguments; the budget is never touched.
* **`empty_signature_panics`** — a check with an empty signature, which should be false.
-/

namespace Subcoin.Script

open Outcome

namespace EvalContext

section Definitions

variable (ctx : EvalContext)

/-- The signature verifies under a 32-byte key. -/
def SchnorrVerifies (execData : ScriptExecutionData) (sig key : List UInt8) : Prop :=
  checkSchnorr ctx.env ctx.checker ctx.sigVersion sig key execData = .ok true

/-- The stack after an opcode whose check came to `success`; `none` when that fails the script. -/
def stackAfter (success : Bool) : CryptoOp → Stack → Option Stack
  | .checkSig, _ :: _ :: stack => some (Stack.pushBool success stack)
  | .checkSigVerify, _ :: _ :: stack => if success then some stack else none
  | .checkSigAdd, _ :: num :: _ :: stack =>
    match numFromBytes num ctx.verifyMinimaldata 4 with
    | .ok n =>
      match (Stack.pushNum (n + numOfBool success) stack : Outcome Error Stack) with
      | .ok stack => some stack
      | _ => none
    | .error _ => none
  | _, _ => none

/-- The opcode ends with the truth value `success` and with `weight` left of the budget. -/
def Yields (s : EvalState) (op : CryptoOp) (success : Bool) (weight : Int) :
    Outcome Error EvalState → Prop
  | .ok s' => some s'.stack = ctx.stackAfter success op s.stack ∧
      s'.execData.validationWeightLeft = weight
  | .err _ => ctx.stackAfter success op s.stack = none
  | .panic _ => False

/-- The rules of BIP 342 for an opcode with a signature and a key. -/
structure TapscriptRule (s : EvalState) (op : CryptoOp) (sig key : List UInt8)
    (outcome : Outcome Error EvalState) : Prop where
  emptyKey : key = [] → ∃ e, outcome = .err e
  emptySig : key ≠ [] → sig = [] →
    ctx.Yields s op false s.execData.validationWeightLeft outcome
  overdrawn : sig ≠ [] → s.execData.validationWeightLeft < validationWeightPerSigopPassed →
    ∃ e, outcome = .err e
  paid : sig ≠ [] → validationWeightPerSigopPassed ≤ s.execData.validationWeightLeft →
    (∃ e, outcome = .err e) ∨ ∃ s', outcome = .ok s' ∧ s'.execData.validationWeightLeft =
      s.execData.validationWeightLeft - validationWeightPerSigopPassed
  invalid : key.length = 32 → sig ≠ [] → ¬ ctx.SchnorrVerifies s.execData sig key →
    ∃ e, outcome = .err e
  valid : key.length = 32 → sig ≠ [] → ctx.SchnorrVerifies s.execData sig key →
    validationWeightPerSigopPassed ≤ s.execData.validationWeightLeft →
    ctx.Yields s op true (s.execData.validationWeightLeft - validationWeightPerSigopPassed) outcome

/-- The rules hold for every signature opcode that is executed with its arguments. -/
def TapscriptSignatures (stack : Stack) (execData : ScriptExecutionData) : Prop :=
  ∀ p ∈ ctx.steps stack execData, ∀ r ∈ ctx.signatureStep p.1 p.2.2,
    ∀ args ∈ ctx.signatureArgs r.1 r.2, ∀ code,
      ctx.TapscriptRule r.1 r.2 args.1 args.2 (ctx.evalCrypto code r.1 r.2)

end Definitions

variable {ctx : EvalContext} {code : UInt8} {s s' : EvalState} {op : CryptoOp}

/-- A panic is against the rules, whatever signature and key are. -/
theorem TapscriptRule.isPanic {sig key : List UInt8} {outcome : Outcome Error EvalState}
    (h : ctx.TapscriptRule s op sig key outcome) : outcome.isPanic = false := by
  cases outcome with
  | ok s' => rfl
  | err e => rfl
  | panic msg =>
    exfalso
    by_cases hkey : key = []
    · obtain ⟨e, he⟩ := h.emptyKey hkey
      cases he
    · by_cases hsig : sig = []
      · exact h.emptySig hkey hsig
      · by_cases hweight :
            s.execData.validationWeightLeft < validationWeightPerSigopPassed
        · obtain ⟨e, he⟩ := h.overdrawn hsig hweight
          cases he
        · rcases h.paid hsig (not_lt.mp hweight) with ⟨e, he⟩ | ⟨s', hs', _⟩
          · cases he
          · cases hs'

section

variable (hver : ctx.sigVersion = .tapscript)

include hver

/-- Under Tapscript no signature opcode returns. -/
theorem evalCrypto_ne_ok (hop : op.isSignature = true) : ctx.evalCrypto code s op ≠ .ok s' := by
  intro h
  have hcheck : ∀ {sig key : List UInt8} {r : Bool × ScriptExecutionData},
      ctx.handleChecksigAt s sig key ≠ .ok r := by
    intro sig key r hr
    have hpanic : (ctx.handleChecksigAt s sig key).isPanic = true :=
      isPanic_handleChecksigAt_tapscript hver
    rw [hr] at hpanic
    cases hpanic
  cases op with
  | checkSig =>
    obtain ⟨⟨success, s1⟩, hpop, _⟩ := bind_eq_ok.mp h
    obtain ⟨_, _, _, _, _, hr, _⟩ := popAndCheckSig_eq_ok hpop
    exact hcheck hr
  | checkSigVerify =>
    obtain ⟨⟨success, s1⟩, hpop, _⟩ := bind_eq_ok.mp h
    obtain ⟨_, _, _, _, _, hr, _⟩ := popAndCheckSig_eq_ok hpop
    exact hcheck hr
  | checkSigAdd =>
    obtain ⟨_, _, _, _, _, _, _, _, hr, _⟩ := evalCheckSigAdd_eq_ok h
    exact hcheck hr
  | checkMultiSig =>
    obtain ⟨_, hmulti, _⟩ := bind_eq_ok.mp h
    rw [checkMultisig_tapscript hver] at hmulti
    cases hmulti
  | checkMultiSigVerify =>
    obtain ⟨_, hmulti, _⟩ := bind_eq_ok.mp h
    rw [checkMultisig_tapscript hver] at hmulti
    cases hmulti
  | ripemd160 | sha1 | sha256 | hash160 | hash256 | codeSeparator => cases hop

/-! ## The budget -/

theorem weight_of_evalOpcode {executing : Bool} {opcode : Opcode}
    (h : ctx.evalOpcode code executing s opcode = .ok s') :
    s'.execData.validationWeightLeft = s.execData.validationWeightLeft := by
  cases hleaves : opcode.leavesFrame with
  | false => exact (acts_evalOpcode hleaves h).weight_eq
  | true =>
    cases opcode with
    | crypto op =>
      by_cases hsep : op = .codeSeparator
      · subst hsep
        rw [evalCodeSeparator_eq_ok h]
      · have hop : op.isSignature = true := by simpa [Opcode.leavesFrame, hsep] using hleaves
        exact absurd h (evalCrypto_ne_ok hver hop)
    | _ => cases hleaves

theorem weight_of_step {instruction : Instruction} (h : ctx.step s instruction = .ok s') :
    s'.execData.validationWeightLeft = s.execData.validationWeightLeft := by
  unfold step at h
  split at h
  · cases instruction with
    | pushBytes data =>
      obtain ⟨_, _, h⟩ := bind_eq_ok.mp h
      exact (frame_finishInstruction h).weight_eq
    | op code =>
      obtain ⟨s1, opcode, hcount, _, hcases⟩ := evalOp_eq_ok_cases h
      have hs1 : s1.execData = s.execData := by
        rw [frame_countOp hcount]
        rfl
      rcases hcases with ⟨rfl, _⟩ | ⟨s2, heval, hframe⟩
      · rw [hs1]
      · rw [hframe.weight_eq, weight_of_evalOpcode hver heval, hs1]
  · cases h
    rfl

theorem weight_of_evalScript {stack : Stack} {execData : ScriptExecutionData}
    {result : EvalResult} (h : evalScript ctx stack execData = .ok result) :
    result.execData.validationWeightLeft = execData.validationWeightLeft := by
  obtain ⟨s, hrun, _, _, rfl⟩ := evalScript_eq_ok h
  exact Loop.forEnum_invariant
    (fun _ s => s.execData.validationWeightLeft = execData.validationWeightLeft) rfl
    (fun _ _ _ _ _ _ hinv hstep => (weight_of_step hver hstep).trans hinv) hrun

end

/-- **Tapscript.** The rules for signature opcodes hold in an evaluation exactly when none of them
is executed with its arguments, since each of those panics. An evaluation that returns leaves the
budget as it was. -/
theorem tapscript_signatures_iff (hver : ctx.sigVersion = .tapscript) (stack : Stack)
    (execData : ScriptExecutionData) :
    (ctx.TapscriptSignatures stack execData ↔
        ∀ p ∈ ctx.steps stack execData, ∀ r ∈ ctx.signatureStep p.1 p.2.2,
          ctx.signatureArgs r.1 r.2 = none) ∧
      ∀ result, evalScript ctx stack execData = .ok result →
        result.execData.validationWeightLeft = execData.validationWeightLeft := by
  refine ⟨⟨fun h p hp r hr => ?_, fun h p hp r hr args hargs => ?_⟩,
    fun _ => weight_of_evalScript hver⟩
  · cases hargs : ctx.signatureArgs r.1 r.2 with
    | none => rfl
    | some args =>
      obtain ⟨_, _, _, _, hop⟩ := signatureStep_eq_some.mp hr
      have hsig : r.2.isSignature = true := (signatureOp_eq_some.mp hop).2
      have hrule := h p hp r hr args hargs 0xac
      rw [← hargs]
      exact (isPanic_evalCrypto_tapscript hver hsig).mp hrule.isPanic
  · rw [h p hp r hr] at hargs
    cases hargs

end EvalContext

namespace TapscriptSample

/-- A Tapscript evaluation without flags, in which every signature verifies. -/
def context (script : List UInt8) : EvalContext :=
  { env := ScriptEnv.reference
    script := script
    flags := ⟨0⟩
    checker := noSignatureCheck
    sigVersion := .tapscript
    verifyMinimaldata := true }

def execData : ScriptExecutionData :=
  { validationWeightLeftInit := true, validationWeightLeft := 100 }

/-- A 32-byte key above the number zero and an empty signature. -/
def emptySignature : Stack := [List.replicate 32 1, [], []]

end TapscriptSample

open TapscriptSample in
theorem tapscript_signatures_drop :
    evalScript (context [0x75]) emptySignature execData = .ok ⟨false, [[], []], execData⟩ ∧
      (context [0x75]).TapscriptSignatures emptySignature execData := by
  refine ⟨by decide +kernel, (EvalContext.tapscript_signatures_iff rfl _ _).1.mpr ?_⟩
  decide +kernel

open TapscriptSample in
/-- `OP_CHECKSIGADD` with an empty signature should leave the number as it is. The scan for success
opcodes, which ends a spend at `OP_CHECKSIG`, lets this one through. -/
theorem empty_signature_panics :
    (executeWitnessScript ScriptEnv.reference ⟨0⟩ noSignatureCheck emptySignature [0xba] .tapscript
      execData).isPanic = true ∧
      ¬ (context [0xba]).TapscriptSignatures emptySignature execData := by
  refine ⟨by decide +kernel, fun h => ?_⟩
  have hstep : (EvalState.init emptySignature execData, (0, Instruction.op 0xba)) ∈
      (context [0xba]).steps emptySignature execData := by decide +kernel
  have hrule := h _ hstep _ (by rfl) _ (by rfl) 0xba
  exact absurd hrule.isPanic (by decide +kernel)

end Subcoin.Script
