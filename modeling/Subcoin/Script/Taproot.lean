import Subcoin.Script.Interpreter
import Subcoin.Script.Questions

/-!
# Subcoin — what a Taproot spend proves

A version 1 program is spent with a signature for its key, or with a leaf script it commits to.

* **`key_path_sound_iff`** — when a key path spend is accepted, the signature was valid and asked
  for as BIP 341 has it, exactly when the checker did not answer `false` and is not the repository's
  own: the answer is dropped, and `TransactionSignatureChecker` always signs a tapleaf extension.
* **`tapscript_rules_iff`** — when the execution of a leaf script follows BIP 342. The scan for
  `OP_SUCCESSx` has its own range of opcodes, and stops at the first push.
-/

namespace Subcoin.Script

open Outcome

/-! ## The key path -/

section KeyPath

variable (env : ScriptEnv) (checker : SignatureChecker) (program sig : List UInt8)
  (execData : ScriptExecutionData)

/-- The checker's answer to the question of the key path, when the signature and the key parse. -/
def keyPathAnswer : Option (Outcome SignatureError Bool) :=
  match env.schnorrFromSlice sig, env.xOnlyFromSlice program with
  | .ok sig, .ok pubkey => some (checker.checkSchnorrSignature sig pubkey .taproot execData)
  | _, _ => none

/-- The spend is signed: the checker found the signature valid for the key of the program, and it
was asked for a signature hash without a tapleaf. The last field is about the hash that
`TransactionSignatureChecker` computes for the question. -/
structure KeyPathSound : Prop where
  valid : keyPathAnswer env checker program sig execData = some (.ok true)
  noLeaf : execData.tapleafHashInit = false
  noExtension : ∀ c : TransactionSignatureChecker, checker = c.toChecker env →
    TransactionSignatureChecker.tapleafExtension execData = none

end KeyPath

section KeyPathLemmas

variable {env : ScriptEnv} {flags : VerifyFlags} {checker : SignatureChecker}
  {program sig : List UInt8} {execData : ScriptExecutionData}

/-- The key path accepts any answer. -/
theorem verifyKeyPath_eq_ok :
    verifyKeyPath env checker program sig execData = .ok () ↔
      ∃ b, keyPathAnswer env checker program sig execData = some (.ok b) := by
  unfold verifyKeyPath keyPathAnswer
  cases env.schnorrFromSlice sig with
  | error e => simp
  | ok sig =>
    cases env.xOnlyFromSlice program with
    | error e => simp
    | ok pubkey => simp [bind_eq_ok, mapErr_eq_ok]

theorem tapleafHashInit_takeAnnex (env : ScriptEnv) (witnessStack : Stack) :
    (takeAnnex env witnessStack).1.tapleafHashInit = false := by
  unfold takeAnnex
  split
  · split
    · rfl
    · rfl
  · rfl

/-- A Taproot program without the P2SH wrapper is verified along one of the two paths. -/
theorem verifyWitnessProgram_taproot {witness : List (List UInt8)} {program : WitnessProgram}
    (hversion : program.version = 1)
    (hlength : program.program.length = witnessV0TaprootSize) :
    verifyWitnessProgram env flags checker witness program false =
      verifyTaproot env flags checker witness program.program := by
  simp [verifyWitnessProgram, hversion, hlength]

/-- **The key path.** An accepted key path spend is signed exactly when the checker did not answer
`false` and is not a `TransactionSignatureChecker`. -/
theorem key_path_sound_iff {witness : List (List UInt8)} {program : WitnessProgram}
    (hflags : flags.has .taproot = true) (hversion : program.version = 1)
    (hlength : program.program.length = witnessV0TaprootSize)
    (hpath : takeAnnex env witness.reverse = (execData, [sig]))
    (hok : verifyWitnessProgram env flags checker witness program false = .ok ()) :
    KeyPathSound env checker program.program sig execData ↔
      keyPathAnswer env checker program.program sig execData ≠ some (.ok false) ∧
        ∀ c : TransactionSignatureChecker, checker ≠ c.toChecker env := by
  have hanswer : ∃ b, keyPathAnswer env checker program.program sig execData = some (.ok b) := by
    rw [verifyWitnessProgram_taproot hversion hlength, verifyTaproot, if_pos hflags,
      hpath] at hok
    obtain ⟨_, _, hok⟩ := bind_eq_ok.mp hok
    exact verifyKeyPath_eq_ok.mp hok
  have hleaf : execData.tapleafHashInit = false := by
    have h := tapleafHashInit_takeAnnex env witness.reverse
    rwa [hpath] at h
  constructor
  · rintro ⟨hvalid, _, hextension⟩
    rw [hvalid]
    refine ⟨by simp, fun c hc => ?_⟩
    -- the extension of the repository's checker is never `none`
    cases hextension c hc
  · rintro ⟨hfalse, hchecker⟩
    obtain ⟨b, hb⟩ := hanswer
    refine ⟨?_, hleaf, fun c hc => absurd hc (hchecker c)⟩
    cases b with
    | true => exact hb
    | false => exact absurd hb hfalse

end KeyPathLemmas

/-- `NoSignatureCheck` accepts lock times that a transaction does not. -/
theorem noSignatureCheck_ne (env : ScriptEnv) (c : TransactionSignatureChecker) :
    noSignatureCheck ≠ c.toChecker env := by
  intro h
  have hlock : noSignatureCheck.checkLockTime (-1) = (c.toChecker env).checkLockTime (-1) := by
    rw [← h]
  cases hlock

namespace TaprootSample

def taprootFlags : VerifyFlags := .ofList [.p2sh, .witness, .taproot]

def program : WitnessProgram := ⟨1, List.replicate 32 2, by decide, by decide, by decide⟩

end TaprootSample

namespace KeyPathSample

/-- A signature of 64 bytes as the only element. -/
def witness : List (List UInt8) := [List.replicate 64 4]

/-- A checker that finds no Schnorr signature valid. -/
def rejecting : SignatureChecker :=
  { noSignatureCheck with checkSchnorrSignature := fun _ _ _ _ => .ok false }

end KeyPathSample

open TaprootSample KeyPathSample in
theorem key_path_sound_noSignatureCheck :
    KeyPathSound ScriptEnv.reference noSignatureCheck program.program (List.replicate 64 4)
      { annexInit := true } := by
  have hok : verifyWitnessProgram ScriptEnv.reference taprootFlags noSignatureCheck witness program
      false = .ok () := by
    decide +kernel
  refine (key_path_sound_iff (by decide) rfl (by decide) rfl hok).mpr ?_
  exact ⟨by decide +kernel, noSignatureCheck_ne _⟩

open TaprootSample KeyPathSample in
/-- A signature that the checker finds invalid spends the output. -/
theorem rejected_signature_accepted :
    taprootFlags.has .taproot = true ∧ program.version = 1 ∧
      program.program.length = witnessV0TaprootSize ∧
      takeAnnex ScriptEnv.reference witness.reverse =
        ({ annexInit := true }, [List.replicate 64 4]) ∧
      verifyWitnessProgram ScriptEnv.reference taprootFlags rejecting witness program false =
        .ok () ∧
      ¬ KeyPathSound ScriptEnv.reference rejecting program.program (List.replicate 64 4)
        { annexInit := true } := by
  refine ⟨by decide, rfl, by decide, rfl, by decide +kernel, ?_⟩
  intro h
  exact absurd h.valid (by decide +kernel)

/-! ## Leaf scripts -/

/-- The `OP_SUCCESSx` opcodes of BIP 342. -/
def isOpSuccessX (code : UInt8) : Bool :=
  code = 80 || code = 98 || (126 ≤ code && code ≤ 129) || (131 ≤ code && code ≤ 134) ||
    (137 ≤ code && code ≤ 138) || (141 ≤ code && code ≤ 142) || (149 ≤ code && code ≤ 153) ||
    (187 ≤ code && code ≤ 254)

namespace Instruction

def isPush : Instruction → Bool
  | .pushBytes _ => true
  | .op _ => false

def isSuccess : Instruction → Bool
  | .pushBytes _ => false
  | .op code => isOpSuccessX code

end Instruction

/-- A parse of the script meets an `OP_SUCCESSx`. -/
def meetsOpSuccess (script : List UInt8) : Bool := (instructions script).any Instruction.isSuccess

def hasPush (script : List UInt8) : Bool := (instructions script).any Instruction.isPush

/-- The opcodes the scan comes to. -/
def opcodesBeforePush : List Instruction → List UInt8
  | .op code :: l => code :: opcodesBeforePush l
  | _ => []

/-- Before the first push stands an opcode of the range 0x50, 0x7b to 0xb9. -/
def meetsSuccessRange (script : List UInt8) : Bool :=
  (opcodesBeforePush (instructions script)).any isOpSuccess

/-- The rules of BIP 342 for a leaf script, whatever it is run on: when it succeeds without an
evaluation, that otherwise only an evaluation that ends with exactly one true element makes it
succeed, and that a push is no reason not to evaluate it. -/
structure TapscriptRules (flags : VerifyFlags) (script : List UInt8) : Prop where
  success : meetsOpSuccess script = true → flags.has .discourageOpSuccess = false →
    ∀ env checker stack execData,
      executeWitnessScript env flags checker stack script .tapscript execData = .ok ()
  evaluated : ¬ (meetsOpSuccess script = true ∧ flags.has .discourageOpSuccess = false) →
    ∀ env checker stack execData,
      executeWitnessScript env flags checker stack script .tapscript execData = .ok () →
      evalWitnessScript env flags checker stack script .tapscript execData = .ok () ∧
        ∃ result x, evalScript (witnessContext env flags checker .tapscript script) stack execData =
          .ok result ∧ result.stack = [x] ∧ castToBool x = true
  pushes : hasPush script = true → Parses script → meetsOpSuccess script = false →
    ∀ env checker stack execData, stack.length ≤ maxStackSize →
      executeWitnessScript env flags checker stack script .tapscript execData =
        evalWitnessScript env flags checker stack script .tapscript execData

section LeafLemmas

variable {env : ScriptEnv} {flags : VerifyFlags} {checker : SignatureChecker} {stack : Stack}
  {script : List UInt8} {sigVersion : SigVersion} {execData : ScriptExecutionData}

theorem scanInstructions_eq_ok_true {l : List Instruction} :
    scanInstructions flags l = .ok true ↔
      (opcodesBeforePush l).any isOpSuccess = true ∧ flags.has .discourageOpSuccess = false := by
  induction l with
  | nil => simp [scanInstructions, opcodesBeforePush]
  | cons i l ih =>
    cases i with
    | pushBytes data => simp [scanInstructions, opcodesBeforePush]
    | op code =>
      rw [scanInstructions, opcodesBeforePush, List.any_cons]
      cases hcode : isOpSuccess code with
      | true => cases flags.has .discourageOpSuccess <;> simp
      | false => simpa using ih

/-- When the code returns before the evaluation. -/
theorem tapscriptChecks_eq_ok_true :
    tapscriptChecks flags .tapscript stack script = .ok true ↔
      meetsSuccessRange script = true ∧ flags.has .discourageOpSuccess = false := by
  unfold meetsSuccessRange
  rw [← scanInstructions_eq_ok_true]
  unfold tapscriptChecks scanOpSuccess
  rw [if_pos rfl, bind_assoc]
  cases scanInstructions flags (instructions script) with
  | err e => simp
  | panic msg => simp
  | ok success =>
    cases success with
    | true => simp
    | false => simp [bind_eq_ok]

/-- An evaluated witness script ends with exactly one true element. -/
theorem evalWitnessScript_eq_ok
    (h : evalWitnessScript env flags checker stack script sigVersion execData = .ok ()) :
    ∃ result x, evalScript (witnessContext env flags checker sigVersion script) stack execData =
      .ok result ∧ result.stack = [x] ∧ castToBool x = true := by
  obtain ⟨_, _, h⟩ := bind_eq_ok.mp h
  obtain ⟨result, heval, h⟩ := bind_eq_ok.mp h
  obtain ⟨_, hlength, h⟩ := bind_eq_ok.mp h
  have hone : result.stack.length = 1 := by simpa using errIf_eq_ok.mp hlength
  obtain ⟨x, hx⟩ := List.length_eq_one_iff.mp hone
  have htrue := errIf_eq_ok.mp h
  rw [hx] at htrue
  exact ⟨result, x, heval, hx, by simpa [topIsTrue] using htrue⟩

/-- The scan of a script with a push stops at the push, if not before it. -/
theorem scanInstructions_of_push {l : List Instruction} (h : l.any Instruction.isPush = true) :
    scanInstructions flags l = .ok true ∨ scanInstructions flags l = .err .discourageOpSuccess ∨
      scanInstructions flags l = .err .badOpcode := by
  induction l with
  | nil => cases h
  | cons i l ih =>
    cases i with
    | pushBytes data => exact .inr (.inr rfl)
    | op code =>
      rw [scanInstructions]
      split
      · split
        · exact .inr (.inl rfl)
        · exact .inl rfl
      · exact ih h

/-- An element that is too large: no evaluation starts with it, but the scan does not look at it. -/
def largeElement : List UInt8 := List.replicate 521 0

theorem evalWitnessScript_largeElement :
    evalWitnessScript env flags checker [largeElement] script sigVersion execData =
      .err .pushSize := by
  have hlarge : maxScriptElementSize < largeElement.length := by
    rw [largeElement, List.length_replicate]
    decide
  simp [evalWitnessScript, Outcome.errIf, hlarge]

theorem executeWitnessScript_of_scan
    (h : tapscriptChecks flags .tapscript stack script = .ok true) :
    executeWitnessScript env flags checker stack script .tapscript execData = .ok () := by
  rw [executeWitnessScript, h]
  rfl

/-- Only the scan lets a script pass on the large element. -/
theorem tapscriptChecks_of_largeElement
    (h : executeWitnessScript env flags checker [largeElement] script .tapscript execData =
      .ok ()) :
    tapscriptChecks flags .tapscript [largeElement] script = .ok true := by
  obtain ⟨success, hchecks, hok⟩ := bind_eq_ok.mp h
  cases success with
  | true => exact hchecks
  | false =>
    rw [if_neg Bool.false_ne_true, evalWitnessScript_largeElement] at hok
    cases hok

/-- A script with a push is not evaluated: on the large element, the error is not that of the
evaluation. -/
theorem executeWitnessScript_ne_of_push (hpush : hasPush script = true) :
    executeWitnessScript env flags checker [largeElement] script .tapscript execData ≠
      .err .pushSize := by
  unfold executeWitnessScript tapscriptChecks scanOpSuccess
  rcases @scanInstructions_of_push flags _ hpush with hscan | hscan | hscan
  · rw [hscan]
    simp
  · rw [hscan]
    simp
  · rw [hscan]
    simp

/-- **Leaf scripts.** A leaf script is executed by the rules of BIP 342 exactly when the scan finds
an `OP_SUCCESSx` where there is one (or success is discouraged), and the script is not one with a
push that has to be evaluated. -/
theorem tapscript_rules_iff :
    TapscriptRules flags script ↔
      (flags.has .discourageOpSuccess = true ∨
          (meetsSuccessRange script = true ↔ meetsOpSuccess script = true)) ∧
        ¬ (hasPush script = true ∧ Parses script ∧ meetsOpSuccess script = false) := by
  constructor
  · intro h
    constructor
    · cases hflag : flags.has .discourageOpSuccess with
      | true => exact .inl rfl
      | false =>
        refine .inr ⟨fun hrange => ?_, fun hmeets => ?_⟩
        · -- the scan returns, and on the large element the evaluation would not
          by_contra hnone
          have heval := (h.evaluated (fun hboth => hnone hboth.1) .reference noSignatureCheck
            [largeElement] {} (executeWitnessScript_of_scan
              (tapscriptChecks_eq_ok_true.mpr ⟨hrange, hflag⟩))).1
          rw [evalWitnessScript_largeElement] at heval
          cases heval
        · have hok := h.success hmeets hflag .reference noSignatureCheck [largeElement] {}
          exact (tapscriptChecks_eq_ok_true.mp (tapscriptChecks_of_largeElement hok)).1
    · rintro ⟨hpush, hparses, hnone⟩
      have hsame := h.pushes hpush hparses hnone .reference noSignatureCheck [largeElement] {}
        (Nat.le_add_left _ _)
      exact executeWitnessScript_ne_of_push hpush (hsame.trans evalWitnessScript_largeElement)
  · rintro ⟨hscan, hpushes⟩
    refine ⟨fun hmeets hflag _ _ _ _ => ?_, fun hother _ _ _ _ hok => ?_,
      fun hpush hparses hnone => absurd ⟨hpush, hparses, hnone⟩ hpushes⟩
    · have hiff := hscan.resolve_left (by rw [hflag]; exact Bool.false_ne_true)
      exact executeWitnessScript_of_scan (tapscriptChecks_eq_ok_true.mpr ⟨hiff.mpr hmeets, hflag⟩)
    · obtain ⟨success, hchecks, hok⟩ := bind_eq_ok.mp hok
      cases success with
      | true =>
        -- the scan returns only where it should
        obtain ⟨hrange, hflag⟩ := tapscriptChecks_eq_ok_true.mp hchecks
        have hiff := hscan.resolve_left (by rw [hflag]; exact Bool.false_ne_true)
        exact absurd ⟨hiff.mp hrange, hflag⟩ hother
      | false => exact ⟨hok, evalWitnessScript_eq_ok hok⟩

end LeafLemmas

open TaprootSample in
/-- `OP_NOT` alone is taken for an `OP_SUCCESSx`, though its evaluation fails; and a push of a one,
whose evaluation succeeds, is rejected. -/
theorem tapscript_scan_deviates :
    ¬ TapscriptRules taprootFlags [0x91] ∧ ¬ TapscriptRules taprootFlags [0x01, 0x01] := by
  constructor
  · intro h
    have hevaluated := (h.evaluated (by decide +kernel) .reference noSignatureCheck [] {}
      (by decide +kernel)).1
    exact absurd hevaluated (by decide +kernel)
  · intro h
    have hsame := h.pushes (by decide +kernel) (by decide +kernel) (by decide +kernel) .reference
      noSignatureCheck [] {} (by decide)
    exact absurd hsame (by decide +kernel)

end Subcoin.Script
