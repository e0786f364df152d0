import Subcoin.Script.Interpreter

/-!
# Subcoin — pay to a key hash

For P2WPKH `verify_witness_program` builds a script from the program and evaluates it.
-/

namespace Subcoin.Script

open Outcome EvalContext

theorem parseFrom_append {minimal : Bool} {pos : Nat} {l rest : List UInt8} :
    parseFrom minimal pos l.length (l ++ rest) = parseFrom minimal (pos + l.length) 0 rest := by
  induction l generalizing pos with
  | nil => simp
  | cons b l ih => simp [parseFrom, ih, Nat.add_comm, Nat.add_left_comm]

theorem instructionIndices_pubkeyHashScript (minimal : Bool) (h : Hash160) :
    instructionIndices minimal (pubkeyHashScript h.bytes) =
      ⟨[(0, .op 0x76), (1, .op 0xa9), (2, .pushBytes h.bytes), (23, .op 0x88), (24, .op 0xac)],
        none⟩ := by
  have hskip := @parseFrom_append minimal 3 h.bytes [0x88, 0xac]
  rw [h.length_eq] at hskip
  simp [instructionIndices, pubkeyHashScript, pushSlice, h.length_eq, parseFrom, nextInstruction,
    takeSlice, hskip]

variable (env : ScriptEnv) (flags : VerifyFlags) (checker : SignatureChecker)

/-- The script leaves the answer of the signature check, once the key has the hash. -/
theorem evalScript_pubkeyHashScript (h : Hash160) (sig key : List UInt8) :
    (∃ result, evalScript (witnessContext env flags checker .witnessV0 (pubkeyHashScript h.bytes))
        [key, sig] {} = .ok result ∧ result.stack.length = 1 ∧ topIsTrue result.stack = true) ↔
      h.bytes = (env.hash160 key).bytes ∧ checkSignatureEncoding flags sig = .ok () ∧
        checkPubkeyEncoding flags .witnessV0 key = .ok () ∧
        (checkEcdsaSignature env checker sig key (pubkeyHashScript h.bytes) .witnessV0 :
          Outcome CheckSigError Bool) = .ok true := by
  have h76 : Opcode.fromU8 0x76 = some (.stack .dup) := rfl
  have ha9 : Opcode.fromU8 0xa9 = some (.crypto .hash160) := rfl
  have h88 : Opcode.fromU8 0x88 = some (.bitwise .equalVerify) := rfl
  have hac : Opcode.fromU8 0xac = some (.crypto .checkSig) := rfl
  have hcast : ∀ b, castToBool (boolBytes b) = b := by decide
  -- the steps one after the other; the comparison and the signature check are left
  simp only [evalScript, parsed, instructionIndices_pubkeyHashScript, run, Loop.forEnum,
    Loop.forEnumFrom, witnessContext, EvalState.init]
  simp [step, handles, EvalState.executing, advance, evalInstruction, evalOp, countOp, h76, ha9,
    h88, hac, evalCounted, isDisabledLocktime, evalOpcode, evalStack, evalCrypto, evalPush,
    finishInstruction, evalBitwise, onStack, liftStack, Stack.dupN, Stack.requireThen, hashTop,
    evalEqualVerify, popEqual, evalCheckSig, popAndCheckSig, Stack.pop, maxOpsPerScript,
    maxStackSize, maxScriptElementSize, h.length_eq, Outcome.ofExcept, bind_eq_ok,
    errIf_eq_ok, handleChecksigAt, handleChecksig, evalChecksigPreTapscript, subscriptFrom,
    sliceRange_of_le, dropSignature, mapErr_eq_ok, Stack.pushBool, topIsTrue, readError, hcast,
    and_or_left, or_and_right, and_assoc, exists_or, Unique.exists_iff]

/-- The witness program of a key hash. -/
def keyHashProgram (h : Hash160) : WitnessProgram where
  version := 0
  program := h.bytes
  two_le := by simp [h.length_eq]
  le_forty := by simp [h.length_eq]
  v0_length := fun _ => .inl h.length_eq

/-- **P2WPKH.** The program of a key hash is satisfied exactly by a signature and a key with that
hash, both well encoded, where the signature is valid for the script that pays to the hash. -/
theorem p2wpkh_iff (h : Hash160) (witness : List (List UInt8)) (isP2sh : Bool) :
    verifyWitnessProgram env flags checker witness (keyHashProgram h) isP2sh = .ok () ↔
      ∃ sig key, witness = [sig, key] ∧ key.length ≤ maxScriptElementSize ∧
        sig.length ≤ maxScriptElementSize ∧ h.bytes = (env.hash160 key).bytes ∧
        checkSignatureEncoding flags sig = .ok () ∧
        checkPubkeyEncoding flags .witnessV0 key = .ok () ∧
        (checkEcdsaSignature env checker sig key (pubkeyHashScript h.bytes) .witnessV0 :
          Outcome CheckSigError Bool) = .ok true := by
  have hverify : verifyWitnessProgram env flags checker witness (keyHashProgram h) isP2sh =
      verifyP2wpkh env flags checker h.bytes witness.reverse := by
    simp [verifyWitnessProgram, keyHashProgram, h.length_eq, witnessV0ScripthashSize,
      witnessV0KeyhashSize]
  rw [hverify]
  match witness with
  | [sig, key] =>
    simp [verifyP2wpkh, bind_eq_ok, executeWitnessScript, tapscriptChecks, evalWitnessScript,
      Unique.exists_iff, errIf_eq_ok, evalScript_pubkeyHashScript, and_assoc]
  | [] | [_] | _ :: _ :: _ :: _ => simp [verifyP2wpkh, errIf]

end Subcoin.Script
