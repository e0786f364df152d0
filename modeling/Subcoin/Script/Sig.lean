import Subcoin.Script.Checker
import Subcoin.Script.Stack

/-!
# Subcoin — signature opcodes

The modules `sig` and `multisig` of the interpreter: encoding checks, `find_and_delete` and the
bodies of the signature opcodes. Every index of the source into a signature is a `byteAt`, which
panics out of bounds. The matching loop of `OP_CHECKMULTISIG` recurses on the keys: each round uses
up one key, and a signature if it fits.
-/

namespace Subcoin.Script

open Outcome

variable (env : ScriptEnv) (flags : VerifyFlags) (checker : SignatureChecker)
  (sigVersion : SigVersion)

/-! ## Encodings -/

def byteAt {ε : Type} (l : List UInt8) (i : Nat) : Outcome ε UInt8 :=
  Outcome.expect l[i]? "index out of bounds"

/-- Where S stands in a DER signature. -/
structure EncodedS where
  offset : Nat
  length : Nat
deriving DecidableEq, Repr

/-- The check that a DER integer has no superfluous zero byte, when it has more than one. -/
def tooMuchPadding {ε : Type} (sig : List UInt8) (offset length : Nat) : Outcome ε Bool :=
  if 1 < length then do
    let first ← byteAt sig offset
    if first = 0 then do
      let second ← byteAt sig (offset + 1)
      pure (!signBit second)
    else pure false
  else pure false

/-- `is_valid_signature_encoding`: `0x30 [total-length] 0x02 [R-length] [R] 0x02 [S-length] [S]
[sighash-type]`. -/
def isValidSignatureEncoding (sig : List UInt8) : Outcome SignatureEncodingError EncodedS := do
  Outcome.errIf (sig.length < 9) .tooShort
  Outcome.errIf (73 < sig.length) .tooLong
  let sequenceId ← byteAt sig 0
  Outcome.errIf (sequenceId ≠ 0x30) .invalidSequenceId
  let dataLength ← byteAt sig 1
  Outcome.errIf (dataLength.toNat ≠ sig.length - 3) .invalidDataLength
  let lenR ← byteAt sig 3
  -- Make sure the length of the S element is still inside the signature.
  Outcome.errIf (sig.length ≤ 5 + lenR.toNat) .invalidDataLength
  let lenS ← byteAt sig (5 + lenR.toNat)
  Outcome.errIf (lenR.toNat + lenS.toNat + 7 ≠ sig.length) .invalidDataLength
  let integerIdR ← byteAt sig 2
  Outcome.errIf (integerIdR ≠ 0x02) .invalidIntegerIdR
  Outcome.errIf (lenR = 0) .zeroLengthR
  let firstR ← byteAt sig 4
  Outcome.errIf (signBit firstR) .negativeR
  let paddedR ← tooMuchPadding sig 4 lenR.toNat
  Outcome.errIf paddedR .tooMuchPaddingR
  let integerIdS ← byteAt sig (lenR.toNat + 4)
  Outcome.errIf (integerIdS ≠ 0x02) .invalidIntegerIdS
  Outcome.errIf (lenS = 0) .zeroLengthS
  let firstS ← byteAt sig (lenR.toNat + 6)
  Outcome.errIf (signBit firstS) .negativeS
  let paddedS ← tooMuchPadding sig (lenR.toNat + 6) lenS.toNat
  Outcome.errIf paddedS .tooMuchPaddingS
  pure ⟨lenR.toNat + 6, lenS.toNat⟩

/-- `is_low_der_signature`. -/
def isLowDerSignature (sig : List UInt8) : Outcome CheckSigError Unit := do
  let encodedS ← (isValidSignatureEncoding sig).mapErr .der
  let sBytes ← sliceRange sig encodedS.offset (encodedS.offset + encodedS.length)
  -- S must not be above half the order of the curve.
  Outcome.errIf (halfOrder < ofLeBytes sBytes.reverse) .highS

/-- `is_defined_hashtype_signature`. -/
def isDefinedHashtypeSignature (sig : List UInt8) : Bool :=
  match sig.getLast? with
  | none => false
  | some last =>
    let nHashType := last &&& 0x7f
    1 ≤ nHashType && nHashType ≤ 3

/-- The flags under which a signature must be strict DER. -/
def requiresDer : Bool := flags.has .dersig || flags.has .lowS || flags.has .strictenc

def checkDer (sig : List UInt8) : Outcome CheckSigError Unit :=
  if requiresDer flags then do
    let _ ← (isValidSignatureEncoding sig).mapErr .der
    pure ()
  else pure ()

def checkLowS (sig : List UInt8) : Outcome CheckSigError Unit :=
  if flags.has .lowS then isLowDerSignature sig else pure ()

/-- `check_signature_encoding`. The empty signature is allowed: it is the compact way to give an
invalid one. -/
def checkSignatureEncoding (sig : List UInt8) : Outcome CheckSigError Unit :=
  if sig.isEmpty then pure ()
  else do
    checkDer flags sig
    checkLowS flags sig
    Outcome.errIf (flags.has .strictenc && !isDefinedHashtypeSignature sig) .unsupportedSigHashType

/-- `is_public_key`: a compressed or an uncompressed key. -/
def isPublicKey (v : List UInt8) : Bool :=
  (v.length = 33 && (v.head? = some 2 || v.head? = some 3)) ||
    (v.length = 65 && v.head? = some 4)

def isCompressedPubkey (pubkey : List UInt8) : Bool :=
  pubkey.length = compressedPubkeySize && (pubkey.head? = some 2 || pubkey.head? = some 3)

def checkPubkeyEncoding (pubkey : List UInt8) : Outcome CheckSigError Unit := do
  Outcome.errIf (flags.has .strictenc && !isPublicKey pubkey) .badPubKey
  Outcome.errIf
    (flags.has .witnessPubkeytype && sigVersion = .witnessV0 && !isCompressedPubkey pubkey)
    .witnessPubKeyType

/-! ## Script code -/

/-- The loop of `find_and_delete`. `skip` bytes of a match are still to be dropped. -/
def deleteFrom (sig : List UInt8) : Nat → List UInt8 → List UInt8 × Nat
  | _, [] => ([], 0)
  | skip + 1, _ :: l => deleteFrom sig skip l
  | 0, byte :: l =>
    if sig.isPrefixOf (byte :: l) then
      let rest := deleteFrom sig (sig.length - 1) l
      (rest.1, rest.2 + 1)
    else
      let rest := deleteFrom sig 0 l
      (byte :: rest.1, rest.2)

/-- `find_and_delete`: the script without the occurrences of `sig`, and their number. -/
def findAndDelete (script sig : List UInt8) : List UInt8 × Nat :=
  if sig.isEmpty || script.length < sig.length then (script, 0) else deleteFrom sig 0 script

/-- The script code of one signature check: in pre-segwit scripts the signature is dropped. -/
def dropSignature (subscript sig : List UInt8) : Outcome CheckSigError (List UInt8) :=
  if sigVersion = .base then
    let (subscript, found) := findAndDelete subscript sig
    if 0 < found && flags.has .constScriptcode then .err .findAndDelete else .ok subscript
  else .ok subscript

/-- `script[begincode..]`. -/
def subscriptFrom {ε : Type} (script : List UInt8) (begincode : Nat) : Outcome ε (List UInt8) :=
  sliceRange script begincode script.length

/-! ## OP_CHECKSIG -/

def evalChecksigPreTapscript (script : List UInt8) (begincodehash : Nat) (sig pubkey : List UInt8) :
    Outcome CheckSigError Bool := do
  let subscript ← subscriptFrom script begincodehash
  let scriptCode ← dropSignature flags sigVersion subscript sig
  checkSignatureEncoding flags sig
  checkPubkeyEncoding flags sigVersion pubkey
  let success ← checkEcdsaSignature env checker sig pubkey scriptCode sigVersion
  Outcome.errIf (!success && flags.has .nullfail && !sig.isEmpty) .nullFail
  pure success

/-- The sigops budget of `eval_checksig_tapscript`. -/
def spendValidationWeight (sig : List UInt8) (execData : ScriptExecutionData) :
    Outcome CheckSigError ScriptExecutionData :=
  if sig.isEmpty then .ok execData
  else if execData.validationWeightLeftInit then
    match checkedNum (execData.validationWeightLeft - validationWeightPerSigopPassed) with
    | .ok weight => .ok { execData with validationWeightLeft := weight }
    | .error _ => .err .tapscriptValidationWeight
  else .panic "assertion failed: exec_data.validation_weight_left_init"

/-- The signature check for a 32-byte key. -/
def checkSchnorr (sig pubkey : List UInt8) (execData : ScriptExecutionData) :
    Outcome CheckSigError Bool := do
  let sig ← Outcome.ofExcept .schnorr (env.schnorrFromSlice sig)
  let pubkey ← Outcome.ofExcept .secp256k1 (env.xOnlyFromSlice pubkey)
  (checker.checkSchnorrSignature sig pubkey sigVersion execData).mapErr .invalidSignature

def evalChecksigTapscript (sig pubkey : List UInt8) (execData : ScriptExecutionData) :
    Outcome CheckSigError (Bool × ScriptExecutionData) := do
  let execData ← spendValidationWeight sig execData
  if pubkey.length = 0 then .err .pubKeyType
  else if pubkey.length = 32 then
    if sig.isEmpty then pure (true, execData)
    else do
      let valid ← checkSchnorr env checker sigVersion sig pubkey execData
      pure (valid, execData)
  else do
    Outcome.errIf (flags.has .discourageUpgradablePubkeytype) .discourageUpgradablePubkeyType
    pure (true, execData)

/-- `handle_checksig`. The arms for the two versions of Taproot are as in the source, the script
path being the unreachable one. -/
def handleChecksig (script : List UInt8) (begincodehash : Nat) (sig pubkey : List UInt8)
    (execData : ScriptExecutionData) : Outcome CheckSigError (Bool × ScriptExecutionData) :=
  match sigVersion with
  | .base | .witnessV0 => do
    let success ←
      evalChecksigPreTapscript env flags checker sigVersion script begincodehash sig pubkey
    pure (success, execData)
  | .taproot => evalChecksigTapscript env flags checker sigVersion sig pubkey execData
  | .tapscript =>
    .panic "internal error: entered unreachable code: key path in Taproot has no script"

/-! ## OP_CHECKMULTISIG -/

/-- The signature as a push, the form in which `OP_CHECKMULTISIG` drops it. -/
def pushedSignature (signature : List UInt8) : Outcome CheckSigError (List UInt8) := do
  let pushBuf ← Outcome.expect (pushBytesBuf signature)
    "Signature length must be within length limits; qed"
  pure (pushSlice pushBuf)

/-- The loop that drops the signatures from the script code. -/
def dropSignatures (sigs : List (List UInt8)) (subscript : List UInt8) :
    Outcome CheckSigError (List UInt8) :=
  Loop.forEnum
    (fun subscript _ signature =>
      if sigVersion = .base then do
        let sigScript ← pushedSignature signature
        dropSignature flags sigVersion subscript sigScript
      else pure subscript)
    sigs subscript

/-- The matching loop: keys not yet tried and signatures not yet satisfied, in the order they came
off the stack. -/
def matchSignatures (subscript : List UInt8) :
    List (List UInt8) → List (List UInt8) → Outcome CheckSigError Bool
  | _, [] => .ok true
  | [], _ :: _ => .panic "index out of bounds"
  | key :: keys, sig :: sigs => do
    checkSignatureEncoding flags sig
    checkPubkeyEncoding flags sigVersion key
    let correct ← checkEcdsaSignature env checker sig key subscript sigVersion
    let left := if correct then sigs else sig :: sigs
    -- Early exit if the remaining keys cannot satisfy the remaining signatures.
    if left.length ≤ keys.length then matchSignatures subscript keys left else .ok false

/-- The arguments of `OP_CHECKMULTISIG`, the number of keys apart. -/
structure MultisigArgs where
  keys : List (List UInt8)
  sigs : List (List UInt8)
  rest : Stack
deriving DecidableEq, Repr

def popKeysCount (verifyMinimaldata : Bool) (stack : Stack) :
    Except CheckMultiSigError (Nat × Stack) :=
  match stack.popNum verifyMinimaldata with
  | .error e => .error (.stack e)
  | .ok (keysCount, stack) =>
    if keysCount < 0 || maxPubkeysPerMultisig < keysCount then .error .invalidPubkeyCount
    else .ok (keysCount.toNat, stack)

def popMultisigArgs (verifyMinimaldata : Bool) (keysCount : Nat) (stack : Stack) :
    Except CheckMultiSigError MultisigArgs := do
  let (keys, stack) ← (stack.popMany keysCount).mapError .stack
  let (sigsCount, stack) ← (stack.popNum verifyMinimaldata).mapError .stack
  if sigsCount < 0 || (keysCount : Int) < sigsCount then .error (.invalidSignatureCount keysCount)
  else do
    let (sigs, stack) ← (stack.popMany sigsCount.toNat).mapError .stack
    -- One more element than is used must be popped.
    let (dummy, stack) ← stack.pop.mapError .stack
    if flags.has .nulldummy && !dummy.isEmpty then .error (.signatureNullDummy dummy.length)
    else .ok ⟨keys, sigs, stack⟩

theorem popKeysCount_eq_ok {verifyMinimaldata : Bool} {stack stack' : Stack} {keysCount : Nat} :
    popKeysCount verifyMinimaldata stack = .ok (keysCount, stack') ↔
      ∃ n, stack.popNum verifyMinimaldata = .ok (n, stack') ∧
        (0 ≤ n ∧ n ≤ maxPubkeysPerMultisig) ∧ n.toNat = keysCount := by
  unfold popKeysCount
  cases stack.popNum verifyMinimaldata with
  | error e => simp
  | ok r =>
    obtain ⟨n, rest⟩ := r
    dsimp only
    split
    · rename_i hrange
      simp only [reduceCtorEq, false_iff]
      rintro ⟨m, hm, hrange', _⟩
      cases hm
      simp only [Bool.or_eq_true, decide_eq_true_eq] at hrange
      omega
    · rename_i hrange
      simp only [Bool.or_eq_true, decide_eq_true_eq, not_or, not_lt] at hrange
      simp [hrange, and_comm]

/-- What is popped when the arguments are there, step by step. -/
theorem popMultisigArgs_eq_ok {flags : VerifyFlags} {verifyMinimaldata : Bool} {keysCount : Nat}
    {stack : Stack} {args : MultisigArgs} :
    popMultisigArgs flags verifyMinimaldata keysCount stack = .ok args ↔
      ∃ stack1 sigsCount stack2 stack3 dummy,
        stack.popMany keysCount = .ok (args.keys, stack1) ∧
        stack1.popNum verifyMinimaldata = .ok (sigsCount, stack2) ∧
        (0 ≤ sigsCount ∧ sigsCount ≤ keysCount) ∧
        stack2.popMany sigsCount.toNat = .ok (args.sigs, stack3) ∧
        stack3.pop = .ok (dummy, args.rest) ∧
        (flags.has .nulldummy = true → dummy = []) := by
  constructor
  · intro h
    obtain ⟨⟨keys, stack1⟩, hkeys, h⟩ := except_bind_eq_ok.mp h
    obtain ⟨⟨sigsCount, stack2⟩, hcount, h⟩ := except_bind_eq_ok.mp h
    dsimp only at h
    split at h
    · cases h
    · rename_i hrange
      obtain ⟨⟨sigs, stack3⟩, hsigs, h⟩ := except_bind_eq_ok.mp h
      obtain ⟨⟨dummy, rest⟩, hdummy, h⟩ := except_bind_eq_ok.mp h
      split at h
      · cases h
      · rename_i hnull
        cases h
        exact ⟨stack1, sigsCount, stack2, stack3, dummy, mapError_eq_ok.mp hkeys,
          mapError_eq_ok.mp hcount, by simpa using hrange, mapError_eq_ok.mp hsigs,
          mapError_eq_ok.mp hdummy, by simpa using hnull⟩
  · rintro ⟨stack1, sigsCount, stack2, stack3, dummy, hkeys, hcount, hrange, hsigs, hdummy, hnull⟩
    refine except_bind_eq_ok.mpr ⟨_, mapError_eq_ok.mpr hkeys, ?_⟩
    refine except_bind_eq_ok.mpr ⟨_, mapError_eq_ok.mpr hcount, ?_⟩
    dsimp only
    rw [if_neg (by simpa using hrange)]
    refine except_bind_eq_ok.mpr ⟨_, mapError_eq_ok.mpr hsigs, ?_⟩
    refine except_bind_eq_ok.mpr ⟨_, mapError_eq_ok.mpr hdummy, ?_⟩
    rw [if_neg (by simpa using hnull)]

/-- `eval_checkmultisig`: the result, the stack and the operation count. -/
def evalCheckmultisig (verifyMinimaldata : Bool) (script : List UInt8) (begincode : Nat)
    (stack : Stack) (opCount : Nat) : Outcome CheckMultiSigError (Bool × Stack × Nat) := do
  Outcome.errIf (sigVersion = .tapscript) .tapscriptCheckMultiSig
  let (keysCount, stack) ← Outcome.ofExcept id (popKeysCount verifyMinimaldata stack)
  let opCount := opCount + keysCount
  Outcome.errIf (maxOpsPerScript < opCount) .tooManyOps
  let args ← Outcome.ofExcept id (popMultisigArgs flags verifyMinimaldata keysCount stack)
  let subscript ← subscriptFrom script begincode
  let subscript ← (dropSignatures flags sigVersion args.sigs subscript).mapErr .checkSig
  let success ←
    (matchSignatures env flags checker sigVersion subscript args.keys args.sigs).mapErr .checkSig
  pure (success, args.rest, opCount)

end Subcoin.Script
