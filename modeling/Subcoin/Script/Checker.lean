import Subcoin.Lib.Loop
import Subcoin.Script.Instruction

/-!
# Subcoin — signature checkers

The library functions the interpreter calls (`ScriptEnv`), the `SignatureChecker` trait as a record
of its methods, and the checker for transactions. A method returns an `Outcome`, since a checker
may fail or panic; it has no state of its own, so that one question has one answer.

`remove_op_codeseparator` parses the script code and panics when it is malformed. It is the one
function of the transaction checker that can panic on an input of the transaction.
-/

namespace Subcoin.Script

/-! ## Library values -/

/-- A 20-byte hash. -/
structure Hash160 where
  bytes : List UInt8
  length_eq : bytes.length = 20
deriving DecidableEq, Repr

/-- `EcdsaSignature`: the parsed signature, with low S, and its hash type. -/
structure EcdsaSignature where
  signature : List UInt8
  sighashType : Nat
deriving DecidableEq, Repr

/-- `bitcoin::taproot::Signature`. -/
structure SchnorrSignature where
  signature : List UInt8
  sighashType : Nat
deriving DecidableEq, Repr

structure PublicKey where
  bytes : List UInt8
deriving DecidableEq, Repr

structure XOnlyPublicKey where
  bytes : List UInt8
deriving DecidableEq, Repr

/-- `bitcoin::taproot::LeafVersion`. -/
inductive LeafVersion where
  | tapScript
  | future (version : UInt8)
deriving DecidableEq, Repr

/-- `LeafVersion::from_consensus`: an even version other than the annex prefix. -/
def LeafVersion.fromConsensus (version : UInt8) : Option LeafVersion :=
  if version = taprootLeafTapscript then some .tapScript
  else if version = taprootAnnexPrefix then none
  else if version &&& 0xfe ≠ version then none
  else some (.future version)

structure ControlBlock where
  bytes : List UInt8
deriving DecidableEq, Repr

/-- The functions of the `bitcoin` and `secp256k1` crates the interpreter calls. -/
structure ScriptEnv where
  ripemd160 : List UInt8 → Hash160
  sha1 : List UInt8 → Hash160
  sha256 : List UInt8 → Hash256
  hash160 : List UInt8 → Hash160
  sha256d : List UInt8 → Hash256
  /-- `ecdsa::Signature::from_der_lax`, followed by `normalize_s`. -/
  fromDerLax : List UInt8 → Option (List UInt8)
  publicKeyFromSlice : List UInt8 → Option PublicKey
  schnorrFromSlice : List UInt8 → Except String SchnorrSignature
  xOnlyFromSlice : List UInt8 → Except String XOnlyPublicKey
  tapLeafHash : List UInt8 → LeafVersion → Hash256
  decodeControlBlock : List UInt8 → Except String ControlBlock
  verifyTaprootCommitment : ControlBlock → XOnlyPublicKey → List UInt8 → Bool
  /-- `Secp256k1::verify_ecdsa` on a message, a signature and a key. -/
  verifyEcdsa : Hash256 → List UInt8 → PublicKey → Bool
  verifySchnorr : Hash256 → List UInt8 → XOnlyPublicKey → Bool
  /-- `SighashCache::legacy_signature_hash`: transaction, input index, script code, hash type. -/
  legacySignatureHash : Transaction → Nat → List UInt8 → Nat → Except String Hash256
  /-- The version 0 sighash: transaction, input index, script code, amount, hash type. -/
  segwitV0SignatureHash : Transaction → Nat → List UInt8 → Nat → Nat → Except String Hash256
  /-- `SighashCache::taproot_signature_hash`: transaction, input index, spent outputs, annex,
  tapleaf extension (leaf hash and code separator position), hash type. -/
  taprootSignatureHash : Transaction → Nat → List TxOut → Option (List UInt8) →
    Option (Hash256 × Nat) → Nat → Except String Hash256

/-- An instance that can be evaluated. Lengths are checked as the libraries check them; the hash
functions keep the low bytes, and every commitment and signature is accepted. -/
def ScriptEnv.reference : ScriptEnv where
  ripemd160 l := ⟨leBytes 20 (ofLeBytes l), by simp⟩
  sha1 l := ⟨leBytes 20 (ofLeBytes l), by simp⟩
  sha256 l := Hash256.ofNat (ofLeBytes l)
  hash160 l := ⟨leBytes 20 (ofLeBytes l), by simp⟩
  sha256d l := Hash256.ofNat (ofLeBytes l)
  fromDerLax l := if l.head? = some 0x30 then some l else none
  publicKeyFromSlice l := if l.length = 33 ∨ l.length = 65 then some ⟨l⟩ else none
  schnorrFromSlice l :=
    if l.length = 64 then .ok ⟨l, 0⟩
    else if l.length = 65 then .ok ⟨l.take 64, (l.getLast?.getD 0).toNat⟩
    else .error "invalid taproot signature size"
  xOnlyFromSlice l := if l.length = 32 then .ok ⟨l⟩ else .error "malformed public key"
  tapLeafHash l _ := Hash256.ofNat (ofLeBytes l)
  decodeControlBlock l := .ok ⟨l⟩
  verifyTaprootCommitment _ _ _ := true
  verifyEcdsa _ _ _ := true
  verifySchnorr _ _ _ := true
  legacySignatureHash tx inputIndex scriptCode sighashType :=
    if inputIndex < tx.input.length then .ok (Hash256.ofNat (ofLeBytes scriptCode + sighashType))
    else .error "inputs index out of range"
  segwitV0SignatureHash tx inputIndex scriptCode amount sighashType :=
    if inputIndex < tx.input.length then
      .ok (Hash256.ofNat (ofLeBytes scriptCode + amount + sighashType))
    else .error "inputs index out of range"
  taprootSignatureHash tx inputIndex prevOuts _ _ sighashType :=
    if prevOuts.length = tx.input.length ∧ inputIndex < tx.input.length then
      .ok (Hash256.ofNat sighashType)
    else .error "the number of supplied prevouts differs from the number of inputs"

/-! ## The trait -/

/-- What a script may ask about the transaction that spends. -/
structure SignatureChecker where
  checkEcdsaSignature : EcdsaSignature → PublicKey → List UInt8 → SigVersion →
    Outcome SignatureError Bool
  checkSchnorrSignature : SchnorrSignature → XOnlyPublicKey → SigVersion → ScriptExecutionData →
    Outcome SignatureError Bool
  checkLockTime : Int → Outcome Empty Bool
  checkSequence : Int → Outcome Empty Bool

/-- `NoSignatureCheck`. -/
def noSignatureCheck : SignatureChecker where
  checkEcdsaSignature _ _ _ _ := .ok true
  checkSchnorrSignature _ _ _ _ := .ok true
  checkLockTime _ := .ok true
  checkSequence _ := .ok true

/-- `EcdsaSignature::parse_der_lax`. -/
def parseDerLax (env : ScriptEnv) (fullSigBytes : List UInt8) : Option EcdsaSignature :=
  match fullSigBytes.getLast? with
  | none => none
  | some sighashType =>
    (env.fromDerLax fullSigBytes.dropLast).map fun signature => ⟨signature, sighashType.toNat⟩

/-- `check_ecdsa_signature`: a signature or key that does not parse, and an error of the checker,
make an invalid signature. -/
def checkEcdsaSignature {ε : Type} (env : ScriptEnv) (checker : SignatureChecker)
    (sig publicKey subscript : List UInt8) (sigVersion : SigVersion) : Outcome ε Bool :=
  match parseDerLax env sig with
  | none => .ok false
  | some sig =>
    match env.publicKeyFromSlice publicKey with
    | none => .ok false
    | some key =>
      match checker.checkEcdsaSignature sig key subscript sigVersion with
      | .ok b => .ok b
      | .err _ => .ok false
      | .panic msg => .panic msg

/-! ## Code separators -/

/-- The range `l[start..end]`. -/
def sliceRange {ε : Type} (l : List UInt8) (start stop : Nat) : Outcome ε (List UInt8) :=
  if start ≤ stop ∧ stop ≤ l.length then .ok ((l.drop start).take (stop - start))
  else .panic "range out of bounds"

/-- `OP_CODESEPARATOR` as an instruction. -/
def isCodeseparator : Instruction → Bool
  | .op code => code = 0xab
  | .pushBytes _ => false

def parsingPanic : String := "Parsing script must not fail in signature verification"

/-- The `any` of `remove_op_codeseparator`: it stops at the first code separator, and panics when a
malformed instruction comes before it. -/
def hasCodeSeparators {ε : Type} (parsed : Instructions) : Outcome ε Bool :=
  if parsed.items.any fun item => isCodeseparator item.2 then .ok true
  else
    match parsed.error with
    | some _ => .panic parsingPanic
    | none => .ok false

/-- One step of the copying loop; the state is the sanitized script and the last position. -/
def sanitizeStep {ε : Type} (original : List UInt8) (s : List UInt8 × Nat) (_ : Nat)
    (item : Nat × Instruction) : Outcome ε (List UInt8 × Nat) :=
  match item with
  | (pos, .op code) =>
    -- Skip the OP_CODESEPARATOR byte.
    if code = 0xab then .ok (s.1, pos + 1)
    else do
      let byte ← sliceRange original pos (pos + 1)
      pure (s.1 ++ byte, pos + 1)
  | (pos, .pushBytes data) => do
    let bytes ← sliceRange original pos (pos + 1 + data.length)
    pure (s.1 ++ bytes, pos + 1 + data.length)

/-- The script without its code separators. -/
def sanitize {ε : Type} (original : List UInt8) (parsed : Instructions) :
    Outcome ε (List UInt8) := do
  let s ← Loop.forEnum (sanitizeStep original) parsed.items ([], 0)
  match parsed.error with
  | some _ => .panic parsingPanic
  | none => do
    let rest ← sliceRange original s.2 original.length
    pure (s.1 ++ rest)

/-- `remove_op_codeseparator`. -/
def removeOpCodeseparator {ε : Type} (script : List UInt8) : Outcome ε (List UInt8) := do
  let parsed := instructionIndices false script
  let found ← hasCodeSeparators parsed
  if found then sanitize script parsed else pure script

theorem sliceRange_of_le {ε : Type} {l : List UInt8} {start stop : Nat} (h : start ≤ stop)
    (hstop : stop ≤ l.length) :
    (sliceRange l start stop : Outcome ε (List UInt8)) =
      .ok ((l.drop start).take (stop - start)) :=
  if_pos ⟨h, hstop⟩

/-! ## The checker for transactions -/

/-- The checker of one input. -/
structure TransactionSignatureChecker where
  tx : Transaction
  inputIndex : Nat
  inputAmount : Nat
  prevOuts : List TxOut
deriving DecidableEq

namespace TransactionSignatureChecker

def new (tx : Transaction) (inputIndex inputAmount : Nat) : TransactionSignatureChecker :=
  ⟨tx, inputIndex, inputAmount, []⟩

/-- The hash of the number one, that signs nothing. -/
def uint256One : Hash256 := Hash256.ofNat 1

/-- The message of a signature before segwit. -/
def legacyMessage (env : ScriptEnv) (c : TransactionSignatureChecker) (sig : EcdsaSignature)
    (scriptCode : List UInt8) : Outcome SignatureError Hash256 :=
  -- The bug that a SIGHASH_SINGLE without its output signs the number one.
  if sig.sighashType &&& 0x1f = 3 ∧ c.tx.output.length ≤ c.inputIndex then .ok uint256One
  else
    Outcome.ofExcept .ecdsaSignatureHash
      (env.legacySignatureHash c.tx c.inputIndex scriptCode sig.sighashType)

/-- The sighash a signature commits to. -/
def message (env : ScriptEnv) (c : TransactionSignatureChecker) (sig : EcdsaSignature)
    (scriptPubkey : List UInt8) (sigVersion : SigVersion) : Outcome SignatureError Hash256 :=
  match sigVersion with
  | .base => do
    let baseSighashScript ← removeOpCodeseparator scriptPubkey
    c.legacyMessage env sig baseSighashScript
  | .witnessV0 =>
    match env.segwitV0SignatureHash c.tx c.inputIndex scriptPubkey c.inputAmount
      sig.sighashType with
    | .ok hash => .ok hash
    | .error e => .panic e
  | _ => .err .invalidSignatureVersion

/-- The message depends on the version of the script. -/
def checkEcdsaSignature (env : ScriptEnv) (c : TransactionSignatureChecker) (sig : EcdsaSignature)
    (pk : PublicKey) (scriptPubkey : List UInt8) (sigVersion : SigVersion) :
    Outcome SignatureError Bool := do
  let msg ← c.message env sig scriptPubkey sigVersion
  pure (env.verifyEcdsa msg sig.signature pk)

/-- `Annex::new`: the annex starts with its tag. -/
def annexNew (annex : List UInt8) : Option (List UInt8) :=
  if annex.head? = some taprootAnnexPrefix then some annex else none

/-- The annex, which was checked when it was set. -/
def annexOf (execData : ScriptExecutionData) : Outcome SignatureError (Option (List UInt8)) :=
  match execData.annex with
  | none => .ok none
  | some annex => do
    let annex ← Outcome.expect (annexNew annex)
      "Annex must be valid as it was checked on initialization; qed"
    pure (some annex)

/-- The tapleaf extension the checker puts into the sighash: the leaf hash of the execution data,
whether or not it was initialized. -/
def tapleafExtension (execData : ScriptExecutionData) : Option (Hash256 × Nat) :=
  some (execData.tapleafHash,
    if execData.codeseparatorPosInit then execData.codeseparatorPos else 2 ^ 32 - 1)

/-- BIP 340 over the message of BIP 341. -/
def checkSchnorrSignature (env : ScriptEnv) (c : TransactionSignatureChecker)
    (sig : SchnorrSignature) (pk : XOnlyPublicKey) (sigVersion : SigVersion)
    (execData : ScriptExecutionData) : Outcome SignatureError Bool := do
  Outcome.errIf (sigVersion ≠ .taproot && sigVersion ≠ .tapscript) .invalidSignatureVersion
  let annex ← annexOf execData
  let msg ← Outcome.ofExcept .taprootSignatureHash
    (env.taprootSignatureHash c.tx c.inputIndex c.prevOuts annex (tapleafExtension execData)
      sig.sighashType)
  pure (env.verifySchnorr msg sig.signature pk)

/-- `self.tx.input[self.input_index].sequence`. -/
def inputSequence (c : TransactionSignatureChecker) : Outcome Empty Nat :=
  (Outcome.expect c.tx.input[c.inputIndex]? "index out of bounds").bind fun txin =>
    .ok txin.sequence

/-- `u32::try_from` on a script number. -/
def toU32 (value : Int) : Option Nat :=
  if 0 ≤ value ∧ value < 2 ^ 32 then some value.toNat else none

/-- Whether the lock time of the transaction is of the same kind as `n` and has reached it. -/
def lockTimeReached (n : Nat) : LockTime → Bool
  | .blocks h _ => n < lockTimeThreshold && n ≤ h
  | .seconds t _ => lockTimeThreshold ≤ n && n ≤ t

/-- BIP 65: same kind of lock, reached, and the input not final. -/
def checkLockTime (c : TransactionSignatureChecker) (lockTime : Int) : Outcome Empty Bool :=
  match toU32 lockTime with
  | none => .ok false
  | some n =>
    if lockTimeReached n c.tx.lockTime then do
      -- A final input disables the lock time.
      let sequence ← c.inputSequence
      pure (sequence ≠ 2 ^ 32 - 1)
    else .ok false

/-- The lock of an input covers the lock a script asks for. -/
def relativeLockReached : RelativeLockTime → RelativeLockTime → Bool
  | .blocks h1, .blocks h2 => h1 ≤ h2
  | .time t1, .time t2 => t1 ≤ t2
  | _, _ => false

/-- BIP 112, against the sequence number of the input. -/
def checkSequence (c : TransactionSignatureChecker) (sequence : Int) : Outcome Empty Bool :=
  if c.tx.version < 2 then .ok false
  else do
    let inputSequence ← c.inputSequence
    pure (match toRelativeLockTime inputSequence, (toU32 sequence).bind toRelativeLockTime with
      | some inputLockTime, some lockTime => relativeLockReached lockTime inputLockTime
      | _, _ => false)

def toChecker (env : ScriptEnv) (c : TransactionSignatureChecker) : SignatureChecker where
  checkEcdsaSignature := c.checkEcdsaSignature env
  checkSchnorrSignature := c.checkSchnorrSignature env
  checkLockTime := c.checkLockTime
  checkSequence := c.checkSequence

end TransactionSignatureChecker

end Subcoin.Script
