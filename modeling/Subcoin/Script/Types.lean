import Subcoin.Bitcoin.Types

/-!
# Subcoin — types of the script interpreter

The flags, signature versions, execution data and errors of the `subcoin-script` crate. Errors that
carry an error of a library hold it as a string; of the other variants those the crate builds are
here.
-/

namespace Subcoin.Script

/-! ## Flags -/

/-- The rules that can be switched on. -/
inductive VerifyFlag where
  | p2sh
  | strictenc
  | dersig
  | lowS
  | nulldummy
  | sigpushonly
  | minimaldata
  | discourageUpgradableNops
  | cleanstack
  | checklocktimeverify
  | checksequenceverify
  | witness
  | discourageUpgradableWitnessProgram
  | minimalif
  | nullfail
  | witnessPubkeytype
  | constScriptcode
  | taproot
  | discourageUpgradableTaprootVersion
  | discourageOpSuccess
  | discourageUpgradablePubkeytype
deriving DecidableEq, Repr

/-- The position of a flag in `VerifyFlags`. -/
def VerifyFlag.bit : VerifyFlag → Nat
  | .p2sh => 0
  | .strictenc => 1
  | .dersig => 2
  | .lowS => 3
  | .nulldummy => 4
  | .sigpushonly => 5
  | .minimaldata => 6
  | .discourageUpgradableNops => 7
  | .cleanstack => 8
  | .checklocktimeverify => 9
  | .checksequenceverify => 10
  | .witness => 11
  | .discourageUpgradableWitnessProgram => 12
  | .minimalif => 13
  | .nullfail => 14
  | .witnessPubkeytype => 15
  | .constScriptcode => 16
  | .taproot => 17
  | .discourageUpgradableTaprootVersion => 18
  | .discourageOpSuccess => 19
  | .discourageUpgradablePubkeytype => 20

/-- A set of flags, as its bits. -/
structure VerifyFlags where
  bits : Nat
deriving DecidableEq, Repr

namespace VerifyFlags

/-- `intersects` and `contains` with a single flag. -/
def has (flags : VerifyFlags) (flag : VerifyFlag) : Bool := flags.bits.testBit flag.bit

/-- The flag set with the given flags. -/
def ofList (l : List VerifyFlag) : VerifyFlags :=
  ⟨l.foldl (fun bits flag => bits ||| 2 ^ flag.bit) 0⟩

end VerifyFlags

/-- What kind of script is evaluated. -/
inductive SigVersion where
  /-- Bare scripts and BIP 16 redeem scripts. -/
  | base
  /-- Witness version 0, see BIP 141. -/
  | witnessV0
  /-- Witness version 1, key path, see BIP 341. -/
  | taproot
  /-- Witness version 1, script path with leaf version `0xc0`, see BIP 342. -/
  | tapscript
deriving DecidableEq, Repr

/-- `ScriptExecutionData`, without the output hash, which nothing reads. -/
structure ScriptExecutionData where
  tapleafHashInit : Bool := false
  tapleafHash : Hash256 := Hash256.allZeros
  codeseparatorPosInit : Bool := false
  codeseparatorPos : Nat := 0
  annexInit : Bool := false
  annexPresent : Bool := false
  annexHash : Hash256 := Hash256.allZeros
  annex : Option (List UInt8) := none
  validationWeightLeftInit : Bool := false
  validationWeightLeft : Int := 0
deriving DecidableEq

/-! ## Limits -/

def maxScriptElementSize : Nat := 520

def maxStackSize : Nat := 1000

def maxPubkeysPerMultisig : Int := 20

def maxOpsPerScript : Nat := 201

def compressedPubkeySize : Nat := 33

def witnessV0ScripthashSize : Nat := 32

def witnessV0KeyhashSize : Nat := 20

def witnessV0TaprootSize : Nat := 32

def validationWeightPerSigopPassed : Int := 50

def validationWeightOffset : Int := 50

def taprootAnnexPrefix : UInt8 := 0x50

def taprootLeafTapscript : UInt8 := 0xc0

def taprootLeafMask : UInt8 := 0xfe

def taprootControlBaseSize : Nat := 33

def taprootControlNodeSize : Nat := 32

def taprootControlMaxSize : Nat := 33 + 32 * 128

/-- Half the order of secp256k1. -/
def halfOrder : Nat := 0xFFFFFFFFFFFFFFFFFFFFFFFFFFFFFFFEBAAEDCE6AF48A03BBFD25E8CD0364141 >>> 1

/-! ## Errors -/

inductive NumError where
  | overflow
  | notMinimallyEncoded
deriving DecidableEq, Repr

inductive StackError where
  | invalidOperation
  | num (e : NumError)
deriving DecidableEq, Repr

/-- `bitcoin::script::Error`, for reading instructions. -/
inductive ScriptError where
  | earlyEndOfScript
  | nonMinimalPush
deriving DecidableEq, Repr

inductive SignatureError where
  | invalidSignatureVersion
  | ecdsaSignatureHash (e : String)
  | taprootSignatureHash (e : String)
deriving DecidableEq, Repr

inductive SignatureEncodingError where
  | tooShort
  | tooLong
  | invalidSequenceId
  | invalidDataLength
  | invalidIntegerIdR
  | zeroLengthR
  | negativeR
  | tooMuchPaddingR
  | invalidIntegerIdS
  | zeroLengthS
  | negativeS
  | tooMuchPaddingS
deriving DecidableEq, Repr

/-- Why a signature check fails. -/
inductive CheckSigError where
  | findAndDelete
  | unsupportedSigHashType
  | discourageUpgradablePubkeyType
  | badPubKey
  | pubKeyType
  | witnessPubKeyType
  | nullFail
  | highS
  | tapscriptValidationWeight
  | der (e : SignatureEncodingError)
  | schnorr (e : String)
  | invalidSignature (e : SignatureError)
  | secp256k1 (e : String)
deriving DecidableEq, Repr

inductive CheckMultiSigError where
  | invalidPubkeyCount
  | tooManyOps
  | invalidSignatureCount (keysCount : Nat)
  | signatureNullDummy (length : Nat)
  | tapscriptCheckMultiSig
  | checkMultiSigVerify
  | checkSig (e : CheckSigError)
  | stack (e : StackError)
deriving DecidableEq, Repr

/-- Why a script fails. -/
inductive Error where
  | evalFalse
  | opReturn
  | pushSize
  | opCount
  | stackSize
  | verify (op : UInt8)
  | badOpcode
  | disabledOpcode (op : UInt8)
  | stack (e : StackError)
  | unbalancedConditional
  | negativeLocktime
  | unsatisfiedLocktime
  | witnessMalleated
  | witnessUnexpected
  | witnessMalleatedP2sh
  | cleanStack
  | minimalif
  | sigPushOnly
  | witnessProgramWitnessEmpty
  | witnessProgramMismatch
  | witnessProgramWrongLength
  | discourageUpgradableNops
  | discourageUpgradableWitnessProgram
  | discourageUpgradableTaprootVersion
  | discourageOpSuccess
  | taprootWrongControlSize
  | taprootMinimalif
  | opCodeSeparator
  | noScriptExecution
  | invalidAltStackOperation
  | unknownOpcode (op : UInt8)
  | readInstruction (e : ScriptError)
  | checkSig (e : CheckSigError)
  | checkMultiSig (e : CheckMultiSigError)
  | num (e : NumError)
  | signature (e : SignatureError)
  | schnorrSignature (e : String)
  | taproot (e : String)
  | secp256k1 (e : String)
deriving DecidableEq, Repr

end Subcoin.Script
