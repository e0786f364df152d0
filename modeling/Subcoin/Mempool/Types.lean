import Subcoin.Lib.HashSet
import Subcoin.Lib.SignedInt
import Subcoin.Lib.SlotMap
import Subcoin.Primitives.Backend
import Subcoin.Primitives.Consensus
import Subcoin.Script.Checker

/-!
# Subcoin — types of the mempool

The data the mempool passes around, its options and its errors with their texts. What the mempool
asks of libraries beyond the node's own environment is in `PoolEnv`. Amounts and weights are
unsigned integers of 64 bits, virtual sizes are signed ones.
-/

namespace Subcoin.Mempool

/-- The hash of a transaction with its witness. -/
structure Wtxid where
  hash : Hash256
deriving DecidableEq, Inhabited

/-- The library functions of the mempool. -/
structure PoolEnv (SE : Type) extends NodeEnv SE where
  /-- `Transaction::compute_wtxid`. -/
  computeWtxid : Transaction → Wtxid
  /-- `Transaction::weight`, in weight units. -/
  txWeight : Transaction → Nat
  /-- `Script::p2pk_public_key`. -/
  p2pkPublicKey : List UInt8 → Option Script.PublicKey
  displayAmount : Nat → String
  displayScriptError : SE → String
  /-- The text of the error of a runtime call at a block. -/
  debugApiError : H256 → String

/-- `EntryId`, the handle of an entry in the arena. -/
abbrev EntryId := SlotMap.Key

/-- `Weight::to_vbytes_ceil`. -/
def toVbytesCeil (weight : Nat) : Nat := (weight + 3) / 4

def displayTxid (txid : Txid) : String := txid.hash.reverse.toHex

/-! ## Fee rates -/

/-- `FeeRate`, in satoshi per virtual kilobyte. -/
structure FeeRate where
  satPerKvb : Nat
deriving DecidableEq, Repr

namespace FeeRate

def fromAmountAndVsize (fee : Nat) (vsize : Int) : Except String FeeRate :=
  if vsize ≤ 0 then .error "vsize must be positive"
  else
    match checkedUnsigned 64 (fee * 1000) with
    | none => .error "Fee rate calculation overflow"
    | some numerator => .ok ⟨numerator / vsize.toNat⟩

def getFee {ε : Type} (rate : FeeRate) (vsize : Int) : Outcome ε Nat := do
  let product ← Outcome.expect (checkedUnsigned 64 (rate.satPerKvb * toUnsigned 64 vsize))
    "Fee calculation overflow"
  pure (product / 1000)

def debug (rate : FeeRate) : String := "FeeRate(" ++ toString rate.satPerKvb ++ ")"

end FeeRate

/-! ## Data of an entry -/

/-- When the relative locks of a transaction are met. -/
structure LockPoints where
  height : Int
  time : Int
  maxInputBlock : Option BlockHash
deriving DecidableEq

namespace LockPoints

def default : LockPoints := ⟨0, 0, none⟩

end LockPoints

/-- `PoolCoin`: an output with the height of its block, `mempoolHeight` when it has none. -/
structure PoolCoin where
  output : TxOut
  height : Nat
  isCoinbase : Bool
  medianTimePast : Int
deriving DecidableEq

/-- The height of a coin that is not confirmed. -/
def mempoolHeight : Nat := 0x7fffffff

/-- `PoolCoin::from`. The runtime's coins carry no median time past. -/
def PoolCoin.ofCoin (coin : Coin) : PoolCoin :=
  ⟨⟨coin.amount, coin.scriptPubkey⟩, coin.height, coin.isCoinbase, 0⟩

/-- `ConflictSet`: what a replacement evicts. -/
structure ConflictSet where
  directConflicts : HashSet EntryId
  allConflicts : HashSet EntryId
  removedTransactions : List Transaction
  replacedFees : Nat
  replacedSize : Int

/-- What `accept_package` returns. -/
structure PackageValidationResult where
  accepted : List Txid
  packageFeerate : FeeRate
deriving DecidableEq

/-! ## Options -/

/-- Limits on the relatives of an entry. -/
structure MemPoolLimits where
  maxAncestors : Nat
  maxAncestorSizeVbytes : Nat
  maxDescendants : Nat
  maxDescendantSizeVbytes : Nat
deriving DecidableEq, Repr

/-- `MemPoolOptions`, the fields that the mempool reads. -/
structure MemPoolOptions where
  minRelayFeerate : Nat
  dustRelayFeerate : Nat
  maxDatacarrierBytes : Nat
  permitBareMultisig : Bool
  requireStandard : Bool
  limits : MemPoolLimits
  enableRbf : Bool
  maxReplacementTxs : Nat
  enablePackageRelay : Bool
  maxPackageCount : Nat
  maxPackageVsize : Nat
deriving DecidableEq, Repr

namespace MemPoolOptions

def default : MemPoolOptions where
  minRelayFeerate := 1000
  dustRelayFeerate := 1000
  maxDatacarrierBytes := 83
  permitBareMultisig := true
  requireStandard := true
  limits :=
    { maxAncestors := 25
      maxAncestorSizeVbytes := 101000
      maxDescendants := 25
      maxDescendantSizeVbytes := 101000 }
  enableRbf := true
  maxReplacementTxs := 100
  enablePackageRelay := true
  maxPackageCount := 25
  maxPackageVsize := 101000

variable (options : MemPoolOptions)

def maxAncestors : Nat := options.limits.maxAncestors

def maxAncestorSize : Int := toSigned 64 options.limits.maxAncestorSizeVbytes

def maxDescendants : Nat := options.limits.maxDescendants

def maxDescendantSize : Int := toSigned 64 options.limits.maxDescendantSizeVbytes

def minRelayFeeRate : FeeRate := ⟨options.minRelayFeerate⟩

end MemPoolOptions

/-! ## Errors -/

/-- `MempoolError`, the variants the mempool returns. -/
inductive MempoolError where
  | alreadyInMempool
  | coinbase
  | missingInputs (parents : List Txid)
  | feeTooLow (minKvb actualKvb : Nat)
  | invalidFeeRate (msg : String)
  | tooManySigops (cost : Int)
  | tooManyAncestors (count : Nat)
  | ancestorSizeTooLarge (size : Int)
  | tooManyDescendants (count : Nat)
  | descendantSizeTooLarge (size : Int)
  | notStandard (msg : String)
  | nonFinal
  | nonBIP68Final
  | negativeFee
  | feeOverflow
  | txConflict (msg : String)
  | scriptValidationFailed (msg : String)
  | noConflictToReplace
  | txNotReplaceable
  | tooManyReplacements (count : Nat)
  | newUnconfirmedInput
  | missingConflict
  | insufficientFee (msg : String)
  | packageTooLarge (count max : Nat)
  | packageSizeTooLarge (vsize : Nat)
  | packageCyclicDependencies
  | packageFeeTooLow (msg : String)
  | packageTxValidationFailed (txid : Txid) (msg : String)
  | packageRelayDisabled
  | txError (e : TxError)
  | runtimeApi (msg : String)
deriving DecidableEq

/-- The texts of `TxError`; those of the two amounts have no placeholder. -/
def displayTxError : TxError → String
  | .emptyInput => "Transaction has no inputs"
  | .emptyOutput => "Transaction has no outputs"
  | .transactionOversize => "Transaction is too large"
  | .duplicateTxInput index =>
    "Transaction contains duplicate inputs at index " ++ toString index
  | .outputValueTooLarge _ => "Output value (0) is too large"
  | .totalOutputValueTooLarge _ => "Total output value (0) is too large"
  | .badCoinbaseLength len =>
    "Coinbase transaction script length of " ++ toString len ++ " is out of range (min: " ++
      toString minCoinbaseScriptLen ++ ", max: " ++ toString maxCoinbaseScriptLen ++ ")"
  | .previousOutputNull => "Transaction input refers to a previous output that is null"

def MempoolError.display : MempoolError → String
  | .alreadyInMempool => "Transaction already in mempool"
  | .coinbase => "Coinbase transaction not allowed"
  | .missingInputs parents =>
    "Missing inputs: [" ++ ", ".intercalate (parents.map displayTxid) ++ "]"
  | .feeTooLow minKvb actualKvb =>
    "Fee rate " ++ toString actualKvb ++ " sat/kvB too low (min: " ++ toString minKvb ++ ")"
  | .invalidFeeRate msg => "Invalid fee rate calculation: " ++ msg
  | .tooManySigops cost => "Too many sigops: " ++ toString cost
  | .tooManyAncestors count => "Too many ancestors: " ++ toString count
  | .ancestorSizeTooLarge size => "Ancestor size too large: " ++ toString size
  | .tooManyDescendants count => "Too many descendants: " ++ toString count
  | .descendantSizeTooLarge size => "Descendant size too large: " ++ toString size
  | .notStandard msg => "Not standard: " ++ msg
  | .nonFinal => "Non-final transaction"
  | .nonBIP68Final => "Non-BIP68-final"
  | .negativeFee => "Negative fee"
  | .feeOverflow => "Overflow in fee calculation"
  | .txConflict msg => "Transaction conflicts with mempool: " ++ msg
  | .scriptValidationFailed msg => "Script validation failed: " ++ msg
  | .noConflictToReplace => "No conflicting transaction to replace"
  | .txNotReplaceable => "Conflicting transaction is not replaceable (doesn't signal BIP125)"
  | .tooManyReplacements count =>
    "Too many transactions to replace: " ++ toString count ++ " (max 100)"
  | .newUnconfirmedInput => "Replacement introduces new unconfirmed inputs"
  | .missingConflict => "Missing conflict transaction in mempool"
  | .insufficientFee msg => "Insufficient fee: " ++ msg
  | .packageTooLarge count max =>
    "Package too large: " ++ toString count ++ " transactions (max " ++ toString max ++ ")"
  | .packageSizeTooLarge vsize => "Package exceeds size limit: " ++ toString vsize ++ " vbytes"
  | .packageCyclicDependencies => "Package has cyclic dependencies"
  | .packageFeeTooLow msg => "Package feerate too low: " ++ msg
  | .packageTxValidationFailed txid msg =>
    "Package validation failed for tx " ++ displayTxid txid ++ ": " ++ msg
  | .packageRelayDisabled => "Package relay is disabled"
  | .txError e => displayTxError e
  | .runtimeApi msg => "Runtime API error: " ++ msg

end Subcoin.Mempool
