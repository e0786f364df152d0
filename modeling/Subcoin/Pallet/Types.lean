import Subcoin.Lib.Outcome
import Subcoin.Runtime.Primitives

/-!
# Subcoin — the pallet's transaction type

`pallet-bitcoin` stores a Bitcoin transaction in a type of its own, with a separate variant for an
input that spends the null outpoint. `toBitcoin_ofBitcoin` says what is left of a transaction after
the way there and back: everything but the witnesses of those inputs.
-/

namespace Subcoin.Pallet

/-- `LockTime`. Unlike `absolute::LockTime`, neither variant restricts its value. -/
inductive LockTime where
  | height (n : Nat)
  | time (n : Nat)
deriving DecidableEq

namespace LockTime

/-- `From<absolute::LockTime> for LockTime`. -/
def ofBitcoin : Subcoin.LockTime → LockTime
  | .blocks n _ => .height n
  | .seconds n _ => .time n

/-- `From<LockTime> for absolute::LockTime`: each variant insists on its own range. -/
def toBitcoin : LockTime → Outcome Empty Subcoin.LockTime
  | .height n =>
    if h : n < lockTimeThreshold then .ok (.blocks n h) else .panic "Invalid height in LockTime"
  | .time n =>
    if h : lockTimeThreshold ≤ n then .ok (.seconds n h) else .panic "Invalid time in LockTime"

@[simp] theorem toBitcoin_ofBitcoin (lockTime : Subcoin.LockTime) :
    (ofBitcoin lockTime).toBitcoin = .ok lockTime := by
  cases lockTime with
  | blocks n h => simp [ofBitcoin, toBitcoin, h]
  | seconds n h => simp [ofBitcoin, toBitcoin, h]

end LockTime

structure RegularTxIn where
  previousOutput : Runtime.OutPoint
  unlockingScript : List UInt8
  sequence : Nat
  witness : List (List UInt8)
deriving DecidableEq

/-- `TxIn`: the coinbase variant keeps the script and the sequence only. -/
inductive TxIn where
  | coinbase (data : List UInt8) (sequence : Nat)
  | regular (txin : RegularTxIn)
deriving DecidableEq

namespace TxIn

/-- `From<bitcoin::TxIn> for TxIn`. -/
def ofBitcoin (txin : Subcoin.TxIn) : TxIn :=
  if txin.previousOutput.isNull then
    .coinbase txin.scriptSig txin.sequence
  else
    .regular
      { previousOutput := Runtime.OutPoint.ofBitcoin txin.previousOutput
        unlockingScript := txin.scriptSig
        sequence := txin.sequence
        witness := txin.witness }

/-- `From<TxIn> for bitcoin::TxIn`. -/
def toBitcoin : TxIn → Subcoin.TxIn
  | .coinbase data sequence =>
    { previousOutput := OutPoint.null, scriptSig := data, sequence := sequence, witness := [] }
  | .regular txin =>
    { previousOutput := txin.previousOutput.toBitcoin
      scriptSig := txin.unlockingScript
      sequence := txin.sequence
      witness := txin.witness }

end TxIn

structure TxOut where
  value : Nat
  scriptPubkey : List UInt8
deriving DecidableEq

namespace TxOut

def ofBitcoin (txout : Subcoin.TxOut) : TxOut := ⟨txout.value, txout.scriptPubkey⟩

def toBitcoin (txout : TxOut) : Subcoin.TxOut := ⟨txout.value, txout.scriptPubkey⟩

end TxOut

structure Transaction where
  version : Int
  lockTime : LockTime
  input : List TxIn
  output : List TxOut
deriving DecidableEq

namespace Transaction

/-- `From<bitcoin::Transaction> for Transaction`. -/
def ofBitcoin (tx : Subcoin.Transaction) : Transaction :=
  { version := tx.version
    lockTime := LockTime.ofBitcoin tx.lockTime
    input := tx.input.map TxIn.ofBitcoin
    output := tx.output.map TxOut.ofBitcoin }

/-- `From<Transaction> for bitcoin::Transaction`. -/
def toBitcoin (tx : Transaction) : Outcome Empty Subcoin.Transaction := do
  let lockTime ← tx.lockTime.toBitcoin
  pure
    { version := tx.version
      lockTime := lockTime
      input := tx.input.map TxIn.toBitcoin
      output := tx.output.map TxOut.toBitcoin }

end Transaction

/-! ## The way there and back -/

/-- An input as the pallet's type remembers it: without its witness if it spends the null
outpoint. -/
def storedInput (txin : Subcoin.TxIn) : Subcoin.TxIn :=
  if txin.previousOutput.isNull then { txin with witness := [] } else txin

def storedTransaction (tx : Subcoin.Transaction) : Subcoin.Transaction :=
  { tx with input := tx.input.map storedInput }

theorem TxIn.toBitcoin_ofBitcoin (txin : Subcoin.TxIn) :
    (TxIn.ofBitcoin txin).toBitcoin = storedInput txin := by
  by_cases hnull : txin.previousOutput.isNull = true
  · simp [TxIn.ofBitcoin, TxIn.toBitcoin, storedInput, hnull, ← OutPoint.isNull_eq_true.mp hnull]
  · simp [TxIn.ofBitcoin, TxIn.toBitcoin, storedInput, hnull]

/-- Converting a transaction to the pallet's type and back never panics, and loses exactly the
witnesses of the inputs that spend the null outpoint. -/
theorem Transaction.toBitcoin_ofBitcoin (tx : Subcoin.Transaction) :
    (Transaction.ofBitcoin tx).toBitcoin = .ok (storedTransaction tx) := by
  have hin : (tx.input.map TxIn.ofBitcoin).map TxIn.toBitcoin = tx.input.map storedInput := by
    rw [List.map_map]
    exact List.map_congr_left fun txin _ => TxIn.toBitcoin_ofBitcoin txin
  have hout : (tx.output.map TxOut.ofBitcoin).map TxOut.toBitcoin = tx.output := by
    rw [List.map_map]
    exact List.map_id'' (fun _ => rfl) tx.output
  simp [Transaction.toBitcoin, Transaction.ofBitcoin, hin, hout, storedTransaction]

theorem storedInput_eq_self {txin : Subcoin.TxIn} :
    storedInput txin = txin ↔ (txin.previousOutput.isNull = true → txin.witness = []) := by
  unfold storedInput
  split
  · rename_i hnull
    constructor
    · intro h _
      rw [← h]
    · intro h
      have hw := h hnull
      cases txin
      simp_all
  · simp_all

theorem storedTransaction_eq_self {tx : Subcoin.Transaction} :
    storedTransaction tx = tx ↔
      ∀ txin ∈ tx.input, txin.previousOutput.isNull = true → txin.witness = [] := by
  constructor
  · intro h txin hmem
    have hin : tx.input.map storedInput = tx.input.map id := by
      rw [List.map_id]
      exact congrArg Subcoin.Transaction.input h
    exact storedInput_eq_self.mp (List.map_inj_left.mp hin txin hmem)
  · intro h
    have hin : tx.input.map storedInput = tx.input.map id :=
      List.map_inj_left.mpr fun txin hmem => storedInput_eq_self.mpr (h txin hmem)
    rw [storedTransaction, hin, List.map_id]

end Subcoin.Pallet
