import Subcoin.Pallet.Types

/-!
# Subcoin — transactions as an extrinsic carries them

Decoding an extrinsic bounds the fields of the pallet's `Transaction` by their widths and checks
nothing else. Both the weight of the `transact` call and the call itself convert the value to a
`bitcoin::Transaction`.

* **`Transaction.ofBitcoin_of_toBitcoin`** — the forward conversion undoes the one that returned.
* **`Transaction.convertsTotally_iff`** — the conversions are total exactly for a lock time whose
  value is in the range of its variant. Any other one decodes as well, and panics the runtime.
-/

namespace Subcoin.Pallet

namespace LockTime

/-- The value is one that `absolute::LockTime` has under the same variant. -/
def InRange : LockTime → Prop
  | .height n => n < lockTimeThreshold
  | .time n => lockTimeThreshold ≤ n

theorem toBitcoin_eq_ok {lockTime : LockTime} {b : Subcoin.LockTime} :
    lockTime.toBitcoin = .ok b ↔ lockTime = ofBitcoin b := by
  constructor
  · intro h
    cases lockTime with
    | height n =>
      rw [toBitcoin] at h
      split at h
      · cases h
        rfl
      · cases h
    | time n =>
      rw [toBitcoin] at h
      split at h
      · cases h
        rfl
      · cases h
  · rintro rfl
    exact toBitcoin_ofBitcoin b

theorem isPanic_toBitcoin (lockTime : LockTime) :
    lockTime.toBitcoin.isPanic = false ↔ lockTime.InRange := by
  cases lockTime with
  | height n =>
    rw [toBitcoin, InRange]
    split
    · simp_all
    · simp_all
  | time n =>
    rw [toBitcoin, InRange]
    split
    · simp_all
    · simp_all

end LockTime

/-- The input spends the null outpoint, but not as a coinbase. -/
def TxIn.IsNullRegular : TxIn → Prop
  | .coinbase _ _ => False
  | .regular txin => txin.previousOutput.toBitcoin = OutPoint.null

theorem TxIn.ofBitcoin_toBitcoin {txin : TxIn} (h : ¬ txin.IsNullRegular) :
    TxIn.ofBitcoin txin.toBitcoin = txin := by
  cases txin with
  | coinbase data sequence => simp [TxIn.ofBitcoin, TxIn.toBitcoin, OutPoint.isNull]
  | regular txin =>
    have hnull : txin.previousOutput.toBitcoin.isNull = false := by
      simpa [OutPoint.isNull, TxIn.IsNullRegular] using h
    simp [TxIn.ofBitcoin, TxIn.toBitcoin, hnull]

namespace Transaction

/-- The fields have the widths SCALE decodes: this is all that decoding promises. -/
structure Decodes (tx : Transaction) : Prop where
  version : -2 ^ 31 ≤ tx.version ∧ tx.version < 2 ^ 31
  lockTime : match tx.lockTime with | .height n | .time n => n < 2 ^ 32
  sequence : ∀ txin ∈ tx.input, txin.toBitcoin.sequence < 2 ^ 32
  vout : ∀ txin ∈ tx.input, txin.toBitcoin.previousOutput.vout < 2 ^ 32
  value : ∀ txout ∈ tx.output, txout.value < 2 ^ 64

/-- `BitcoinTransactionWeight::transact`, with `bitcoin::Transaction::weight` as a parameter. -/
def transactWeight (weight : Subcoin.Transaction → Nat) (btcTx : Transaction) :
    Outcome Empty Nat := do
  let tx ← btcTx.toBitcoin
  pure (weight tx)

def NoNullRegular (tx : Transaction) : Prop := ∀ txin ∈ tx.input, ¬ txin.IsNullRegular

/-- Without a regular input at the null outpoint nothing is lost on the way to a
`bitcoin::Transaction`. -/
theorem ofBitcoin_of_toBitcoin {tx : Transaction} {b : Subcoin.Transaction}
    (hregular : tx.NoNullRegular) (h : tx.toBitcoin = .ok b) : ofBitcoin b = tx := by
  rw [toBitcoin, Outcome.bind_eq_ok] at h
  obtain ⟨lockTime, hlock, h⟩ := h
  cases h
  have hin : (tx.input.map TxIn.toBitcoin).map TxIn.ofBitcoin = tx.input := by
    rw [List.map_map]
    exact (List.map_congr_left fun txin hmem =>
      TxIn.ofBitcoin_toBitcoin (hregular txin hmem)).trans (List.map_id' _)
  have hout : (tx.output.map TxOut.toBitcoin).map TxOut.ofBitcoin = tx.output := by
    rw [List.map_map]
    exact List.map_id'' (fun _ => rfl) tx.output
  simp only [ofBitcoin, hin, hout, ← LockTime.toBitcoin_eq_ok.mp hlock]

/-- What an untrusted transaction must not break: weighing and converting it return, and what they
return names the transaction. -/
structure ConvertsTotally (weight : Subcoin.Transaction → Nat) (tx : Transaction) : Prop where
  weight_total : (tx.transactWeight weight).isPanic = false
  total : tx.toBitcoin.isPanic = false
  injective : ∀ tx' b, tx.NoNullRegular → tx'.NoNullRegular → tx.toBitcoin = .ok b →
    tx'.toBitcoin = .ok b → tx = tx'

theorem isPanic_toBitcoin (tx : Transaction) :
    tx.toBitcoin.isPanic = false ↔ tx.lockTime.InRange := by
  rw [toBitcoin, Outcome.isPanic_bind_eq_false, ← LockTime.isPanic_toBitcoin]
  simp

/-- **Conversion of untrusted transactions.** Weighing and converting are total on a transaction
exactly when the value of its lock time is in the range of its variant. -/
theorem convertsTotally_iff (weight : Subcoin.Transaction → Nat) (tx : Transaction) :
    tx.ConvertsTotally weight ↔ tx.lockTime.InRange := by
  constructor
  · intro h
    exact (isPanic_toBitcoin tx).mp h.total
  · intro h
    have htotal := (isPanic_toBitcoin tx).mpr h
    refine ⟨?_, htotal, ?_⟩
    · rw [transactWeight, Outcome.isPanic_bind_eq_false]
      exact ⟨htotal, fun _ _ => rfl⟩
    · intro tx' b hregular hregular' hb hb'
      rw [← ofBitcoin_of_toBitcoin hregular hb, ← ofBitcoin_of_toBitcoin hregular' hb']

/-- A height at the threshold decodes, and panics the runtime. -/
theorem not_convertsTotally_height :
    Decodes ⟨2, .height 500000000, [], []⟩ ∧
      ¬ ConvertsTotally (fun _ => 0) ⟨2, .height 500000000, [], []⟩ := by
  refine ⟨⟨by decide, by decide, by simp, by simp, by simp⟩, ?_⟩
  intro h
  have htotal := h.total
  revert htotal
  decide

end Transaction

end Subcoin.Pallet
