import Mathlib.Algebra.BigOperators.Intervals
import Subcoin.Bitcoin.Types

/-!
# Subcoin — runtime primitives

The types the runtime stores (`Coin`, and the runtime's own `Txid` and `OutPoint`, which keep the
txid in reversed byte order) and the block subsidy with its bound: whatever the length of the
chain, the subsidies of its blocks add up to less than 21 million coins.
-/

namespace Subcoin

structure Coin where
  isCoinbase : Bool
  amount : Nat
  height : Nat
  scriptPubkey : List UInt8
deriving DecidableEq

namespace Runtime

/-- The runtime's `Txid`, in reversed byte order. -/
structure Txid where
  h256 : Hash256
deriving DecidableEq

namespace Txid

def ofBitcoin (txid : Subcoin.Txid) : Txid := ⟨txid.hash.reverse⟩

def toBitcoin (txid : Txid) : Subcoin.Txid := ⟨txid.h256.reverse⟩

@[simp] theorem toBitcoin_ofBitcoin (txid : Subcoin.Txid) : (ofBitcoin txid).toBitcoin = txid := by
  simp [ofBitcoin, toBitcoin]

end Txid

structure OutPoint where
  txid : Txid
  vout : Nat
deriving DecidableEq

namespace OutPoint

def ofBitcoin (o : Subcoin.OutPoint) : OutPoint := ⟨Txid.ofBitcoin o.txid, o.vout⟩

def toBitcoin (o : OutPoint) : Subcoin.OutPoint := ⟨o.txid.toBitcoin, o.vout⟩

@[simp] theorem toBitcoin_ofBitcoin (o : Subcoin.OutPoint) : (ofBitcoin o).toBitcoin = o := by
  simp [ofBitcoin, toBitcoin]

@[simp] theorem ofBitcoin_toBitcoin (o : OutPoint) : ofBitcoin o.toBitcoin = o := by
  simp [ofBitcoin, toBitcoin, Txid.ofBitcoin, Txid.toBitcoin]

theorem ofBitcoin_injective : Function.Injective ofBitcoin :=
  Function.LeftInverse.injective toBitcoin_ofBitcoin

@[simp] theorem ofBitcoin_inj {o o' : Subcoin.OutPoint} : ofBitcoin o = ofBitcoin o' ↔ o = o' :=
  ofBitcoin_injective.eq_iff

end OutPoint

end Runtime

/-! ## Block subsidy -/

/-- `COIN`: one bitcoin in satoshi. -/
def coinValue : Nat := 100000000

def initialSubsidy : Nat := 50 * coinValue

def halvingInterval : Nat := 210000

def blockSubsidy (height subsidyHalvingInterval : Nat) : Nat :=
  let halvings := height / subsidyHalvingInterval
  -- Force block reward to zero when right shift is undefined.
  if 64 ≤ halvings then 0 else initialSubsidy >>> halvings

def bitcoinBlockSubsidy (height : Nat) : Nat := blockSubsidy height halvingInterval

/-- The subsidy of every block of halving period `k`. -/
def periodSubsidy (k : Nat) : Nat := if 64 ≤ k then 0 else initialSubsidy >>> k

theorem bitcoinBlockSubsidy_period {k x : Nat} (hx : x < halvingInterval) :
    bitcoinBlockSubsidy (halvingInterval * k + x) = periodSubsidy k := by
  have hdiv : (halvingInterval * k + x) / halvingInterval = k := by
    rw [Nat.mul_add_div (by decide), Nat.div_eq_of_lt hx, Nat.add_zero]
  simp [bitcoinBlockSubsidy, blockSubsidy, periodSubsidy, hdiv]

theorem sum_subsidy_periods (k : Nat) :
    ∑ h ∈ Finset.range (halvingInterval * k), bitcoinBlockSubsidy h =
      halvingInterval * ∑ j ∈ Finset.range k, periodSubsidy j := by
  induction k with
  | zero => simp
  | succ k ih =>
    have hperiod : ∑ x ∈ Finset.range halvingInterval,
        bitcoinBlockSubsidy (halvingInterval * k + x) = halvingInterval * periodSubsidy k := by
      rw [Finset.sum_congr rfl fun x hx => bitcoinBlockSubsidy_period (Finset.mem_range.mp hx)]
      simp
    rw [Nat.mul_succ, Finset.sum_range_add, ih, hperiod, Finset.sum_range_succ, Nat.mul_add]

theorem sum_periodSubsidy (n : Nat) :
    ∑ j ∈ Finset.range (64 + n), periodSubsidy j = ∑ j ∈ Finset.range 64, periodSubsidy j := by
  rw [Finset.sum_range_add]
  simp [periodSubsidy]

/-- The most the subsidies of a chain can add up to, in satoshi. -/
def maxSubsidy : Nat := 2099999997690000

/-- **Subsidy cap.** However long the chain, the subsidies of blocks `1..n` stay within the cap. -/
theorem sum_subsidy_le (n : Nat) :
    ∑ h ∈ Finset.Icc 1 n, bitcoinBlockSubsidy h ≤ maxSubsidy := by
  have hsub : Finset.Icc 1 n ⊆ Finset.range (halvingInterval * (64 + n)) := by
    intro h hh
    rw [Finset.mem_Icc] at hh
    rw [Finset.mem_range, halvingInterval]
    omega
  calc ∑ h ∈ Finset.Icc 1 n, bitcoinBlockSubsidy h
      ≤ ∑ h ∈ Finset.range (halvingInterval * (64 + n)), bitcoinBlockSubsidy h :=
        Finset.sum_le_sum_of_subset hsub
    _ = halvingInterval * ∑ j ∈ Finset.range 64, periodSubsidy j := by
        rw [sum_subsidy_periods, sum_periodSubsidy]
    _ = maxSubsidy := by decide

theorem bitcoinBlockSubsidy_le (height : Nat) : bitcoinBlockSubsidy height ≤ initialSubsidy := by
  unfold bitcoinBlockSubsidy blockSubsidy
  simp only
  split
  · exact Nat.zero_le _
  · rw [Nat.shiftRight_eq_div_pow]
    exact Nat.div_le_self _ _

end Subcoin
