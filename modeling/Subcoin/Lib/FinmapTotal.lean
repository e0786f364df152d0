import Mathlib.Algebra.BigOperators.Intervals
import Mathlib.Algebra.Order.BigOperators.Group.Finset
import Mathlib.Data.Finmap
import Mathlib.Tactic

/-!
# Totals over finite maps

`Finmap.total w m` adds up the weight `w v` of every value `v` of the map `m`. The sum may range
over any set that holds the keys, and over no list of different keys does it come out larger. The
number of entries is the number of keys; an insertion adds one unless it overwrites a value.
-/

namespace Finmap

variable {α β : Type} [DecidableEq α] (w : β → Nat)

/-- The weight held at a key: that of its value, zero when the key is absent. -/
def weightAt (m : Finmap fun _ : α => β) (k : α) : Nat := ((m.lookup k).map w).getD 0

def total (m : Finmap fun _ : α => β) : Nat := ∑ k ∈ m.keys, weightAt w m k

variable {w}

variable {m : Finmap fun _ : α => β}

theorem weightAt_of_notMem {k : α} (h : k ∉ m) : weightAt w m k = 0 := by
  simp [weightAt, lookup_eq_none.mpr h]

theorem total_eq_sum {s : Finset α} (h : m.keys ⊆ s) : total w m = ∑ k ∈ s, weightAt w m k := by
  refine Finset.sum_subset h ?_
  intro k _ hk
  exact weightAt_of_notMem fun hm => hk (mem_keys.mpr hm)

@[simp] theorem total_empty : total w (∅ : Finmap fun _ : α => β) = 0 := by
  simp [total]

theorem sum_weightAt_le_total (m : Finmap fun _ : α => β) {l : List α} (h : l.Nodup) :
    (l.map (weightAt w m)).sum ≤ total w m := by
  have hlist : (l.map (weightAt w m)).sum = ∑ k ∈ l.toFinset, weightAt w m k :=
    (List.sum_toFinset _ h).symm
  rw [hlist, total_eq_sum (show m.keys ⊆ m.keys ∪ l.toFinset from Finset.subset_union_left)]
  exact Finset.sum_le_sum_of_subset Finset.subset_union_right

/-! ## The number of entries -/

theorem card_keys_insert (m : Finmap fun _ : α => β) (k : α) (v : β) :
    (m.insert k v).keys.card + (if k ∈ m then 1 else 0) = m.keys.card + 1 := by
  have hkeys : (m.insert k v).keys = Insert.insert k m.keys := by
    ext a
    simp [mem_keys, mem_insert]
  rw [hkeys]
  split
  · rename_i h
    rw [Finset.insert_eq_of_mem (mem_keys.mpr h)]
  · rename_i h
    rw [Finset.card_insert_of_notMem (fun hk => h (mem_keys.mp hk))]

theorem card_keys_erase {k : α} (h : k ∈ m) : (m.erase k).keys.card + 1 = m.keys.card := by
  rw [keys_erase]
  exact Finset.card_erase_add_one (mem_keys.mpr h)

end Finmap
