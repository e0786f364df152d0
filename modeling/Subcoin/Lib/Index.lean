import Subcoin.Lib.SortedSet
import Mathlib.Logic.Function.Basic

/-!
# Indexes of a collection

The keys of a collection are a partial function `K` from the ids of its elements. An index of it
relates a key to an id; it is exact when it holds the key of every element and nothing else. Hash
maps and ordered sets of pairs are such relations, and the lemmas say how an index has to follow
an insertion into the collection, a removal and a change of a key.
-/

namespace KeyIndex

variable {ι κ : Type} {K : ι → Option κ} {R R' : κ → ι → Prop} {i : ι} {k k' : κ}

/-- The index holds every element under its key, and nothing else. -/
def Exact (K : ι → Option κ) (R : κ → ι → Prop) : Prop := ∀ k i, R k i ↔ K i = some k

variable [DecidableEq ι]

theorem Exact.insert (h : Exact K R) (hi : K i = none)
    (hR : ∀ k' j, R' k' j ↔ k' = k ∧ j = i ∨ R k' j) :
    Exact (Function.update K i (some k)) R' := by
  intro k' j
  rw [hR, h k' j]
  by_cases hj : j = i
  · subst hj
    simp [hi, eq_comm]
  · simp [hj]

theorem Exact.remove (h : Exact K R) (hi : K i = some k)
    (hR : ∀ k' j, R' k' j ↔ ¬ (k' = k ∧ j = i) ∧ R k' j) : Exact (Function.update K i none) R' := by
  intro k' j
  rw [hR, h k' j]
  by_cases hj : j = i
  · subst hj
    simp [hi, eq_comm]
  · simp [hj]

/-! ## Hash maps -/

section

variable [DecidableEq κ] {map : κ → Option ι}

section

variable (h : Exact K fun k i => map k = some i)

include h

/-- A key is given to an element that has none, or has this one, and the key is free or names the
element already. -/
theorem Exact.assign_map (hi : ∀ k', K i = some k' → k' = k) (hk : ∀ j, map k = some j → j = i) :
    Exact (Function.update K i (some k))
      fun k' j => Function.update map k (some i) k' = some j := by
  intro k' j
  by_cases hk' : k' = k
  · subst hk'
    by_cases hj : j = i
    · simp [hj]
    · have hother : K j ≠ some k' := fun hj' => hj (hk j ((h k' j).mpr hj'))
      simp [hj, hother, Ne.symm hj]
  · by_cases hj : j = i
    · subst hj
      have hother : map k' ≠ some j := fun hmap => hk' (hi k' ((h k' j).mp hmap))
      simp [hk', hother, Ne.symm hk']
    · simpa [hk', hj] using h k' j

theorem Exact.insert_map (hi : K i = none) (hk : map k = none) :
    Exact (Function.update K i (some k))
      fun k' j => Function.update map k (some i) k' = some j :=
  h.assign_map (by simp [hi]) (by simp [hk])

theorem Exact.remove_map (hi : K i = some k) :
    Exact (Function.update K i none) fun k' j => Function.update map k none k' = some j := by
  refine h.remove hi fun k' j => ?_
  by_cases hk' : k' = k
  · subst hk'
    have hmap : map k' = some i := (h k' i).mpr hi
    simp [hmap, eq_comm]
  · simp [hk']

end

end

/-! ## Ordered sets -/

section

variable {β : Type} [LinearOrder β] {pair : κ → ι → β} {s : SortedSet β}
  (hpair : ∀ {k k' i i'}, pair k i = pair k' i' ↔ k = k' ∧ i = i')
include hpair

section

variable (h : Exact K fun k i => pair k i ∈ s)

include h

theorem Exact.insert_sorted (hi : K i = none) :
    Exact (Function.update K i (some k)) fun k' j => pair k' j ∈ s.insert (pair k i) :=
  h.insert hi fun k' j => by rw [SortedSet.mem_insert, hpair]

theorem Exact.remove_sorted (hi : K i = some k) :
    Exact (Function.update K i none) fun k' j => pair k' j ∈ s.erase (pair k i) :=
  h.remove hi fun k' j => by rw [SortedSet.mem_erase, Ne, hpair]

/-- An element under a new key: the old pair goes, the new one comes. -/
theorem Exact.replace_sorted (hi : K i = some k) :
    Exact (Function.update K i (some k'))
      fun k'' j => pair k'' j ∈ (s.erase (pair k i)).insert (pair k' i) := by
  have hremoved := (h.remove_sorted hpair hi).insert_sorted hpair (Function.update_self ..)
    (k := k')
  rwa [Function.update_idem] at hremoved

end

end

end KeyIndex
