import Mathlib.Data.List.Nodup
import Subcoin.Lib.HashSet

/-!
# Maps that can be iterated

A map is the list of its entries, one for each key, in the order in which the keys came first. That
is how an index map is iterated; a hash map is iterated in whatever order a `HashOrder` makes of it.
-/

structure IndexMap (κ ν : Type) where
  entries : List (κ × ν)
  nodup : (entries.map Prod.fst).Nodup

namespace IndexMap

variable {κ ν : Type}

def empty : IndexMap κ ν := ⟨[], List.nodup_nil⟩

/-- The values in the order in which a hash map is iterated. -/
def values (order : HashOrder) (m : IndexMap κ ν) : List ν := order.arrange (m.entries.map Prod.snd)

variable {m : IndexMap κ ν} {k k' : κ} {v v' : ν}

/-- Two entries of one key are one entry. -/
theorem eq_of_mem (hv : (k, v) ∈ m.entries) (hv' : (k, v') ∈ m.entries) : v = v' := by
  have heq : (k, v) = (k, v') := List.inj_on_of_nodup_map m.nodup hv hv' rfl
  exact (Prod.mk.injEq k v k v' ▸ heq).2

variable [DecidableEq κ]

def get (m : IndexMap κ ν) (k : κ) : Option ν :=
  (m.entries.find? fun e => e.1 = k).map Prod.snd

theorem get_eq_some : m.get k = some v ↔ (k, v) ∈ m.entries := by
  unfold get
  rw [Option.map_eq_some_iff]
  constructor
  · rintro ⟨⟨k', v'⟩, hfind, rfl⟩
    have hk : k' = k := by simpa using List.find?_some hfind
    exact hk ▸ List.mem_of_find?_eq_some hfind
  · intro hmem
    cases hfind : m.entries.find? fun e => e.1 = k with
    | none =>
      have hnot := List.find?_eq_none.mp hfind (k, v) hmem
      simp at hnot
    | some e =>
      have hk : e.1 = k := by simpa using List.find?_some hfind
      refine ⟨e, rfl, ?_⟩
      exact (eq_of_mem hmem (hk ▸ List.mem_of_find?_eq_some hfind)).symm

theorem get_eq_none : m.get k = none ↔ ∀ v, (k, v) ∉ m.entries := by
  rw [Option.eq_none_iff_forall_ne_some]
  exact forall_congr' fun v => not_congr get_eq_some

@[simp] theorem get_empty : (empty : IndexMap κ ν).get k = none := rfl

/-- A map is what its lookup says about entries. -/
theorem get_eq_of_mem_iff {f : κ → Option ν} (h : ∀ k v, (k, v) ∈ m.entries ↔ f k = some v) :
    m.get k = f k := by
  ext v
  exact get_eq_some.trans (h k v)

/-! ## Changes -/

/-- The value of a key is changed, if there is one (`entry(k).and_modify(f)`). -/
def modify (m : IndexMap κ ν) (k : κ) (f : ν → ν) : IndexMap κ ν where
  entries := m.entries.map fun e => if e.1 = k then (e.1, f e.2) else e
  nodup := by
    have hkeys : (m.entries.map fun e => if e.1 = k then (e.1, f e.2) else e).map Prod.fst =
        m.entries.map Prod.fst := by
      rw [List.map_map]
      refine List.map_congr_left fun e _ => ?_
      show (if e.1 = k then (e.1, f e.2) else e).1 = e.1
      split
      · rfl
      · rfl
    rw [hkeys]
    exact m.nodup

/-- A key that is there keeps its place. -/
def insert (m : IndexMap κ ν) (k : κ) (v : ν) : IndexMap κ ν :=
  if h : k ∈ m.entries.map Prod.fst then m.modify k fun _ => v
  else
    { entries := m.entries ++ [(k, v)]
      nodup := by
        rw [List.map_append, List.map_singleton, ← List.concat_eq_append]
        exact m.nodup.concat h }

def remove (m : IndexMap κ ν) (k : κ) : IndexMap κ ν where
  entries := m.entries.filter fun e => e.1 ≠ k
  nodup := m.nodup.sublist (List.filter_sublist.map Prod.fst)

/-- `retain`: every value is changed, or its key removed. -/
def retain (m : IndexMap κ ν) (f : κ → ν → Option ν) : IndexMap κ ν where
  entries := m.entries.filterMap fun e => (f e.1 e.2).map (e.1, ·)
  nodup := by
    refine m.nodup.sublist ?_
    induction m.entries with
    | nil => exact .refl _
    | cons e entries ih =>
      cases hf : f e.1 e.2 with
      | none => simpa [hf] using ih.cons e.1
      | some v => simpa [hf] using ih.cons_cons e.1

theorem entries_insert_of_notMem (h : k ∉ m.entries.map Prod.fst) :
    (m.insert k v).entries = m.entries ++ [(k, v)] := by
  unfold insert
  rw [dif_neg h]

@[simp] theorem get_modify {f : ν → ν} :
    (m.modify k f).get k' = if k' = k then (m.get k').map f else m.get k' := by
  refine get_eq_of_mem_iff (f := fun k' => if k' = k then (m.get k').map f else m.get k')
    fun a v => ?_
  show (a, v) ∈ m.entries.map _ ↔ _
  rw [List.mem_map]
  constructor
  · rintro ⟨e, hmem, heq⟩
    split at heq
    · rename_i hk
      cases heq
      rw [if_pos hk, get_eq_some.mpr hmem]
      rfl
    · rename_i hk
      subst heq
      rw [if_neg hk, get_eq_some.mpr hmem]
  · intro hget
    split at hget
    · rename_i hk
      obtain ⟨w, hw, rfl⟩ := Option.map_eq_some_iff.mp hget
      exact ⟨(a, w), get_eq_some.mp hw, if_pos hk⟩
    · rename_i hk
      exact ⟨(a, v), get_eq_some.mp hget, if_neg hk⟩

@[simp] theorem get_insert :
    (m.insert k v).get k' = if k' = k then some v else m.get k' := by
  unfold insert
  split
  · rename_i hmem
    rw [get_modify]
    split
    · rename_i hk
      obtain ⟨⟨a, w⟩, hw, rfl⟩ := List.mem_map.mp hmem
      rw [hk, get_eq_some.mpr hw]
      rfl
    · rfl
  · rename_i hmem
    refine get_eq_of_mem_iff (f := fun k' => if k' = k then some v else m.get k') fun a w => ?_
    show (a, w) ∈ m.entries ++ [(k, v)] ↔ _
    rw [List.mem_append, List.mem_singleton, Prod.mk.injEq]
    split
    · rename_i hk
      -- a key that is not there has no other entry
      have hnot : (a, w) ∉ m.entries := fun h => hmem (List.mem_map.mpr ⟨(a, w), h, hk⟩)
      rw [Option.some.injEq, or_iff_right hnot, and_iff_right hk, eq_comm]
    · rename_i hk
      simp [hk, get_eq_some]

@[simp] theorem get_remove :
    (m.remove k).get k' = if k' = k then none else m.get k' := by
  refine get_eq_of_mem_iff (f := fun k' => if k' = k then none else m.get k') fun a v => ?_
  show (a, v) ∈ m.entries.filter _ ↔ _
  rw [List.mem_filter]
  split
  · rename_i hk
    simp [hk]
  · rename_i hk
    simp [hk, get_eq_some]

@[simp] theorem get_retain {f : κ → ν → Option ν} :
    (m.retain f).get k = (m.get k).bind (f k) := by
  refine get_eq_of_mem_iff (f := fun k => (m.get k).bind (f k)) fun a v => ?_
  show (a, v) ∈ m.entries.filterMap _ ↔ _
  rw [List.mem_filterMap, Option.bind_eq_some_iff]
  constructor
  · rintro ⟨⟨a', v'⟩, hmem, heq⟩
    obtain ⟨w, hw, heq⟩ := Option.map_eq_some_iff.mp heq
    cases heq
    exact ⟨v', get_eq_some.mpr hmem, hw⟩
  · rintro ⟨v', hget, hv⟩
    refine ⟨(a, v'), get_eq_some.mp hget, ?_⟩
    rw [hv]
    rfl

end IndexMap
