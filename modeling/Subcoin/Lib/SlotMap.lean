import Mathlib.Algebra.BigOperators.Group.List.Basic
import Mathlib.Algebra.Order.Ring.Nat
import Mathlib.Data.List.Basic
import Mathlib.Data.List.Nodup

/-!
# Slot maps

A slot map hands out a key for every value it stores. A slot keeps a version, which is odd while
the slot is occupied; removing its value advances the version, so that the key stays invalid when
the slot is used again. Vacant slots are reused last in, first out.

`get_insert`, `get_remove` and `get_modify` say what each operation does to every key, and
`get_nextKey` that the key of an insertion is not in use.
-/

namespace SlotMap

structure Key where
  idx : Nat
  version : Nat
deriving DecidableEq, Repr

structure Slot (α : Type) where
  version : Nat
  value : Option α
deriving DecidableEq, Repr

variable {α : Type}

/-- The free list holds the vacant slots, each once. -/
structure WellFormed (slots : List (Slot α)) (free : List Nat) : Prop where
  nodup : free.Nodup
  mem_free : ∀ i, i ∈ free ↔ ∃ slot, slots[i]? = some slot ∧ slot.value = none

namespace WellFormed

variable {slots : List (Slot α)} {free : List Nat} {slot : Slot α} {i v : Nat}

theorem occupy (h : WellFormed slots (i :: free)) (a : α) :
    WellFormed (slots.set i ⟨v, some a⟩) free := by
  obtain ⟨hi, hnodup⟩ := List.nodup_cons.mp h.nodup
  refine ⟨hnodup, fun j => ?_⟩
  have hj := h.mem_free j
  by_cases hij : i = j
  · subst hij
    refine iff_of_false hi ?_
    rintro ⟨slot, hslot, hvacant⟩
    rw [List.getElem?_set_self'] at hslot
    obtain ⟨_, _, rfl⟩ := Option.map_eq_some_iff.mp hslot
    cases hvacant
  · rw [List.getElem?_set_ne hij, ← hj, List.mem_cons, or_iff_right (Ne.symm hij)]

theorem push (h : WellFormed slots []) (a : α) : WellFormed (slots ++ [⟨v, some a⟩]) [] := by
  refine ⟨List.nodup_nil, fun j => iff_of_false List.not_mem_nil ?_⟩
  rintro ⟨slot, hslot, hvacant⟩
  rw [List.getElem?_append] at hslot
  split at hslot
  · exact List.not_mem_nil ((h.mem_free j).mpr ⟨slot, hslot, hvacant⟩)
  · rw [List.getElem?_singleton] at hslot
    obtain ⟨_, heq⟩ := Option.ite_none_right_eq_some.mp hslot
    cases heq
    cases hvacant

section

variable (h : WellFormed slots free) (hslot : slots[i]? = some slot)
  (hvalue : slot.value.isSome = true)

include h hslot hvalue

/-- An occupied slot is not free. -/
theorem notMem_free : i ∉ free := by
  intro hmem
  obtain ⟨slot', hslot', hvacant⟩ := (h.mem_free i).mp hmem
  rw [hslot] at hslot'
  cases hslot'
  rw [hvacant] at hvalue
  cases hvalue

theorem vacate : WellFormed (slots.set i ⟨v, none⟩) (i :: free) := by
  refine ⟨List.nodup_cons.mpr ⟨h.notMem_free hslot hvalue, h.nodup⟩, fun j => ?_⟩
  by_cases hij : i = j
  · subst hij
    refine iff_of_true List.mem_cons_self ⟨⟨v, none⟩, ?_, rfl⟩
    rw [List.getElem?_set_self', hslot]
    rfl
  · rw [List.getElem?_set_ne hij, ← h.mem_free j, List.mem_cons, or_iff_right (Ne.symm hij)]

theorem replace (b : α) : WellFormed (slots.set i ⟨v, some b⟩) free := by
  refine ⟨h.nodup, fun j => ?_⟩
  by_cases hij : i = j
  · subst hij
    refine iff_of_false (h.notMem_free hslot hvalue) ?_
    rintro ⟨slot', hslot', hvacant⟩
    rw [List.getElem?_set_self', hslot] at hslot'
    cases hslot'
    cases hvacant
  · rw [List.getElem?_set_ne hij, h.mem_free j]

end

end WellFormed

end SlotMap

/-- A slot map: its slots, and the vacant ones among them, the last vacated first. -/
structure SlotMap (α : Type) where
  slots : List (SlotMap.Slot α)
  free : List Nat
  wellFormed : SlotMap.WellFormed slots free

namespace SlotMap

variable {α : Type}

def empty : SlotMap α := ⟨[], [], List.nodup_nil, by simp⟩

/-- The value of a slot under a version. -/
def Slot.at (slot : Slot α) (version : Nat) : Option α :=
  if slot.version = version then slot.value else none

variable {slot : Slot α} {version : Nat} {a : α} {k : Key} {m : SlotMap α} {f : α → Nat}

theorem Slot.isSome_value (h : (slot.at version).isSome = true) : slot.value.isSome = true := by
  unfold Slot.at at h
  split at h
  · exact h
  · cases h

def get (m : SlotMap α) (k : Key) : Option α := m.slots[k.idx]?.bind fun slot => slot.at k.version

theorem get_eq_some : m.get k = some a ↔ m.slots[k.idx]? = some ⟨k.version, some a⟩ := by
  unfold get
  rw [Option.bind_eq_some_iff]
  constructor
  · rintro ⟨slot, hslot, h⟩
    obtain ⟨hversion, hvalue⟩ := Option.ite_none_right_eq_some.mp h
    rw [hslot, ← hversion, ← hvalue]
  · intro h
    exact ⟨_, h, if_pos rfl⟩

/-- What a key finds when one slot is written. -/
theorem bind_set {slots : List (Slot α)} {i : Nat} {old : Slot α} (h : slots[i]? = some old) :
    ((slots.set i slot)[k.idx]?.bind fun slot => slot.at k.version) =
      if k.idx = i then slot.at k.version
      else slots[k.idx]?.bind fun slot => slot.at k.version := by
  by_cases hk : k.idx = i
  · rw [if_pos hk, hk, List.getElem?_set_self', h]
    rfl
  · rw [if_neg hk, List.getElem?_set_ne (Ne.symm hk)]

@[simp] theorem get_empty : (empty : SlotMap α).get k = none := rfl

/-- A vacant slot has no value under any key. -/
theorem get_of_mem_free (h : k.idx ∈ m.free) : m.get k = none := by
  obtain ⟨slot, hslot, hvacant⟩ := (m.wellFormed.mem_free k.idx).mp h
  simp [get, hslot, Slot.at, hvacant]

/-! ## Insertion -/

/-- The version that slot `i` gets when a value is put into it: the next odd one. -/
def occupiedVersion (m : SlotMap α) (i : Nat) : Nat := (m.slots[i]?.map Slot.version).getD 0 ||| 1

/-- The key of the next insertion. -/
def nextKey (m : SlotMap α) : Key :=
  match m.free with
  | i :: _ => ⟨i, m.occupiedVersion i⟩
  | [] => ⟨m.slots.length, 1⟩

def insert (m : SlotMap α) (a : α) : SlotMap α :=
  match h : m.free with
  | i :: rest =>
    ⟨m.slots.set i ⟨m.occupiedVersion i, some a⟩, rest, (h ▸ m.wellFormed).occupy a⟩
  | [] => ⟨m.slots ++ [⟨1, some a⟩], [], (h ▸ m.wellFormed).push a⟩

theorem get_nextKey : m.get m.nextKey = none := by
  unfold nextKey
  cases hfree : m.free with
  | nil => simp [get]
  | cons i rest => exact get_of_mem_free (by simp [hfree])

theorem Key.eq_mk {idx : Nat} : k = ⟨idx, version⟩ ↔ k.idx = idx ∧ k.version = version := by
  cases k
  simp

theorem get_insert : (m.insert a).get k = if k = m.nextKey then some a else m.get k := by
  unfold insert
  split
  · -- a vacant slot is reused, under which no key finds a value
    rename_i i rest hfree
    obtain ⟨slot, hslot, _⟩ := (m.wellFormed.mem_free i).mp (by simp [hfree])
    have hnext : m.nextKey = ⟨i, m.occupiedVersion i⟩ := by rw [nextKey, hfree]
    rw [get, bind_set hslot, hnext]
    by_cases hi : k.idx = i
    · have hold : m.get k = none := get_of_mem_free (by simp [hfree, hi])
      simp only [hi, Slot.at, hold, Key.eq_mk, true_and, if_true, eq_comm]
    · simp only [hi, Key.eq_mk, false_and, if_false, get]
  · rename_i hfree
    have hnext : m.nextKey = ⟨m.slots.length, 1⟩ := by rw [nextKey, hfree]
    rw [get, List.getElem?_append, hnext]
    split
    · rename_i hlt
      rw [if_neg (fun h => Nat.ne_of_lt hlt (Key.eq_mk.mp h).1)]
      rfl
    · rename_i hlt
      have hold : m.get k = none := by
        rw [get, List.getElem?_eq_none (Nat.le_of_not_lt hlt)]
        rfl
      rw [hold, List.getElem?_singleton]
      by_cases hidx : k.idx = m.slots.length
      · simp [Key.eq_mk, hidx, Slot.at, eq_comm]
      · have hpos : k.idx - m.slots.length ≠ 0 := by omega
        simp [Key.eq_mk, hidx, hpos]

/-! ## Removal -/

/-- What a key finds when the slot of a key in use is written, and no other version of it finds
anything. -/
theorem get_of_slots {m' : SlotMap α} {k' : Key} (h : m.get k = some a)
    (hslots : m'.slots = m.slots.set k.idx slot) (hother : ∀ v ≠ k.version, slot.at v = none) :
    m'.get k' = if k' = k then slot.at k.version else m.get k' := by
  have hslot := get_eq_some.mp h
  rw [get, hslots, bind_set hslot]
  by_cases hidx : k'.idx = k.idx
  · rw [if_pos hidx]
    split
    · rename_i heq
      rw [heq]
    · rename_i hne
      have hv : k'.version ≠ k.version := fun hv => hne (Key.eq_mk.mpr ⟨hidx, hv⟩)
      rw [hother _ hv, get, hidx, hslot, Option.bind_some, Slot.at, if_neg hv.symm]
  · rw [if_neg hidx, if_neg (fun heq => hidx (congrArg Key.idx heq))]
    rfl

def remove (m : SlotMap α) (k : Key) : SlotMap α :=
  match hslot : m.slots[k.idx]? with
  | some slot =>
    if h : (slot.at k.version).isSome = true then
      ⟨m.slots.set k.idx ⟨(slot.version + 1) % 2 ^ 32, none⟩, k.idx :: m.free,
        m.wellFormed.vacate hslot (Slot.isSome_value h)⟩
    else m
  | none => m

theorem remove_of_get_none (h : m.get k = none) : m.remove k = m := by
  unfold get at h
  unfold remove
  split
  · rename_i slot hslot
    rw [hslot, Option.bind_some] at h
    rw [dif_neg (by rw [h]; exact Bool.false_ne_true)]
  · rfl

theorem slots_remove (h : m.get k = some a) :
    (m.remove k).slots = m.slots.set k.idx ⟨(k.version + 1) % 2 ^ 32, none⟩ := by
  have hslot := get_eq_some.mp h
  unfold remove
  split
  · rename_i slot hslot'
    obtain rfl := Option.some.inj (hslot.symm.trans hslot')
    rw [dif_pos (by simp [Slot.at])]
  · rename_i hslot'
    rw [hslot] at hslot'
    cases hslot'

theorem get_remove {k' : Key} : (m.remove k).get k' = if k' = k then none else m.get k' := by
  cases hget : m.get k with
  | none =>
    rw [remove_of_get_none hget]
    split
    · rename_i heq
      rw [heq, hget]
    · rfl
  | some a =>
    rw [get_of_slots hget (slots_remove hget) fun _ _ => ite_self _]
    exact congrArg (fun found => if k' = k then found else m.get k') (ite_self _)

/-! ## Writing through a key -/

def modify (m : SlotMap α) (k : Key) (f : α → α) : SlotMap α :=
  match hslot : m.slots[k.idx]? with
  | some slot =>
    match h : slot.at k.version with
    | some a =>
      ⟨m.slots.set k.idx ⟨slot.version, some (f a)⟩, m.free,
        m.wellFormed.replace hslot (Slot.isSome_value (by rw [h]; rfl)) (f a)⟩
    | none => m
  | none => m

theorem modify_of_get_none {f : α → α} (h : m.get k = none) : m.modify k f = m := by
  unfold get at h
  unfold modify
  split
  · rename_i slot hslot
    rw [hslot, Option.bind_some] at h
    split
    · rename_i b hb
      rw [h] at hb
      cases hb
    · rfl
  · rfl

theorem slots_modify {f : α → α} (h : m.get k = some a) :
    (m.modify k f).slots = m.slots.set k.idx ⟨k.version, some (f a)⟩ := by
  have hslot := get_eq_some.mp h
  unfold modify
  split
  · rename_i slot hslot'
    obtain rfl := Option.some.inj (hslot.symm.trans hslot')
    split
    · rename_i b hb
      obtain rfl : a = b := by simpa [Slot.at] using hb
      rfl
    · rename_i hb
      simp [Slot.at] at hb
  · rename_i hslot'
    rw [hslot] at hslot'
    cases hslot'

theorem get_modify {k' : Key} {f : α → α} :
    (m.modify k f).get k' = if k' = k then (m.get k).map f else m.get k' := by
  cases hget : m.get k with
  | none =>
    rw [modify_of_get_none hget]
    split
    · rename_i heq
      rw [heq, hget]
      rfl
    · rfl
  | some a =>
    rw [get_of_slots hget (slots_modify hget) fun _ hv => if_neg hv.symm]
    exact congrArg (fun found => if k' = k then found else m.get k') (if_pos rfl)

/-! ## The keys in use -/

def keys (m : SlotMap α) : List Key :=
  m.slots.zipIdx.filterMap fun p =>
    if p.1.value.isSome then some ⟨p.2, p.1.version⟩ else none

def len (m : SlotMap α) : Nat := m.keys.length

theorem mem_keys : k ∈ m.keys ↔ (m.get k).isSome = true := by
  unfold keys
  rw [List.mem_filterMap, Option.isSome_iff_exists]
  constructor
  · rintro ⟨⟨slot, i⟩, hmem, h⟩
    obtain ⟨hsome, heq⟩ := Option.ite_none_right_eq_some.mp h
    obtain ⟨a, ha⟩ := Option.isSome_iff_exists.mp hsome
    obtain rfl := Option.some.inj heq
    refine ⟨a, get_eq_some.mpr ?_⟩
    rw [List.mem_zipIdx_iff_getElem?.mp hmem, ← ha]
  · rintro ⟨a, ha⟩
    rw [get_eq_some] at ha
    exact ⟨(⟨k.version, some a⟩, k.idx), List.mem_zipIdx_iff_getElem?.mpr ha, rfl⟩

/-! ## Sums over the values -/

/-- The sum of a function over the values. -/
def total (f : α → Nat) (m : SlotMap α) : Nat := ((m.slots.filterMap Slot.value).map f).sum

@[simp] theorem total_empty : (empty : SlotMap α).total f = 0 := rfl

theorem total_congr {g : α → Nat} (h : ∀ {k a}, m.get k = some a → f a = g a) :
    m.total f = m.total g := by
  refine congrArg List.sum (List.map_congr_left fun a ha => ?_)
  obtain ⟨slot, hslot, hvalue⟩ := List.mem_filterMap.mp ha
  obtain ⟨i, hi, rfl⟩ := List.getElem_of_mem hslot
  refine h (k := ⟨i, m.slots[i].version⟩) (get_eq_some.mpr ?_)
  rw [List.getElem?_eq_getElem hi, ← hvalue]

/-- When one slot is written, the sum follows its value. -/
theorem sum_set {slots : List (Slot α)} {i : Nat} {old : Slot α} (h : slots[i]? = some old) :
    (((slots.set i slot).filterMap Slot.value).map f).sum + old.value.elim 0 f =
      ((slots.filterMap Slot.value).map f).sum + slot.value.elim 0 f := by
  induction slots generalizing i with
  | nil => cases h
  | cons s slots ih =>
    have hcons : ∀ (s : Slot α) l, ((List.filterMap Slot.value (s :: l)).map f).sum =
        s.value.elim 0 f + ((l.filterMap Slot.value).map f).sum := by
      intro s l
      cases hs : s.value with
      | none => simp [hs]
      | some a => simp [hs]
    cases i with
    | zero =>
      obtain rfl := Option.some.inj h
      rw [List.set_cons_zero, hcons, hcons]
      omega
    | succ i =>
      have hrest := ih h
      rw [List.set_cons_succ, hcons, hcons]
      omega

theorem total_insert : (m.insert a).total f = m.total f + f a := by
  unfold insert
  split
  · rename_i i rest hfree
    obtain ⟨slot, hslot, hvacant⟩ := (m.wellFormed.mem_free i).mp (by simp [hfree])
    have hsum : (((m.slots.set i ⟨m.occupiedVersion i, some a⟩).filterMap Slot.value).map f).sum +
        slot.value.elim 0 f = _ := sum_set hslot
    rw [hvacant] at hsum
    exact hsum
  · simp [total]

theorem total_remove (h : m.get k = some a) : (m.remove k).total f + f a = m.total f := by
  unfold total
  rw [slots_remove h]
  exact sum_set (get_eq_some.mp h)

theorem total_modify {g : α → α} (h : m.get k = some a) :
    (m.modify k g).total f + f a = m.total f + f (g a) := by
  unfold total
  rw [slots_modify h]
  exact sum_set (get_eq_some.mp h)

/-- The values under different keys are among those summed up. -/
theorem sum_le_total {l : List Key} (hl : l.Nodup) :
    ((l.filterMap m.get).map f).sum ≤ m.total f := by
  induction l generalizing m with
  | nil => simp
  | cons k l ih =>
    rw [List.nodup_cons] at hl
    cases hk : m.get k with
    | none =>
      rw [List.filterMap_cons, hk]
      exact ih hl.2
    | some a =>
      have hrest : l.filterMap (m.remove k).get = l.filterMap m.get := by
        refine List.filterMap_congr fun j hj => ?_
        rw [get_remove, if_neg]
        rintro rfl
        exact hl.1 hj
      have hle : ((l.filterMap m.get).map f).sum ≤ (m.remove k).total f := hrest ▸ ih hl.2
      have htotal : (m.remove k).total f + f a = m.total f := total_remove hk
      rw [List.filterMap_cons, hk, List.map_cons, List.sum_cons]
      omega

end SlotMap
