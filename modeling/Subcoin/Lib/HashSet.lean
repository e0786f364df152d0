import Mathlib.Data.List.Nodup
import Mathlib.Data.List.Perm.Basic

/-!
# Hash sets

A hash set is a list without repetition, in the order of insertion. The order in which the set is
iterated is another one, that no code may rely on: it is given by a `HashOrder`, which can be any
rearrangement.
-/

/-- The iteration order of hash sets and hash maps. -/
structure HashOrder where
  arrange : {α : Type} → List α → List α
  perm : ∀ {α : Type} (l : List α), (arrange l).Perm l

namespace HashOrder

/-- Iteration in the order of insertion. -/
def insertion : HashOrder := ⟨fun l => l, fun _ => .refl _⟩

variable (order : HashOrder) {α : Type} {l : List α}

variable {a : α}

@[simp] theorem mem_arrange : a ∈ order.arrange l ↔ a ∈ l := (order.perm l).mem_iff

theorem nodup_arrange : (order.arrange l).Nodup ↔ l.Nodup := (order.perm l).nodup_iff

end HashOrder

/-- A set, as the list of its elements without repetition. -/
structure HashSet (α : Type) where
  elems : List α
  nodup : elems.Nodup
deriving DecidableEq

namespace HashSet

variable {α : Type}

instance : Membership α (HashSet α) := ⟨fun s a => a ∈ s.elems⟩

variable {s : HashSet α} {b : α}

theorem mem_def : a ∈ s ↔ a ∈ s.elems := Iff.rfl

instance [DecidableEq α] (s : HashSet α) (a : α) : Decidable (a ∈ s) :=
  inferInstanceAs (Decidable (a ∈ s.elems))

def empty : HashSet α := ⟨[], List.nodup_nil⟩

def len (s : HashSet α) : Nat := s.elems.length

def isEmpty (s : HashSet α) : Bool := s.elems.isEmpty

/-- The elements in the order in which they are iterated. -/
def iter (order : HashOrder) (s : HashSet α) : List α := order.arrange s.elems

@[simp] theorem not_mem_empty : a ∉ (empty : HashSet α) := List.not_mem_nil

@[simp] theorem mem_iter {order : HashOrder} : a ∈ s.iter order ↔ a ∈ s :=
  order.mem_arrange

theorem isEmpty_eq_false_iff : s.isEmpty = false ↔ ∃ a, a ∈ s := by
  unfold isEmpty
  rw [List.isEmpty_eq_false_iff]
  exact ⟨fun h => List.exists_mem_of_ne_nil _ h, fun ⟨_, ha⟩ => List.ne_nil_of_mem ha⟩

theorem nodup_iter {order : HashOrder} : (s.iter order).Nodup :=
  order.nodup_arrange.mpr s.nodup

variable [DecidableEq α]

def insert (s : HashSet α) (a : α) : HashSet α :=
  if h : a ∈ s.elems then s
  else ⟨s.elems ++ [a], List.concat_eq_append ▸ s.nodup.concat h⟩

def erase (s : HashSet α) (a : α) : HashSet α := ⟨s.elems.erase a, s.nodup.erase a⟩

/-- The elements that are not in a list. -/
def without (s : HashSet α) (l : List α) : HashSet α :=
  ⟨s.elems.filter (· ∉ l), s.nodup.filter _⟩

/-- `extend`: the elements of a list are inserted one after the other. -/
def extend (s : HashSet α) (l : List α) : HashSet α := l.foldl insert s

@[simp] theorem mem_insert : b ∈ s.insert a ↔ b = a ∨ b ∈ s := by
  unfold insert
  split
  · rename_i h
    constructor
    · exact Or.inr
    · rintro (rfl | hb)
      · exact h
      · exact hb
  · simp [mem_def, or_comm]

@[simp] theorem mem_erase : b ∈ s.erase a ↔ b ≠ a ∧ b ∈ s :=
  s.nodup.mem_erase_iff

@[simp] theorem mem_without {l : List α} : b ∈ s.without l ↔ b ∈ s ∧ b ∉ l := by
  simp [mem_def, without]

@[simp] theorem mem_extend {l : List α} : b ∈ s.extend l ↔ b ∈ s ∨ b ∈ l := by
  unfold extend
  induction l generalizing s with
  | nil => simp
  | cons a l ih =>
    rw [List.foldl_cons, ih, mem_insert, List.mem_cons]
    tauto

end HashSet
