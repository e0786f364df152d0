import Mathlib.Order.Lattice
import Mathlib.Data.List.Basic

/-!
# Ordered sets

An ordered set is the increasing list of its elements.
-/

/-- A set of elements of a linear order, as the list of its elements in increasing order. -/
structure SortedSet (α : Type) [LinearOrder α] where
  elems : List α
  sorted : elems.Pairwise (· < ·)

namespace SortedSet

variable {α : Type} [LinearOrder α]

instance : Membership α (SortedSet α) := ⟨fun s a => a ∈ s.elems⟩

variable {a b : α} {s : SortedSet α}

theorem mem_def : a ∈ s ↔ a ∈ s.elems := Iff.rfl

def empty : SortedSet α := ⟨[], List.Pairwise.nil⟩

@[simp] theorem not_mem_empty : a ∉ (empty : SortedSet α) := List.not_mem_nil

/-- The insertion of an element where it belongs; an element that is there stays once. -/
def place (a : α) : List α → List α
  | [] => [a]
  | b :: l => if a < b then a :: b :: l else if b < a then b :: place a l else b :: l

theorem mem_place {l : List α} : b ∈ place a l ↔ b = a ∨ b ∈ l := by
  induction l with
  | nil => simp [place]
  | cons c l ih =>
    unfold place
    split
    · rw [List.mem_cons]
    · split
      · rw [List.mem_cons, ih, List.mem_cons]
        tauto
      · rename_i hac hca
        obtain rfl : a = c := le_antisymm (not_lt.mp hca) (not_lt.mp hac)
        rw [List.mem_cons]
        tauto

theorem sorted_place {l : List α} (h : l.Pairwise (· < ·)) : (place a l).Pairwise (· < ·) := by
  induction l with
  | nil => exact List.pairwise_singleton _ _
  | cons c l ih =>
    obtain ⟨hc, hl⟩ := List.pairwise_cons.mp h
    unfold place
    split
    · rename_i hac
      refine List.pairwise_cons.mpr ⟨?_, h⟩
      intro x hx
      rcases List.mem_cons.mp hx with rfl | hx
      · exact hac
      · exact lt_trans hac (hc x hx)
    · split
      · rename_i hca
        refine List.pairwise_cons.mpr ⟨?_, ih hl⟩
        intro x hx
        rcases mem_place.mp hx with rfl | hx
        · exact hca
        · exact hc x hx
      · exact h

def insert (s : SortedSet α) (a : α) : SortedSet α := ⟨place a s.elems, sorted_place s.sorted⟩

def erase (s : SortedSet α) (a : α) : SortedSet α :=
  ⟨s.elems.erase a, s.sorted.sublist List.erase_sublist⟩

@[simp] theorem mem_insert : b ∈ s.insert a ↔ b = a ∨ b ∈ s :=
  mem_place

theorem nodup_elems (s : SortedSet α) : s.elems.Nodup := s.sorted.imp fun h => ne_of_lt h

@[simp] theorem mem_erase : b ∈ s.erase a ↔ b ≠ a ∧ b ∈ s :=
  s.nodup_elems.mem_erase_iff

end SortedSet
