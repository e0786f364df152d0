import Mathlib.Data.List.Forall2
import Mathlib.Data.List.NodupEquivFin

/-!
# Matching two lists in order

An assignment of the items of one list to the items of another keeps their order, uses no item of
the second list twice and relates each item to the one it is assigned to. Mathlib has this relation
as `List.SublistForall₂`. The first item of the second list decides how a search may go on: when it
fits the first item of the first list the two may be assigned to each other, because an assignment
that uses a later item can be exchanged for one that uses this one.
-/

namespace List

variable {α β : Type} {R : α → β → Prop} {a : α} {b : β} {l1 : List α} {l2 : List β}

theorem sublistForall₂_iff_exists_orderEmbedding :
    SublistForall₂ R l1 l2 ↔
      ∃ f : Fin l1.length ↪o Fin l2.length, ∀ i, R (l1.get i) (l2.get (f i)) := by
  rw [sublistForall₂_iff]
  constructor
  · rintro ⟨l, hforall, hsub⟩
    obtain ⟨f, hf⟩ := sublist_iff_exists_fin_orderEmbedding_get_eq.mp hsub
    obtain ⟨hlen, hget⟩ := forall₂_iff_get.mp hforall
    refine ⟨(Fin.castOrderIso hlen).toOrderEmbedding.trans f, fun i => ?_⟩
    have hi := hget i i.isLt (hlen ▸ i.isLt)
    rw [hf] at hi
    exact hi
  · rintro ⟨f, hf⟩
    have hlen : (ofFn fun i => l2.get (f i)).length = l1.length := length_ofFn
    refine ⟨ofFn fun i => l2.get (f i), forall₂_iff_get.mpr ⟨hlen.symm, ?_⟩, ?_⟩
    · intro i h1 _
      simpa using hf ⟨i, h1⟩
    · refine sublist_iff_exists_fin_orderEmbedding_get_eq.mpr
        ⟨(Fin.castOrderIso hlen).toOrderEmbedding.trans f, fun i => ?_⟩
      rw [get_ofFn]
      rfl

theorem SublistForall₂.of_cons (h : SublistForall₂ R (a :: l1) l2) : SublistForall₂ R l1 l2 := by
  induction l2 with
  | nil => cases h
  | cons b l2 ih =>
    cases h with
    | cons _ hrest => exact .cons_right hrest
    | cons_right hrest => exact .cons_right (ih hrest)

theorem SublistForall₂.length_le (h : SublistForall₂ R l1 l2) : l1.length ≤ l2.length := by
  obtain ⟨l, hforall, hsub⟩ := sublistForall₂_iff.mp h
  exact hforall.length_eq ▸ hsub.length_le

/-- The exchange: two first items that fit are assigned to each other. -/
theorem sublistForall₂_cons_of_rel (h : R a b) :
    SublistForall₂ R (a :: l1) (b :: l2) ↔ SublistForall₂ R l1 l2 := by
  refine ⟨fun hmatch => ?_, .cons h⟩
  cases hmatch with
  | cons _ hrest => exact hrest
  | cons_right hrest => exact hrest.of_cons

/-- A first item that does not fit is of no use to the items after it either. -/
theorem sublistForall₂_cons_of_not_rel (h : ¬ R a b) :
    SublistForall₂ R (a :: l1) (b :: l2) ↔ SublistForall₂ R (a :: l1) l2 := by
  refine ⟨fun hmatch => ?_, .cons_right⟩
  cases hmatch with
  | cons hrel _ => exact absurd hrel h
  | cons_right hrest => exact hrest

end List
