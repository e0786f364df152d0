import Mathlib.Logic.Function.Iterate
import Mathlib.Tactic

/-!
# Trees given by parent pointers

A `ParentTree` is a set of nodes, each with a parent pointer and a height, such that every node but
the root has its parent in the set, one lower. The root's own pointer is never followed. Users speak
about ancestry through `ancestorAt n h`, the ancestor of `h` at height `n`, which is unchanged when
the tree grows (`Extends`).
-/

structure ParentTree (H : Type) where
  mem : H → Prop
  parent : H → H
  height : H → Nat
  root : H
  root_mem : mem root
  height_root : height root = 0
  parent_mem : ∀ h, mem h → h ≠ root → mem (parent h)
  height_parent : ∀ h, mem h → h ≠ root → height h = height (parent h) + 1

namespace ParentTree

variable {H : Type} {t t' : ParentTree H}

variable {h : H} {n : Nat}

theorem eq_root_of_height_eq_zero (hmem : t.mem h) (hzero : t.height h = 0) : h = t.root := by
  by_contra hr
  have := t.height_parent h hmem hr
  omega

theorem ne_root_of_height_pos (hpos : 0 < t.height h) : h ≠ t.root := by
  rintro rfl
  rw [t.height_root] at hpos
  omega

theorem iterate_parent (hmem : t.mem h) {k : Nat} (hk : k ≤ t.height h) :
    t.mem (t.parent^[k] h) ∧ t.height (t.parent^[k] h) = t.height h - k := by
  induction k with
  | zero => exact ⟨hmem, rfl⟩
  | succ k ih =>
    obtain ⟨hm, hh⟩ := ih (by omega)
    have hne : t.parent^[k] h ≠ t.root := ne_root_of_height_pos (by omega)
    rw [Function.iterate_succ_apply']
    have hp := t.height_parent _ hm hne
    exact ⟨t.parent_mem _ hm hne, by omega⟩

/-! ## The ancestor at a height -/

/-- The ancestor of `h` at height `n`, for `n` at most the height of `h`. -/
def ancestorAt (t : ParentTree H) (n : Nat) (h : H) : H := t.parent^[t.height h - n] h

@[simp] theorem ancestorAt_self (h : H) : t.ancestorAt (t.height h) h = h := by
  simp [ancestorAt]

theorem ancestorAt_mem (hmem : t.mem h) (hn : n ≤ t.height h) : t.mem (t.ancestorAt n h) :=
  (iterate_parent hmem (by omega)).1

theorem height_ancestorAt (hmem : t.mem h) (hn : n ≤ t.height h) :
    t.height (t.ancestorAt n h) = n := by
  have := (iterate_parent hmem (show t.height h - n ≤ t.height h by omega)).2
  rw [ancestorAt]
  omega

theorem ancestorAt_parent (hmem : t.mem h) (hr : h ≠ t.root) (hn : n ≤ t.height (t.parent h)) :
    t.ancestorAt n h = t.ancestorAt n (t.parent h) := by
  have hh := t.height_parent h hmem hr
  rw [ancestorAt, ancestorAt, show t.height h - n = (t.height (t.parent h) - n) + 1 by omega,
    Function.iterate_succ_apply]

theorem ancestorAt_ancestorAt (hmem : t.mem h) {m : Nat} (hmn : m ≤ n) (hn : n ≤ t.height h) :
    t.ancestorAt m (t.ancestorAt n h) = t.ancestorAt m h := by
  have hheight := height_ancestorAt hmem hn
  rw [ancestorAt, hheight, ancestorAt, ancestorAt, ← Function.iterate_add_apply]
  congr 1
  omega

/-- `a` lies on the way from `h` to the root. -/
def IsAncestor (t : ParentTree H) (a h : H) : Prop :=
  t.height a ≤ t.height h ∧ t.ancestorAt (t.height a) h = a

/-! ## Growth -/

/-- `t'` has the nodes of `t`, with the same pointers and heights, and maybe more. -/
structure Extends (t t' : ParentTree H) : Prop where
  root_eq : t'.root = t.root
  mem_of_mem : ∀ {h}, t.mem h → t'.mem h
  parent_eq : ∀ {h}, t.mem h → t'.parent h = t.parent h
  height_eq : ∀ {h}, t.mem h → t'.height h = t.height h

theorem Extends.iterate_eq (hext : t.Extends t') (hmem : t.mem h) {k : Nat} (hk : k ≤ t.height h) :
    t'.parent^[k] h = t.parent^[k] h := by
  induction k with
  | zero => rfl
  | succ k ih =>
    rw [Function.iterate_succ_apply', Function.iterate_succ_apply', ih (by omega)]
    exact hext.parent_eq (iterate_parent hmem (by omega)).1

theorem Extends.ancestorAt_eq (hext : t.Extends t') (hmem : t.mem h) (n : Nat) :
    t'.ancestorAt n h = t.ancestorAt n h := by
  rw [ancestorAt, ancestorAt, hext.height_eq hmem]
  exact hext.iterate_eq hmem (by omega)

end ParentTree
