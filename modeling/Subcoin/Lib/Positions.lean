import Mathlib.Data.List.Infix
import Mathlib.Data.List.Sort
import Mathlib.Tactic

/-!
# Positions in lists

`keepAt c pos l` keeps the items of a list whose positions satisfy `c`, the first one standing at
`pos`. `scan pattern l` is what a single pass over a list finds of a pattern: it takes the first
occurrence, continues after its end, and so finds occurrences that do not overlap. Every other
occurrence starts inside one that was taken (`scan_complete`), and by that the scan finds given
occurrences exactly when no other one starts outside them (`scan_eq_iff`).
-/

namespace List

variable {α : Type}

/-! ## Keeping positions -/

def keepAt (c : Nat → Bool) (pos : Nat) (l : List α) : List α :=
  ((l.zipIdx pos).filter fun x => c x.2).map Prod.fst

@[simp] theorem keepAt_nil (c : Nat → Bool) (pos : Nat) : keepAt c pos ([] : List α) = [] := rfl

theorem keepAt_cons (c : Nat → Bool) (pos : Nat) (a : α) (l : List α) :
    keepAt c pos (a :: l) = (if c pos then [a] else []) ++ keepAt c (pos + 1) l := by
  unfold keepAt
  rw [zipIdx_cons, filter_cons]
  cases c pos with
  | true => simp
  | false => simp

theorem keepAt_congr {c c' : Nat → Bool} {pos : Nat} {l : List α}
    (h : ∀ i, pos ≤ i → c i = c' i) : keepAt c pos l = keepAt c' pos l := by
  unfold keepAt
  rw [filter_congr fun x hx => h x.2 (le_snd_of_mem_zipIdx hx)]

theorem keepAt_of_forall {c : Nat → Bool} {pos : Nat} {l : List α}
    (h : ∀ i, pos ≤ i → c i = true) : keepAt c pos l = l := by
  unfold keepAt
  rw [filter_eq_self.mpr fun x hx => h x.2 (le_snd_of_mem_zipIdx hx), zipIdx_map_fst]

/-! ## Occurrences -/

variable {pattern l : List α} {q : Nat}

theorem infix_of_prefix_drop (h : pattern <+: l.drop q) : pattern <:+: l :=
  h.isInfix.trans (drop_suffix q l).isInfix

/-- Occurrences of the pattern that do not overlap, from left to right. -/
structure Separated (pattern l : List α) (places : List Nat) : Prop where
  occurs : ∀ p ∈ places, pattern <+: l.drop p
  apart : places.Pairwise fun p q => p + pattern.length ≤ q

/-- Every occurrence is one of the places or starts inside one of them. -/
def Covers (pattern l : List α) (places : List Nat) : Prop :=
  ∀ q, pattern <+: l.drop q → q ∈ places ∨ ∃ p ∈ places, p < q ∧ q < p + pattern.length

variable {places : List Nat}

theorem Separated.sorted (hne : pattern ≠ []) (h : Separated pattern l places) :
    places.Pairwise (· < ·) := by
  have hpos : 0 < pattern.length := length_pos_iff.mpr hne
  exact h.apart.imp fun hle => by omega

/-- Two of the places do not overlap. -/
theorem Separated.not_inside (h : Separated pattern l places) {p q : Nat} (hp : p ∈ places)
    (hq : q ∈ places) : ¬ (p < q ∧ q < p + pattern.length) := by
  rintro ⟨hlt, hinside⟩
  have hapart : places.Pairwise fun p q => p + pattern.length ≤ q ∨ q + pattern.length ≤ p :=
    h.apart.imp Or.inl
  have hsymm : Std.Symm fun p q => p + pattern.length ≤ q ∨ q + pattern.length ≤ p :=
    ⟨fun _ _ => Or.symm⟩
  rcases hapart.forall hp hq hlt.ne with h | h
  · omega
  · omega

/-- Places that cover all occurrences are those of any other such places: by induction on the
position, a place of the one lies inside no place of the other. -/
theorem Separated.subset {places' : List Nat} (h : Separated pattern l places)
    (h' : Separated pattern l places') (hcovers : Covers pattern l places)
    (hcovers' : Covers pattern l places') : ∀ q, q ∈ places → q ∈ places' := by
  intro q
  induction q using Nat.strong_induction_on with
  | _ q ih =>
    intro hq
    rcases hcovers' q (h.occurs q hq) with hmem | ⟨p, hp, hlt, hinside⟩
    · exact hmem
    · -- `p` starts before `q`; it is a place as well, or lies inside an earlier one
      rcases hcovers p (h'.occurs p hp) with hmem | ⟨p', hp', hlt', hinside'⟩
      · exact absurd ⟨hlt, hinside⟩ (h.not_inside hmem hq)
      · exact absurd ⟨hlt', hinside'⟩ (h'.not_inside (ih p' (by omega) hp') hp)

/-! ## A single pass -/

variable [DecidableEq α] {pos skip i : Nat}

/-- The occurrences a single pass finds in a list that starts at `pos`, of which it skips the first
`skip` items. -/
def scanFrom (pattern : List α) : Nat → Nat → List α → List Nat
  | _, _, [] => []
  | pos, skip + 1, _ :: l => scanFrom pattern (pos + 1) skip l
  | pos, 0, a :: l =>
    if pattern.isPrefixOf (a :: l) then
      pos :: scanFrom pattern (pos + 1) (pattern.length - 1) l
    else scanFrom pattern (pos + 1) 0 l

def scan (pattern l : List α) : List Nat := scanFrom pattern 0 0 l

theorem le_of_mem_scanFrom (h : q ∈ scanFrom pattern pos skip l) : pos + skip ≤ q := by
  induction l generalizing pos skip with
  | nil => simp [scanFrom] at h
  | cons a l ih =>
    cases skip with
    | succ skip =>
      rw [scanFrom] at h
      have := ih h
      omega
    | zero =>
      rw [scanFrom] at h
      split at h
      · rcases mem_cons.mp h with rfl | h
        · exact le_rfl
        · have := ih h
          omega
      · have := ih h
        omega

theorem occurs_of_mem_scanFrom (h : q ∈ scanFrom pattern pos skip l) :
    pattern <+: l.drop (q - pos) := by
  induction l generalizing pos skip with
  | nil => simp [scanFrom] at h
  | cons a l ih =>
    have hrest : ∀ {skip}, q ∈ scanFrom pattern (pos + 1) skip l →
        pattern <+: (a :: l).drop (q - pos) := by
      intro skip h
      have hle := le_of_mem_scanFrom h
      have hsub : q - pos = q - (pos + 1) + 1 := by omega
      rw [hsub, drop_succ_cons]
      exact ih h
    cases skip with
    | succ skip =>
      rw [scanFrom] at h
      exact hrest h
    | zero =>
      rw [scanFrom] at h
      split at h
      · rename_i hpre
        rcases mem_cons.mp h with rfl | h
        · rw [Nat.sub_self]
          exact isPrefixOf_iff_prefix.mp hpre
        · exact hrest h
      · exact hrest h

section

variable (hne : pattern ≠ [])

include hne

theorem pairwise_scanFrom :
    (scanFrom pattern pos skip l).Pairwise fun p q => p + pattern.length ≤ q := by
  have hpos : 0 < pattern.length := length_pos_iff.mpr hne
  induction l generalizing pos skip with
  | nil => exact Pairwise.nil
  | cons a l ih =>
    cases skip with
    | succ skip =>
      rw [scanFrom]
      exact ih
    | zero =>
      rw [scanFrom]
      split
      · refine pairwise_cons.mpr ⟨fun q hq => ?_, ih⟩
        have := le_of_mem_scanFrom hq
        omega
      · exact ih

/-- An occurrence that is not skipped is found, or starts inside one that is. -/
theorem scanFrom_complete (hi : skip ≤ i) (h : pattern <+: l.drop i) :
    pos + i ∈ scanFrom pattern pos skip l ∨
      ∃ p ∈ scanFrom pattern pos skip l, p < pos + i ∧ pos + i < p + pattern.length := by
  induction l generalizing pos skip i with
  | nil =>
    rw [drop_nil] at h
    exact absurd (prefix_nil.mp h) hne
  | cons a l ih =>
    -- an occurrence further on is one of the rest
    have hrest : ∀ {skip j}, i = j + 1 → skip ≤ j →
        pos + i ∈ scanFrom pattern (pos + 1) skip l ∨
          ∃ p ∈ scanFrom pattern (pos + 1) skip l, p < pos + i ∧ pos + i < p + pattern.length := by
      rintro skip j rfl hj
      have hshift : pos + (j + 1) = pos + 1 + j := by omega
      rw [drop_succ_cons] at h
      rw [hshift]
      exact ih hj h
    cases skip with
    | succ skip =>
      rw [scanFrom]
      cases i with
      | zero => exact absurd hi (Nat.not_succ_le_zero _)
      | succ j => exact hrest rfl (Nat.le_of_succ_le_succ hi)
    | zero =>
      rw [scanFrom]
      cases i with
      | zero =>
        rw [drop_zero] at h
        have hstart := isPrefixOf_iff_prefix.mpr h
        rw [if_pos hstart]
        exact Or.inl mem_cons_self
      | succ j =>
        split
        · by_cases hj : pattern.length - 1 ≤ j
          · rcases hrest rfl hj with hmem | ⟨p, hp, hlt⟩
            · exact Or.inl (mem_cons_of_mem _ hmem)
            · exact Or.inr ⟨p, mem_cons_of_mem _ hp, hlt⟩
          · exact Or.inr ⟨pos, mem_cons_self, by omega, by omega⟩
        · exact hrest rfl (Nat.zero_le j)

theorem separated_scan : Separated pattern l (scan pattern l) :=
  ⟨fun _ hp => occurs_of_mem_scanFrom hp, pairwise_scanFrom hne⟩

theorem covers_scan : Covers pattern l (scan pattern l) := by
  intro q hq
  have h : 0 + q ∈ scanFrom pattern 0 0 l ∨
      ∃ p ∈ scanFrom pattern 0 0 l, p < 0 + q ∧ 0 + q < p + pattern.length :=
    scanFrom_complete hne (Nat.zero_le q) hq
  rwa [Nat.zero_add] at h

/-- The scan finds the given places exactly when they cover all occurrences. -/
theorem scan_eq_iff (h : Separated pattern l places) :
    scan pattern l = places ↔ Covers pattern l places := by
  constructor
  · rintro rfl
    exact covers_scan hne
  · intro hcovers
    have hscan : Separated pattern l (scan pattern l) := separated_scan hne
    refine Pairwise.eq_of_mem_iff (hscan.sorted hne) (h.sorted hne) fun q => ?_
    exact ⟨hscan.subset h (covers_scan hne) hcovers q, h.subset hscan hcovers (covers_scan hne) q⟩

theorem scan_eq_nil_iff : scan pattern l = [] ↔ ¬ pattern <:+: l := by
  constructor
  · rintro hnil ⟨s, t, rfl⟩
    have hoccurs : pattern <+: (s ++ pattern ++ t).drop s.length := by
      rw [append_assoc, drop_left]
      exact prefix_append pattern t
    rcases covers_scan hne s.length hoccurs with hmem | ⟨p, hp, _⟩
    · rw [hnil] at hmem
      cases hmem
    · rw [hnil] at hp
      cases hp
  · intro h
    refine eq_nil_iff_forall_not_mem.mpr fun q hq => h ?_
    exact infix_of_prefix_drop ((separated_scan hne).occurs q hq)

end

end List
