import Mathlib.Data.List.Basic
import Mathlib.Data.List.Induction
import Mathlib.Logic.Function.Basic

/-!
# Maps as functions

A hash map that is only read by key is a function to options. The lemmas say what such a map holds
after one value was stored under the keys of a list (`foldl_update`), after the elements of a list
were stored under their own keys (`collect`), and after a set of keys was removed (`Cleared`).
-/

namespace Lookup

variable {κ α β : Type} [DecidableEq κ]

theorem foldl_update {l : List κ} {map : κ → β} {b : β} {k : κ} :
    l.foldl (fun map k => Function.update map k b) map k = if k ∈ l then b else map k := by
  induction l generalizing map with
  | nil => simp
  | cons k' l ih =>
    rw [List.foldl_cons, ih]
    by_cases hl : k ∈ l
    · simp [hl]
    · by_cases hk : k = k'
      · simp [hk]
      · simp [hl, hk]

/-- The elements of a list under their keys; of several with one key, the last. -/
def collect (key : α → κ) (l : List α) : κ → Option α :=
  l.foldl (fun map a => Function.update map (key a) (some a)) fun _ => none

variable {key : α → κ} {l : List α} {k : κ} {a : α}

theorem collect_concat :
    collect key (l ++ [a]) = Function.update (collect key l) (key a) (some a) := by
  unfold collect
  rw [List.foldl_append]
  rfl

theorem collect_eq_some (h : collect key l k = some a) : a ∈ l ∧ key a = k := by
  induction l using List.reverseRecOn with
  | nil => cases h
  | append_singleton l b ih =>
    rw [collect_concat] at h
    by_cases hk : k = key b
    · rw [hk, Function.update_self] at h
      obtain rfl := Option.some.inj h
      exact ⟨by simp, hk.symm⟩
    · rw [Function.update_of_ne hk] at h
      exact ⟨List.mem_append_left _ (ih h).1, (ih h).2⟩

theorem isSome_collect (ha : a ∈ l) : (collect key l (key a)).isSome = true := by
  induction l using List.reverseRecOn with
  | nil => cases ha
  | append_singleton l b ih =>
    rw [collect_concat]
    by_cases hk : key a = key b
    · rw [hk, Function.update_self]
      rfl
    · rw [Function.update_of_ne hk]
      refine ih ((List.mem_append.mp ha).resolve_right fun hb => hk ?_)
      rw [List.mem_singleton.mp hb]

/-- A map after values were stored under the keys of the elements of a list. -/
theorem foldl_update_collect {g : α → β} {map : κ → β} :
    l.foldl (fun map a => Function.update map (key a) (g a)) map k =
      ((collect key l k).map g).getD (map k) := by
  induction l using List.reverseRecOn with
  | nil => rfl
  | append_singleton l b ih =>
    rw [List.foldl_append, collect_concat]
    by_cases hk : k = key b
    · subst hk
      simp
    · rw [List.foldl_cons, List.foldl_nil, Function.update_of_ne hk, Function.update_of_ne hk, ih]

theorem isSome_collect_iff : (collect key l k).isSome = true ↔ ∃ a ∈ l, key a = k := by
  constructor
  · intro h
    obtain ⟨a, ha⟩ := Option.isSome_iff_exists.mp h
    exact ⟨a, collect_eq_some ha⟩
  · rintro ⟨a, ha, rfl⟩
    exact isSome_collect ha

/-- The map forgets the keys of a set. -/
structure Cleared (S : κ → Prop) (map map' : κ → Option α) : Prop where
  gone : ∀ k, S k → map' k = none
  kept : ∀ k, ¬ S k → map' k = map k

namespace Cleared

variable {S T : κ → Prop} {map map' map'' : κ → Option α}

omit [DecidableEq κ] in
theorem congr (h : Cleared S map map') (hST : ∀ k, S k ↔ T k) : Cleared T map map' :=
  ⟨fun k hk => h.gone k ((hST k).mpr hk), fun k hk => h.kept k (mt (hST k).mp hk)⟩

omit [DecidableEq κ] in
theorem trans (h : Cleared S map map') (h' : Cleared T map' map'') :
    Cleared (fun k => S k ∨ T k) map map'' where
  gone k hk := by
    by_cases hT : T k
    · exact h'.gone k hT
    · rw [h'.kept k hT, h.gone k (hk.resolve_right hT)]
  kept k hk := by
    rw [not_or] at hk
    rw [h'.kept k hk.2, h.kept k hk.1]

omit [DecidableEq κ] in
theorem eq_some (h : Cleared S map map') : map' k = some a ↔ ¬ S k ∧ map k = some a := by
  by_cases hS : S k
  · simp [h.gone k hS, hS]
  · simp [h.kept k hS, hS]

end Cleared

end Lookup
