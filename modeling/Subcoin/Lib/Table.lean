import Mathlib.Data.List.Basic
import Subcoin.Lib.IndexMap

/-!
# Tables with a primary key

A table of a database is a map from its primary key to its rows. The statements that write to it are
folds over lists of rows; the lemmas say what a key holds afterwards: after rows have been inserted
or replaced (`get_upsert`), after rows have been updated (`get_amend`), and after those above a
height were deleted (`get_retain_upto`). A table that is filled from a log in the order of heights
holds what the log says up to a cut (`Present`).
-/

variable {κ ν β : Type} [DecidableEq κ]

/-! ## Lists of rows -/

namespace Rows

/-- The row of a key: the first one in the list. -/
def find (rows : List (κ × ν)) (k : κ) : Option ν := (rows.find? fun r => r.1 = k).map Prod.snd

variable {rows rows' : List (κ × ν)} {k : κ} {v : ν}

theorem find_eq_some (h : (rows.map Prod.fst).Nodup) : find rows k = some v ↔ (k, v) ∈ rows :=
  IndexMap.get_eq_some (m := ⟨rows, h⟩)

theorem mem_of_find (h : find rows k = some v) : (k, v) ∈ rows := by
  obtain ⟨⟨k', v'⟩, hfind, rfl⟩ := Option.map_eq_some_iff.mp h
  have hk : k' = k := by simpa using List.find?_some hfind
  exact hk ▸ List.mem_of_find?_eq_some hfind

theorem find_eq_none : find rows k = none ↔ k ∉ rows.map Prod.fst := by
  unfold find
  rw [Option.map_eq_none_iff, List.find?_eq_none, List.mem_map]
  constructor
  · rintro h ⟨r, hr, hk⟩
    exact h r hr (decide_eq_true hk)
  · exact fun h r hr hk => h ⟨r, hr, of_decide_eq_true hk⟩

theorem find_append : find (rows ++ rows') k = (find rows k).or (find rows' k) := by
  unfold find
  rw [List.find?_append, Option.map_or]

theorem find_cons {r : κ × ν} : find (r :: rows) k = if r.1 = k then some r.2 else find rows k := by
  unfold find
  rw [List.find?_cons]
  by_cases h : r.1 = k
  · simp [h]
  · simp [h]

theorem find_map {f : κ → ν → β} :
    find (rows.map fun r => (r.1, f r.1 r.2)) k = (find rows k).map (f k) := by
  induction rows with
  | nil => rfl
  | cons r rows ih =>
    rw [List.map_cons, find_cons, find_cons, ih]
    by_cases hk : r.1 = k
    · subst hk
      rw [if_pos rfl, if_pos rfl, Option.map_some]
    · rw [if_neg hk, if_neg hk]

theorem find_filter (h : (rows.map Prod.fst).Nodup) {q : κ × ν → Bool} :
    find (rows.filter q) k = (find rows k).filter fun v => q (k, v) := by
  ext v
  have hnodup : ((rows.filter q).map Prod.fst).Nodup := h.sublist (List.filter_sublist.map _)
  rw [find_eq_some hnodup, List.mem_filter, Option.filter_eq_some_iff, find_eq_some h]

/-- Rows that come from the entries of a log, for the entries that meet a condition. -/
theorem flatMap_filter {α : Type} {l : List α} {f : α → List β} {p : α → Bool} {q : β → Bool}
    (h : ∀ x ∈ l, ∀ r ∈ f x, q r = p x) : (l.filter p).flatMap f = (l.flatMap f).filter q := by
  induction l with
  | nil => rfl
  | cons x l ih =>
    have hx : (f x).filter q = if p x = true then f x else [] := by
      split
      · rename_i hp
        exact List.filter_eq_self.mpr fun r hr => (h x (by simp) r hr).trans hp
      · rename_i hp
        exact List.filter_eq_nil_iff.mpr fun r hr => h x (by simp) r hr ▸ hp
    rw [List.filter_cons, List.flatMap_cons, List.filter_append, hx,
      ← ih fun y hy => h y (List.mem_cons_of_mem x hy)]
    split
    · rfl
    · rfl

end Rows

/-! ## Rows up to a height -/

/-- What a key holds is what it should hold, or it holds nothing and what it should hold is from a
height at or above the cut. -/
def Present (height : ν → Nat) (cut : Nat) (right got : Option ν) : Prop :=
  got = right ∨ got = none ∧ ∀ v, right = some v → cut ≤ height v

namespace Present

variable {height : ν → Nat} {cut cut' start stop : Nat} {right got new : Option ν}

theorem mono (h : Present height cut right got) (hle : cut' ≤ cut) :
    Present height cut' right got :=
  h.imp id fun ⟨hnone, habove⟩ => ⟨hnone, fun v hv => Nat.le_trans hle (habove v hv)⟩

/-- Below the cut nothing is missing. -/
theorem eq_of_lt (h : Present height cut right got) (hlt : ∀ v, right = some v → height v < cut) :
    got = right := by
  rcases h with heq | ⟨hnone, habove⟩
  · exact heq
  · cases hright : right with
    | none => exact hnone
    | some v => exact absurd (hlt v hright) (Nat.not_lt.mpr (habove v hright))

theorem eq_of_some {v : ν} (h : Present height cut right (some v)) : right = some v := by
  rcases h with heq | ⟨hnone, -⟩
  · exact heq.symm
  · cases hnone

/-- What should be there of the heights below `stop` is part of what should be there. -/
theorem of_filter (h : Present height cut (right.filter fun v => height v < stop) got)
    (hle : cut ≤ stop) : Present height cut right got := by
  cases right with
  | none => exact h
  | some v =>
    rw [Option.filter_some] at h
    split at h
    · exact h
    · rename_i hge
      have hnone : got = none := h.elim id And.left
      refine .inr ⟨hnone, fun v' hv' => ?_⟩
      cases hv'
      exact Nat.le_trans hle (Nat.not_lt.mp fun hlt => hge (decide_eq_true hlt))

/-- What is there of the heights below a cut is all that should be there. -/
theorem filter_eq (h : Present height cut right got) (hle : cut' ≤ cut) :
    (got.filter fun v => height v < cut') = right.filter fun v => height v < cut' := by
  rcases h with heq | ⟨hnone, habove⟩
  · rw [heq]
  · rw [hnone, Option.filter_none, eq_comm, Option.filter_eq_none_iff]
    intro v hv
    have hcut := habove v hv
    simp only [decide_eq_true_eq]
    omega

/-- What should be there of the heights from `start` to `stop` is written. -/
theorem write (h : Present height cut right got) (hstart : start ≤ cut)
    (hnew : new = right.filter fun v => start ≤ height v ∧ height v < stop) :
    Present height (max cut stop) right (new.or got) := by
  cases hright : right with
  | none =>
    rw [hnew, hright]
    rcases h with heq | ⟨hnone, -⟩
    · exact .inl (heq.trans hright)
    · exact .inl hnone
  | some v =>
    by_cases hv : start ≤ height v ∧ height v < stop
    · rw [hnew, hright, Option.filter_some, if_pos (decide_eq_true hv)]
      exact .inl rfl
    · rw [hnew, hright, Option.filter_some, if_neg (by simpa using hv), Option.none_or]
      rcases h with heq | ⟨hnone, habove⟩
      · exact .inl (heq.trans hright)
      · refine .inr ⟨hnone, fun v' hv' => ?_⟩
        cases hv'
        have hcut := habove v hright
        omega

end Present

/-! ## Statements -/

namespace IndexMap

variable {m m' : IndexMap κ ν} {k : κ}

/-- `INSERT OR REPLACE` of a list of rows. -/
def upsert (m : IndexMap κ ν) (rows : List (κ × ν)) : IndexMap κ ν :=
  rows.foldl (fun m r => m.insert r.1 r.2) m

/-- `UPDATE` of rows, one statement for each key. -/
def amend (f : β → ν → ν) (m : IndexMap κ ν) (updates : List (κ × β)) : IndexMap κ ν :=
  updates.foldl (fun m u => m.modify u.1 (f u.2)) m

/-- A row after an upsert is one of the new rows or was there before. -/
theorem mem_of_get_upsert {rows : List (κ × ν)} (h : (m.upsert rows).get k = some v) :
    (k, v) ∈ rows ∨ m.get k = some v := by
  unfold upsert at h
  induction rows generalizing m with
  | nil => exact Or.inr h
  | cons r rows ih =>
    rw [List.foldl_cons] at h
    obtain hrow | hget := ih h
    · exact Or.inl (List.mem_cons_of_mem _ hrow)
    · rw [get_insert] at hget
      split at hget
      · rename_i hk
        cases hget
        exact Or.inl (hk ▸ List.mem_cons_self)
      · exact Or.inr hget

theorem get_upsert {rows : List (κ × ν)} (h : (rows.map Prod.fst).Nodup) :
    (m.upsert rows).get k = (Rows.find rows k).or (m.get k) := by
  unfold upsert
  induction rows generalizing m with
  | nil => rfl
  | cons r rows ih =>
    obtain ⟨hnew, hnodup⟩ := List.nodup_cons.mp h
    rw [List.foldl_cons, ih hnodup, get_insert, Rows.find_cons]
    by_cases hk : r.1 = k
    · subst hk
      rw [Rows.find_eq_none.mpr hnew]
      simp
    · simp [hk, Ne.symm hk]

theorem get_amend {f : β → ν → ν} {updates : List (κ × β)} (h : (updates.map Prod.fst).Nodup) :
    (m.amend f updates).get k =
      (m.get k).map fun v => ((Rows.find updates k).map fun u => f u v).getD v := by
  unfold amend
  induction updates generalizing m with
  | nil =>
    show m.get k = (m.get k).map id
    rw [Option.map_id_apply]
  | cons u updates ih =>
    obtain ⟨hnew, hnodup⟩ := List.nodup_cons.mp h
    rw [List.foldl_cons, ih hnodup, get_modify, Rows.find_cons]
    by_cases hk : u.1 = k
    · subst hk
      rw [Rows.find_eq_none.mpr hnew, if_pos rfl, if_pos rfl, Option.map_map]
      rfl
    · rw [if_neg (Ne.symm hk), if_neg hk]

/-- `DELETE` of the rows above a height. -/
theorem get_retain_upto {height : κ → ν → Nat} {n : Nat} :
    (m.retain fun k v => if n < height k v then none else some v).get k =
      (m.get k).filter fun v => height k v < n + 1 := by
  rw [get_retain]
  cases m.get k with
  | none => rfl
  | some v =>
    by_cases hv : n < height k v
    · rw [Option.bind_some, if_pos hv, Option.filter_some,
        if_neg fun hlt => absurd (of_decide_eq_true hlt) (Nat.not_lt.mpr hv)]
    · rw [Option.bind_some, if_neg hv, Option.filter_some,
        if_pos (decide_eq_true (Nat.lt_succ_of_le (Nat.not_lt.mp hv)))]

end IndexMap
