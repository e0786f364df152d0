import Mathlib.Algebra.Order.BigOperators.Group.List
import Mathlib.Algebra.Order.Ring.Int
import Mathlib.Data.List.Induction
import Subcoin.Lib.Table

/-!
# Amounts in tables

Amounts are collected under their keys before they are inserted (`get_tally`), and sums over a table
only depend on what its keys hold (`total_eq`).
-/

variable {κ ν β : Type} [DecidableEq κ]

namespace IndexMap

/-! ## Amounts under keys -/

/-- An amount is added under a key (`entry(k).or_insert(0) += amount`). -/
def add (m : IndexMap κ Int) (entry : κ × Int) : IndexMap κ Int :=
  m.insert entry.1 ((m.get entry.1).getD 0 + entry.2)

/-- The amounts of a list, collected under their keys. -/
def tally (entries : List (κ × Int)) : IndexMap κ Int := entries.foldl add .empty

variable {e : κ × Int}

theorem tally_concat {entries : List (κ × Int)} :
    tally (entries ++ [e]) = (tally entries).add e := by
  unfold tally
  rw [List.foldl_append]
  rfl

end IndexMap

namespace Rows

/-- The sum of the amounts under a key, if there are any. -/
def sumAt (entries : List (κ × Int)) (k : κ) : Option Int :=
  if k ∈ entries.map Prod.fst then some ((entries.filter fun e => e.1 = k).map Prod.snd).sum
  else none

variable {entries entries' : List (κ × Int)} {k : κ}

theorem sumAt_eq_none : sumAt entries k = none ↔ k ∉ entries.map Prod.fst := by
  unfold sumAt
  simp

theorem filter_of_notMem (h : k ∉ entries.map Prod.fst) :
    entries.filter (fun e => e.1 = k) = [] := by
  rw [List.filter_eq_nil_iff]
  intro e he hk
  exact h (List.mem_map.mpr ⟨e, he, of_decide_eq_true hk⟩)

theorem getD_sumAt :
    (sumAt entries k).getD 0 = ((entries.filter fun e => e.1 = k).map Prod.snd).sum := by
  unfold sumAt
  split
  · rfl
  · rename_i h
    rw [filter_of_notMem h]
    rfl

theorem sumAt_filter {q : κ → Bool} :
    sumAt (entries.filter fun e => q e.1) k = (sumAt entries k).filter fun _ => q k := by
  cases hq : q k with
  | true =>
    have hmem : k ∈ (entries.filter fun e => q e.1).map Prod.fst ↔ k ∈ entries.map Prod.fst := by
      simp only [List.mem_map, List.mem_filter]
      constructor
      · rintro ⟨e, ⟨he, -⟩, rfl⟩
        exact ⟨e, he, rfl⟩
      · rintro ⟨e, he, rfl⟩
        exact ⟨e, ⟨he, hq⟩, rfl⟩
    have hfilter : (entries.filter fun e => q e.1).filter (fun e => e.1 = k) =
        entries.filter fun e => e.1 = k := by
      rw [List.filter_filter]
      refine List.filter_congr fun e _ => ?_
      by_cases hk : e.1 = k
      · rw [hk, hq, Bool.and_true]
      · rw [decide_eq_false hk, Bool.false_and]
    unfold sumAt
    simp only [hmem, hfilter]
    split
    · rfl
    · rfl
  | false =>
    rw [Option.filter_eq_none_iff.mpr fun _ _ => Bool.false_ne_true]
    refine sumAt_eq_none.mpr fun hmem => ?_
    obtain ⟨e, he, rfl⟩ := List.mem_map.mp hmem
    rw [(List.mem_filter.mp he).2] at hq
    cases hq

theorem sumAt_append_left (h : k ∉ entries'.map Prod.fst) :
    sumAt (entries ++ entries') k = sumAt entries k := by
  unfold sumAt
  simp only [List.map_append, List.filter_append, filter_of_notMem h, List.append_nil,
    List.mem_append, h, or_false]

theorem sumAt_concat :
    sumAt (entries ++ [e]) k =
      if k = e.1 then some ((sumAt entries k).getD 0 + e.2) else sumAt entries k := by
  split
  · rename_i hk
    subst hk
    rw [getD_sumAt]
    unfold sumAt
    rw [if_pos (by simp), List.filter_append, List.map_append, List.sum_append]
    simp
  · rename_i hk
    exact sumAt_append_left (by simpa using hk)

omit [DecidableEq κ] in
/-- The sum over the rows that a partial function gives. -/
theorem sum_filterMap {l : List ν} {f : ν → Option β} {g : β → Int} :
    ((l.filterMap f).map g).sum = (l.map fun a => ((f a).map g).getD 0).sum := by
  induction l with
  | nil => rfl
  | cons a l ih =>
    rw [List.map_cons, List.sum_cons, ← ih]
    cases hf : f a with
    | none => simp [hf]
    | some b => simp [hf]

omit [DecidableEq κ] in
/-- The elements that count for nothing can be left out of a sum. -/
theorem sum_filter {l : List ν} {p : ν → Bool} {g : ν → Int}
    (h : ∀ a ∈ l, p a = false → g a = 0) : ((l.filter p).map g).sum = (l.map g).sum := by
  induction l with
  | nil => rfl
  | cons a l ih =>
    have hrest := ih fun b hb => h b (List.mem_cons_of_mem a hb)
    cases hp : p a with
    | true => simp [hp, hrest]
    | false => simp [hp, hrest, h a List.mem_cons_self hp]

omit [DecidableEq κ] in
theorem sum_ite {l : List κ} {p : κ → Prop} [DecidablePred p] {g : κ → Int} :
    (l.map fun k => if p k then g k else 0).sum = ((l.filter p).map g).sum := by
  induction l with
  | nil => rfl
  | cons k l ih =>
    rw [List.map_cons, List.sum_cons, ih, List.filter_cons]
    by_cases hk : p k
    · simp [hk]
    · simp [hk]

/-- The sum over the rows that are marked is one over the marks. -/
theorem sum_join {rows : List (κ × ν)} {marks : List (κ × β)}
    (hrows : (rows.map Prod.fst).Nodup) (hmarks : (marks.map Prod.fst).Nodup)
    (hsub : ∀ k ∈ marks.map Prod.fst, k ∈ rows.map Prod.fst) (f : κ → ν → Int) :
    (rows.map fun r => if (find marks r.1).isSome then f r.1 r.2 else 0).sum =
      (marks.map fun u => ((find rows u.1).map (f u.1)).getD 0).sum := by
  let amount : κ → Int := fun k => ((find rows k).map (f k)).getD 0
  have hkeys : (rows.map fun r => if (find marks r.1).isSome then f r.1 r.2 else 0) =
      (rows.map Prod.fst).map fun k => if k ∈ marks.map Prod.fst then amount k else 0 := by
    rw [List.map_map]
    refine List.map_congr_left fun r hr => ?_
    have hmem : (find marks r.1).isSome ↔ r.1 ∈ marks.map Prod.fst := by
      rw [← not_iff_not, Bool.not_eq_true, Option.isSome_eq_false_iff, Option.isNone_iff_eq_none,
        find_eq_none]
    have hamount : amount r.1 = f r.1 r.2 := by
      show ((find rows r.1).map (f r.1)).getD 0 = f r.1 r.2
      rw [(find_eq_some hrows).mpr hr]
      rfl
    simp only [hmem, Function.comp_apply, hamount]
  have hperm : ((rows.map Prod.fst).filter (· ∈ marks.map Prod.fst)).Perm (marks.map Prod.fst) := by
    refine (List.perm_ext_iff_of_nodup (hrows.filter _) hmarks).mpr fun k => ?_
    rw [List.mem_filter, decide_eq_true_eq]
    exact ⟨And.right, fun hk => ⟨hsub k hk, hk⟩⟩
  rw [hkeys, sum_ite, (hperm.map amount).sum_eq, List.map_map]
  rfl

end Rows

namespace IndexMap

variable {m m' : IndexMap κ ν}

variable {k : κ}

theorem get_tally {entries : List (κ × Int)} : (tally entries).get k = Rows.sumAt entries k := by
  induction entries using List.reverseRecOn with
  | nil => rfl
  | append_singleton entries e ih =>
    rw [tally_concat, Rows.sumAt_concat, ← ih]
    unfold add
    rw [get_insert]
    by_cases hk : k = e.1
    · rw [if_pos hk, if_pos hk, hk]
    · rw [if_neg hk, if_neg hk]

/-! ## Sums over a table -/

/-- `SUM` over a table. -/
def total (f : κ → ν → Int) (m : IndexMap κ ν) : Int := (m.entries.map fun e => f e.1 e.2).sum

variable {f : κ → ν → Int}

/-- A sum over a table is one over any list of its rows. -/
theorem total_eq {rows : List (κ × ν)} (h : (rows.map Prod.fst).Nodup)
    (hget : ∀ k, m.get k = Rows.find rows k) : m.total f = (rows.map fun r => f r.1 r.2).sum := by
  have hperm : m.entries.Perm rows := by
    refine (List.perm_ext_iff_of_nodup m.nodup.of_map h.of_map).mpr ?_
    rintro ⟨k, v⟩
    rw [← get_eq_some, hget, Rows.find_eq_some h]
  exact (hperm.map _).sum_eq

omit [DecidableEq κ] in
/-- A sum of two amounts for every row. -/
theorem total_add {g h : κ → ν → Int} (heq : ∀ k v, f k v = g k v + h k v) :
    m.total f = m.total g + m.total h := by
  unfold total
  induction m.entries with
  | nil => rfl
  | cons e entries ih =>
    have hrow := heq e.1 e.2
    simp only [List.map_cons, List.sum_cons]
    omega

omit [DecidableEq κ] in
/-- The sum over the rows up to a height. -/
theorem total_retain_upto {h : κ → ν → Nat} {n : Nat} :
    (m.retain fun k v => if n < h k v then none else some v).total f =
      m.total fun k v => if h k v ≤ n then f k v else 0 := by
  show ((m.entries.filterMap fun e => _).map _).sum = (m.entries.map _).sum
  induction m.entries with
  | nil => rfl
  | cons e entries ih =>
    rw [List.map_cons, List.sum_cons, ← ih]
    by_cases he : n < h e.1 e.2
    · simp [he, Nat.not_le.mpr he]
    · simp [he, Nat.not_lt.mp he]

variable {v : ν}

/-- A sum of amounts that are not negative, one of which is positive. -/
theorem total_pos (hget : m.get k = some v) (hpos : 0 < f k v)
    (hnonneg : ∀ k v, m.get k = some v → 0 ≤ f k v) : 0 < m.total f := by
  have hsum : ∀ l : List (κ × ν), (∀ e ∈ l, 0 ≤ f e.1 e.2) → 0 ≤ (l.map fun e => f e.1 e.2).sum :=
    fun l hl => List.sum_nonneg (List.forall_mem_map.mpr hl)
  obtain ⟨before, after, hsplit⟩ := List.append_of_mem (get_eq_some.mp hget)
  have hentries : ∀ e ∈ before ++ (k, v) :: after, 0 ≤ f e.1 e.2 :=
    fun e he => hnonneg e.1 e.2 (get_eq_some.mpr (hsplit ▸ he))
  have hbefore := hsum before fun e he => hentries e (List.mem_append_left _ he)
  have hafter := hsum after fun e he =>
    hentries e (List.mem_append_right _ (List.mem_cons_of_mem _ he))
  unfold total
  rw [hsplit, List.map_append, List.sum_append, List.map_cons, List.sum_cons]
  show 0 < _ + (f k v + _)
  omega

/-- A row is replaced where it stands. -/
theorem entries_insert_of_split {old : ν} {before after : List (κ × ν)}
    (hsplit : m.entries = before ++ (k, old) :: after) :
    (m.insert k v).entries = before ++ (k, v) :: after := by
  have hnodup := m.nodup
  rw [hsplit, List.map_append, List.map_cons, List.nodup_append, List.nodup_cons] at hnodup
  obtain ⟨-, ⟨hafter, -⟩, hdisjoint⟩ := hnodup
  have hother : ∀ l : List (κ × ν), k ∉ l.map Prod.fst →
      l.map (fun e => if e.1 = k then (e.1, v) else e) = l := by
    intro l hl
    conv_rhs => rw [← List.map_id l]
    refine List.map_congr_left fun e he => if_neg fun hk => hl ?_
    exact List.mem_map.mpr ⟨e, he, hk⟩
  have hbefore : k ∉ before.map Prod.fst := fun hk => hdisjoint k hk k List.mem_cons_self rfl
  unfold insert
  rw [dif_pos (by rw [hsplit]; simp)]
  show m.entries.map (fun e => if e.1 = k then (e.1, v) else e) = _
  rw [hsplit, List.map_append, List.map_cons, hother before hbefore, hother after hafter,
    if_pos rfl]

/-- A sum changes by the new row minus the row that it replaces. -/
theorem total_insert :
    (m.insert k v).total f + ((m.get k).map (f k)).getD 0 = m.total f + f k v := by
  unfold total
  cases hget : m.get k with
  | some old =>
    obtain ⟨before, after, hsplit⟩ := List.append_of_mem (get_eq_some.mp hget)
    rw [entries_insert_of_split hsplit, hsplit]
    simp only [List.map_append, List.map_cons, List.sum_append, List.sum_cons, Option.map_some,
      Option.getD_some]
    omega
  | none =>
    have hk : k ∉ m.entries.map Prod.fst := by
      intro hk
      obtain ⟨⟨_, v'⟩, he, rfl⟩ := List.mem_map.mp hk
      exact get_eq_none.mp hget v' he
    rw [entries_insert_of_notMem hk, List.map_append, List.sum_append]
    simp

/-- An amount under one of some keys is added to the sum over them. -/
theorem total_add_entry {m : IndexMap κ Int} {q : κ → Bool} :
    (m.add e).total (fun k v => if q k = true then v else 0) =
      m.total (fun k v => if q k = true then v else 0) + if q e.1 = true then e.2 else 0 := by
  have hinsert := total_insert (m := m) (k := e.1) (v := (m.get e.1).getD 0 + e.2)
    (f := fun k v => if q k = true then v else 0)
  unfold add
  cases hq : q e.1 with
  | true =>
    simp only [hq, if_true, Option.map_id_fun', id] at hinsert ⊢
    omega
  | false =>
    have hzero : ((m.get e.1).map fun _ => (0 : Int)).getD 0 = 0 := by cases m.get e.1 <;> rfl
    simp only [hq, Bool.false_eq_true, if_false, hzero] at hinsert ⊢
    omega

/-- The sum over the collected amounts of some keys. -/
theorem total_tally {entries : List (κ × Int)} {q : κ → Bool} :
    (tally entries).total (fun k v => if q k = true then v else 0) =
      ((entries.filter fun e => q e.1).map Prod.snd).sum := by
  induction entries using List.reverseRecOn with
  | nil => rfl
  | append_singleton entries e ih =>
    rw [tally_concat, total_add_entry, ih, List.filter_append, List.map_append, List.sum_append]
    cases hq : q e.1 with
    | true => simp [hq]
    | false => simp [hq]

theorem total_congr (hget : ∀ k, m.get k = m'.get k) : m.total f = m'.total f :=
  total_eq m'.nodup hget

end IndexMap
