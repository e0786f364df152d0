import Mathlib.Logic.Relation
import Subcoin.Lib.HashSet

/-!
# Depth-first search

`visit next fuel visited a` is the recursive search from `a` that skips what it has visited. The
fuel bounds the depth of the recursion; a search has enough of it when fewer than that many nodes
with successors are unvisited. From an empty set the search finds exactly what can be reached
(`mem_visitAll`).
-/

namespace Visit

variable {α : Type} [DecidableEq α]

def visit (next : α → List α) : Nat → HashSet α → α → HashSet α
  | 0, visited, _ => visited
  | fuel + 1, visited, a =>
    if a ∈ visited then visited else (next a).foldl (visit next fuel) (visited.insert a)

/-- The searches from several roots, one after the other. -/
def visitAll (next : α → List α) (fuel : Nat) (visited : HashSet α) (roots : List α) : HashSet α :=
  roots.foldl (visit next fuel) visited

variable {next : α → List α}

/-- The nodes reached from `a`. -/
def Reaches (next : α → List α) (a b : α) : Prop :=
  Relation.ReflTransGen (fun x y => y ∈ next x) a b

/-- What a search does to the visited set: it grows by nodes reached from the roots, and the
successors of what it added were visited as well. -/
structure Explores (next : α → List α) (roots : List α) (visited result : HashSet α) : Prop where
  mono : ∀ x ∈ visited, x ∈ result
  roots_mem : ∀ x ∈ roots, x ∈ result
  closed : ∀ x ∈ result, x ∉ visited → ∀ y ∈ next x, y ∈ result
  reached : ∀ x ∈ result, x ∉ visited → ∃ r ∈ roots, Reaches next r x

namespace Explores

variable {roots roots' : List α} {visited middle result : HashSet α} {a : α}

omit [DecidableEq α] in
/-- A search that finds all its roots visited. -/
theorem refl (h : ∀ x ∈ roots, x ∈ visited) : Explores next roots visited visited :=
  ⟨fun _ h => h, h, fun _ h hn => absurd h hn, fun _ h hn => absurd h hn⟩

theorem append (h : Explores next roots visited middle) (h' : Explores next roots' middle result) :
    Explores next (roots ++ roots') visited result where
  mono x hx := h'.mono x (h.mono x hx)
  roots_mem x hx := by
    rcases List.mem_append.mp hx with hx | hx
    · exact h'.mono x (h.roots_mem x hx)
    · exact h'.roots_mem x hx
  closed x hx hn y hy := by
    by_cases hm : x ∈ middle
    · exact h'.mono y (h.closed x hm hn y hy)
    · exact h'.closed x hx hm y hy
  reached x hx hn := by
    by_cases hm : x ∈ middle
    · obtain ⟨r, hr, hreach⟩ := h.reached x hm hn
      exact ⟨r, List.mem_append_left _ hr, hreach⟩
    · obtain ⟨r, hr, hreach⟩ := h'.reached x hx hm
      exact ⟨r, List.mem_append_right _ hr, hreach⟩

/-- The search from a node is the search from its successors, with the node visited. -/
theorem visited_root (h : Explores next (next a) (visited.insert a) result) :
    Explores next [a] visited result where
  mono x hx := h.mono x (HashSet.mem_insert.mpr (Or.inr hx))
  roots_mem x hx := by
    obtain rfl := List.mem_singleton.mp hx
    exact h.mono x (HashSet.mem_insert.mpr (Or.inl rfl))
  closed x hx hn y hy := by
    by_cases hxa : x = a
    · subst hxa
      exact h.roots_mem y hy
    · exact h.closed x hx (by simp [hxa, hn]) y hy
  reached x hx hn := by
    refine ⟨a, List.mem_singleton_self a, ?_⟩
    by_cases hxa : x = a
    · rw [hxa]
      exact .refl
    · obtain ⟨r, hr, hreach⟩ := h.reached x hx (by simp [hxa, hn])
      exact .head hr hreach

end Explores

/-- The nodes of `live` that are not visited yet. -/
def unvisited (live : List α) (visited : HashSet α) : List α :=
  live.filter fun a => a ∉ visited

variable {live : List α} {visited : HashSet α} {fuel : Nat}

theorem unvisited_sublist {visited' : HashSet α} (h : ∀ x ∈ visited, x ∈ visited') :
    (unvisited live visited').Sublist (unvisited live visited) := by
  refine List.monotone_filter_right live fun a => ?_
  simpa using mt (h a)

theorem length_unvisited_insert {a : α} (ha : a ∈ live) (hn : a ∉ visited) :
    (unvisited live (visited.insert a)).length < (unvisited live visited).length := by
  have hsub : (unvisited live (visited.insert a)).Sublist (unvisited live visited) :=
    unvisited_sublist fun x hx => HashSet.mem_insert.mpr (Or.inr hx)
  refine Nat.lt_of_le_of_ne hsub.length_le fun hlen => ?_
  have hmem : a ∈ unvisited live (visited.insert a) := by
    rw [hsub.eq_of_length hlen]
    simp [unvisited, ha, hn]
  simp [unvisited] at hmem

theorem explores_visitAll
    (hvisit : ∀ {visited : HashSet α} {a : α}, (unvisited live visited).length < fuel → Explores
      next [a] visited (visit next fuel visited a)) {roots : List α}
    (hfuel : (unvisited live visited).length < fuel) :
    Explores next roots visited (visitAll next fuel visited roots) := by
  induction roots generalizing visited with
  | nil => exact .refl nofun
  | cons a roots ih =>
    have ha : Explores next [a] visited (visit next fuel visited a) := hvisit hfuel
    exact ha.append (ih (Nat.lt_of_le_of_lt (unvisited_sublist ha.mono).length_le hfuel))

section

variable {live : List α} (hlive : ∀ a, next a ≠ [] → a ∈ live)
include hlive

/-- With more fuel than unvisited nodes, a search explores all that it reaches. -/
theorem explores_visit {a : α} (hfuel : (unvisited live visited).length < fuel) :
    Explores next [a] visited (visit next fuel visited a) := by
  -- on the fuel: a node with successors is in `live`, so visiting it leaves fewer nodes
  induction fuel generalizing visited a with
  | zero => exact absurd hfuel (Nat.not_lt_zero _)
  | succ fuel ih =>
    unfold visit
    split
    · rename_i ha
      exact .refl (by simpa using ha)
    · rename_i ha
      refine .visited_root ?_
      by_cases hnext : next a = []
      · rw [hnext]
        exact .refl nofun
      · have hlt := length_unvisited_insert (hlive a hnext) ha
        exact explores_visitAll ih (by omega)

/-- The searches from the roots find what can be reached from them. -/
theorem mem_visitAll (hfuel : live.length < fuel) {roots : List α} {x : α} :
    x ∈ visitAll next fuel .empty roots ↔ ∃ r ∈ roots, Reaches next r x := by
  have hlen : (unvisited live .empty).length < fuel :=
    Nat.lt_of_le_of_lt (List.length_filter_le _ _) hfuel
  have hexplores : Explores next roots .empty (visitAll next fuel .empty roots) :=
    explores_visitAll (explores_visit hlive) hlen
  constructor
  · intro hx
    exact hexplores.reached x hx HashSet.not_mem_empty
  · rintro ⟨r, hr, hreach⟩
    induction hreach with
    | refl => exact hexplores.roots_mem r hr
    | tail _ hstep ih => exact hexplores.closed _ ih HashSet.not_mem_empty _ hstep

end

end Visit
