import Mathlib.Data.List.Basic
import Mathlib.Data.List.Nodup
import Mathlib.Logic.Function.Basic

/-!
# Kahn's algorithm

The topological sort of a graph given by the list of its edges, with repetitions: the queue holds
the nodes all of whose incoming edges are used, and taking a node off it uses its outgoing edges.
Every node enters the queue at most once, and after the sources of all its edges; a decrement never
meets a count of zero (`Inv`).
-/

namespace Kahn

variable {α : Type} [DecidableEq α]

/-- The targets of the edges that leave a node, one for each edge. -/
def children (edges : List (α × α)) (a : α) : List α :=
  (edges.filter fun e => e.1 = a).map Prod.snd

def inDegree (edges : List (α × α)) (a : α) : Nat := edges.countP fun e => e.2 = a

structure State (α : Type) where
  degree : α → Nat
  queue : List α
  sorted : List α

/-- One edge to `child` is used; the node enters the queue when it was the last one. -/
def useEdge (st : State α) (child : α) : State α :=
  let degree := st.degree child - 1
  { st with
    degree := Function.update st.degree child degree
    queue := if degree = 0 then st.queue ++ [child] else st.queue }

/-- The loop `while let Some(a) = queue.pop_front()`. -/
def run (edges : List (α × α)) : Nat → State α → State α
  | 0, st => st
  | fuel + 1, st =>
    match st.queue with
    | [] => st
    | a :: queue =>
      run edges fuel
        ((children edges a).foldl useEdge { st with queue := queue, sorted := st.sorted ++ [a] })

/-- The order in which the nodes leave the queue, from the sources in a given order. -/
def sort (edges : List (α × α)) (nodes sources : List α) : List α :=
  (run edges (nodes.length + 1) ⟨inDegree edges, sources, []⟩).sorted

/-! ## The invariant -/

/-- The number of edges into `c` that leave a node outside of `done`. -/
def unused (edges : List (α × α)) (done : List α) (c : α) : Nat :=
  edges.countP fun e => e.2 = c ∧ e.1 ∉ done

variable {edges : List (α × α)} {done : List α} {a c : α}

/-- With no unused edge, the sources of all edges into the node are done. -/
theorem mem_of_unused_eq_zero (h : unused edges done c = 0) {e : α × α} (he : e ∈ edges)
    (hc : e.2 = c) : e.1 ∈ done := by
  by_contra hn
  exact List.countP_eq_zero.mp h e he (by simp [hc, hn])

/-- A node that is done uses the edges that leave it. -/
theorem unused_append (ha : a ∉ done) :
    unused edges done c = unused edges (done ++ [a]) c + (children edges a).count c := by
  induction edges with
  | nil => rfl
  | cons e edges ih =>
    unfold unused children at ih ⊢
    rw [List.countP_cons, List.countP_cons, ih, List.filter_cons]
    by_cases hea : e.1 = a
    · -- the edge leaves `a`: it was unused and is one of the children
      by_cases hec : e.2 = c
      · simp [hea, hec, ha]
        omega
      · simp [hea, hec, ha]
    · simp [hea]
      omega

/-- The state while the edges to `rest` are being used: the counts are those of the unused edges,
and what is sorted or queued has none left. -/
structure Inv (edges : List (α × α)) (rest : List α) (st : State α) : Prop where
  nodup : (st.sorted ++ st.queue).Nodup
  degree : ∀ c, st.degree c = unused edges st.sorted c + rest.count c
  queued : ∀ c ∈ st.sorted ++ st.queue, st.degree c = 0
  ordered : st.sorted.Pairwise fun a b => (b, a) ∉ edges

variable {rest : List α} {st : State α}

theorem Inv.mem_sorted (h : Inv edges rest st) {x y : α} (hx : x ∈ st.sorted)
    (he : (y, x) ∈ edges) : y ∈ st.sorted := by
  have hzero := h.degree x
  rw [h.queued x (List.mem_append_left _ hx)] at hzero
  exact mem_of_unused_eq_zero (c := x) (by omega) he rfl

theorem inv_useEdge (h : Inv edges (c :: rest) st) : Inv edges rest (useEdge st c) := by
  have hcount : st.degree c = unused edges st.sorted c + (rest.count c + 1) := by
    rw [h.degree c, List.count_cons_self]
  have hnew : c ∉ st.sorted ++ st.queue := by
    intro hmem
    have hzero := h.queued c hmem
    omega
  have hne : ∀ x ∈ st.sorted ++ st.queue, x ≠ c := fun x hx heq => hnew (heq ▸ hx)
  have hdegree : ∀ x, Function.update st.degree c (st.degree c - 1) x =
      unused edges st.sorted x + rest.count x := by
    intro x
    by_cases hx : x = c
    · subst hx
      rw [Function.update_self]
      omega
    · rw [Function.update_of_ne hx, h.degree x, List.count_cons_of_ne (Ne.symm hx)]
  have hkept : ∀ x ∈ st.sorted ++ st.queue,
      Function.update st.degree c (st.degree c - 1) x = 0 := by
    intro x hx
    rw [Function.update_of_ne (hne x hx)]
    exact h.queued x hx
  unfold useEdge
  refine ⟨?_, hdegree, ?_, h.ordered⟩
  · dsimp only
    split
    · rw [← List.append_assoc, ← List.concat_eq_append]
      exact h.nodup.concat hnew
    · exact h.nodup
  · dsimp only
    split
    · rename_i hzero
      intro x hx
      rw [← List.append_assoc, List.mem_append, List.mem_singleton] at hx
      rcases hx with hx | rfl
      · exact hkept x hx
      · rw [Function.update_self]
        exact hzero
    · exact hkept

theorem inv_foldl (h : Inv edges rest st) : Inv edges [] (rest.foldl useEdge st) := by
  induction rest generalizing st with
  | nil => exact h
  | cons c rest ih => exact ih (inv_useEdge h)

theorem inv_pop {queue : List α} (h : Inv edges [] st) (hqueue : st.queue = a :: queue) :
    Inv edges (children edges a) { st with queue := queue, sorted := st.sorted ++ [a] } := by
  have hsame : st.sorted ++ st.queue = st.sorted ++ [a] ++ queue := by rw [hqueue]; simp
  have hnodup := hsame ▸ h.nodup
  have ha : a ∉ st.sorted := by
    rw [List.append_assoc] at hnodup
    exact fun hmem => (List.nodup_append.mp hnodup).2.2 a hmem a (by simp) rfl
  refine ⟨hnodup, ?_, ?_, ?_⟩
  · intro c
    have hdegree := h.degree c
    rw [List.count_nil, Nat.add_zero] at hdegree
    exact hdegree.trans (unused_append ha)
  · intro c hc
    exact h.queued c (hsame ▸ hc)
  · -- an edge from `a` to a sorted node would have been used
    refine List.pairwise_append.mpr ⟨h.ordered, List.pairwise_singleton _ _, ?_⟩
    intro x hx y hy he
    obtain rfl := List.mem_singleton.mp hy
    exact ha (h.mem_sorted hx he)

theorem inv_run {fuel : Nat} (h : Inv edges [] st) : Inv edges [] (run edges fuel st) := by
  induction fuel generalizing st with
  | zero => exact h
  | succ fuel ih =>
    unfold run
    split
    · exact h
    · rename_i a queue hqueue
      exact ih (inv_foldl (inv_pop h hqueue))

/-! ## The sort -/

variable {nodes sources : List α}

section

variable (hnodup : sources.Nodup) (hsources : ∀ a ∈ sources, inDegree edges a = 0)

include hnodup hsources

theorem inv_sort : Inv edges [] (run edges (nodes.length + 1) ⟨inDegree edges, sources, []⟩) := by
  refine inv_run ⟨by simpa using hnodup, ?_, by simpa using hsources, List.Pairwise.nil⟩
  intro c
  simp [inDegree, unused]

/-- The sort lists nodes once each. -/
theorem nodup_sort : (sort edges nodes sources).Nodup :=
  (List.nodup_append.mp (inv_sort hnodup hsources).nodup).1

/-- No edge leads from a node to an earlier one. -/
theorem ordered_sort : (sort edges nodes sources).Pairwise fun a b => (b, a) ∉ edges :=
  (inv_sort hnodup hsources).ordered

end

end Kahn
