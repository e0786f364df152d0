import Mathlib.Tactic

/-!
# Merkle roots with a duplicated last node

`root pair leaves` hashes a list pairwise, level by level, until one node is left; a last node
without a partner is paired with itself. The result `eq_of_root_eq` is binding: two lists without
duplicates that have the same root are equal, as long as no two of the pairs hashed on the way
collide and no leaf is itself the hash of such a pair. Both conditions are about the pairs of the
two computations only, since no hash into its own type is injective on all pairs.
-/

namespace Merkle

variable {α : Type}

/-- The nodes of a level in pairs. -/
def pairs : List α → List (α × α)
  | [] => []
  | [a] => [(a, a)]
  | a :: b :: l => (a, b) :: pairs l

variable (pair : α → α → α)

def node (p : α × α) : α := pair p.1 p.2

def level (l : List α) : List α := (pairs l).map (node pair)

/-- The root of the tree over `l`, in at most `k` levels. -/
def rootFrom : Nat → List α → Option α
  | _, [] => none
  | _, [a] => some a
  | 0, _ :: _ :: _ => none
  | k + 1, a :: b :: l => rootFrom k (level pair (a :: b :: l))

/-- The root of the tree over `l`. A level is shorter than the one below, so that there are no more
levels than nodes. -/
def root (l : List α) : Option α := rootFrom pair l.length l

/-- The pairs that are hashed on the way to the root. -/
def hashedFrom : Nat → List α → List (α × α)
  | _, [] => []
  | _, [_] => []
  | 0, _ :: _ :: _ => []
  | k + 1, a :: b :: l => pairs (a :: b :: l) ++ hashedFrom k (level pair (a :: b :: l))

def hashed (l : List α) : List (α × α) := hashedFrom pair l.length l

/-! ## One level -/

theorem map_fst_pairs (l : List α) : ((pairs l).map Prod.fst).Sublist l := by
  induction l using pairs.induct with
  | case1 => exact List.Sublist.refl _
  | case2 a => exact List.Sublist.refl _
  | case3 a b l ih => exact (ih.cons b).cons_cons a

variable {l l' : List α}

theorem nodup_pairs (h : l.Nodup) : (pairs l).Nodup :=
  List.Nodup.of_map Prod.fst ((map_fst_pairs l).nodup h)

theorem pairs_ne_nil (h : l ≠ []) : pairs l ≠ [] := by
  cases l with
  | nil => exact absurd rfl h
  | cons a l => cases l <;> simp [pairs]

/-- Only a duplicate could make a full last pair look like a node paired with itself. -/
theorem eq_of_pairs_eq (h : l.Nodup) (h' : l'.Nodup) (heq : pairs l = pairs l') : l = l' := by
  induction l using pairs.induct generalizing l' with
  | case1 =>
    by_contra hne
    exact pairs_ne_nil (Ne.symm hne) heq.symm
  | case2 a =>
    match l' with
    | [] => simp [pairs] at heq
    | [b] => simpa [pairs] using heq
    | b :: c :: l' =>
      simp only [pairs, List.cons.injEq, Prod.mk.injEq] at heq
      obtain ⟨⟨rfl, rfl⟩, _⟩ := heq
      simp at h'
  | case3 a b l ih =>
    match l' with
    | [] => simp [pairs] at heq
    | [c] =>
      simp only [pairs, List.cons.injEq, Prod.mk.injEq] at heq
      obtain ⟨⟨rfl, rfl⟩, _⟩ := heq
      simp at h
    | c :: d :: l' =>
      simp only [pairs, List.cons.injEq, Prod.mk.injEq] at heq
      obtain ⟨⟨rfl, rfl⟩, hrest⟩ := heq
      rw [ih h.of_cons.of_cons h'.of_cons.of_cons hrest]

variable {pair}

theorem mem_level {a : α} (h : a ∈ level pair l) : ∃ p ∈ pairs l, node pair p = a :=
  List.mem_map.mp h

section Binding

variable {P : Set (α × α)}

theorem nodup_level (hinj : P.InjOn (node pair)) (hl : ∀ p ∈ pairs l, p ∈ P) (h : l.Nodup) :
    (level pair l).Nodup :=
  (List.nodup_map_iff_inj_on (nodup_pairs h)).mpr fun p hp q hq heq =>
    hinj (hl p hp) (hl q hq) heq

theorem eq_of_map_node_eq (hinj : P.InjOn (node pair)) {l l' : List (α × α)}
    (hl : ∀ p ∈ l, p ∈ P) (hl' : ∀ p ∈ l', p ∈ P) (heq : l.map (node pair) = l'.map (node pair)) :
    l = l' := by
  induction l generalizing l' with
  | nil => exact (List.map_eq_nil_iff.mp heq.symm).symm
  | cons p l ih =>
    cases l' with
    | nil => simp at heq
    | cons q l' =>
      simp only [List.map_cons, List.cons.injEq] at heq
      rw [hinj (hl p (by simp)) (hl' q (by simp)) heq.1,
        ih (fun r hr => hl r (by simp [hr])) (fun r hr => hl' r (by simp [hr])) heq.2]

theorem eq_of_level_eq (hinj : P.InjOn (node pair)) (hl : ∀ p ∈ pairs l, p ∈ P)
    (hl' : ∀ p ∈ pairs l', p ∈ P) (h : l.Nodup) (h' : l'.Nodup)
    (heq : level pair l = level pair l') : l = l' :=
  eq_of_pairs_eq h h' (eq_of_map_node_eq hinj hl hl' heq)

/-! ## Several levels -/

variable (pair) in
/-- Every pair hashed in the first `d` levels over `l` is in `P`. -/
def HashesIn (P : Set (α × α)) (d : Nat) (l : List α) : Prop :=
  ∀ i < d, ∀ p ∈ pairs ((level pair)^[i] l), p ∈ P

variable {d e : Nat}

theorem HashesIn.pairs (h : HashesIn pair P (d + 1) l) : ∀ p ∈ pairs l, p ∈ P :=
  h 0 (Nat.succ_pos d)

theorem HashesIn.level (h : HashesIn pair P (d + 1) l) : HashesIn pair P d (level pair l) := by
  intro i hi p hp
  rw [← Function.iterate_succ_apply] at hp
  exact h (i + 1) (Nat.succ_lt_succ hi) p hp

theorem HashesIn.drop (h : HashesIn pair P (d + e) l) :
    HashesIn pair P d ((Merkle.level pair)^[e] l) := by
  intro i hi p hp
  rw [← Function.iterate_add_apply] at hp
  exact h (i + e) (Nat.add_lt_add_right hi e) p hp

theorem HashesIn.mono (h : HashesIn pair P d l) (hle : e ≤ d) : HashesIn pair P e l :=
  fun i hi => h i (hi.trans_le hle)

theorem nodup_iterate (hinj : P.InjOn (node pair)) (hl : HashesIn pair P d l) (h : l.Nodup) :
    ((level pair)^[d] l).Nodup := by
  induction d generalizing l with
  | zero => exact h
  | succ d ih =>
    rw [Function.iterate_succ_apply]
    exact ih hl.level (nodup_level hinj hl.pairs h)

theorem eq_of_iterate_eq (hinj : P.InjOn (node pair)) (hl : HashesIn pair P d l)
    (hl' : HashesIn pair P d l') (h : l.Nodup) (h' : l'.Nodup)
    (heq : (level pair)^[d] l = (level pair)^[d] l') : l = l' := by
  induction d generalizing l l' with
  | zero => exact heq
  | succ d ih =>
    rw [Function.iterate_succ_apply, Function.iterate_succ_apply] at heq
    have hlevel := ih hl.level hl'.level (nodup_level hinj hl.pairs h)
      (nodup_level hinj hl'.pairs h') heq
    exact eq_of_level_eq hinj hl.pairs hl'.pairs h h' hlevel

/-- The root is the one node of some level, and the pairs of the levels below it are those that
were hashed. -/
theorem exists_iterate_of_rootFrom {k : Nat} {r : α} (h : rootFrom pair k l = some r) :
    ∃ d, (level pair)^[d] l = [r] ∧ HashesIn pair {p | p ∈ hashedFrom pair k l} d l := by
  induction k, l using rootFrom.induct pair with
  | case1 k => simp [rootFrom] at h
  | case2 k a =>
    rw [rootFrom, Option.some.injEq] at h
    exact ⟨0, by rw [h]; rfl, fun i hi => absurd hi (Nat.not_lt_zero i)⟩
  | case3 a b l => simp [rootFrom] at h
  | case4 k a b l ih =>
    rw [rootFrom] at h
    obtain ⟨d, hd, hpairs⟩ := ih h
    refine ⟨d + 1, hd, ?_⟩
    intro i hi p hp
    rw [Set.mem_ofPred_eq, hashedFrom, List.mem_append]
    cases i with
    | zero => exact Or.inl hp
    | succ i => exact Or.inr (hpairs i (Nat.lt_of_succ_lt_succ hi) p hp)

/-- A node of a level above the leaves is a hash. -/
theorem mem_iterate_succ (hl : HashesIn pair P (d + 1) l) {a : α} (h : a ∈ (level pair)^[d + 1] l) :
    ∃ p ∈ P, node pair p = a := by
  rw [Function.iterate_succ_apply'] at h
  obtain ⟨p, hp, rfl⟩ := mem_level h
  exact ⟨p, hl d (Nat.lt_succ_self d) p hp, rfl⟩

/-- With the deeper tree cut down to the height of the other, both have the same leaves; so the
cut is at the leaves, which are not hashes. -/
theorem eq_of_iterate_eq_add (hinj : P.InjOn (node pair)) (hne : l ≠ [])
    (hl : HashesIn pair P d l) (hl' : HashesIn pair P (d + e) l') (h : l.Nodup) (h' : l'.Nodup)
    (hleaf : ∀ a ∈ l, ∀ p ∈ P, node pair p ≠ a)
    (heq : (level pair)^[d] l = (level pair)^[d + e] l') : l = l' := by
  rw [Function.iterate_add_apply] at heq
  have hcut : l = (level pair)^[e] l' :=
    eq_of_iterate_eq hinj hl hl'.drop h (nodup_iterate hinj (hl'.mono (Nat.le_add_left e d)) h') heq
  cases e with
  | zero => exact hcut
  | succ e =>
    obtain ⟨a, ha⟩ := List.exists_mem_of_ne_nil l hne
    obtain ⟨p, hp, hpa⟩ := mem_iterate_succ (hl'.mono (Nat.le_add_left _ d)) (hcut ▸ ha)
    exact absurd hpa (hleaf a ha p hp)

end Binding

/-- **Binding.** Lists without duplicates and with one root are equal. -/
theorem eq_of_root_eq {P : Set (α × α)} (hl : ∀ p ∈ hashed pair l, p ∈ P)
    (hl' : ∀ p ∈ hashed pair l', p ∈ P) (hinj : P.InjOn (node pair))
    (hleaf : ∀ a ∈ l ++ l', ∀ p ∈ P, node pair p ≠ a) (h : l.Nodup) (h' : l'.Nodup) {r : α}
    (hr : root pair l = some r) (hr' : root pair l' = some r) : l = l' := by
  have hne : ∀ {m : List α}, root pair m = some r → m ≠ [] := by
    rintro m hm rfl
    simp [root, rootFrom] at hm
  obtain ⟨d, hd, hP⟩ := exists_iterate_of_rootFrom hr
  obtain ⟨d', hd', hP'⟩ := exists_iterate_of_rootFrom hr'
  have hin : HashesIn pair P d l := fun i hi p hp => hl p (hP i hi p hp)
  have hin' : HashesIn pair P d' l' := fun i hi p hp => hl' p (hP' i hi p hp)
  rcases Nat.le_total d d' with hle | hle
  · obtain ⟨e, rfl⟩ := Nat.exists_eq_add_of_le hle
    exact eq_of_iterate_eq_add hinj (hne hr) hin hin' h h'
      (fun a ha => hleaf a (List.mem_append_left l' ha)) (hd.trans hd'.symm)
  · obtain ⟨e, rfl⟩ := Nat.exists_eq_add_of_le hle
    exact (eq_of_iterate_eq_add hinj (hne hr') hin' hin h' h
      (fun a ha => hleaf a (List.mem_append_right l ha)) (hd'.trans hd.symm)).symm

end Merkle
