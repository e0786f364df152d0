import Mathlib.Algebra.BigOperators.Group.Finset.Basic
import Subcoin.Mempool.Links

/-!
# Subcoin — the statistics of an entry

An entry caches the number, size and fees of its ancestors and of its descendants. `Aggregates`
says that these are the sums over the closure of the spending relation. The acceptance of a
transaction adds it to the ancestor statistics of its own ancestors, and a removal corrects nothing;
so the statistics are right in runs of transactions that have no relatives in the mempool.
-/

namespace Subcoin.Mempool

variable {SE : Type} {env : PoolEnv SE} {build : Build} {options : MemPoolOptions} {m : Moment}
  {inner inner' : MemPoolInner} {ws : ValidationWorkspace} {ctx : EntryContext}
  {k a : EntryId} {e : TxMemPoolEntry} {txs : List Transaction}

/-! ## Families -/

open Classical in
/-- The live entries that an entry descends from, itself included. -/
noncomputable def ancestors (env : PoolEnv SE) (inner : MemPoolInner) (k : EntryId) :
    Finset EntryId :=
  inner.arena.entries.keys.toFinset.filter fun a => Relation.ReflTransGen (Child env inner) a k

open Classical in
/-- The live entries that descend from an entry, itself included. -/
noncomputable def descendants (env : PoolEnv SE) (inner : MemPoolInner) (k : EntryId) :
    Finset EntryId :=
  inner.arena.entries.keys.toFinset.filter fun d => Relation.ReflTransGen (Child env inner) k d

theorem mem_ancestors : a ∈ ancestors env inner k ↔
    (∃ e, inner.get a = some e) ∧ Relation.ReflTransGen (Child env inner) a k := by
  classical
  rw [ancestors, Finset.mem_filter, List.mem_toFinset, mem_keys_iff]

theorem mem_descendants : a ∈ descendants env inner k ↔
    (∃ e, inner.get a = some e) ∧ Relation.ReflTransGen (Child env inner) k a := by
  classical
  rw [descendants, Finset.mem_filter, List.mem_toFinset, mem_keys_iff]

/-- The sum of a quantity over live entries. -/
def sumOver (inner : MemPoolInner) (f : TxMemPoolEntry → Int) (s : Finset EntryId) : Int :=
  ∑ a ∈ s, ((inner.get a).map f).getD 0

theorem sumOver_singleton {f : TxMemPoolEntry → Int} (hk : inner.get k = some e) :
    sumOver inner f {k} = f e := by
  rw [sumOver, Finset.sum_singleton, hk]
  rfl

theorem ancestors_eq_singleton (hk : inner.get k = some e) (h : ∀ b, ¬ Child env inner b k) :
    ancestors env inner k = {k} := by
  ext a
  rw [mem_ancestors, Finset.mem_singleton]
  constructor
  · rintro ⟨_, hreach⟩
    rcases Relation.ReflTransGen.cases_tail hreach with heq | ⟨b, _, hchild⟩
    · exact heq.symm
    · exact absurd hchild (h b)
  · rintro rfl
    exact ⟨⟨e, hk⟩, .refl⟩

theorem descendants_eq_singleton (hk : inner.get k = some e) (h : ∀ b, ¬ Child env inner k b) :
    descendants env inner k = {k} := by
  ext a
  rw [mem_descendants, Finset.mem_singleton]
  constructor
  · rintro ⟨_, hreach⟩
    rcases Relation.ReflTransGen.cases_head hreach with heq | ⟨b, hchild, _⟩
    · exact heq.symm
    · exact absurd hchild (h b)
  · rintro rfl
    exact ⟨⟨e, hk⟩, .refl⟩

/-- The cached statistics are those of the entry's family. -/
structure AggregatesOf (env : PoolEnv SE) (inner : MemPoolInner) (k : EntryId)
    (e : TxMemPoolEntry) : Prop where
  countWithAncestors : e.countWithAncestors = (ancestors env inner k).card
  sizeWithAncestors : e.sizeWithAncestors =
    sumOver inner TxMemPoolEntry.vsize (ancestors env inner k)
  feesWithAncestors : e.feesWithAncestors =
    sumOver inner (fun a => a.modifiedFee) (ancestors env inner k)
  sigopsWithAncestors : e.sigopsWithAncestors =
    sumOver inner TxMemPoolEntry.sigopCost (ancestors env inner k)
  countWithDescendants : e.countWithDescendants = (descendants env inner k).card
  sizeWithDescendants : e.sizeWithDescendants =
    sumOver inner TxMemPoolEntry.vsize (descendants env inner k)
  feesWithDescendants : e.feesWithDescendants =
    sumOver inner (fun d => d.modifiedFee) (descendants env inner k)

/-- The statistics of every entry are right. -/
def Aggregates (env : PoolEnv SE) (inner : MemPoolInner) : Prop :=
  ∀ k e, inner.get k = some e → AggregatesOf env inner k e

/-! ## Transactions without relatives -/

/-- Nothing in the mempool and nothing offered with them is a relative of the offered
transactions. -/
structure Lone (env : PoolEnv SE) (inner : MemPoolInner) (txs : List Transaction) : Prop where
  unnamed : ∀ {k e}, inner.get k = some e → ∀ t ∈ txs, ¬ Names env e.tx t
  names : ∀ t ∈ txs, ∀ {b}, Present inner txs b → ¬ Names env t b

/-- The condition on a call under which statistics stay right. -/
def OffersLone (env : PoolEnv SE) (_ : Moment) (call : Call) (p : MemPool) : Prop :=
  Lone env p.inner call.offered

/-- The statistics of an entry count the entry alone. -/
structure CountsItself (e : TxMemPoolEntry) : Prop where
  countWithAncestors : e.countWithAncestors = 1
  sizeWithAncestors : e.sizeWithAncestors = e.vsize
  feesWithAncestors : e.feesWithAncestors = e.modifiedFee
  sigopsWithAncestors : e.sigopsWithAncestors = e.sigopCost
  countWithDescendants : e.countWithDescendants = 1
  sizeWithDescendants : e.sizeWithDescendants = e.vsize
  feesWithDescendants : e.feesWithDescendants = e.modifiedFee

/-- Entries without relatives, each of which counts itself. -/
structure LoneEntries (env : PoolEnv SE) (inner : MemPoolInner) : Prop where
  byTxid : ByTxid env inner
  unrelated : ∀ a b, ¬ Child env inner a b
  counts : ∀ {k e}, inner.get k = some e → CountsItself e

theorem Lone.subset {sub : List Transaction} (h : Lone env inner txs) (hsub : ∀ t ∈ sub, t ∈ txs) :
    Lone env inner sub where
  unnamed he t ht := h.unnamed he t (hsub t ht)
  names t ht _ hb := h.names t (hsub t ht) (hb.imp_left (hsub _))

variable {rest : List Transaction}

theorem Lone.tail {id : EntryId} (h : Lone env inner (ws.tx :: rest))
    (hnew : InsertedAt env build m inner.arena ws ctx id inner'.arena) : Lone env inner' rest where
  unnamed {k e'} he' t ht := by
    rcases hnew.get_new he' with ⟨_, htx, _⟩ | ⟨e, he, hbare⟩
    · rw [htx]
      exact h.names ws.tx List.mem_cons_self (Or.inl (List.mem_cons_of_mem _ ht))
    · rw [tx_eq_of_bare hbare]
      exact h.unnamed he t (List.mem_cons_of_mem _ ht)
  names t ht _ hb := h.names t (List.mem_cons_of_mem _ ht) (hb.cons hnew)

namespace LoneEntries

section

variable (h : LoneEntries env inner)

include h

theorem ancestorsOf_eq (hlone : Lone env inner (ws.tx :: rest)) :
    inner.arena.ancestorsOf m.order ws.tx = .empty := by
  have hparents : inner.arena.parentIds ws.tx = [] := by
    rw [List.eq_nil_iff_forall_not_mem]
    intro k hk
    obtain ⟨e, he, hnames⟩ := h.byTxid.mem_parentIds.mp hk
    exact hlone.names ws.tx List.mem_cons_self (Or.inr ⟨k, e, he, rfl⟩) hnames
  rw [MemPoolArena.ancestorsOf, hparents]
  rfl

theorem inserted (hlone : Lone env inner (ws.tx :: rest))
    (hvsize : ws.vsize = toSigned 64 (toVbytesCeil ws.txWeight))
    (hfresh : inner.arena.byTxid (env.computeTxid ws.tx) = none)
    (hinserted : Inserted env build m inner ws ctx inner') : LoneEntries env inner' := by
  obtain ⟨id, hnew⟩ := hinserted.insertedAt
  have hancestors : inner.arena.ancestorsOf m.order ws.tx = .empty := h.ancestorsOf_eq hlone
  have hself : ¬ Names env ws.tx ws.tx :=
    hlone.names ws.tx List.mem_cons_self (Or.inl List.mem_cons_self)
  have hunnamed : ∀ {k e}, inner.get k = some e → ¬ Names env e.tx ws.tx :=
    fun he => hlone.unnamed he ws.tx List.mem_cons_self
  refine ⟨h.byTxid.inserted hfresh hinserted, fun a b => ?_, fun {k e'} he' => ?_⟩
  · rw [child_inserted hnew hself hunnamed, not_or]
    refine ⟨h.unrelated a b, ?_⟩
    rintro ⟨_, ea, hea, hspends⟩
    exact hlone.names ws.tx List.mem_cons_self (Or.inr ⟨a, ea, hea, rfl⟩) hspends.names
  · by_cases hk : k = id
    · -- the loop over the ancestors has nothing to add
      subst hk
      obtain ⟨st, ancKey, descKey, hst, hentry⟩ := hnew.entry
      rw [ancestorState, hancestors] at hst
      have hnil : (HashSet.empty : HashSet EntryId).iter m.order = [] :=
        (m.order.perm []).eq_nil
      rw [hnil] at hst
      cases hst
      obtain rfl := Option.some.inj (he'.symm.trans hentry)
      exact ⟨rfl, hvsize, rfl, rfl, rfl, hvsize, rfl⟩
    · have hother : inner'.get k = inner.get k :=
        hnew.other k hk (by rw [hancestors]; exact HashSet.not_mem_empty)
      exact h.counts (hother ▸ he')

theorem accepted {wss : List ValidationWorkspace} (hlone : Lone env inner txs)
    (haccepted : Accepted env build options m inner txs wss inner') : LoneEntries env inner' := by
  have hpending : Lone env inner (wss.map ValidationWorkspace.tx) := by
    refine hlone.subset fun t ht => ?_
    obtain ⟨ws, hws, rfl⟩ := List.mem_map.mp ht
    exact haccepted.mem ws hws
  have hvsize : ∀ ws ∈ wss, ws.vsize = toSigned 64 (toVbytesCeil ws.txWeight) := by
    intro ws hws
    rw [(haccepted.checked ws hws).vsize, (haccepted.checked ws hws).txWeight]
  refine (haccepted.induction (I := fun u rest => LoneEntries env u ∧
    Lone env u (rest.map ValidationWorkspace.tx) ∧
    ∀ ws ∈ rest, ws.vsize = toSigned 64 (toVbytesCeil ws.txWeight)) ⟨h, hpending, hvsize⟩ ?_).1
  rintro u ws rest ctx u' ⟨hu, hlone, hvsize⟩ hfresh hinserted
  obtain ⟨id, hnew⟩ := hinserted.insertedAt
  exact ⟨hu.inserted hlone (hvsize ws List.mem_cons_self) hfresh hinserted, hlone.tail hnew,
    fun ws' hws' => hvsize ws' (List.mem_cons_of_mem ws hws')⟩

theorem removed {ids : List EntryId} (hremoved : Removed env inner ids inner') :
    LoneEntries env inner' := by
  refine ⟨h.byTxid.removed hremoved, fun a b hchild => ?_, fun he => ?_⟩
  · exact h.unrelated a b ((child_removed hremoved).mp hchild).2.2
  · exact h.counts ((get_removed hremoved).mp he).2

theorem aggregates : Aggregates env inner := by
  intro k e hk
  have hancestors := ancestors_eq_singleton hk fun b => h.unrelated b k
  have hdescendants := descendants_eq_singleton hk fun b => h.unrelated k b
  have hcounts := h.counts hk
  constructor
  · rw [hancestors, hcounts.countWithAncestors, Finset.card_singleton]
  · rw [hancestors, sumOver_singleton hk, hcounts.sizeWithAncestors]
  · rw [hancestors, sumOver_singleton hk, hcounts.feesWithAncestors]
  · rw [hancestors, sumOver_singleton hk, hcounts.sigopsWithAncestors]
  · rw [hdescendants, hcounts.countWithDescendants, Finset.card_singleton]
  · rw [hdescendants, sumOver_singleton hk, hcounts.sizeWithDescendants]
  · rw [hdescendants, sumOver_singleton hk, hcounts.feesWithDescendants]

end

end LoneEntries

theorem loneEntries_new : LoneEntries env .new := by
  refine ⟨byTxid_new, ?_, fun hk => ?_⟩
  · rintro a b ⟨ea, eb, hea, _⟩
    cases hea
  · cases hk

/-- In every state of a run of transactions without relatives, the statistics are right. -/
theorem aggregates_of_lone_run {p : MemPool}
    (h : Reachable env build options (OffersLone env) p) :
    Aggregates env p.inner := by
  have hlone : LoneEntries env p.inner := by
    refine inner_invariant loneEntries_new (fun hcond hI => hI.accepted hcond) ?_ ?_ h
    · intro m call p _ u ids u' _ hu hremove
      exact hu.removed (removeStaged_spec hremove)
    · intro u unbroadcast hu
      exact ⟨hu.byTxid, hu.unrelated, hu.counts⟩
  exact hlone.aggregates

/-! ## Samples -/

namespace Reference

/-- Two transactions that spend coins of the chain. -/
theorem aggregates_of_lone_package :
    ∃ p, Reachable Reference.env .checked .default (OffersLone Reference.env) p ∧
      p.inner.arena.entries.len = 2 ∧ Aggregates Reference.env p.inner := by
  have hrun : (run Reference.env .checked .default
      [(moment, .acceptPackage [parent, spendOf (coinAt 1) 90000])] (.new client)).any
      (fun p => p.inner.arena.entries.len = 2) = true := by decide +kernel
  have hlone : OffersLone Reference.env moment
      (.acceptPackage [parent, spendOf (coinAt 1) 90000]) (.new client) := by
    have hnames : ∀ t ∈ [parent, spendOf (coinAt 1) 90000],
        ∀ b ∈ [parent, spendOf (coinAt 1) 90000], ¬ Names Reference.env t b := by decide +kernel
    refine ⟨fun he => ?_, ?_⟩
    · cases he
    · rintro t ht b (hb | ⟨k, e, he, _⟩)
      · exact hnames t ht b hb
      · cases he
  obtain ⟨p, hp, hlen⟩ := exists_step (.new client) hlone hrun
  exact ⟨p, hp, of_decide_eq_true hlen, aggregates_of_lone_run hp⟩

/-- An entry that spends no other one and counts more ancestors than itself. -/
def miscounted (p : MemPool) : Bool :=
  p.inner.arena.entries.keys.any fun k =>
    match p.inner.get k with
    | some e => decide (e.countWithAncestors ≠ 1) && p.inner.arena.entries.keys.all fun b =>
        match p.inner.get b with
        | some eb => !decide (Spends Reference.env e.tx eb.tx)
        | none => true
    | none => false

theorem not_aggregates_of_miscounted {p : MemPool} (h : miscounted p = true) :
    ¬ Aggregates Reference.env p.inner := by
  intro haggregates
  simp only [miscounted, List.any_eq_true] at h
  obtain ⟨k, _, h⟩ := h
  split at h
  · rename_i e hk
    rw [Bool.and_eq_true, decide_eq_true_eq, List.all_eq_true] at h
    have hroot : ∀ b, ¬ Child Reference.env p.inner b k := by
      rintro b ⟨eb, ek, heb, hek, hspends⟩
      obtain rfl := Option.some.inj (hk.symm.trans hek)
      have hb := h.2 b (mem_keys_iff.mpr ⟨eb, heb⟩)
      rw [heb] at hb
      simp [hspends] at hb
    have hcount := (haggregates k e hk).countWithAncestors
    rw [ancestors_eq_singleton hk hroot, Finset.card_singleton] at hcount
    exact h.1 hcount
  · cases h

/-- A parent and then its child: the parent counts the child among its ancestors. -/
theorem not_aggregates_child :
    ∃ p, Reachable Reference.env .checked .default (fun _ _ _ => True) p ∧
      ¬ Aggregates Reference.env p.inner := by
  have hrun : (run Reference.env .checked .default
      [(moment, .acceptSingleTransaction parent), (moment, .acceptSingleTransaction child)]
      (.new client)).any miscounted = true := by decide +kernel
  obtain ⟨p, hp, hcount⟩ := exists_reachable hrun
  exact ⟨p, hp, not_aggregates_of_miscounted hcount⟩

end Reference

end Subcoin.Mempool
