import Subcoin.Mempool.Links

/-!
# Subcoin — double spends

`map_next_tx` is the map from outpoints to the entries that spend them. A transaction is checked
against the map as it is before its package, so a package whose members spend a common outpoint
gets in as a whole. Without such packages no two entries spend one outpoint, and the map is exact
(`noDoubleSpends_of_disjoint_run`).
-/

namespace Subcoin.Mempool

variable {SE : Type} {env : PoolEnv SE} {build : Build} {options : MemPoolOptions} {m : Moment}
  {inner inner' : MemPoolInner} {ws : ValidationWorkspace} {ctx : EntryContext}
  {txs : List Transaction}

/-- No two entries spend one outpoint, and the map of the spenders is exact. -/
structure NoDoubleSpends (env : PoolEnv SE) (inner : MemPoolInner) : Prop where
  unique : ∀ {a b ea eb o}, inner.get a = some ea → inner.get b = some eb → o ∈ ea.tx.spends →
    o ∈ eb.tx.spends → a = b
  exact : ∀ o txid, inner.mapNextTx o = some txid ↔
    ∃ k e, inner.get k = some e ∧ env.computeTxid e.tx = txid ∧ o ∈ e.tx.spends

/-- Transactions of different txids spend different outpoints. -/
def DisjointInputs (env : PoolEnv SE) (txs : List Transaction) : Prop :=
  ∀ a ∈ txs, ∀ b ∈ txs, ∀ o, o ∈ a.spends → o ∈ b.spends → env.computeTxid a = env.computeTxid b

/-- The condition on a call under which there are no double spends. -/
def OffersDisjoint (env : PoolEnv SE) (_ : Moment) (call : Call) (_ : MemPool) : Prop :=
  DisjointInputs env call.offered

/-! ## The map of the spenders -/

namespace NoDoubleSpends

section

variable (h : NoDoubleSpends env inner)

include h

theorem not_spent {k : EntryId} {e : TxMemPoolEntry} {o : OutPoint}
    (ho : inner.mapNextTx o = none) (hk : inner.get k = some e) : o ∉ e.tx.spends := by
  intro hspent
  rw [(h.exact o _).mpr ⟨k, e, hk, rfl, hspent⟩] at ho
  cases ho

theorem inserted (hunspent : ∀ o ∈ ws.tx.spends, inner.mapNextTx o = none)
    (hinserted : Inserted env build m inner ws ctx inner') : NoDoubleSpends env inner' := by
  obtain ⟨id, hnew⟩ := hinserted.insertedAt
  -- an entry there was spends none of the outpoints of the new one
  have hold : ∀ {k o} {e e' : TxMemPoolEntry}, inner.get k = some e →
      e'.bare = (InsertedAt.after m inner.arena ws id k e).bare → o ∈ ws.tx.spends →
      o ∉ e'.tx.spends := by
    intro k o e e' he hbare ho
    rw [tx_eq_of_bare hbare]
    exact h.not_spent (hunspent o ho) he
  constructor
  · intro a b ea eb o ha hb hoa hob
    rcases hnew.get_new ha with ⟨rfl, hatx, _⟩ | ⟨ea0, hea0, habare⟩
    · rcases hnew.get_new hb with ⟨rfl, _⟩ | ⟨eb0, heb0, hbbare⟩
      · rfl
      · exact absurd hob (hold heb0 hbbare (hatx ▸ hoa))
    · rcases hnew.get_new hb with ⟨_, hbtx, _⟩ | ⟨eb0, heb0, hbbare⟩
      · exact absurd hoa (hold hea0 habare (hbtx ▸ hob))
      · rw [tx_eq_of_bare habare] at hoa
        rw [tx_eq_of_bare hbbare] at hob
        exact h.unique hea0 heb0 hoa hob
  · intro o txid
    rw [hinserted.mapNextTx, spend_apply]
    split
    · rename_i ho
      rw [Option.some.injEq]
      constructor
      · rintro rfl
        obtain ⟨st, ancKey, descKey, _, hentry⟩ := hnew.entry
        exact ⟨id, _, hentry, rfl, ho⟩
      · rintro ⟨k, e', he', htxid, ho'⟩
        rcases hnew.get_new he' with ⟨_, htx, _⟩ | ⟨e, he, hbare⟩
        · rw [← htxid, htx]
        · exact absurd ho' (hold he hbare ho)
    · rename_i ho
      rw [h.exact o txid]
      constructor
      · rintro ⟨k, e, he, htxid, ho'⟩
        obtain ⟨e', he', hbare⟩ := hnew.get_old he
        exact ⟨k, e', he', by rw [tx_eq_of_bare hbare, htxid], by rwa [tx_eq_of_bare hbare]⟩
      · rintro ⟨k, e', he', htxid, ho'⟩
        rcases hnew.get_new he' with ⟨_, htx, _⟩ | ⟨e, he, hbare⟩
        · exact absurd (htx ▸ ho') ho
        · rw [tx_eq_of_bare hbare] at htxid ho'
          exact ⟨k, e, he, htxid, ho'⟩

/-- The members of a package that are still to come stay without conflicts. -/
theorem accepted {wss : List ValidationWorkspace} (hdisjoint : DisjointInputs env txs)
    (haccepted : Accepted env build options m inner txs wss inner') :
    NoDoubleSpends env inner' := by
  have hunspent : ∀ ws ∈ wss, ∀ o ∈ ws.tx.spends, inner.mapNextTx o = none :=
    fun ws hws => (haccepted.checked ws hws).unspent
  refine (haccepted.induction (I := fun u rest => NoDoubleSpends env u ∧
    (∀ ws ∈ rest, ∀ o ∈ ws.tx.spends, u.mapNextTx o = none) ∧ (∀ ws ∈ rest, ws.tx ∈ txs) ∧
    (rest.map fun ws => env.computeTxid ws.tx).Nodup)
    ⟨h, hunspent, haccepted.mem, haccepted.nodup⟩ ?_).1
  rintro u ws rest ctx u' ⟨hu, hunspent, hmem, hnodup⟩ _ hinserted
  rw [List.map_cons, List.nodup_cons] at hnodup
  refine ⟨hu.inserted (hunspent ws List.mem_cons_self) hinserted, fun ws' hws' o ho => ?_,
    fun ws' hws' => hmem ws' (List.mem_cons_of_mem ws hws'), hnodup.2⟩
  have ho' : o ∉ ws.tx.spends := by
    intro hspent
    have htxid := hdisjoint ws.tx (hmem ws List.mem_cons_self) ws'.tx
      (hmem ws' (List.mem_cons_of_mem ws hws')) o hspent ho
    exact hnodup.1 (htxid ▸ List.mem_map_of_mem (f := fun ws => env.computeTxid ws.tx) hws')
  rw [hinserted.mapNextTx, spend_apply, if_neg ho']
  exact hunspent ws' (List.mem_cons_of_mem ws hws') o ho

theorem removed {ids : List EntryId} (hremoved : Removed env inner ids inner') :
    NoDoubleSpends env inner' := by
  constructor
  · intro a b ea eb o ha hb
    exact h.unique ((get_removed hremoved).mp ha).2 ((get_removed hremoved).mp hb).2
  · intro o txid
    rw [hremoved.mapNextTx.eq_some, h.exact o txid]
    constructor
    · rintro ⟨hamong, k, e, he, htxid, ho⟩
      refine ⟨k, e, (get_removed hremoved).mpr ⟨fun hk => ?_, he⟩, htxid, ho⟩
      exact hamong ⟨k, hk, e, he, ho⟩
    · rintro ⟨k, e, he, htxid, ho⟩
      obtain ⟨hk, he⟩ := (get_removed hremoved).mp he
      refine ⟨?_, k, e, he, htxid, ho⟩
      -- the one entry that spends the outpoint stays
      rintro ⟨k', hk', e', he', ho'⟩
      exact hk (h.unique he' he ho' ho ▸ hk')

end

end NoDoubleSpends

theorem noDoubleSpends_new : NoDoubleSpends env .new := by
  constructor
  · intro a b ea eb o ha
    cases ha
  · intro o txid
    constructor
    · intro h
      cases h
    · rintro ⟨k, e, he, _⟩
      cases he

/-- In every state of a run whose packages spend every outpoint once, so do the entries, and the
map of the spenders is exact. -/
theorem noDoubleSpends_of_disjoint_run {p : MemPool}
    (h : Reachable env build options (OffersDisjoint env) p) : NoDoubleSpends env p.inner := by
  refine inner_invariant noDoubleSpends_new (fun hcond hI => hI.accepted hcond) ?_ ?_ h
  · intro m call p _ u ids u' _ hu hremove
    exact hu.removed (removeStaged_spec hremove)
  · intro u unbroadcast hu
    exact ⟨hu.unique, hu.exact⟩

/-! ## What a block removes -/

theorem NoDoubleSpends.mem_collectConflicts (h : NoDoubleSpends env inner)
    (hbyTxid : ByTxid env inner) {tx : Transaction} {k : EntryId} :
    k ∈ collectConflicts inner tx ↔
      ∃ e, inner.get k = some e ∧ ∃ o ∈ tx.spends, o ∈ e.tx.spends := by
  unfold collectConflicts MemPoolInner.getConflictTx MemPoolArena.getByTxid
  simp only [HashSet.mem_extend, HashSet.not_mem_empty, false_or, List.mem_filterMap,
    Option.bind_eq_some_iff, h.exact, hbyTxid _ k]
  constructor
  · rintro ⟨o, ho, _, ⟨k', e', he', rfl, ho'⟩, e, he, heq⟩
    obtain rfl := hbyTxid.unique he' he heq.symm
    obtain rfl := Option.some.inj (he'.symm.trans he)
    exact ⟨e', he', o, ho, ho'⟩
  · rintro ⟨e, he, o, ho, ho'⟩
    exact ⟨o, ho, _, ⟨k, e, he, rfl, ho'⟩, e, he, rfl⟩

/-- The block has the transaction of the entry, or one that spends an outpoint of it. -/
def Touches (env : PoolEnv SE) (confirmed : List Transaction) (e : TxMemPoolEntry) : Prop :=
  ∃ tx ∈ confirmed, env.computeTxid e.tx = env.computeTxid tx ∨ ∃ o ∈ tx.spends, o ∈ e.tx.spends

theorem NoDoubleSpends.mem_confirmedIds (h : NoDoubleSpends env inner)
    (hbyTxid : ByTxid env inner) {confirmed : List Transaction} {k : EntryId} :
    k ∈ MemPool.confirmedIds env m inner confirmed ↔
      ∃ e, inner.get k = some e ∧ Touches env confirmed e := by
  unfold MemPool.confirmedIds Touches MemPoolArena.getByTxid
  simp only [HashSet.mem_extend, HashSet.not_mem_empty, false_or, List.mem_flatMap,
    List.mem_append, Option.mem_toList, HashSet.mem_iter, h.mem_collectConflicts hbyTxid,
    hbyTxid _ k]
  constructor
  · rintro ⟨tx, htx, ⟨e, he, heq⟩ | ⟨e, he, hspends⟩⟩
    · exact ⟨e, he, tx, htx, Or.inl heq⟩
    · exact ⟨e, he, tx, htx, Or.inr hspends⟩
  · rintro ⟨e, he, tx, htx, heq | hspends⟩
    · exact ⟨tx, htx, Or.inl ⟨e, he, heq⟩⟩
    · exact ⟨tx, htx, Or.inr ⟨e, he, hspends⟩⟩

/-! ## Samples -/

namespace Reference

/-- A parent and its child: the map has an outpoint for each. -/
theorem noDoubleSpends_of_package :
    ∃ p, Reachable Reference.env .checked .default (OffersDisjoint Reference.env) p ∧
      p.inner.arena.entries.len = 2 ∧ NoDoubleSpends Reference.env p.inner := by
  have hrun : (run Reference.env .checked .default [(moment, .acceptPackage [child, parent])]
      (.new client)).any (fun p => p.inner.arena.entries.len = 2) = true := by decide +kernel
  have hdisjoint : OffersDisjoint Reference.env moment (.acceptPackage [child, parent])
      (.new client) := by
    have hspends : ∀ a ∈ [child, parent], ∀ b ∈ [child, parent], ∀ o ∈ a.spends,
        o ∈ b.spends → Reference.env.computeTxid a = Reference.env.computeTxid b := by
      decide +kernel
    exact hspends
  obtain ⟨p, hp, hlen⟩ := exists_step (.new client) hdisjoint hrun
  exact ⟨p, hp, of_decide_eq_true hlen, noDoubleSpends_of_disjoint_run hp⟩

/-- Two entries that spend one outpoint. -/
def spendsTwice (p : MemPool) : Bool :=
  p.inner.arena.entries.keys.any fun a => p.inner.arena.entries.keys.any fun b =>
    match p.inner.get a, p.inner.get b with
    | some ea, some eb => decide (a ≠ b) && ea.tx.spends.any fun o => decide (o ∈ eb.tx.spends)
    | _, _ => false

theorem not_noDoubleSpends_of_spendsTwice {p : MemPool} (h : spendsTwice p = true) :
    ¬ NoDoubleSpends Reference.env p.inner := by
  intro hspends
  simp only [spendsTwice, List.any_eq_true] at h
  obtain ⟨a, _, b, _, h⟩ := h
  split at h
  · rename_i ea eb hea heb
    rw [Bool.and_eq_true, decide_eq_true_eq, List.any_eq_true] at h
    obtain ⟨hne, o, hoa, hob⟩ := h
    exact hne (hspends.unique hea heb hoa (of_decide_eq_true hob))
  · cases h

/-- A package of two transactions that spend the same coin. -/
theorem not_noDoubleSpends_package :
    ∃ p, Reachable Reference.env .checked .default (fun _ _ _ => True) p ∧
      ¬ NoDoubleSpends Reference.env p.inner := by
  have hrun : (run Reference.env .checked .default
      [(moment, .acceptPackage [parent, spendOf (coinAt 0) 80000])]
      (.new client)).any spendsTwice = true := by decide +kernel
  obtain ⟨p, hp, htwice⟩ := exists_reachable hrun
  exact ⟨p, hp, not_noDoubleSpends_of_spendsTwice htwice⟩

end Reference

end Subcoin.Mempool
