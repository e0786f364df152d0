import Subcoin.Mempool.Runs

/-!
# Subcoin — the graph of the entries

The lookup by txid is exact in every state (`byTxid_reachable`), so the parents that an insertion
links are the entries which the transaction names. The closures of the source are the nodes that
can be reached along the links (`mem_ancestorsOf`, `mem_expand`). `InsertedAt.get_old` and
`InsertedAt.get_new` say which entries there are after an insertion.
-/

namespace Subcoin.Mempool

open MemPoolArena

variable {SE : Type} {env : PoolEnv SE} {build : Build} {options : MemPoolOptions} {m : Moment}
  {inner inner' : MemPoolInner} {ws : ValidationWorkspace} {ctx : EntryContext}
  {arena arena' : MemPoolArena} {id k : EntryId} {e e' : TxMemPoolEntry}

/-! ## Entries after an insertion -/

namespace InsertedAt

/-- What an insertion leaves of the entry under an id: the ancestors get a child. -/
def after (m : Moment) (arena : MemPoolArena) (ws : ValidationWorkspace) (id k : EntryId)
    (e : TxMemPoolEntry) : TxMemPoolEntry :=
  if k ∈ arena.ancestorsOf m.order ws.tx then e.addChild id else e

section

variable (h : InsertedAt env build m arena ws ctx id arena')

include h

theorem ne_of_get (hk : arena.get k = some e) : k ≠ id := by
  rintro rfl
  rw [h.fresh] at hk
  cases hk

theorem get_old (hk : arena.get k = some e) :
    ∃ e', arena'.get k = some e' ∧ e'.bare = (after m arena ws id k e).bare := by
  unfold after
  by_cases hanc : k ∈ arena.ancestorsOf m.order ws.tx
  · obtain ⟨e1, e', he1, he', hbare⟩ := h.ancestor k hanc
    obtain rfl := Option.some.inj (hk.symm.trans he1)
    exact ⟨e', he', by rw [if_pos hanc, hbare]⟩
  · exact ⟨e, by rw [h.other k (h.ne_of_get hk) hanc, hk], by rw [if_neg hanc]⟩

/-- The entries after an insertion: the new one, and those there were. -/
theorem get_new (hk : arena'.get k = some e') :
    (k = id ∧ e'.tx = ws.tx ∧ e'.parents = HashSet.empty.extend (arena.parentIds ws.tx) ∧
      e'.children = .empty) ∨
    ∃ e, arena.get k = some e ∧ e'.bare = (after m arena ws id k e).bare := by
  by_cases hid : k = id
  · subst hid
    obtain ⟨st, ancKey, descKey, _, hentry⟩ := h.entry
    rw [hentry] at hk
    obtain rfl := Option.some.inj hk
    exact Or.inl ⟨rfl, rfl, rfl, rfl⟩
  · refine Or.inr ?_
    by_cases hanc : k ∈ arena.ancestorsOf m.order ws.tx
    · obtain ⟨e, e1, he, he1, hbare⟩ := h.ancestor k hanc
      obtain rfl := Option.some.inj (hk.symm.trans he1)
      exact ⟨e, he, by rw [after, if_pos hanc, hbare]⟩
    · refine ⟨e', ?_, by rw [after, if_neg hanc]⟩
      rw [← h.other k hid hanc, hk]

end

end InsertedAt

/-- The children are all that an insertion changes of an entry, up to statistics and keys. -/
theorem bare_after : (InsertedAt.after m arena ws id k e).bare =
    { e.bare with children := (InsertedAt.after m arena ws id k e).children } := by
  unfold InsertedAt.after
  split
  · rfl
  · rfl

section

variable (h : e'.bare = (InsertedAt.after m arena ws id k e).bare)

include h

theorem tx_eq_of_bare : e'.tx = e.tx := by
  rw [bare_after] at h
  calc e'.tx = e'.bare.tx := rfl
    _ = e.tx := by rw [h]; rfl

theorem parents_eq_of_bare : e'.parents = e.parents := by
  rw [bare_after] at h
  calc e'.parents = e'.bare.parents := rfl
    _ = e.parents := by rw [h]; rfl

theorem mem_children_of_bare {c : EntryId} :
    c ∈ e'.children ↔ c ∈ e.children ∨ c = id ∧ k ∈ arena.ancestorsOf m.order ws.tx := by
  have hchildren : e'.children = (InsertedAt.after m arena ws id k e).children := by
    calc e'.children = e'.bare.children := rfl
      _ = (InsertedAt.after m arena ws id k e).children := by rw [h, bare_after]
  rw [hchildren, InsertedAt.after]
  split
  · rename_i hanc
    simp only [TxMemPoolEntry.addChild, HashSet.mem_insert, and_iff_left hanc]
    exact or_comm
  · rename_i hanc
    simp [hanc]

end

/-! ## What an entry keeps -/

/-- The data of an entry that stays as it was recorded: all but statistics, keys and links. -/
def TxMemPoolEntry.record (e : TxMemPoolEntry) : TxMemPoolEntry :=
  { e.bare with parents := .empty, children := .empty }

/-- What is recorded of a checked transaction. -/
def recordOf (env : PoolEnv SE) (ws : ValidationWorkspace) (ctx : EntryContext) : TxMemPoolEntry :=
  (entryOf env .new ws ctx ⟨0, 0, 0, 0⟩).record

theorem record_eq_of_bare (h : e'.bare = (InsertedAt.after m arena ws id k e).bare) :
    e'.record = e.record := by
  rw [bare_after] at h
  rw [TxMemPoolEntry.record, h]
  rfl

/-- The records after an insertion: the new one, and those there were. -/
theorem InsertedAt.record_new (h : InsertedAt env build m arena ws ctx id arena')
    (hk : arena'.get k = some e') :
    (k = id ∧ e'.record = recordOf env ws ctx) ∨
      ∃ e, arena.get k = some e ∧ e'.record = e.record := by
  rcases h.get_new hk with ⟨rfl, _⟩ | ⟨e, he, hbare⟩
  · obtain ⟨st, ancKey, descKey, _, hentry⟩ := h.entry
    rw [hentry] at hk
    obtain rfl := Option.some.inj hk
    exact Or.inl ⟨rfl, rfl⟩
  · exact Or.inr ⟨e, he, record_eq_of_bare hbare⟩

variable {wss : List ValidationWorkspace} {order : HashOrder}

theorem record_old (h : InsertsAll env build m inner wss inner') (hk : inner.get k = some e) :
    ∃ e', inner'.get k = some e' ∧ e'.record = e.record := by
  induction wss generalizing inner e with
  | nil => exact ⟨e, h ▸ hk, rfl⟩
  | cons ws rest ih =>
    obtain ⟨ctx, inner1, hinserted, h⟩ := h
    obtain ⟨id, hid⟩ := hinserted.insertedAt
    obtain ⟨e1, he1, hbare⟩ := hid.get_old hk
    obtain ⟨e', he', hrecord⟩ := ih h he1
    exact ⟨e', he', hrecord.trans (record_eq_of_bare hbare)⟩

/-- Every workspace that is inserted leaves its record. -/
theorem record_insertsAll (h : InsertsAll env build m inner wss inner') :
    ∀ ws ∈ wss, ∃ k e ctx, inner'.get k = some e ∧ e.record = recordOf env ws ctx := by
  induction wss generalizing inner with
  | nil => simp
  | cons ws rest ih =>
    obtain ⟨ctx, inner1, hinserted, h⟩ := h
    refine List.forall_mem_cons.mpr ⟨?_, ih h⟩
    obtain ⟨id, hid⟩ := hinserted.insertedAt
    obtain ⟨st, ancKey, descKey, _, hentry⟩ := hid.entry
    obtain ⟨e', he', hrecord⟩ := record_old h hentry
    exact ⟨id, e', ctx, he', hrecord⟩

/-! ## The lookup by txid -/

theorem mem_keys_iff : k ∈ inner.arena.entries.keys ↔ ∃ e, inner.get k = some e := by
  rw [SlotMap.mem_keys, Option.isSome_iff_exists]
  rfl

/-- The map by txid finds the entries, and nothing else. -/
def ByTxid (env : PoolEnv SE) (inner : MemPoolInner) : Prop :=
  ∀ t id, inner.arena.byTxid t = some id ↔ ∃ e, inner.get id = some e ∧ env.computeTxid e.tx = t

namespace ByTxid

theorem unique (h : ByTxid env inner) {k1 k2 : EntryId} {e1 e2 : TxMemPoolEntry}
    (h1 : inner.get k1 = some e1) (h2 : inner.get k2 = some e2)
    (heq : env.computeTxid e1.tx = env.computeTxid e2.tx) : k1 = k2 := by
  have hk1 := (h _ k1).mpr ⟨e1, h1, rfl⟩
  have hk2 := (h _ k2).mpr ⟨e2, h2, rfl⟩
  rw [heq, hk2] at hk1
  exact (Option.some.inj hk1).symm

theorem inserted (h : ByTxid env inner)
    (hfresh : inner.arena.byTxid (env.computeTxid ws.tx) = none)
    (hinserted : Inserted env build m inner ws ctx inner') : ByTxid env inner' := by
  obtain ⟨new, hnew⟩ := hinserted.insertedAt
  intro t k
  rw [hnew.byTxid]
  by_cases ht : t = env.computeTxid ws.tx
  · subst ht
    rw [Function.update_self, Option.some.injEq]
    constructor
    · rintro rfl
      obtain ⟨st, ancKey, descKey, _, hentry⟩ := hnew.entry
      exact ⟨_, hentry, rfl⟩
    · rintro ⟨e', he', heq⟩
      rcases hnew.get_new he' with ⟨rfl, _⟩ | ⟨e, he, hbare⟩
      · rfl
      · rw [tx_eq_of_bare hbare] at heq
        rw [(h _ k).mpr ⟨e, he, heq⟩] at hfresh
        cases hfresh
  · rw [Function.update_of_ne ht, h t k]
    constructor
    · rintro ⟨e, he, heq⟩
      obtain ⟨e', he', hbare⟩ := hnew.get_old he
      exact ⟨e', he', by rw [tx_eq_of_bare hbare, heq]⟩
    · rintro ⟨e', he', heq⟩
      rcases hnew.get_new he' with ⟨_, htx, _⟩ | ⟨e, he, hbare⟩
      · exact absurd (htx ▸ heq.symm) ht
      · exact ⟨e, he, tx_eq_of_bare hbare ▸ heq⟩

theorem removed {ids : List EntryId} (h : ByTxid env inner)
    (hremoved : Removed env inner ids inner') : ByTxid env inner' := by
  intro t k
  rw [hremoved.byTxid.eq_some, hremoved.get, h t k]
  constructor
  · rintro ⟨hamong, e, he, heq⟩
    have hk : k ∉ ids := fun hk => hamong ⟨k, hk, e, he, heq⟩
    exact ⟨e, by rw [if_neg hk, he], heq⟩
  · rintro ⟨e, he, heq⟩
    by_cases hk : k ∈ ids
    · rw [if_pos hk] at he
      cases he
    · rw [if_neg hk] at he
      refine ⟨?_, e, he, heq⟩
      -- two entries of one txid are one
      rintro ⟨k', hk', e1, he1, heq1⟩
      exact hk (h.unique he1 he (heq1.trans heq.symm) ▸ hk')

end ByTxid

/-! ## Insertions one by one -/

/-- An induction over the insertions of an acceptance, each of a txid that is not in use. The
property may speak of the workspaces still to come. -/
theorem Accepted.induction {txs : List Transaction}
    {I : MemPoolInner → List ValidationWorkspace → Prop}
    (h : Accepted env build options m inner txs wss inner') (hI : I inner wss)
    (hstep : ∀ {u ws rest ctx u'}, I u (ws :: rest) → u.arena.byTxid (env.computeTxid ws.tx) =
      none → Inserted env build m u ws ctx u' → I u' rest) : I inner' [] := by
  -- the txids of the workspaces still to come are not in use, and differ
  let J := fun (u : MemPoolInner) (rest : List ValidationWorkspace) =>
    I u rest ∧ (∀ ws ∈ rest, u.arena.byTxid (env.computeTxid ws.tx) = none) ∧
      (rest.map fun ws => env.computeTxid ws.tx).Nodup
  have hJ : J inner wss := ⟨hI, fun ws hws => (h.checked ws hws).fresh, h.nodup⟩
  refine (insertsAll_induction (I := J) ?_ h.inserts hJ).1
  rintro u ws rest ctx u' ⟨hIu, hfresh, hnodup⟩ hinserted
  rw [List.map_cons, List.nodup_cons] at hnodup
  refine ⟨hstep hIu (hfresh ws List.mem_cons_self) hinserted, fun ws' hws' => ?_, hnodup.2⟩
  obtain ⟨new, hnew⟩ := hinserted.insertedAt
  have hne : env.computeTxid ws'.tx ≠ env.computeTxid ws.tx := by
    intro heq
    exact hnodup.1 (heq ▸ List.mem_map_of_mem (f := fun ws => env.computeTxid ws.tx) hws')
  rw [hnew.byTxid, Function.update_of_ne hne]
  exact hfresh ws' (List.mem_cons_of_mem ws hws')

theorem ByTxid.accepted {txs : List Transaction} (h : ByTxid env inner)
    (haccepted : Accepted env build options m inner txs wss inner') : ByTxid env inner' :=
  haccepted.induction (I := fun u _ => ByTxid env u) h fun hu hfresh => hu.inserted hfresh

theorem byTxid_new : ByTxid env .new := by
  intro t id
  constructor
  · intro h
    cases h
  · rintro ⟨e, he, _⟩
    cases he

/-- The lookup by txid is exact in every state of every run. -/
theorem byTxid_reachable {cond : Moment → Call → MemPool → Prop} {p : MemPool}
    (h : Reachable env build options cond p) : ByTxid env p.inner :=
  inner_invariant byTxid_new (fun _ => ByTxid.accepted)
    (fun _ _ _ _ _ hu hremove => hu.removed (removeStaged_spec hremove)) (fun h => h) h

/-! ## Links -/

theorem mem_childrenOf :
    k ∈ arena.childrenOf order id ↔ ∃ e, arena.get id = some e ∧ k ∈ e.children := by
  unfold childrenOf
  cases arena.get id with
  | none => simp
  | some e => simp

theorem mem_parentsOf :
    k ∈ arena.parentsOf order id ↔ ∃ e, arena.get id = some e ∧ k ∈ e.parents := by
  unfold parentsOf
  cases arena.get id with
  | none => simp
  | some e => simp

theorem mem_keys_of_childrenOf (h : arena.childrenOf order id ≠ []) : id ∈ arena.entries.keys := by
  rw [SlotMap.mem_keys]
  unfold childrenOf at h
  split at h
  · rename_i e he
    exact Option.isSome_iff_exists.mpr ⟨e, he⟩
  · exact absurd rfl h

theorem mem_keys_of_parentsOf (h : arena.parentsOf order id ≠ []) : id ∈ arena.entries.keys := by
  rw [SlotMap.mem_keys]
  unfold parentsOf at h
  split at h
  · rename_i e he
    exact Option.isSome_iff_exists.mpr ⟨e, he⟩
  · exact absurd rfl h

theorem mem_ancestorsOf {tx : Transaction} :
    k ∈ arena.ancestorsOf order tx ↔
      ∃ r ∈ arena.parentIds tx, Visit.Reaches (arena.parentsOf order) r k :=
  Visit.mem_visitAll (fun _ => mem_keys_of_parentsOf) (Nat.lt_succ_self _)

/-- The searches of the source along the children, from several roots. -/
theorem mem_searchDescendants {roots : List EntryId} :
    k ∈ roots.foldl (arena.calculateDescendants order) .empty ↔
      ∃ r ∈ roots, Visit.Reaches (arena.childrenOf order) r k :=
  Visit.mem_visitAll (fun _ => mem_keys_of_childrenOf) (Nat.lt_succ_self _)

theorem mem_expand {ids : HashSet EntryId} :
    k ∈ MemPool.expand order arena ids ↔
      ∃ r ∈ ids, Visit.Reaches (arena.childrenOf order) r k := by
  rw [MemPool.expand, mem_searchDescendants]
  simp only [HashSet.mem_iter]

theorem mem_calculateDescendants :
    k ∈ arena.calculateDescendants order .empty id ↔
      Visit.Reaches (arena.childrenOf order) id k := by
  have hsearch : k ∈ [id].foldl (arena.calculateDescendants order) .empty ↔ _ :=
    mem_searchDescendants
  simpa only [List.foldl_cons, List.foldl_nil, List.mem_singleton, exists_eq_left] using hsearch

/-- The parents that are linked are the entries which a transaction names. -/
theorem ByTxid.mem_parentIds (h : ByTxid env inner) {tx : Transaction} :
    k ∈ inner.arena.parentIds tx ↔ ∃ e, inner.get k = some e ∧ Names env tx e.tx := by
  unfold parentIds Names
  simp only [List.mem_filterMap, getByTxid, h _ k]
  constructor
  · rintro ⟨o, ho, e, he, heq⟩
    exact ⟨e, he, o, ho, heq.symm⟩
  · rintro ⟨e, he, o, ho, heq⟩
    exact ⟨o, ho, e, he, heq.symm⟩

end Subcoin.Mempool
