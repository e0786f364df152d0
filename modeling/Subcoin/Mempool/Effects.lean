import Subcoin.Lib.Failure
import Subcoin.Mempool.Validation

/-!
# Subcoin — what insertions and removals change

The two ways in which a call changes the entries of the mempool, each described once: `Inserted` is
the effect of `finalize_tx` for a transaction that replaces nothing, `Removed` the effect of
`remove_staged` without updates of descendants. The invariants of the mempool are derived from
these two.

* **`insertEntry_spec`** — a new entry under an unused id; its ancestors get it as a child and other
  statistics, every other entry stays as it is.
* **`removeStaged_spec`** — the staged entries are gone from the arena and the maps, every other
  entry stays as it is, with the links it has.
-/

namespace Subcoin.Mempool

open Outcome

variable {ε SE : Type} {env : PoolEnv SE} {build : Build} {m : Moment}

namespace TxMemPoolEntry

/-- The entry without what the arrival of a relative changes: the statistics and the keys. -/
def bare (entry : TxMemPoolEntry) : TxMemPoolEntry :=
  { entry with
    countWithAncestors := 0
    sizeWithAncestors := 0
    feesWithAncestors := 0
    sigopsWithAncestors := 0
    countWithDescendants := 0
    sizeWithDescendants := 0
    feesWithDescendants := 0
    cachedAncestorKey := ⟨(0, 0), default⟩
    cachedDescendantKey := ⟨(0, 0), 0⟩ }

def addChild (entry : TxMemPoolEntry) (id : EntryId) : TxMemPoolEntry :=
  { entry with children := entry.children.insert id }

end TxMemPoolEntry

/-! ## Changes of one entry -/

/-- An ordered index follows an entry to its new key, or keeps it under the old one. -/
def Follows {κ : Type} [LinearOrder κ] (key key' : κ) (id : EntryId)
    (s s' : SortedSet (Indexed κ)) : Prop :=
  s' = (s.erase ⟨key, id⟩).insert ⟨key', id⟩ ∨ key' = key ∧ s' = s

/-- An entry changes, but not the transaction and its data, and the indexes follow. -/
structure Rewritten (env : PoolEnv SE) (build : Build) (arena : MemPoolArena) (id : EntryId)
    (old e : TxMemPoolEntry) (arena' : MemPoolArena) : Prop where
  live : arena.get id = some old
  entries : ∃ f, f old = e ∧ arena'.entries = arena.entries.modify id f
  tx : e.tx = old.tx
  time : e.time = old.time
  txWeight : e.txWeight = old.txWeight
  fee : e.fee = old.fee
  byTxid : arena'.byTxid = arena.byTxid
  byWtxid : arena'.byWtxid = arena.byWtxid
  byEntryTime : arena'.byEntryTime = arena.byEntryTime
  byAncestorScore : Follows old.cachedAncestorKey e.cachedAncestorKey id
    arena.byAncestorScore arena'.byAncestorScore
  byDescendantScore : Follows old.cachedDescendantKey e.cachedDescendantKey id
    arena.byDescendantScore arena'.byDescendantScore
  ancestorKey : computeAncestorKey env build old =
      (.ok old.cachedAncestorKey : Outcome MempoolError _) →
    computeAncestorKey env build e = (.ok e.cachedAncestorKey : Outcome MempoolError _)
  descendantKey : computeDescendantKey build old =
      (.ok old.cachedDescendantKey : Outcome MempoolError _) →
    computeDescendantKey build e = (.ok e.cachedDescendantKey : Outcome MempoolError _)

variable {arena arena' : MemPoolArena} {id : EntryId} {e old : TxMemPoolEntry}

theorem get_modify {f : TxMemPoolEntry → TxMemPoolEntry}
    (hentries : arena'.entries = arena.entries.modify id f) (hold : arena.get id = some old) :
    ∀ k, arena'.get k = if k = id then some (f old) else arena.get k := by
  intro k
  rw [MemPoolArena.get, hentries, SlotMap.get_modify, ← MemPoolArena.get, ← MemPoolArena.get, hold]
  rfl

theorem Rewritten.get (h : Rewritten env build arena id old e arena') :
    ∀ k, arena'.get k = if k = id then some e else arena.get k := by
  obtain ⟨f, rfl, hentries⟩ := h.entries
  exact get_modify hentries h.live

variable {count fee sigops size : Int}

theorem rewritten_updateAncestorState
    (h : arena.updateAncestorState env build id size fee count sigops =
      (.ok arena' : Outcome MempoolError _)) :
    ∃ old e, Rewritten env build arena id old e arena' ∧ e.bare = old.bare := by
  simp only [MemPoolArena.updateAncestorState, MemPoolArena.addAncestorState, bind_eq_ok,
    MemPoolArena.index, expect_eq_ok] at h
  obtain ⟨old, hold, entry, ⟨_, _, _, _, _, _, _, _, hentry⟩, _, hanc, _, hdesc, heq⟩ := h
  cases heq
  cases hentry
  exact ⟨old, _, ⟨hold, ⟨_, rfl, rfl⟩, rfl, rfl, rfl, rfl, rfl, rfl, rfl, Or.inl rfl, Or.inl rfl,
    fun _ => hanc, fun _ => hdesc⟩, rfl⟩

variable (env) in
/-- The ancestor score does not depend on descendants: its key stays valid. -/
theorem rewritten_updateDescendantState
    (h : arena.updateDescendantState build id size fee count =
      (.ok arena' : Outcome MempoolError _)) :
    ∃ old e, Rewritten env build arena id old e arena' ∧ e.bare = old.bare := by
  simp only [MemPoolArena.updateDescendantState, MemPoolArena.addDescendantState, bind_eq_ok,
    MemPoolArena.index, expect_eq_ok] at h
  obtain ⟨old, hold, entry, ⟨_, _, _, _, _, _, hentry⟩, descKey, hdesc, heq⟩ := h
  cases heq
  cases hentry
  exact ⟨old, _, ⟨hold, ⟨_, rfl, rfl⟩, rfl, rfl, rfl, rfl, rfl, rfl, rfl, Or.inr ⟨rfl, rfl⟩,
    Or.inl rfl, fun hanc => hanc, fun _ => hdesc⟩, rfl⟩

/-! ## Rewriting entries of the arena -/

namespace MemPoolArena

/-- The listed entries are replaced by related ones, everything else stays. -/
structure Rewrites (R : TxMemPoolEntry → TxMemPoolEntry → Prop) (ids : List EntryId)
    (arena arena' : MemPoolArena) : Prop where
  byTxid : arena'.byTxid = arena.byTxid
  other : ∀ k, k ∉ ids → arena'.get k = arena.get k
  changed : ∀ k ∈ ids, ∃ e e', arena.get k = some e ∧ arena'.get k = some e' ∧ R e e'

variable {R S : TxMemPoolEntry → TxMemPoolEntry → Prop} {ids : List EntryId} {id : EntryId}
  {arena arena' arena'' : MemPoolArena}

namespace Rewrites

theorem nil : Rewrites R [] arena arena := ⟨rfl, fun _ _ => rfl, nofun⟩

theorem cons (hid : id ∉ ids) (h : Rewrites R [id] arena arena')
    (h' : Rewrites R ids arena' arena'') : Rewrites R (id :: ids) arena arena'' where
  byTxid := h'.byTxid.trans h.byTxid
  other k hk := by
    rw [List.mem_cons, not_or] at hk
    rw [h'.other k hk.2, h.other k (by simpa using hk.1)]
  changed k hk := by
    rcases List.mem_cons.mp hk with rfl | hk
    · obtain ⟨e, e', he, he', hR⟩ := h.changed k (by simp)
      exact ⟨e, e', he, by rw [h'.other k hid, he'], hR⟩
    · obtain ⟨e, e', he, he', hR⟩ := h'.changed k hk
      have hne : k ∉ [id] := fun hmem => hid (List.mem_singleton.mp hmem ▸ hk)
      exact ⟨e, e', by rw [← h.other k hne, he], he', hR⟩

theorem trans (h : Rewrites R ids arena arena') (h' : Rewrites S ids arena' arena'') :
    Rewrites (fun e e'' => ∃ e', R e e' ∧ S e' e'') ids arena arena'' where
  byTxid := h'.byTxid.trans h.byTxid
  other k hk := (h'.other k hk).trans (h.other k hk)
  changed k hk := by
    obtain ⟨e, e', he, he', hR⟩ := h.changed k hk
    obtain ⟨e1, e'', he1, he'', hS⟩ := h'.changed k hk
    obtain rfl := Option.some.inj (he'.symm.trans he1)
    exact ⟨e, e'', he, he'', e', hR, hS⟩

theorem foldlM {step : MemPoolArena → EntryId → Outcome ε MemPoolArena}
    (hstep : ∀ {arena id arena'}, step arena id = .ok arena' → Rewrites R [id] arena arena')
    (hnodup : ids.Nodup) (h : ids.foldlM step arena = .ok arena') :
    Rewrites R ids arena arena' := by
  induction ids generalizing arena with
  | nil =>
    cases h
    exact nil
  | cons id ids ih =>
    rw [List.foldlM_cons, bind_eq_ok] at h
    obtain ⟨arena1, h1, h⟩ := h
    rw [List.nodup_cons] at hnodup
    exact cons hnodup.1 (hstep h1) (ih hnodup.2 h)

end Rewrites

variable {e e' : TxMemPoolEntry}

theorem index_eq_ok : (arena.index id : Outcome ε TxMemPoolEntry) = .ok e ↔ arena.get id = some e :=
  expect_eq_ok

/-- Replacing the entry under an id. -/
theorem rewrites_put (hbyTxid : arena'.byTxid = arena.byTxid) (he : arena.get id = some e)
    (hget : ∀ k, arena'.get k = if k = id then some e' else arena.get k) (hR : R e e') :
    Rewrites R [id] arena arena' := by
  refine ⟨hbyTxid, fun k hk => ?_, fun k hk => ?_⟩
  · rw [hget, if_neg (by simpa using hk)]
  · obtain rfl := List.mem_singleton.mp hk
    exact ⟨e, e', he, by rw [hget, if_pos rfl], hR⟩

theorem rewrites_of_rewritten
    (h : ∃ old e, Rewritten env build arena id old e arena' ∧ e.bare = old.bare) :
    Rewrites (fun e e' => e'.bare = e.bare) [id] arena arena' := by
  obtain ⟨old, e, h, hbare⟩ := h
  exact rewrites_put h.byTxid h.live h.get hbare

theorem rewrites_insertChild {child : EntryId} (hnodup : ids.Nodup)
    (hlive : ∀ k ∈ ids, ∃ e, arena.get k = some e) :
    Rewrites (fun e e' => e' = e.addChild child) ids arena
      (ids.foldl (fun arena id => arena.insertChild id child) arena) := by
  induction ids generalizing arena with
  | nil => exact .nil
  | cons id ids ih =>
    rw [List.nodup_cons] at hnodup
    obtain ⟨e, he⟩ := hlive id (by simp)
    have hhead : Rewrites (fun e e' => e' = e.addChild child) [id] arena
        (arena.insertChild id child) := rewrites_put rfl he (get_modify rfl he) rfl
    refine .cons hnodup.1 hhead (ih hnodup.2 fun k hk => ?_)
    rw [hhead.other k fun hmem => hnodup.1 (List.mem_singleton.mp hmem ▸ hk)]
    exact hlive k (List.mem_cons_of_mem id hk)

end MemPoolArena

/-! ## Insertion -/

/-- The effect on the arena of the insertion of a transaction, under an id that was not in use. -/
structure InsertedAt (env : PoolEnv SE) (build : Build) (m : Moment) (arena : MemPoolArena)
    (ws : ValidationWorkspace) (ctx : EntryContext) (id : EntryId) (arena' : MemPoolArena) :
    Prop where
  fresh : arena.get id = none
  entry : ∃ st ancKey descKey, ancestorState build m arena ws = .ok st ∧
    arena'.get id = some
      { entryOf env arena ws ctx st with
        cachedAncestorKey := ancKey
        cachedDescendantKey := descKey }
  ancestor : ∀ k ∈ arena.ancestorsOf m.order ws.tx, ∃ e e',
    arena.get k = some e ∧ arena'.get k = some e' ∧ e'.bare = (e.addChild id).bare
  other : ∀ k, k ≠ id → k ∉ arena.ancestorsOf m.order ws.tx → arena'.get k = arena.get k
  byTxid : arena'.byTxid = Function.update arena.byTxid (env.computeTxid ws.tx) (some id)

variable {arena arena' : MemPoolArena} {ws : ValidationWorkspace} {ctx : EntryContext}
  {id : EntryId} {inner inner' : MemPoolInner}

theorem live_of_addAncestor {ids : List EntryId} {st st' : AncestorState}
    (h : ids.foldlM (addAncestor build arena) st = .ok st') :
    ∀ k ∈ ids, ∃ e, arena.get k = some e := by
  induction ids generalizing st with
  | nil => exact nofun
  | cons id ids ih =>
    rw [List.foldlM_cons, bind_eq_ok] at h
    obtain ⟨st1, h1, h⟩ := h
    simp only [addAncestor, bind_eq_ok, expect_eq_ok] at h1
    obtain ⟨e, he, _⟩ := h1
    intro k hk
    rcases List.mem_cons.mp hk with rfl | hk
    · exact ⟨e, he⟩
    · exact ih h k hk

theorem insert_spec {entry : TxMemPoolEntry}
    (h : (arena.insert env build entry : Outcome ε (EntryId × MemPoolArena)) =
      .ok (id, arena')) :
    arena.get id = none ∧
      (∃ ancKey descKey, arena'.get id = some
        { entry with cachedAncestorKey := ancKey, cachedDescendantKey := descKey }) ∧
      (∀ k, k ≠ id → arena'.get k = arena.get k) ∧
      arena'.byTxid = Function.update arena.byTxid (env.computeTxid entry.tx) (some id) := by
  simp only [MemPoolArena.insert, bind_eq_ok] at h
  obtain ⟨ancKey, _, descKey, _, _, _, h⟩ := h
  cases h
  refine ⟨SlotMap.get_nextKey, ⟨ancKey, descKey, ?_⟩, fun k hk => ?_, rfl⟩
  · exact SlotMap.get_insert.trans (if_pos rfl)
  · exact SlotMap.get_insert.trans (if_neg hk)

theorem insertEntry_spec (h : insertEntry env build m arena ws ctx = .ok (id, arena')) :
    InsertedAt env build m arena ws ctx id arena' := by
  simp only [insertEntry, bind_eq_ok] at h
  obtain ⟨st, hst, ⟨new, arena1⟩, hinsert, arena2, hanc, arena3, hdesc, h⟩ := h
  cases h
  obtain ⟨hfresh, ⟨ancKey, descKey, hnew⟩, hother, hbyTxid⟩ := insert_spec hinsert
  have hlive := live_of_addAncestor hst
  generalize hids : (arena.ancestorsOf m.order ws.tx).iter m.order = ids at *
  have hnodup : ids.Nodup := hids ▸ HashSet.nodup_iter
  have hmem : ∀ k, k ∈ ids ↔ k ∈ arena.ancestorsOf m.order ws.tx := by
    intro k
    rw [← hids, HashSet.mem_iter]
  have hne : ∀ k ∈ ids, k ≠ new := by
    rintro k hk rfl
    obtain ⟨e, he⟩ := hlive k hk
    rw [hfresh] at he
    cases he
  -- The three loops rewrite the ancestors only, none of which is the new entry.
  have hchild : MemPoolArena.Rewrites (fun e e' => e' = e.addChild new) ids arena1
      (ids.foldl (fun arena id => arena.insertChild id new) arena1) := by
    refine MemPoolArena.rewrites_insertChild hnodup fun k hk => ?_
    rw [hother k (hne k hk)]
    exact hlive k hk
  have hloops := (hchild.trans
    (.foldlM (fun h => MemPoolArena.rewrites_of_rewritten (rewritten_updateAncestorState h))
      hnodup hanc)).trans
    (.foldlM (fun h => MemPoolArena.rewrites_of_rewritten (rewritten_updateDescendantState env h))
      hnodup hdesc)
  refine ⟨hfresh, ⟨st, ancKey, descKey, hst, ?_⟩, fun k hk => ?_, fun k hk hn => ?_, ?_⟩
  · rw [hloops.other new fun hk => hne new hk rfl, hnew]
  · rw [← hmem] at hk
    obtain ⟨e, e', he, he', e2, ⟨e1, rfl, h2⟩, h3⟩ := hloops.changed k hk
    exact ⟨e, e', by rw [← hother k (hne k hk), he], he', h3.trans h2⟩
  · rw [hloops.other k (mt (hmem k).mp hn), hother k hk]
  · rw [hloops.byTxid, hbyTxid]
    rfl

theorem spend_apply {map : OutPoint → Option Txid} {tx : Transaction} {o : OutPoint} :
    spend env map tx o = if o ∈ tx.spends then some (env.computeTxid tx) else map o :=
  Lookup.foldl_update

theorem unspend_apply {map : OutPoint → Option Txid} {tx : Transaction} {o : OutPoint} :
    MemPoolInner.unspend map tx o = if o ∈ tx.spends then none else map o :=
  Lookup.foldl_update

/-- The effect of `finalize_tx` on the state. The entry stays when the fees overflow, which then
are not counted. -/
structure Inserted (env : PoolEnv SE) (build : Build) (m : Moment) (inner : MemPoolInner)
    (ws : ValidationWorkspace) (ctx : EntryContext) (inner' : MemPoolInner) : Prop where
  arena : ∃ id, insertEntry env build m inner.arena ws ctx = .ok (id, inner'.arena)
  mapNextTx : inner'.mapNextTx = spend env inner.mapNextTx ws.tx
  totalTxSize : build.add 64 inner.totalTxSize ws.txWeight =
    (.ok inner'.totalTxSize : Outcome MempoolError Nat)
  totalFee : inner'.totalFee =
    if inner.totalFee + ws.baseFee < 2 ^ 64 then inner.totalFee + ws.baseFee else inner.totalFee

theorem Inserted.insertedAt (h : Inserted env build m inner ws ctx inner') :
    ∃ id, InsertedAt env build m inner.arena ws ctx id inner'.arena := by
  obtain ⟨id, hid⟩ := h.arena
  exact ⟨id, insertEntry_spec hid⟩

/-! The only error of an insertion is an overflow of fees. -/

section

variable {bad : ε → Prop} {entry : TxMemPoolEntry}

theorem not_failsWith_feerateOf {fee : Nat} :
    ¬ Outcome.FailsWith bad (TxMemPoolEntry.feerateOf build fee size) :=
  not_failsWith_bind not_failsWith_signed fun _ => not_failsWith_divSigned

theorem not_failsWith_computeAncestorKey :
    ¬ Outcome.FailsWith bad (computeAncestorKey env build entry) :=
  not_failsWith_bind not_failsWith_feerateOf fun _ =>
    not_failsWith_bind not_failsWith_feerateOf fun _ =>
      not_failsWith_bind not_failsWith_signed fun _ => not_failsWith_pure

theorem not_failsWith_computeDescendantKey :
    ¬ Outcome.FailsWith bad (computeDescendantKey build entry) :=
  not_failsWith_bind not_failsWith_feerateOf fun _ =>
    not_failsWith_bind not_failsWith_feerateOf fun _ =>
      not_failsWith_bind not_failsWith_signed fun _ => not_failsWith_pure

theorem not_failsWith_addFees {fees : Nat} {feeDelta : Int} {msg : String} :
    ¬ Outcome.FailsWith bad (MemPoolArena.addFees fees feeDelta msg) := by
  refine not_failsWith_bind not_failsWith_expect fun _ => ?_
  split
  · exact not_failsWith_panic
  · exact not_failsWith_pure

theorem not_failsWith_insert :
    ¬ Outcome.FailsWith bad (arena.insert env build entry) :=
  not_failsWith_bind not_failsWith_computeAncestorKey fun _ =>
    not_failsWith_bind not_failsWith_computeDescendantKey fun _ =>
      not_failsWith_bind not_failsWith_assertTrue fun _ =>
        not_failsWith_pure

theorem not_failsWith_updateAncestorState :
    ¬ Outcome.FailsWith bad (arena.updateAncestorState env build id size fee count sigops) := by
  refine not_failsWith_bind not_failsWith_expect fun old =>
    not_failsWith_bind ?_ fun _ =>
      not_failsWith_bind not_failsWith_computeAncestorKey fun _ =>
        not_failsWith_bind not_failsWith_computeDescendantKey fun _ =>
          not_failsWith_pure
  exact not_failsWith_bind not_failsWith_signed fun _ =>
    not_failsWith_bind not_failsWith_addFees fun _ =>
      not_failsWith_bind not_failsWith_signed fun _ =>
        not_failsWith_bind not_failsWith_signed fun _ =>
          not_failsWith_pure

theorem not_failsWith_updateDescendantState :
    ¬ Outcome.FailsWith bad (arena.updateDescendantState build id size fee count) := by
  refine not_failsWith_bind not_failsWith_expect fun old =>
    not_failsWith_bind ?_ fun _ =>
      not_failsWith_bind not_failsWith_computeDescendantKey fun _ =>
        not_failsWith_pure
  exact not_failsWith_bind not_failsWith_signed fun _ =>
    not_failsWith_bind not_failsWith_addFees fun _ =>
      not_failsWith_bind not_failsWith_signed fun _ => not_failsWith_pure

end

/-- The fees of the transaction overflow, with those of its ancestors or in the total. -/
def FeesOverflow (build : Build) (m : Moment) (inner : MemPoolInner) (ws : ValidationWorkspace) :
    Prop :=
  Outcome.FailsWith (fun _ => True) (ancestorState build m inner.arena ws) ∨
    2 ^ 64 ≤ inner.totalFee + ws.baseFee

theorem failsWith_insertInto {bad : MempoolError → Prop} :
    Outcome.FailsWith bad (insertInto env build m inner ws ctx) ↔
      Outcome.FailsWith bad (ancestorState build m inner.arena ws) := by
  unfold insertInto insertEntry
  rw [failsWith_bind_left fun _ =>
      not_failsWith_bind not_failsWith_add fun _ => not_failsWith_pure,
    failsWith_bind_left fun _ =>
      not_failsWith_bind not_failsWith_insert fun _ =>
        not_failsWith_bind
          (not_failsWith_foldlM (fun _ _ => not_failsWith_updateAncestorState) _ _)
          fun _ => not_failsWith_bind
            (not_failsWith_foldlM (fun _ _ => not_failsWith_updateDescendantState) _ _)
            fun _ => not_failsWith_pure]

/-- An overflow of fees leaves the state as it was, or with the transaction inserted. -/
theorem meets_finalizeTx {p : MemPool} (hset : ws.conflictSet = none) :
    Stateful.Meets (finalizeTx env build m ws ctx) p
      (fun _ p' => Inserted env build m p.inner ws ctx p'.inner ∧
        p'.coinsCache = p.coinsCache.addMempoolCoins env ws.tx)
      fun _ p' => FeesOverflow build m p.inner ws ∧
        (p'.inner = p.inner ∧ p'.coinsCache = p.coinsCache ∨
          Inserted env build m p.inner ws ctx p'.inner ∧
            p'.coinsCache = p.coinsCache.addMempoolCoins env ws.tx) := by
  have hreplaced : removeReplaced env build m ws.conflictSet = pure () := by
    rw [hset]
    rfl
  rw [finalizeTx, hreplaced]
  refine .pure_bind (.get_bind (.lift_bind ?_ fun e he =>
    ⟨Or.inl (failsWith_insertInto.mp ⟨e, he, trivial⟩), Or.inl ⟨rfl, rfl⟩⟩))
  rintro ⟨new, inner⟩ hinto
  simp only [insertInto, bind_eq_ok] at hinto
  obtain ⟨⟨id, arena⟩, hinsert, totalTxSize, hsize, hinto⟩ := hinto
  cases hinto
  refine .modify_bind (.lift_bind ?_ ?_)
  · intro totalFee hfee
    obtain ⟨hlt, rfl⟩ := checkedUnsigned_eq_some.mp (okOr_eq_ok.mp hfee)
    exact .modify_bind (Stateful.meets_pure ⟨⟨⟨id, hinsert⟩, rfl, hsize, (if_pos hlt).symm⟩, rfl⟩)
  · intro e he
    have hge : ¬ p.inner.totalFee + ws.baseFee < 2 ^ 64 := by
      intro hlt
      rw [checkedUnsigned_eq_some.mpr ⟨hlt, rfl⟩] at he
      cases he
    exact ⟨Or.inr (Nat.le_of_not_lt hge),
      Or.inr ⟨⟨⟨id, hinsert⟩, rfl, hsize, (if_neg hge).symm⟩, rfl⟩⟩

/-! ## Removal -/

/-- An entry with the property is among the listed ones. -/
def Among (inner : MemPoolInner) (ids : List EntryId) (P : TxMemPoolEntry → Prop) : Prop :=
  ∃ k ∈ ids, ∃ e, inner.get k = some e ∧ P e

/-- The effect of the removal of the listed entries. -/
structure Removed (env : PoolEnv SE) (inner : MemPoolInner) (ids : List EntryId)
    (inner' : MemPoolInner) : Prop where
  get : ∀ k, inner'.get k = if k ∈ ids then none else inner.get k
  byTxid : Lookup.Cleared (fun t => Among inner ids fun e => env.computeTxid e.tx = t)
    inner.arena.byTxid inner'.arena.byTxid
  mapNextTx : Lookup.Cleared (fun o => Among inner ids fun e => o ∈ e.tx.spends)
    inner.mapNextTx inner'.mapNextTx

variable {ids : List EntryId} {inner'' : MemPoolInner}

/-- What is among the rest after a removal was among the rest before it. -/
theorem among_cons (hget : ∀ k, inner'.get k = if k ∈ [id] then none else inner.get k)
    {P : TxMemPoolEntry → Prop} :
    Among inner [id] P ∨ Among inner' ids P ↔ Among inner (id :: ids) P := by
  constructor
  · rintro (⟨k, hk, e, he, hP⟩ | ⟨k, hk, e, he, hP⟩)
    · exact ⟨k, by simp [List.mem_singleton.mp hk], e, he, hP⟩
    · rw [hget] at he
      split at he
      · cases he
      · exact ⟨k, List.mem_cons_of_mem _ hk, e, he, hP⟩
  · rintro ⟨k, hk, e, he, hP⟩
    by_cases hid : k = id
    · exact Or.inl ⟨k, by simp [hid], e, he, hP⟩
    · refine Or.inr ⟨k, (List.mem_cons.mp hk).resolve_left hid, e, ?_, hP⟩
      rw [hget, if_neg (by simpa using hid), he]

namespace Removed

theorem nil : Removed env inner [] inner :=
  ⟨fun k => by simp, ⟨by simp [Among], fun _ _ => rfl⟩, ⟨by simp [Among], fun _ _ => rfl⟩⟩

theorem cons (h : Removed env inner [id] inner') (h' : Removed env inner' ids inner'') :
    Removed env inner (id :: ids) inner'' where
  get k := by
    rw [h'.get, h.get]
    by_cases hk : k = id
    · simp [hk]
    · simp [hk]
  byTxid := (h.byTxid.trans h'.byTxid).congr fun _ => among_cons h.get
  mapNextTx := (h.mapNextTx.trans h'.mapNextTx).congr fun _ => among_cons h.get

end Removed

theorem removeEntry_spec
    (h : (inner.removeEntry env build id : Outcome ε MemPoolInner) = .ok inner') :
    Removed env inner [id] inner' := by
  have hamong : ∀ P, Among inner [id] P ↔ ∃ e, inner.get id = some e ∧ P e := by
    simp [Among]
  cases hget : inner.arena.get id with
  | none =>
    simp only [MemPoolInner.removeEntry, MemPoolArena.remove, hget, Option.map_none] at h
    cases h
    have hnone : ∀ P, ¬ Among inner [id] P := by
      intro P hP
      obtain ⟨e, he, _⟩ := (hamong P).mp hP
      rw [MemPoolInner.get, hget] at he
      cases he
    refine ⟨fun k => ?_, ⟨fun t ht => absurd ht (hnone _), fun _ _ => rfl⟩,
      ⟨fun o ho => absurd ho (hnone _), fun _ _ => rfl⟩⟩
    split
    · rename_i hk
      rw [List.mem_singleton.mp hk]
      exact hget
    · rfl
  | some e =>
    simp only [MemPoolInner.removeEntry, MemPoolArena.remove, hget, Option.map_some,
      bind_eq_ok] at h
    obtain ⟨totalTxSize, _, h⟩ := h
    cases h
    have hsome : ∀ P, Among inner [id] P ↔ P e := by
      intro P
      rw [hamong, MemPoolInner.get, hget]
      simp
    refine ⟨fun k => ?_, ⟨fun t ht => ?_, fun t ht => ?_⟩, ⟨fun o ho => ?_, fun o ho => ?_⟩⟩
    · simp only [List.mem_singleton]
      exact SlotMap.get_remove
    · obtain rfl := (hsome _).mp ht
      exact Function.update_self ..
    · rw [hsome] at ht
      exact Function.update_of_ne (Ne.symm ht) ..
    · exact unspend_apply.trans (if_pos ((hsome _).mp ho))
    · exact unspend_apply.trans (if_neg (mt (hsome _).mpr ho))

theorem removeEntries_spec
    (h : (ids.foldlM (MemPoolInner.removeEntry env build) inner : Outcome ε MemPoolInner) =
      .ok inner') : Removed env inner ids inner' := by
  induction ids generalizing inner with
  | nil =>
    cases h
    exact .nil
  | cons id ids ih =>
    rw [List.foldlM_cons, bind_eq_ok] at h
    obtain ⟨inner1, h1, h⟩ := h
    exact (removeEntry_spec h1).cons (ih h)

/-- Without surviving children to update, the entries are removed and the list for the relay is made
anew. -/
theorem removeStaged_eq_ok {order : HashOrder} {toRemove : HashSet EntryId}
    (h : (inner.removeStaged env build order toRemove false : Outcome ε MemPoolInner) =
      .ok inner') :
    ∃ u randomized,
      ((toRemove.iter order).foldlM (MemPoolInner.removeEntry env build) inner :
        Outcome ε MemPoolInner) = .ok u ∧ inner' = { u with txnsRandomized := randomized } := by
  simp only [MemPoolInner.removeStaged, Bool.false_eq_true, if_false, pure_eq_ok,
    ok_bind, bind_eq_ok] at h
  obtain ⟨u, hremove, _, hupdate, h⟩ := h
  cases hupdate
  simp only [MemPoolInner.rebuildRandomizedList, bind_eq_ok] at h
  obtain ⟨entries, _, h⟩ := h
  cases h
  exact ⟨u, _, hremove, rfl⟩

theorem removeStaged_spec {order : HashOrder} {toRemove : HashSet EntryId}
    (h : (inner.removeStaged env build order toRemove false : Outcome ε MemPoolInner) =
      .ok inner') : Removed env inner (toRemove.iter order) inner' := by
  obtain ⟨u, _, hremove, rfl⟩ := removeStaged_eq_ok h
  have hremoved : Removed env inner (toRemove.iter order) u := removeEntries_spec hremove
  exact ⟨hremoved.get, hremoved.byTxid, hremoved.mapNextTx⟩

end Subcoin.Mempool
