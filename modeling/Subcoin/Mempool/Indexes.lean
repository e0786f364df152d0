import Subcoin.Lib.Index
import Subcoin.Mempool.Graph

/-!
# Subcoin — the indexes of the arena

The mempool changes its arena through the operations `ArenaOp` only (`built_reachable`). However
these follow one another, every index holds the live entries and nothing else, under keys that are
those of the entries (`indexes_of_built`). An insertion has to be of a txid that is not in use.
-/

namespace Subcoin.Mempool

open Outcome

variable {SE : Type} {env : PoolEnv SE} {build : Build} {options : MemPoolOptions} {m : Moment}
  {arena arena' : MemPoolArena} {id k : EntryId} {e old : TxMemPoolEntry}

/-! ## Operations -/

/-- An operation of the arena. -/
inductive ArenaOp where
  | insert (entry : TxMemPoolEntry)
  | updateAncestorState (id : EntryId) (sizeDelta feeDelta countDelta sigopsDelta : Int)
  | updateDescendantState (id : EntryId) (sizeDelta feeDelta countDelta : Int)
  | updateModifiedFee (id : EntryId) (newModifiedFee : Nat)
  | editLinks (id : EntryId)
      (edit : HashSet EntryId × HashSet EntryId → HashSet EntryId × HashSet EntryId)
  | remove (id : EntryId)

namespace ArenaOp

def apply {ε : Type} (env : PoolEnv SE) (build : Build) (arena : MemPoolArena) :
    ArenaOp → Outcome ε MemPoolArena
  | .insert entry => do
    let inserted ← arena.insert env build entry
    pure inserted.2
  | .updateAncestorState id sizeDelta feeDelta countDelta sigopsDelta =>
    arena.updateAncestorState env build id sizeDelta feeDelta countDelta sigopsDelta
  | .updateDescendantState id sizeDelta feeDelta countDelta =>
    arena.updateDescendantState build id sizeDelta feeDelta countDelta
  | .updateModifiedFee id newModifiedFee => arena.updateModifiedFee env build id newModifiedFee
  | .editLinks id edit => pure (arena.editLinks id edit)
  | .remove id => pure (((arena.remove env id).map Prod.snd).getD arena)

/-- An entry that is inserted has a txid of its own. -/
def Fresh (env : PoolEnv SE) (arena : MemPoolArena) : ArenaOp → Prop
  | .insert entry => arena.getByTxid (env.computeTxid entry.tx) = none
  | _ => True

end ArenaOp

/-- The arenas that sequences of operations make. -/
inductive Built (env : PoolEnv SE) (build : Build) : MemPoolArena → Prop where
  | new : Built env build .new
  | step {arena arena' : MemPoolArena} (op : ArenaOp) : Built env build arena →
      op.Fresh env arena → op.apply env build arena = (.ok arena' : Outcome MempoolError _) →
      Built env build arena'

/-! ## Exact indexes -/

/-- What a function says of the live entries. -/
def MemPoolArena.keyed {κ : Type} (arena : MemPoolArena) (f : TxMemPoolEntry → κ) :
    EntryId → Option κ :=
  fun id => (arena.get id).map f

/-- The lookup by txid and the ordered indexes are exact, and their keys are up to date. -/
structure Indexes (env : PoolEnv SE) (build : Build) (arena : MemPoolArena) : Prop where
  byTxid : KeyIndex.Exact (arena.keyed fun e => env.computeTxid e.tx)
    fun txid id => arena.getByTxid txid = some id
  byAncestorScore : KeyIndex.Exact (arena.keyed TxMemPoolEntry.cachedAncestorKey)
    fun key id => ⟨key, id⟩ ∈ arena.byAncestorScore
  byDescendantScore : KeyIndex.Exact (arena.keyed TxMemPoolEntry.cachedDescendantKey)
    fun key id => ⟨key, id⟩ ∈ arena.byDescendantScore
  byEntryTime : KeyIndex.Exact (arena.keyed TxMemPoolEntry.time)
    fun time id => ⟨time, id⟩ ∈ arena.byEntryTime
  ancestorKey : ∀ {id e}, arena.get id = some e →
    computeAncestorKey env build e = (.ok e.cachedAncestorKey : Outcome MempoolError _)
  descendantKey : ∀ {id e}, arena.get id = some e →
    computeDescendantKey build e = (.ok e.cachedDescendantKey : Outcome MempoolError _)

/-- The lookup by wtxid is exact. -/
def ByWtxid (env : PoolEnv SE) (arena : MemPoolArena) : Prop :=
  KeyIndex.Exact (arena.keyed fun e => env.computeWtxid e.tx)
    fun wtxid id => arena.getByWtxid wtxid = some id

theorem indexed_inj {κ : Type} {key key' : κ} {id id' : EntryId} :
    (⟨key, id⟩ : Indexed κ) = ⟨key', id'⟩ ↔ key = key' ∧ id = id' := by
  rw [Indexed.mk.injEq]

section

variable {κ : Type} {f : TxMemPoolEntry → κ} {R : κ → EntryId → Prop}

theorem keyed_update {x : Option TxMemPoolEntry}
    (hget : ∀ k, arena'.get k = if k = id then x else arena.get k) :
    arena'.keyed f = Function.update (arena.keyed f) id (x.map f) := by
  funext k
  unfold MemPoolArena.keyed
  rw [hget]
  by_cases hk : k = id
  · subst hk
    simp
  · simp [hk]

theorem keyed_eq_some (h : arena.get id = some e) : arena.keyed f id = some (f e) := by
  rw [MemPoolArena.keyed, h]
  rfl

theorem keyed_eq_none (h : arena.get id = none) : arena.keyed f id = none := by
  rw [MemPoolArena.keyed, h]
  rfl

end

/-! ## What an operation changes -/

/-- An entry is put under an unused id, and into every index. -/
structure Put (env : PoolEnv SE) (build : Build) (arena : MemPoolArena) (e : TxMemPoolEntry)
    (arena' : MemPoolArena) : Prop where
  entries : arena'.entries = arena.entries.insert e
  byTxid : arena'.byTxid =
    Function.update arena.byTxid (env.computeTxid e.tx) (some arena.entries.nextKey)
  byWtxid : arena'.byWtxid =
    Function.update arena.byWtxid (env.computeWtxid e.tx) (some arena.entries.nextKey)
  byAncestorScore : arena'.byAncestorScore =
    arena.byAncestorScore.insert ⟨e.cachedAncestorKey, arena.entries.nextKey⟩
  byDescendantScore : arena'.byDescendantScore =
    arena.byDescendantScore.insert ⟨e.cachedDescendantKey, arena.entries.nextKey⟩
  byEntryTime : arena'.byEntryTime = arena.byEntryTime.insert ⟨e.time, arena.entries.nextKey⟩
  ancestorKey : computeAncestorKey env build e = (.ok e.cachedAncestorKey : Outcome MempoolError _)
  descendantKey : computeDescendantKey build e =
    (.ok e.cachedDescendantKey : Outcome MempoolError _)

theorem put_insert {entry : TxMemPoolEntry}
    (h : arena.insert env build entry = (.ok (id, arena') : Outcome MempoolError _)) :
    ∃ e, e.bare = entry.bare ∧ Put env build arena e arena' := by
  simp only [MemPoolArena.insert, bind_eq_ok] at h
  obtain ⟨ancKey, hanc, descKey, hdesc, _, _, heq⟩ := h
  cases heq
  exact ⟨{ entry with cachedAncestorKey := ancKey, cachedDescendantKey := descKey }, rfl, rfl, rfl,
    rfl, rfl, rfl, rfl, hanc, hdesc⟩

theorem rewritten_updateModifiedFee {fee : Nat}
    (h : arena.updateModifiedFee env build id fee = (.ok arena' : Outcome MempoolError _)) :
    ∃ old e, Rewritten env build arena id old e arena' := by
  simp only [MemPoolArena.updateModifiedFee, bind_eq_ok, MemPoolArena.index_eq_ok] at h
  obtain ⟨old, hold, _, _, _, _, _, _, ancKey, hanc, descKey, hdesc, heq⟩ := h
  cases heq
  exact ⟨old, _, hold, ⟨_, rfl, rfl⟩, rfl, rfl, rfl, rfl, rfl, rfl, rfl, Or.inl rfl, Or.inl rfl,
    fun _ => hanc, fun _ => hdesc⟩

theorem rewritten_editLinks
    {edit : HashSet EntryId × HashSet EntryId → HashSet EntryId × HashSet EntryId}
    (hold : arena.get id = some old) :
    ∃ e, Rewritten env build arena id old e (arena.editLinks id edit) :=
  ⟨_, hold, ⟨_, rfl, rfl⟩, rfl, rfl, rfl, rfl, rfl, rfl, rfl, Or.inr ⟨rfl, rfl⟩,
    Or.inr ⟨rfl, rfl⟩, fun hanc => hanc, fun hdesc => hdesc⟩

/-- All that an operation can do. -/
inductive OpEffect (env : PoolEnv SE) (build : Build) (arena : MemPoolArena) :
    MemPoolArena → Prop where
  | put {e : TxMemPoolEntry} {arena' : MemPoolArena} :
      arena.getByTxid (env.computeTxid e.tx) = none → Put env build arena e arena' →
      OpEffect env build arena arena'
  | rewritten {id : EntryId} {old e : TxMemPoolEntry} {arena' : MemPoolArena} :
      Rewritten env build arena id old e arena' → OpEffect env build arena arena'
  | erased {id : EntryId} {old : TxMemPoolEntry} : arena.get id = some old →
      OpEffect env build arena (arena.erase env id old)
  | unchanged : OpEffect env build arena arena

theorem opEffect_of_apply {op : ArenaOp} (hfresh : op.Fresh env arena)
    (h : op.apply env build arena = (.ok arena' : Outcome MempoolError _)) :
    OpEffect env build arena arena' := by
  cases op with
  | insert entry =>
    rw [ArenaOp.apply, bind_eq_ok] at h
    obtain ⟨⟨id, arena1⟩, hinsert, heq⟩ := h
    cases heq
    obtain ⟨e, hbare, hput⟩ := put_insert hinsert
    have htx : e.bare.tx = entry.bare.tx := congrArg TxMemPoolEntry.tx hbare
    refine .put ?_ hput
    rw [show e.tx = entry.tx from htx]
    exact hfresh
  | updateAncestorState id size fee count sigops =>
    obtain ⟨old, e, hrewritten, -⟩ := rewritten_updateAncestorState h
    exact .rewritten hrewritten
  | updateDescendantState id size fee count =>
    obtain ⟨old, e, hrewritten, -⟩ := rewritten_updateDescendantState env h
    exact .rewritten hrewritten
  | updateModifiedFee id fee =>
    obtain ⟨old, e, hrewritten⟩ := rewritten_updateModifiedFee h
    exact .rewritten hrewritten
  | editLinks id edit =>
    cases h
    cases hold : arena.get id with
    | none =>
      have hsame : arena.editLinks id edit = arena := by
        rw [MemPoolArena.editLinks, SlotMap.modify_of_get_none hold]
      rw [hsame]
      exact .unchanged
    | some old =>
      obtain ⟨e, hrewritten⟩ := rewritten_editLinks hold
      exact .rewritten hrewritten
  | remove id =>
    cases hold : arena.get id with
    | none =>
      rw [ArenaOp.apply, MemPoolArena.remove, hold] at h
      cases h
      exact .unchanged
    | some old =>
      rw [ArenaOp.apply, MemPoolArena.remove, hold] at h
      cases h
      exact .erased hold

/-- What a run of operations preserves, if each of their effects does. -/
theorem built_induction {I : MemPoolArena → Prop} (hnew : I .new)
    (hstep : ∀ {arena arena'}, Built env build arena → I arena →
      OpEffect env build arena arena' → I arena') (h : Built env build arena) : I arena := by
  induction h with
  | new => exact hnew
  | step op hbuilt hfresh hop ih => exact hstep hbuilt ih (opEffect_of_apply hfresh hop)

/-! ## Exactness is preserved -/

section

variable {κ : Type} {f : TxMemPoolEntry → κ}

theorem Put.get (h : Put env build arena e arena') :
    ∀ k, arena'.get k = if k = arena.entries.nextKey then some e else arena.get k := by
  intro k
  rw [MemPoolArena.get, h.entries]
  exact SlotMap.get_insert

theorem Put.keyed (h : Put env build arena e arena') :
    arena'.keyed f = Function.update (arena.keyed f) arena.entries.nextKey (some (f e)) :=
  keyed_update h.get

theorem Put.keyed_nextKey : arena.keyed f arena.entries.nextKey = none :=
  keyed_eq_none SlotMap.get_nextKey

section

variable (h : Rewritten env build arena id old e arena')

include h

theorem Rewritten.keyed : arena'.keyed f = Function.update (arena.keyed f) id (some (f e)) :=
  keyed_update h.get

/-- A key that does not change stays where it is. -/
theorem Rewritten.keyed_of_eq (hf : f e = f old) : arena'.keyed f = arena.keyed f := by
  rw [h.keyed, Function.update_eq_self_iff, keyed_eq_some h.live, hf]

theorem Rewritten.follows [LinearOrder κ] {s s' : SortedSet (Indexed κ)}
    (hfollows : Follows (f old) (f e) id s s')
    (hs : KeyIndex.Exact (arena.keyed f) fun key id => ⟨key, id⟩ ∈ s) :
    KeyIndex.Exact (arena'.keyed f) fun key id => ⟨key, id⟩ ∈ s' := by
  rcases hfollows with rfl | ⟨hkey, rfl⟩
  · rw [h.keyed]
    exact hs.replace_sorted indexed_inj (keyed_eq_some h.live)
  · rw [h.keyed_of_eq hkey]
    exact hs

end

theorem get_erase (k : EntryId) :
    (arena.erase env id old).get k = if k = id then none else arena.get k :=
  SlotMap.get_remove

theorem keyed_erase : (arena.erase env id old).keyed f = Function.update (arena.keyed f) id none :=
  keyed_update get_erase

end

theorem indexes_new : Indexes env build .new := by
  constructor
  all_goals simp [KeyIndex.Exact, MemPoolArena.keyed, MemPoolArena.get, MemPoolArena.new,
    MemPoolArena.getByTxid]

/-- What holds of every entry still does when another one with it is put. -/
theorem forall_get {P : TxMemPoolEntry → Prop}
    (hget : ∀ k, arena'.get k = if k = id then some e else arena.get k) (he : P e)
    (h : ∀ {k e}, arena.get k = some e → P e) : ∀ {k e}, arena'.get k = some e → P e := by
  intro k e' hk
  rw [hget] at hk
  split at hk
  · obtain rfl := Option.some.inj hk
    exact he
  · exact h hk

theorem indexes_put (h : Indexes env build arena)
    (hfresh : arena.getByTxid (env.computeTxid e.tx) = none)
    (hput : Put env build arena e arena') : Indexes env build arena' := by
  constructor
  · unfold MemPoolArena.getByTxid
    rw [hput.keyed, hput.byTxid]
    exact h.byTxid.insert_map Put.keyed_nextKey hfresh
  · rw [hput.keyed, hput.byAncestorScore]
    exact h.byAncestorScore.insert_sorted indexed_inj Put.keyed_nextKey
  · rw [hput.keyed, hput.byDescendantScore]
    exact h.byDescendantScore.insert_sorted indexed_inj Put.keyed_nextKey
  · rw [hput.keyed, hput.byEntryTime]
    exact h.byEntryTime.insert_sorted indexed_inj Put.keyed_nextKey
  · exact forall_get hput.get hput.ancestorKey h.ancestorKey
  · exact forall_get hput.get hput.descendantKey h.descendantKey

theorem indexes_rewritten (h : Indexes env build arena)
    (hr : Rewritten env build arena id old e arena') : Indexes env build arena' := by
  constructor
  · unfold MemPoolArena.getByTxid
    rw [hr.keyed_of_eq (congrArg env.computeTxid hr.tx), hr.byTxid]
    exact h.byTxid
  · exact hr.follows hr.byAncestorScore h.byAncestorScore
  · exact hr.follows hr.byDescendantScore h.byDescendantScore
  · rw [hr.keyed_of_eq hr.time, hr.byEntryTime]
    exact h.byEntryTime
  · exact forall_get hr.get (hr.ancestorKey (h.ancestorKey hr.live)) h.ancestorKey
  · exact forall_get hr.get (hr.descendantKey (h.descendantKey hr.live)) h.descendantKey

theorem indexes_erase (h : Indexes env build arena) (hold : arena.get id = some old) :
    Indexes env build (arena.erase env id old) := by
  have hsub : ∀ {k e}, (arena.erase env id old).get k = some e → arena.get k = some e := by
    intro k e hk
    rw [get_erase] at hk
    split at hk
    · cases hk
    · exact hk
  constructor
  · rw [keyed_erase]
    exact h.byTxid.remove_map (keyed_eq_some hold)
  · rw [keyed_erase]
    exact h.byAncestorScore.remove_sorted indexed_inj (keyed_eq_some hold)
  · rw [keyed_erase]
    exact h.byDescendantScore.remove_sorted indexed_inj (keyed_eq_some hold)
  · rw [keyed_erase]
    exact h.byEntryTime.remove_sorted indexed_inj (keyed_eq_some hold)
  · intro k e hk
    exact h.ancestorKey (hsub hk)
  · intro k e hk
    exact h.descendantKey (hsub hk)

/-- After any sequence of operations the indexes are exact. -/
theorem indexes_of_built (h : Built env build arena) : Indexes env build arena := by
  refine built_induction indexes_new (fun _ ih heffect => ?_) h
  cases heffect with
  | put hfresh hput => exact indexes_put ih hfresh hput
  | rewritten hr => exact indexes_rewritten ih hr
  | erased hold => exact indexes_erase ih hold
  | unchanged => exact ih

/-! ## The lookup by wtxid -/

/-- The wtxid of a transaction commits to all that its txid commits to. -/
def WtxidCommits (env : PoolEnv SE) : Prop :=
  ∀ a b, env.computeWtxid a = env.computeWtxid b → env.computeTxid a = env.computeTxid b

theorem byWtxid_put (hwtxid : WtxidCommits env) (hindexes : Indexes env build arena)
    (h : ByWtxid env arena) (hfresh : arena.getByTxid (env.computeTxid e.tx) = none)
    (hput : Put env build arena e arena') : ByWtxid env arena' := by
  unfold ByWtxid MemPoolArena.getByWtxid
  rw [hput.keyed, hput.byWtxid]
  refine h.insert_map Put.keyed_nextKey ?_
  -- an entry of the same wtxid would have the same txid, which is not in use
  rw [Option.eq_none_iff_forall_ne_some]
  intro id hid
  obtain ⟨e', he', heq⟩ := Option.map_eq_some_iff.mp ((h _ id).mp hid)
  have htxid := (hindexes.byTxid (env.computeTxid e'.tx) id).mpr (keyed_eq_some he')
  rw [hwtxid _ _ heq, hfresh] at htxid
  cases htxid

theorem byWtxid_of_built (hwtxid : WtxidCommits env) (h : Built env build arena) :
    ByWtxid env arena := by
  refine built_induction ?_ (fun hbuilt ih heffect => ?_) h
  · simp [ByWtxid, KeyIndex.Exact, MemPoolArena.keyed, MemPoolArena.get, MemPoolArena.new,
      MemPoolArena.getByWtxid]
  cases heffect with
  | put hfresh hput => exact byWtxid_put hwtxid (indexes_of_built hbuilt) ih hfresh hput
  | rewritten hr =>
    unfold ByWtxid MemPoolArena.getByWtxid
    rw [hr.keyed_of_eq (congrArg env.computeWtxid hr.tx), hr.byWtxid]
    exact ih
  | erased hold =>
    unfold ByWtxid
    rw [keyed_erase]
    exact KeyIndex.Exact.remove_map ih (keyed_eq_some hold)
  | unchanged => exact ih

/-! ## The arena of a mempool -/

theorem built_insertChild {ids : List EntryId} {child : EntryId} (hbuilt : Built env build arena) :
    Built env build (ids.foldl (fun arena id => arena.insertChild id child) arena) := by
  induction ids generalizing arena with
  | nil => exact hbuilt
  | cons id ids ih =>
    refine ih (hbuilt.step (.editLinks id fun links => (links.1, links.2.insert child)) trivial ?_)
    rfl

theorem built_insertEntry {ws : ValidationWorkspace} {ctx : EntryContext}
    (hbuilt : Built env build arena) (hfresh : arena.byTxid (env.computeTxid ws.tx) = none)
    (h : insertEntry env build m arena ws ctx = .ok (id, arena')) : Built env build arena' := by
  simp only [insertEntry, bind_eq_ok] at h
  obtain ⟨st, _, ⟨new, arena1⟩, hinsert, arena2, hanc, arena3, hdesc, h⟩ := h
  cases h
  have hinserted : Built env build arena1 := by
    refine hbuilt.step (.insert (entryOf env arena ws ctx st)) hfresh ?_
    rw [ArenaOp.apply, hinsert]
    rfl
  have hancestors : Built env build arena2 := by
    refine foldlM_invariant (fun _ h1 h2 => ?_) (built_insertChild hinserted) hanc
    exact h1.step (.updateAncestorState _ _ _ _ _) trivial h2
  refine foldlM_invariant (fun _ h1 h2 => ?_) hancestors hdesc
  exact h1.step (.updateDescendantState _ _ _ _) trivial h2

variable {inner inner' : MemPoolInner}

theorem built_removeEntry (hbuilt : Built env build inner.arena)
    (h : inner.removeEntry env build id = (.ok inner' : Outcome MempoolError _)) :
    Built env build inner'.arena := by
  refine hbuilt.step (.remove id) trivial ?_
  rw [ArenaOp.apply]
  unfold MemPoolInner.removeEntry at h
  split at h
  · rename_i hnone
    cases h
    rw [hnone]
    rfl
  · rename_i entry arena hsome
    rw [bind_eq_ok] at h
    obtain ⟨totalTxSize, _, h⟩ := h
    cases h
    rw [hsome]
    rfl

/-- A removal of entries, one after the other. -/
theorem removeStaged_induction {I : MemPoolInner → Prop} {order : HashOrder}
    {ids : HashSet EntryId} (hI : I inner)
    (hstep : ∀ {u id u'}, I u → u.removeEntry env build id = (.ok u' : Outcome MempoolError _) → I
      u')
    (hlist : ∀ {u : MemPoolInner} {randomized}, I u → I { u with txnsRandomized := randomized })
    (h : inner.removeStaged env build order ids false = (.ok inner' : Outcome MempoolError _)) :
    I inner' := by
  obtain ⟨u, _, hremove, rfl⟩ := removeStaged_eq_ok h
  exact hlist (foldlM_invariant (fun _ => hstep) hI hremove)

theorem built_accepted {txs : List Transaction} {wss : List ValidationWorkspace}
    (hbuilt : Built env build inner.arena) (h : Accepted env build options m inner txs wss inner') :
    Built env build inner'.arena := by
  refine h.induction (I := fun u _ => Built env build u.arena) hbuilt fun hu hfresh hinserted => ?_
  obtain ⟨id, hid⟩ := hinserted.arena
  exact built_insertEntry hu hfresh hid

/-- The arena of a mempool is made by operations on it. -/
theorem built_reachable {cond : Moment → Call → MemPool → Prop} {p : MemPool}
    (h : Reachable env build options cond p) : Built env build p.inner.arena := by
  refine inner_invariant (I := fun u => Built env build u.arena) .new (fun _ => built_accepted)
    (fun _ _ _ _ _ hu hremove => ?_) (fun h => h) h
  exact removeStaged_induction (I := fun u => Built env build u.arena) hu built_removeEntry
    (fun h => h) hremove

/-- What the mempool answers for a txid is a transaction of that txid. -/
theorem computeTxid_getTransaction {cond : Moment → Call → MemPool → Prop} {p : MemPool}
    (h : Reachable env build options cond p) {txid : Txid} {tx : Transaction}
    (hget : p.getTransaction txid = .ok (some tx)) : env.computeTxid tx = txid := by
  unfold MemPool.getTransaction at hget
  split at hget
  · rename_i entryId hid
    obtain ⟨entry, hentry, htx⟩ := bind_eq_ok.mp hget
    cases htx
    -- the index leads to an entry of that txid and to no other
    have hkeyed := ((indexes_of_built (built_reachable h)).byTxid txid entryId).mp hid
    rw [MemPoolArena.keyed, expect_eq_ok.mp hentry] at hkeyed
    exact Option.some.inj hkeyed
  · cases hget

end Subcoin.Mempool
