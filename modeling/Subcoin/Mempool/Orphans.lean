import Subcoin.Mempool.Conflicts
import Subcoin.Mempool.Families
import Subcoin.Mempool.Overlay

/-!
# Subcoin — entries without orphans

Every input of an entry is to be a coin of the chain or an output of another entry. An acceptance
looks its inputs up in the chain and in the overlay; a removal takes along what spends the removed
outputs. This fails where the overlay has outputs of entries that are gone, where an entry expires
before its child, where two entries spend one coin, and where a reorganisation takes coins of the
chain away: `remove_for_reorg` does not look at the inputs.

* **`NoOrphans.inserts`**, **`NoOrphans.removed`** — what insertions and removals keep.
* **`noOrphans_of_run`** — no state of a run without these cases has an orphan.
-/

namespace Subcoin.Mempool

variable {SE : Type} {env : PoolEnv SE} {build : Build} {options : MemPoolOptions} {m : Moment}
  {inner inner' : MemPoolInner} {ws : ValidationWorkspace} {ctx : EntryContext}
  {wss : List ValidationWorkspace} {p p' : MemPool} {call : Call}
  {chain : H256 → Option Pallet.State} {block block' : H256} {o : OutPoint}

/-- The outpoint is a coin of the chain at a block. -/
def InChain (chain : H256 → Option Pallet.State) (block : H256) (o : OutPoint) : Prop :=
  ∃ coin, ChainCoin chain block o coin

/-- An entry has an output at the outpoint. -/
def HasOutput (env : PoolEnv SE) (inner : MemPoolInner) (o : OutPoint) : Prop :=
  ∃ k e, inner.get k = some e ∧ (outputAt env e.tx o).isSome = true

/-- Every input of an entry is a coin of the chain, or an output of another entry. -/
def NoOrphans (chain : H256 → Option Pallet.State) (env : PoolEnv SE) (block : H256)
    (inner : MemPoolInner) : Prop :=
  ∀ k e o, inner.get k = some e → o ∈ e.tx.spends →
    InChain chain block o ∨
      ∃ k' e', k' ≠ k ∧ inner.get k' = some e' ∧ (outputAt env e'.tx o).isSome = true

/-! ## Insertions -/

/-- What the workspaces spend is there, or comes before them. -/
def Supplied (chain : H256 → Option Pallet.State) (env : PoolEnv SE) (block : H256)
    (inner : MemPoolInner) (wss : List ValidationWorkspace) : Prop :=
  ∀ ws ∈ wss, ∀ o ∈ ws.tx.spends, InChain chain block o ∨ HasOutput env inner o ∨
    ∃ before after, wss = before ++ ws :: after ∧
      Creates env (before.map ValidationWorkspace.tx) o

/-- No coin of the chain is an output of one of the transactions. -/
def Unconfirmed (chain : H256 → Option Pallet.State) (env : PoolEnv SE) (block : H256)
    (txs : List Transaction) : Prop :=
  ∀ tx ∈ txs, ∀ o, InChain chain block o → o.txid ≠ env.computeTxid tx

theorem HasOutput.inserted (h : HasOutput env inner o)
    (hinserted : Inserted env build m inner ws ctx inner') : HasOutput env inner' o := by
  obtain ⟨id, hnew⟩ := hinserted.insertedAt
  obtain ⟨k, e, he, hsome⟩ := h
  obtain ⟨e', he', hbare⟩ := hnew.get_old he
  exact ⟨k, e', he', (tx_eq_of_bare hbare).symm ▸ hsome⟩

theorem hasOutput_new (hinserted : Inserted env build m inner ws ctx inner')
    (ho : (outputAt env ws.tx o).isSome = true) : HasOutput env inner' o := by
  obtain ⟨id, hnew⟩ := hinserted.insertedAt
  obtain ⟨st, ancKey, descKey, _, hentry⟩ := hnew.entry
  exact ⟨id, _, hentry, ho⟩

/-- An outpoint of a txid that is not in use is no output of an entry. -/
theorem not_hasOutput_of_fresh (hbyTxid : ByTxid env inner)
    (hfresh : inner.arena.byTxid (env.computeTxid ws.tx) = none)
    (ho : o.txid = env.computeTxid ws.tx) : ¬ HasOutput env inner o := by
  rintro ⟨k, e, he, hsome⟩
  refine not_hasTx_of_fresh hbyTxid hfresh ?_ ⟨k, e, he, rfl⟩
  exact (vout_of_outputAt hsome).1.symm.trans ho

namespace Supplied

variable {rest : List ValidationWorkspace}

/-- The first of them spends only what is there. -/
theorem head (h : Supplied chain env block inner (ws :: rest))
    (hnodup : ((ws :: rest).map fun ws => env.computeTxid ws.tx).Nodup) (ho : o ∈ ws.tx.spends) :
    InChain chain block o ∨ HasOutput env inner o := by
  rcases h ws List.mem_cons_self o ho with hchain | hlive | ⟨before, after, hsplit, hcreates⟩
  · exact Or.inl hchain
  · exact Or.inr hlive
  · cases before with
    | nil =>
      obtain ⟨_, htx, _⟩ := hcreates
      cases htx
    | cons ws' before =>
      -- it would come twice
      obtain ⟨rfl, rfl⟩ := List.cons.inj hsplit
      rw [List.map_cons, List.nodup_cons] at hnodup
      exact absurd (List.mem_map_of_mem (List.mem_append_right _ List.mem_cons_self)) hnodup.1

theorem tail (h : Supplied chain env block inner (ws :: rest))
    (hinserted : Inserted env build m inner ws ctx inner') :
    Supplied chain env block inner' rest := by
  intro ws' hws' o ho
  rcases h ws' (List.mem_cons_of_mem ws hws') o ho with
    hchain | hlive | ⟨before, after, hsplit, hcreates⟩
  · exact Or.inl hchain
  · exact Or.inr (Or.inl (hlive.inserted hinserted))
  · cases before with
    | nil =>
      obtain ⟨_, htx, _⟩ := hcreates
      cases htx
    | cons ws'' before =>
      obtain ⟨rfl, rfl⟩ := List.cons.inj hsplit
      obtain ⟨tx, htx, hsome⟩ := hcreates
      rcases List.mem_cons.mp htx with rfl | htx
      · exact Or.inr (Or.inl (hasOutput_new hinserted hsome))
      · exact Or.inr (Or.inr ⟨before, after, rfl, tx, htx, hsome⟩)

end Supplied

namespace NoOrphans

section

variable (h : NoOrphans chain env block inner)

include h

theorem inserted (hsupplied : ∀ o ∈ ws.tx.spends, InChain chain block o ∨ HasOutput env inner o)
    (hinserted : Inserted env build m inner ws ctx inner') : NoOrphans chain env block inner' := by
  obtain ⟨id, hnew⟩ := hinserted.insertedAt
  -- an output of an entry there was
  have hold : ∀ {k' e' o}, inner.get k' = some e' → (outputAt env e'.tx o).isSome = true →
      ∃ e'', inner'.get k' = some e'' ∧ (outputAt env e''.tx o).isSome = true := by
    intro k' e' o he' hsome
    obtain ⟨e'', he'', hbare⟩ := hnew.get_old he'
    exact ⟨e'', he'', (tx_eq_of_bare hbare).symm ▸ hsome⟩
  intro k e' o he' ho
  rcases hnew.get_new he' with ⟨rfl, htx, _⟩ | ⟨e, he, hbare⟩
  · rcases hsupplied o (htx ▸ ho) with hchain | ⟨k', e1, he1, hsome⟩
    · exact Or.inl hchain
    · obtain ⟨e2, he2, hsome⟩ := hold he1 hsome
      exact Or.inr ⟨k', e2, hnew.ne_of_get he1, he2, hsome⟩
  · rcases h k e o he (tx_eq_of_bare hbare ▸ ho) with hchain | ⟨k', e1, hne, he1, hsome⟩
    · exact Or.inl hchain
    · obtain ⟨e2, he2, hsome⟩ := hold he1 hsome
      exact Or.inr ⟨k', e2, hne, he2, hsome⟩

/-- Nothing spends an output of a transaction that is new to the chain and the mempool. -/
theorem not_spends (hbyTxid : ByTxid env inner)
    (hunconfirmed : ∀ o, InChain chain block o → o.txid ≠ env.computeTxid ws.tx)
    (hfresh : inner.arena.byTxid (env.computeTxid ws.tx) = none) {k : EntryId}
    {e : TxMemPoolEntry} (he : inner.get k = some e) : ¬ Spends env e.tx ws.tx := by
  rintro ⟨o, ho, htxid, _⟩
  rcases h k e o he ho with hchain | ⟨k', e', _, he', hsome⟩
  · exact hunconfirmed o hchain htxid
  · exact not_hasOutput_of_fresh hbyTxid hfresh htxid ⟨k', e', he', hsome⟩

variable {txs : List Transaction}

/-- Insertions of what was vetted, one after the other. -/
theorem inserts (hparents : ParentsComplete env inner) (hbyTxid : ByTxid env inner)
    (hunconfirmed : Unconfirmed chain env block txs)
    (hsupplied : Supplied chain env block inner wss)
    (haccepted : Accepted env build options m inner txs wss inner') :
    NoOrphans chain env block inner' ∧ ParentsComplete env inner' := by
  have hend := haccepted.induction (I := fun u rest =>
    (NoOrphans chain env block u ∧ ParentsComplete env u) ∧ ByTxid env u ∧
      Supplied chain env block u rest ∧ (∀ ws ∈ rest, ws.tx ∈ txs) ∧
      (rest.map fun ws => env.computeTxid ws.tx).Nodup)
    ⟨⟨h, hparents⟩, hbyTxid, hsupplied, haccepted.mem, haccepted.nodup⟩ ?_
  · exact hend.1
  rintro u ws rest ctx u' ⟨⟨hu, hparents⟩, hbyTxid, hsupplied, hmem, hnodup⟩ hfresh hinserted
  have hnew := hunconfirmed ws.tx (hmem ws List.mem_cons_self)
  have hinputs : ∀ o ∈ ws.tx.spends, InChain chain block o ∨ HasOutput env u o :=
    fun o ho => hsupplied.head hnodup ho
  have hself : ¬ Spends env ws.tx ws.tx := by
    rintro ⟨o, ho, htxid, _⟩
    rcases hinputs o ho with hchain | hlive
    · exact hnew o hchain htxid
    · exact not_hasOutput_of_fresh hbyTxid hfresh htxid hlive
  refine ⟨⟨hu.inserted hinputs hinserted, ?_⟩, hbyTxid.inserted hfresh hinserted,
    hsupplied.tail hinserted, fun ws' hws' => hmem ws' (List.mem_cons_of_mem ws hws'),
    (List.nodup_cons.mp hnodup).2⟩
  exact hparents.inserted hbyTxid hself (hu.not_spends hbyTxid hnew hfresh) hinserted

/-! ## Removals -/

/-- A removal of whole families, after which the coins of the chain that entries spend are still
there. -/
theorem removed {ids : List EntryId} (hclosed : ∀ {a b}, Child env inner a b → a ∈ ids → b ∈ ids)
    (hchain : ∀ {k e o}, k ∉ ids → inner.get k = some e → o ∈ e.tx.spends → InChain chain block o
      → InChain chain block' o) (hremoved : Removed env inner ids inner') :
    NoOrphans chain env block' inner' := by
  intro k e o he ho
  obtain ⟨hk, he⟩ := (get_removed hremoved).mp he
  rcases h k e o he ho with hcoin | ⟨k', e', hne, he', hsome⟩
  · exact Or.inl (hchain hk he ho hcoin)
  · refine Or.inr ⟨k', e', hne, (get_removed hremoved).mpr ⟨fun hk' => hk ?_, he'⟩, hsome⟩
    exact hclosed ⟨e', e, he', he, o, ho, vout_of_outputAt hsome⟩ hk'

end

end NoOrphans

/-! ## The condition of a run -/

/-- The coins of the chain that entries spend survive a move of the tip: a block spends what its
transactions spend, a reorganisation none of them. -/
def CoinsContinue (chain : H256 → Option Pallet.State) (p : MemPool) : Call → Prop
  | .removeForBlock confirmed block => ∀ o, InChain chain p.coinsCache.bestBlock o →
      (∀ tx ∈ confirmed, o ∉ tx.spends) → InChain chain block o
  | .removeForReorg _ block => ∀ k e o, p.inner.get k = some e → o ∈ e.tx.spends →
      InChain chain p.coinsCache.bestBlock o → InChain chain block o
  | _ => True

/-- A call that leaves no orphan. -/
structure KeepsInputs (chain : H256 → Option Pallet.State) (env : PoolEnv SE) (build : Build)
    (m : Moment) (call : Call) (p : MemPool) : Prop where
  serves : Serves chain m.client
  disjoint : DisjointInputs env call.offered
  unconfirmed : Unconfirmed chain env p.coinsCache.bestBlock call.offered
  live : ∀ tx ∈ call.offered, ∀ o ∈ tx.spends, (p.coinsCache.mempoolOverlay o).isSome = true →
    HasOutput env p.inner o
  expires : ExpiresFamilies build m p.inner call
  continues : CoinsContinue chain p call

theorem supplied_of_vetting (hcond : KeepsInputs chain env build m call p)
    (hsound : CacheSound chain p.coinsCache) {coins' : CoinsViewCache}
    (hvetting : Vetting env build options m p call.offered wss coins') :
    Supplied chain env p.coinsCache.bestBlock p.inner wss := by
  intro ws hws o ho
  rcases hvetting.input hcond.serves hsound hws ho with hbefore | hoverlay | hchain
  · exact Or.inr (Or.inr hbefore)
  · exact Or.inr (Or.inl (hcond.live ws.tx (hvetting.mem ws hws) o ho hoverlay))
  · exact Or.inl hchain

theorem Fails.bestBlock (h : Fails env build options m p txs p') :
    p'.coinsCache.bestBlock = p.coinsCache.bestBlock := by
  cases h with
  | rejected vetting _ coins =>
    rw [coins, foldl_removeMempoolTx_base.2]
    exact vetting.vets.bestBlock
  | overflowed vetting _ _ _ => exact vetting.vets.bestBlock

variable {ids : HashSet EntryId}

/-- What is staged by a call that keeps families has its live spenders staged as well. -/
theorem Stages.child_closed {u : MemPoolInner} (h : Stages env build m inner call u ids)
    (hindexes : Indexes env build inner.arena) (hexpires : ExpiresFamilies build m inner call)
    (hlinked : ParentsLinked u) (hparents : ParentsComplete env u) {a b : EntryId}
    (hchild : Child env u a b) (ha : a ∈ ids.iter m.order) : b ∈ ids.iter m.order := by
  rw [HashSet.mem_iter] at ha ⊢
  exact h.closed hindexes hexpires hlinked (hparents a b hchild) ha

/-- The state of a run: no orphans, and the parents that show it. -/
structure Backed (chain : H256 → Option Pallet.State) (env : PoolEnv SE) (p : MemPool) : Prop where
  inputs : NoOrphans chain env p.coinsCache.bestBlock p.inner
  parents : ParentsComplete env p.inner

namespace Backed

/-- The trims and expiries, which leave the tip where it is. -/
theorem survives (hindexes : Indexes env build inner.arena)
    (hexpires : ExpiresFamilies build m inner call) :
    SurvivesStages env build m call inner fun u =>
      (NoOrphans chain env block u ∧ ParentsComplete env u) ∧ ParentsLinked u := by
  rintro u ids u' hstages ⟨⟨hu, hparents⟩, hlinked⟩ hremove
  have hremoved : Removed env u (ids.iter m.order) u' := removeStaged_spec hremove
  refine ⟨⟨hu.removed ?_ (fun _ _ _ hchain => hchain) hremoved, hparents.removed hremoved⟩,
    ParentsLinked.survives hindexes hexpires hstages hlinked hremove⟩
  exact hstages.child_closed hindexes hexpires hlinked hparents

/-- The coins of the chain that the entries spend which a call leaves. -/
theorem inChain_of_stages (hbyTxid : ByTxid env p.inner) (hspends : NoDoubleSpends env p.inner)
    (hcond : CoinsContinue chain p call) (hstages : Stages env build m p.inner call p.inner ids)
    {k : EntryId} {e : TxMemPoolEntry} (hk : k ∉ ids) (he : p.inner.get k = some e)
    (ho : o ∈ e.tx.spends) (hchain : InChain chain p.coinsCache.bestBlock o)
    (coins : CoinsViewCache) (hbest : coins.bestBlock = p.coinsCache.bestBlock) :
    InChain chain (call.connect coins).bestBlock o := by
  cases hstages with
  | trim _ _ _ => exact hbest ▸ hchain
  | expire _ _ => exact hbest ▸ hchain
  | block =>
    -- an entry that spends what the block spends is in conflict with it
    refine hcond o hchain fun tx htx ho' => hk (mem_expand.mpr ⟨k, ?_, .refl⟩)
    exact (hspends.mem_confirmedIds hbyTxid).mpr ⟨e, he, tx, htx, Or.inr ⟨o, ho', ho⟩⟩
  | conflicts => exact hbest ▸ hchain
  | reorg _ => exact hcond k e o he ho hchain

theorem effect (h : Backed chain env p) (hbyTxid : ByTxid env p.inner)
    (hindexes : Indexes env build p.inner.arena) (hspends : NoDoubleSpends env p.inner)
    (hlinked : ParentsLinked p.inner) (hsound : CacheSound chain p.coinsCache)
    (hcond : KeepsInputs chain env build m call p)
    (heffect : Effect env build options m p call p') : Backed chain env p' := by
  cases heffect with
  | admitted admits =>
    obtain ⟨hinputs, hparents⟩ := h.inputs.inserts h.parents hbyTxid hcond.unconfirmed
      (supplied_of_vetting hcond hsound admits.vetting) admits.accepted
    exact ⟨admits.vetting.vets.bestBlock ▸ hinputs, hparents⟩
  | failed fails =>
    obtain ⟨all, coins1, done, hvetting, hdone, hinserts⟩ := fails.inserts
    obtain ⟨coins2, hfront⟩ := hvetting.front hdone
    obtain ⟨hinputs, hparents⟩ := h.inputs.inserts h.parents hbyTxid hcond.unconfirmed
      (supplied_of_vetting hcond hsound hfront) (hvetting.accepted hdone hinserts)
    exact ⟨fails.bestBlock ▸ hinputs, hparents⟩
  | trimmed rounds coins =>
    obtain ⟨⟨hinputs, hparents⟩, _⟩ := trimRound_survives
      (survives hindexes hcond.expires) ⟨⟨h.inputs, h.parents⟩, hlinked⟩ rounds
    exact ⟨coins ▸ hinputs, hparents⟩
  | expired stages inner coins =>
    obtain ⟨⟨hinputs, hparents⟩, _⟩ := survives hindexes hcond.expires stages
      ⟨⟨h.inputs, h.parents⟩, hlinked⟩ inner
    exact ⟨coins ▸ hinputs, hparents⟩
  | swept stages swept =>
    have hremoved := removeStaged_spec swept.inner
    refine ⟨h.inputs.removed
      (stages.child_closed hindexes hcond.expires hlinked h.parents) ?_ hremoved,
      h.parents.removed hremoved⟩
    intro k e o hk he ho hchain
    rw [swept.coins]
    rw [HashSet.mem_iter] at hk
    exact inChain_of_stages hbyTxid hspends hcond.continues stages hk he ho hchain _
      foldl_removeMempoolTx_base.2
  | moved inner coins =>
    refine ⟨?_, inner ▸ h.parents⟩
    rw [inner, coins]
    intro k e o he ho
    exact (h.inputs k e o he ho).imp_left (hcond.continues k e o he ho)
  | kept inner coins =>
    refine ⟨?_, ?_⟩
    · rw [inner, coins]
      exact h.inputs
    · rw [inner]
      exact h.parents

end Backed

/-- In every state of a run whose calls keep to the conditions, every input of an entry is a coin
of the chain at the best block or an output of another entry. -/
theorem noOrphans_of_run (h : Reachable env build options (KeepsInputs chain env build) p) :
    NoOrphans chain env p.coinsCache.bestBlock p.inner := by
  refine (pool_invariant (I := Backed chain env) (fun client => ?_) ?_ h).inputs
  · refine ⟨?_, parentsComplete_new⟩
    intro k e o he
    cases he
  · intro m call p p' hp hcond hI heffect
    have hlinked : ParentsLinked p.inner :=
      parentsLinked_reachable (fun hcond => KeepsInputs.expires hcond) hp
    have hspends : NoDoubleSpends env p.inner :=
      noDoubleSpends_of_disjoint_run (hp.mono fun hcond => hcond.disjoint)
    have hsound : CacheSound chain p.coinsCache :=
      cacheSound_reachable (fun hcond => KeepsInputs.serves hcond) hp
    exact hI.effect (byTxid_reachable hp) (indexes_of_built (built_reachable hp)) hspends hlinked
      hsound hcond heffect

/-! ## Samples -/

namespace Reference

/-- No coin of the state of a block has the txid of one of the transactions. -/
def newTxids (block : H256) (txs : List Transaction) : Bool :=
  (Reference.states block).all fun state =>
    decide (∀ key ∈ state.coins.keys, ∀ tx ∈ txs,
      key.toBitcoin.txid ≠ Reference.env.computeTxid tx)

theorem unconfirmed_of_newTxids (h : newTxids block txs = true) :
    Unconfirmed Reference.states Reference.env block txs := by
  rintro tx htx o ⟨coin, state, hstate, hcoin⟩ htxid
  rw [newTxids, hstate, Option.all_some, decide_eq_true_eq] at h
  have hkey : Runtime.OutPoint.ofBitcoin o ∈ state.coins.keys :=
    Finmap.mem_keys.mpr (Finmap.mem_of_lookup_eq_some hcoin)
  refine h _ hkey tx htx ?_
  rw [Runtime.OutPoint.toBitcoin_ofBitcoin]
  exact htxid

theorem keepsInputs_package : KeepsInputs Reference.states Reference.env .checked moment
    (.acceptPackage [child, parent]) (.new client) where
  serves := serves_client
  disjoint := by
    have hspends : ∀ a ∈ [child, parent], ∀ b ∈ [child, parent], ∀ o ∈ a.spends,
        o ∈ b.spends → Reference.env.computeTxid a = Reference.env.computeTxid b := by
      decide +kernel
    exact hspends
  unconfirmed := unconfirmed_of_newTxids (by decide +kernel)
  live _ _ _ _ h := by cases h
  expires := trivial
  continues := trivial

/-- A parent, which spends a coin of the chain, and its child. -/
theorem noOrphans_package :
    ∃ p, Reachable Reference.env .checked .default
        (KeepsInputs Reference.states Reference.env .checked) p ∧
      p.inner.arena.entries.len = 2 ∧
      NoOrphans Reference.states Reference.env p.coinsCache.bestBlock p.inner := by
  have hrun : (run Reference.env .checked .default [(moment, .acceptPackage [child, parent])]
      (.new client)).any (fun p => p.inner.arena.entries.len = 2) = true := by decide +kernel
  obtain ⟨p, hp, hlen⟩ := exists_step (.new client) keepsInputs_package hrun
  exact ⟨p, hp, of_decide_eq_true hlen, noOrphans_of_run hp⟩

/-- An entry with an input that neither the chain nor an entry has. -/
def orphaned (p : MemPool) : Bool :=
  p.inner.arena.entries.keys.any fun k =>
    match p.inner.get k with
    | some e => e.tx.spends.any fun o =>
      ((Reference.states p.coinsCache.bestBlock).bind fun state => state.coin o).isNone &&
        p.inner.arena.entries.keys.all fun k' =>
          match p.inner.get k' with
          | some e' => (outputAt Reference.env e'.tx o).isNone
          | none => true
    | none => false

theorem not_noOrphans_of_orphaned (h : orphaned p = true) :
    ¬ NoOrphans Reference.states Reference.env p.coinsCache.bestBlock p.inner := by
  intro hinputs
  simp only [orphaned, List.any_eq_true] at h
  obtain ⟨k, _, h⟩ := h
  split at h
  · rename_i e he
    rw [List.any_eq_true] at h
    obtain ⟨o, ho, h⟩ := h
    rw [Bool.and_eq_true, List.all_eq_true, Option.isNone_iff_eq_none] at h
    rcases hinputs k e o he ho with ⟨coin, state, hstate, hcoin⟩ | ⟨k', e', _, he', hsome⟩
    · rw [hstate, Option.bind_some, hcoin] at h
      cases h.1
    · have hnone := h.2 k' (mem_keys_iff.mpr ⟨e', he'⟩)
      rw [he', Option.isNone_iff_eq_none] at hnone
      rw [hnone] at hsome
      cases hsome
  · cases h

/-- A parent that expires before its child. -/
theorem not_noOrphans_expire :
    ∃ p, Reachable Reference.env .checked .default (fun _ _ _ => True) p ∧
      ¬ NoOrphans Reference.states Reference.env p.coinsCache.bestBlock p.inner := by
  have hrun : (run Reference.env .checked .default
      [(moment, .acceptSingleTransaction parent),
        (momentAt 1231007700, .acceptSingleTransaction child),
        (momentAt 1231007700, .expire 500)] (.new client)).any orphaned = true := by
    decide +kernel
  obtain ⟨p, hp, horphaned⟩ := exists_reachable hrun
  exact ⟨p, hp, not_noOrphans_of_orphaned horphaned⟩

end Reference

end Subcoin.Mempool
