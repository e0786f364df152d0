import Subcoin.Mempool.MissingParents
import Subcoin.Mempool.Removals
import Subcoin.Mempool.Totals

/-!
# Subcoin — the overlay of the coins cache

The overlay is kept by the callers of the mempool's state: an acceptance adds the outputs it makes
visible and takes them back when it fails, `remove_for_block`, `remove_conflicts` and
`remove_for_reorg` take back those of the entries they remove. `trim_to_size` and `expire` remove
entries and leave their outputs, and fees that overflow leave those of transactions that were not
inserted.

* **`overlayExact_of_run`** — without these, the overlay holds the outputs of the entries, and an
  accepted transaction spends those or coins of the chain. One that spends anything else is rejected
  for missing inputs.
* **`package_atomic`** — a package that fails leaves entries and overlay as they were, when no
  member has outputs in the overlay without being in the mempool.
-/

namespace Subcoin.Mempool

open ValidationWorkspace

variable {SE : Type} {env : PoolEnv SE} {build : Build} {options : MemPoolOptions} {m : Moment}
  {inner inner' : MemPoolInner} {ws : ValidationWorkspace} {ctx : EntryContext}
  {wss : List ValidationWorkspace} {t : Transaction} {o : OutPoint} {coin : PoolCoin}
  {p p' : MemPool} {call : Call}

/-! ## Transactions of the mempool -/

def HasTx (inner : MemPoolInner) (tx : Transaction) : Prop :=
  ∃ k e, inner.get k = some e ∧ e.tx = tx

theorem hasTx_inserted (h : Inserted env build m inner ws ctx inner') :
    HasTx inner' t ↔ HasTx inner t ∨ ws.tx = t := by
  obtain ⟨id, hid⟩ := h.insertedAt
  constructor
  · rintro ⟨k, e', he', rfl⟩
    rcases hid.get_new he' with ⟨_, htx, _⟩ | ⟨e, he, hbare⟩
    · exact Or.inr htx.symm
    · exact Or.inl ⟨k, e, he, (tx_eq_of_bare hbare).symm⟩
  · rintro (⟨k, e, he, rfl⟩ | rfl)
    · obtain ⟨e', he', hbare⟩ := hid.get_old he
      exact ⟨k, e', he', tx_eq_of_bare hbare⟩
    · obtain ⟨st, ancKey, descKey, _, hentry⟩ := hid.entry
      exact ⟨id, _, hentry, rfl⟩

theorem hasTx_insertsAll (h : InsertsAll env build m inner wss inner') :
    HasTx inner' t ↔ HasTx inner t ∨ ∃ ws ∈ wss, ws.tx = t := by
  induction wss generalizing inner with
  | nil =>
    cases h
    simp
  | cons ws rest ih =>
    obtain ⟨ctx, inner1, hinserted, h⟩ := h
    rw [ih h, hasTx_inserted hinserted, List.exists_mem_cons_iff, or_assoc]

theorem hasTx_removed {ids : List EntryId} (h : Removed env inner ids inner') :
    HasTx inner' t ↔ ∃ k e, inner.get k = some e ∧ e.tx = t ∧ k ∉ ids := by
  constructor
  · rintro ⟨k, e, he, htx⟩
    rw [h.get] at he
    split at he
    · cases he
    · rename_i hk
      exact ⟨k, e, he, htx, hk⟩
  · rintro ⟨k, e, he, htx, hk⟩
    exact ⟨k, e, by rw [h.get, if_neg hk, he], htx⟩

/-- A txid that is not in use is that of no transaction of the mempool. -/
theorem not_hasTx_of_fresh (hbyTxid : ByTxid env inner) {tx : Transaction}
    (hfresh : inner.arena.byTxid (env.computeTxid tx) = none)
    (ht : env.computeTxid t = env.computeTxid tx) : ¬ HasTx inner t := by
  rintro ⟨k, e, he, rfl⟩
  rw [(hbyTxid _ k).mpr ⟨e, he, ht⟩] at hfresh
  cases hfresh

/-! ## The overlay after a vetting -/

theorem txid_of_outputAt {out : TxOut} (h : outputAt env t o = some out) :
    o.txid = env.computeTxid t :=
  (vout_of_outputAt (by rw [h]; rfl)).1

/-- One of the transactions has an output at the outpoint, and this is its coin. -/
def MakesCoin (env : PoolEnv SE) (tx : Transaction) (o : OutPoint) (coin : PoolCoin) : Prop :=
  ∃ out, outputAt env tx o = some out ∧ coin = mempoolCoin out

variable {txs : List Transaction} {coins : CoinsViewCache}

theorem MakesCoin.creates (h : MakesCoin env t o coin) (ht : t ∈ txs) : Creates env txs o := by
  obtain ⟨out, hout, _⟩ := h
  exact ⟨t, ht, by rw [hout]; rfl⟩

theorem addMempoolCoins_overlay_eq_some :
    (coins.addMempoolCoins env t).mempoolOverlay o = some coin ↔
      MakesCoin env t o coin ∨
        (outputAt env t o).isSome = false ∧ coins.mempoolOverlay o = some coin := by
  rw [addMempoolCoins_overlay, MakesCoin]
  cases outputAt env t o with
  | none => simp
  | some out => simp [eq_comm]

variable {coins' : CoinsViewCache} {ids : HashSet EntryId}

/-- The outputs of what was vetted are in the overlay, and where there are none it is as it was. -/
theorem VetsAll.overlay_eq_some {height : Nat} {mtp : Int}
    (hvets : VetsAll env build options m height mtp inner coins wss coins')
    (hnodup : (wss.map fun ws => env.computeTxid ws.tx).Nodup) :
    coins'.mempoolOverlay o = some coin ↔ (∃ ws ∈ wss, MakesCoin env ws.tx o coin) ∨
      ¬ Creates env (wss.map tx) o ∧ coins.mempoolOverlay o = some coin := by
  induction wss generalizing coins with
  | nil =>
    rw [Fetches.overlay hvets]
    simp [Creates]
  | cons ws rest ih =>
    obtain ⟨coins2, _, h2, hrest⟩ := hvets
    rw [List.map_cons, List.nodup_cons] at hnodup
    -- no later transaction has an output where this one has one
    have hone : (outputAt env ws.tx o).isSome = true →
        ¬ Creates env (rest.map tx) o := by
      rintro hsome ⟨tx, htx, hsome'⟩
      obtain ⟨ws', hws', rfl⟩ := List.mem_map.mp htx
      refine hnodup.1 (List.mem_map.mpr ⟨ws', hws', ?_⟩)
      exact (vout_of_outputAt hsome').1.symm.trans (vout_of_outputAt hsome).1
    have hcons : Creates env ((ws :: rest).map tx) o ↔
        (outputAt env ws.tx o).isSome = true ∨ Creates env (rest.map tx) o := by
      simp [Creates]
    rw [ih hrest hnodup.2, addMempoolCoins_overlay_eq_some, h2.overlay, List.exists_mem_cons_iff,
      hcons]
    constructor
    · rintro (hws' | ⟨hnot, hws | ⟨hnone, hcoin⟩⟩)
      · exact Or.inl (Or.inr hws')
      · exact Or.inl (Or.inl hws)
      · exact Or.inr ⟨by simp [hnone, hnot], hcoin⟩
    · rintro ((hws | hws') | ⟨hnot, hcoin⟩)
      · obtain ⟨out, hout, _⟩ := id hws
        exact Or.inr ⟨hone (by rw [hout]; rfl), Or.inl hws⟩
      · exact Or.inl hws'
      · rw [not_or, Bool.not_eq_true] at hnot
        exact Or.inr ⟨hnot.2, Or.inr ⟨hnot.1, hcoin⟩⟩

/-- Taking back the outputs of what was vetted leaves what was there before, but for outputs that
were there before as well. -/
theorem VetsAll.overlay_removed {height : Nat} {mtp : Int}
    (hvets : VetsAll env build options m height mtp inner coins wss coins')
    (hnodup : (wss.map fun ws => env.computeTxid ws.tx).Nodup)
    (hnew : ∀ ws ∈ wss, ∀ o, (outputAt env ws.tx o).isSome = true → coins.mempoolOverlay o = none) :
    ((wss.map tx).foldl (CoinsViewCache.removeMempoolTx env)
      coins').mempoolOverlay = coins.mempoolOverlay := by
  funext o
  by_cases hcreates : Creates env (wss.map tx) o
  · rw [foldl_removeMempoolTx_overlay_none (Or.inl hcreates)]
    obtain ⟨tx, htx, hsome⟩ := hcreates
    obtain ⟨ws, hws, rfl⟩ := List.mem_map.mp htx
    exact (hnew ws hws o hsome).symm
  · rw [foldl_removeMempoolTx_overlay hcreates]
    refine Option.ext fun coin => ?_
    rw [hvets.overlay_eq_some hnodup, and_iff_right hcreates]
    refine or_iff_right ?_
    rintro ⟨ws, hws, hmakes⟩
    exact hcreates (hmakes.creates (List.mem_map_of_mem hws))

/-! ## Exactness -/

/-- The overlay holds the outputs of the transactions in the mempool, and nothing else. -/
def OverlayExact (env : PoolEnv SE) (p : MemPool) : Prop :=
  ∀ o coin, p.coinsCache.mempoolOverlay o = some coin ↔
    ∃ t, HasTx p.inner t ∧ MakesCoin env t o coin

namespace OverlayExact

section

variable (h : OverlayExact env p) (hbyTxid : ByTxid env p.inner)

include h hbyTxid

theorem eq_none {tx : Transaction} (hfresh : p.inner.arena.byTxid (env.computeTxid tx) = none)
    (ho : (outputAt env tx o).isSome = true) : p.coinsCache.mempoolOverlay o = none := by
  rw [Option.eq_none_iff_forall_ne_some]
  intro coin hcoin
  obtain ⟨t, ht, out, hout, _⟩ := (h o coin).mp hcoin
  refine not_hasTx_of_fresh hbyTxid hfresh ?_ ht
  exact (txid_of_outputAt hout).symm.trans (vout_of_outputAt ho).1

theorem admitted (hadmits : Admits env build options m p txs wss p') : OverlayExact env p' := by
  intro o coin
  have hfresh : ∀ ws ∈ wss, p.inner.arena.byTxid (env.computeTxid ws.tx) = none := fun ws hws =>
    (hadmits.vetting.vets.admissible ws hws).fresh
  rw [hadmits.vetting.vets.overlay_eq_some hadmits.vetting.nodup]
  simp only [hasTx_insertsAll hadmits.inserts, h o coin]
  constructor
  · rintro (⟨ws, hws, hmakes⟩ | ⟨_, t, ht, hmakes⟩)
    · exact ⟨ws.tx, Or.inr ⟨ws, hws, rfl⟩, hmakes⟩
    · exact ⟨t, Or.inl ht, hmakes⟩
  · rintro ⟨t, ht | ⟨ws, hws, rfl⟩, hmakes⟩
    · refine Or.inr ⟨?_, t, ht, hmakes⟩
      rintro ⟨tx, htx, hsome⟩
      obtain ⟨ws, hws, rfl⟩ := List.mem_map.mp htx
      obtain ⟨out, hout, _⟩ := hmakes
      refine not_hasTx_of_fresh hbyTxid (hfresh ws hws) ?_ ht
      exact (txid_of_outputAt hout).symm.trans (vout_of_outputAt hsome).1
    · exact Or.inl ⟨ws, hws, hmakes⟩

/-- The removal of entries together with their outputs. -/
theorem swept {connect : CoinsViewCache → CoinsViewCache}
    (hconnect : ∀ coins, (connect coins).mempoolOverlay = coins.mempoolOverlay)
    (hswept : Swept env build m p ids connect p') : OverlayExact env p' := by
  intro o coin
  have hstaged : ∀ tx, tx ∈ stagedTxs m p.inner ids ↔
      ∃ k e, p.inner.get k = some e ∧ e.tx = tx ∧ k ∈ ids.iter m.order := by
    intro tx
    simp only [stagedTxs, List.mem_map, List.mem_filterMap]
    constructor
    · rintro ⟨e, ⟨k, hk, he⟩, rfl⟩
      exact ⟨k, e, he, rfl, hk⟩
    · rintro ⟨k, e, he, rfl, hk⟩
      exact ⟨e, ⟨k, hk, he⟩, rfl⟩
  rw [hswept.coins, hconnect]
  simp only [hasTx_removed (removeStaged_spec hswept.inner)]
  by_cases hcreates : Creates env (stagedTxs m p.inner ids) o
  · rw [foldl_removeMempoolTx_overlay_none (Or.inl hcreates)]
    refine iff_of_false (by simp) ?_
    rintro ⟨t, ⟨k, e, he, rfl, hk⟩, out, hout, _⟩
    obtain ⟨tx, htx, hsome⟩ := hcreates
    obtain ⟨k', e', he', rfl, hk'⟩ := (hstaged tx).mp htx
    have heq := (txid_of_outputAt hout).symm.trans (vout_of_outputAt hsome).1
    exact hk (hbyTxid.unique he he' heq ▸ hk')
  · rw [foldl_removeMempoolTx_overlay hcreates, h o coin]
    constructor
    · rintro ⟨_, ⟨k, e, he, rfl⟩, hmakes⟩
      refine ⟨e.tx, ⟨k, e, he, rfl, fun hk => ?_⟩, hmakes⟩
      exact hcreates (hmakes.creates ((hstaged _).mpr ⟨k, e, he, rfl, hk⟩))
    · rintro ⟨t, ⟨k, e, he, htx, _⟩, hmakes⟩
      exact ⟨t, ⟨k, e, he, htx⟩, hmakes⟩

end

end OverlayExact

/-! ## Runs on a chain -/

section

variable {chain : H256 → Option Pallet.State} {height : Nat} {mtp : Int}
  {coins coins' : CoinsViewCache}

/-- Vetting leaves the cache sound. -/
theorem CacheSound.vets (h : CacheSound chain coins) (hserves : Serves chain m.client)
    (hvets : VetsAll env build options m height mtp inner coins wss coins') :
    CacheSound chain coins' := by
  induction wss generalizing coins with
  | nil => exact h.fetches hserves hvets
  | cons ws rest ih =>
    obtain ⟨coins2, _, h2, hrest⟩ := hvets
    have hsound2 : CacheSound chain coins2 := h.fetches hserves h2
    exact ih (show CacheSound chain (coins2.addMempoolCoins env ws.tx) from hsound2) hrest

theorem connect_overlay (call : Call) (coins : CoinsViewCache) :
    (call.connect coins).mempoolOverlay = coins.mempoolOverlay := by
  cases call with
  | removeForBlock confirmed block => rfl
  | removeForReorg height block => rfl
  | _ => rfl

theorem CacheSound.connect (h : CacheSound chain coins) (call : Call) :
    CacheSound chain (call.connect coins) := by
  cases call with
  | removeForBlock confirmed block => exact fun p hp => absurd hp List.not_mem_nil
  | removeForReorg height block => exact fun p hp => absurd hp List.not_mem_nil
  | _ => exact h

theorem CacheSound.effect (h : CacheSound chain p.coinsCache) (hserves : Serves chain m.client)
    (heffect : Effect env build options m p call p') : CacheSound chain p'.coinsCache := by
  cases heffect with
  | admitted admits => exact h.vets hserves admits.vetting.vets
  | failed fails =>
    cases fails with
    | rejected vetting _ coins =>
      rw [coins]
      exact (h.vets hserves vetting.vets).removed
    | overflowed vetting _ _ _ => exact h.vets hserves vetting.vets
  | trimmed _ coins => exact coins ▸ h
  | expired _ _ coins => exact coins ▸ h
  | swept _ swept =>
    rw [swept.coins]
    exact CacheSound.connect h.removed call
  | moved _ coins =>
    rw [coins]
    exact fun p hp => absurd hp List.not_mem_nil
  | kept _ coins => exact coins ▸ h

theorem cacheSound_reachable {cond : Moment → Call → MemPool → Prop}
    (hcond : ∀ {m call p}, cond m call p → Serves chain m.client)
    (h : Reachable env build options cond p) : CacheSound chain p.coinsCache :=
  pool_invariant (I := fun p => CacheSound chain p.coinsCache)
    (fun _ _ hp => absurd hp List.not_mem_nil) (fun _ hc hI => hI.effect (hcond hc)) h

/-- The inputs of a vetted transaction: outputs of those vetted before it, coins of the overlay or
of the chain. -/
theorem Vetting.input (hvetting : Vetting env build options m p txs wss coins')
    (hserves : Serves chain m.client) (hsound : CacheSound chain p.coinsCache) (hws : ws ∈ wss)
    (ho : o ∈ ws.tx.spends) :
    (∃ before after, wss = before ++ ws :: after ∧
        Creates env (before.map tx) o) ∨
      (p.coinsCache.mempoolOverlay o).isSome = true ∨
      ∃ c, ChainCoin chain p.coinsCache.bestBlock o c := by
  obtain ⟨before, after, coins2, hsplit, hbefore, hvetted⟩ := hvetting.vets.vetted hws
  obtain ⟨coin, hfinds⟩ := hvetted.finds ho
  have hsound2 : CacheSound chain coins2 := hsound.vets hserves hbefore
  have hnodup : (before.map fun ws => env.computeTxid ws.tx).Nodup := by
    refine hvetting.nodup.sublist ?_
    rw [hsplit, List.map_append]
    exact List.sublist_append_left _ _
  rcases hsound2.finds hserves hfinds with hoverlay | ⟨c, hchain, _⟩
  · rcases (hbefore.overlay_eq_some hnodup).mp hoverlay with ⟨ws', hws', hmakes⟩ | ⟨_, hold⟩
    · exact Or.inl ⟨before, after, hsplit, hmakes.creates (List.mem_map_of_mem hws')⟩
    · exact Or.inr (Or.inl (by rw [hold]; rfl))
  · exact Or.inr (Or.inr ⟨c, hbefore.bestBlock ▸ hchain⟩)

/-- An outpoint that can be spent: an output of a transaction in the mempool or of one that is
offered with it, or a coin of the chain. -/
def Spendable (chain : H256 → Option Pallet.State) (env : PoolEnv SE) (p : MemPool)
    (others : List Transaction) (o : OutPoint) : Prop :=
  (∃ t, (HasTx p.inner t ∨ t ∈ others) ∧ (outputAt env t o).isSome = true) ∨
    ∃ coin, ChainCoin chain p.coinsCache.bestBlock o coin

/-- The overlay is exact, and what is accepted spends what can be spent. A transaction that no other
check stops, and that wants to spend something else, is rejected for missing inputs. -/
structure OverlayHolds (chain : H256 → Option Pallet.State) (env : PoolEnv SE) (build : Build)
    (options : MemPoolOptions) (p : MemPool) : Prop where
  exact : OverlayExact env p
  single : ∀ {m tx p'}, Serves chain m.client →
    MemPool.acceptSingleTransaction env build options m tx p = .ok ((), p') →
    ∀ o ∈ tx.spends, Spendable chain env p [] o
  package : ∀ {m txs result p'}, Serves chain m.client →
    MemPool.acceptPackage env build options m txs p = .ok (result, p') →
    ∀ tx ∈ txs, ∀ o ∈ tx.spends, Spendable chain env p txs o
  missing : ∀ {m tx height}, MemPool.currentHeight m = .ok height →
    Current chain m.client p.coinsCache → Unopposed env options p.inner tx →
    Summable (coinIn chain p.coinsCache) height tx.spends →
    (∃ o ∈ tx.spends, ¬ Spendable chain env p [] o) →
    ∃ parents, (MemPool.acceptSingleTransaction env build options m tx).eval p =
      .err (.missingInputs parents)

theorem OverlayExact.spendable (h : OverlayExact env p) {others : List Transaction}
    (ho : (p.coinsCache.mempoolOverlay o).isSome = true ∨
      ∃ c, ChainCoin chain p.coinsCache.bestBlock o c) : Spendable chain env p others o := by
  rcases ho with ho | hchain
  · obtain ⟨coin, hcoin⟩ := Option.isSome_iff_exists.mp ho
    obtain ⟨t, ht, out, hout, _⟩ := (h o coin).mp hcoin
    exact Or.inl ⟨t, Or.inl ht, by rw [hout]; rfl⟩
  · exact Or.inr hchain

theorem isSome_coinIn {coins : CoinsViewCache} :
    (coinIn chain coins o).isSome = true ↔
      (coins.mempoolOverlay o).isSome = true ∨ ∃ c, ChainCoin chain coins.bestBlock o c := by
  rw [coinIn, Option.isSome_or, Bool.or_eq_true, Option.isSome_map,
    Option.isSome_iff_exists (x := (chain coins.bestBlock).bind _)]
  simp only [Option.bind_eq_some_iff, ChainCoin]

theorem OverlayExact.spendable_iff (h : OverlayExact env p) :
    Spendable chain env p [] o ↔ (coinIn chain p.coinsCache o).isSome = true := by
  rw [isSome_coinIn]
  refine ⟨?_, h.spendable⟩
  rintro (⟨t, ht, hout⟩ | hchain)
  · obtain ⟨out, hout⟩ := Option.isSome_iff_exists.mp hout
    have hcoin := (h o _).mpr ⟨t, ht.resolve_right List.not_mem_nil, out, hout, rfl⟩
    exact Or.inl (by rw [hcoin]; rfl)
  · exact Or.inr hchain

theorem OverlayExact.holds (h : OverlayExact env p) (hsound : CacheSound chain p.coinsCache) :
    OverlayHolds chain env build options p := by
  refine ⟨h, fun {m tx p'} hserves hok o ho => ?_,
    fun {m txs result p'} hserves hok tx htx o ho => ?_,
    fun {m tx height} hheight hcurrent htx hsum hmissing => ?_⟩
  · obtain ⟨ws, hadmits, _⟩ := meets_acceptSingleTransaction.ok hok
    obtain ⟨ws', hws', rfl⟩ := hadmits.complete tx (by simp)
    rcases hadmits.vetting.input hserves hsound hws' ho with ⟨before, after, hsplit, hcreates⟩ | ho
    · -- nothing is vetted before it
      rcases List.singleton_eq_append_iff.mp hsplit with ⟨rfl, _⟩ | ⟨_, hnil⟩
      · obtain ⟨t, ht, _⟩ := hcreates
        cases ht
      · cases hnil
    · exact h.spendable ho
  · obtain ⟨wss, hadmits⟩ := meets_acceptPackage.ok hok
    obtain ⟨ws, hws, rfl⟩ := hadmits.complete tx htx
    rcases hadmits.vetting.input hserves hsound hws ho with ⟨before, after, hsplit, hcreates⟩ | ho
    · obtain ⟨t, ht, hsome⟩ := hcreates
      obtain ⟨ws', hws', rfl⟩ := List.mem_map.mp ht
      refine Or.inl ⟨ws'.tx, Or.inr (hadmits.vetting.mem ws' ?_), hsome⟩
      rw [hsplit]
      exact List.mem_append_left _ hws'
    · exact h.spendable ho
  · obtain ⟨o, ho, hunspendable⟩ := hmissing
    refine missing_acceptSingleTransaction build hheight hcurrent htx ⟨o, ho, fun ha => ?_⟩ hsum
    exact hunspendable (h.spendable_iff.mpr ha.2)

end

/-! ## When the overlay is kept -/

/-- `trim_to_size` and `expire` find nothing to remove. -/
def NothingDropped (build : Build) (m : Moment) (call : Call) (p : MemPool) : Prop :=
  match call with
  | .trimToSize maxSize => p.inner.totalTxSize ≤ maxSize
  | .expire maxAge => ∀ cutoff, build.subSigned (MemPool.currentTime m) maxAge =
      (.ok cutoff : Outcome MempoolError Int) → ∀ k e, p.inner.get k = some e → cutoff ≤ e.time
  | _ => True

/-- A call that keeps the overlay in step with the entries. -/
def KeepsOverlay (chain : H256 → Option Pallet.State) (env : PoolEnv SE) (build : Build)
    (m : Moment) (call : Call) (p : MemPool) : Prop :=
  Serves chain m.client ∧ AmountsFit env m call p ∧ NothingDropped build m call p

theorem trimRound_eq {order : HashOrder} {maxSize : Nat} (hsize : inner.totalTxSize ≤ maxSize)
    (h : TrimRound env build order maxSize inner inner') : inner' = inner := by
  cases h with
  | start => rfl
  | round hround hlarge _ _ => exact absurd (hround.start_spec.1 hlarge) (Nat.not_lt.mpr hsize)

/-- An expiry that finds nothing leaves the entries. -/
theorem hasTx_expired {maxAge : Int} (hindexes : Indexes env build inner.arena)
    (hyoung : ∀ cutoff, build.subSigned (MemPool.currentTime m) maxAge = (.ok cutoff : Outcome
      MempoolError Int) → ∀ k e, inner.get k = some e → cutoff ≤ e.time)
    (hstages : Stages env build m inner (.expire maxAge) inner ids)
    (hremove : inner.removeStaged env build m.order ids false = (.ok inner' : Outcome MempoolError
      MemPoolInner)) : HasTx inner' t ↔ HasTx inner t := by
  rw [hasTx_removed (removeStaged_spec hremove)]
  cases hstages with
  | expire hcutoff hids =>
    constructor
    · rintro ⟨k, e, he, htx, _⟩
      exact ⟨k, e, he, htx⟩
    · rintro ⟨k, e, he, htx⟩
      refine ⟨k, e, he, htx, fun hk => ?_⟩
      rw [HashSet.mem_iter, HashSet.mem_extend] at hk
      rcases hk with hk | hk
      · exact HashSet.not_mem_empty hk
      · obtain ⟨e', he', hold⟩ := (mem_expired hindexes hids).mp hk
        exact absurd hold (not_lt.mpr (hyoung _ hcutoff k e' he'))

theorem OverlayExact.effect {chain : H256 → Option Pallet.State} (h : OverlayExact env p)
    (hbyTxid : ByTxid env p.inner) (hindexes : Indexes env build p.inner.arena)
    (htotals : Totals p.inner) (hcond : KeepsOverlay chain env build m call p)
    (heffect : Effect env build options m p call p') : OverlayExact env p' := by
  obtain ⟨_, hfit, hdropped⟩ := hcond
  cases heffect with
  | admitted admits => exact h.admitted hbyTxid admits
  | failed fails =>
    obtain ⟨wss, coins1, hvetting, hinner, hcoins⟩ := htotals.rejected hfit fails
    have hnew : ∀ ws ∈ wss, ∀ o, (outputAt env ws.tx o).isSome = true →
        p.coinsCache.mempoolOverlay o = none := fun ws hws o ho =>
      h.eq_none hbyTxid (hvetting.vets.admissible ws hws).fresh ho
    intro o coin
    rw [hcoins, hvetting.vets.overlay_removed hvetting.nodup hnew, hinner]
    exact h o coin
  | trimmed rounds coins =>
    intro o coin
    rw [coins, trimRound_eq hdropped rounds]
    exact h o coin
  | expired stages inner coins =>
    intro o coin
    rw [coins, h o coin]
    simp only [hasTx_expired hindexes hdropped stages inner]
  | swept _ swept => exact h.swept hbyTxid (connect_overlay call) swept
  | moved inner coins =>
    intro o coin
    rw [coins, inner]
    exact h o coin
  | kept inner coins =>
    intro o coin
    rw [coins, inner]
    exact h o coin

/-- In every state of a run in which nothing is trimmed or expires and amounts fit, the overlay
holds the outputs of the entries, and what is accepted spends those or coins of the chain. -/
theorem overlayExact_of_run {chain : H256 → Option Pallet.State}
    (h : Reachable env build options (KeepsOverlay chain env build) p) :
    OverlayHolds chain env build options p := by
  refine OverlayExact.holds ?_ (cacheSound_reachable (fun hcond => hcond.1) h)
  refine pool_invariant (I := OverlayExact env) (fun client o coin => ?_) ?_ h
  · refine iff_of_false (by simp [MemPool.new, CoinsViewCache.new]) ?_
    rintro ⟨t, ⟨k, e, he, _⟩, _⟩
    cases he
  · intro m call p p' hp hcond hI heffect
    exact hI.effect (byTxid_reachable hp) (indexes_of_built (built_reachable hp))
      (totals_reachable (hp.mono fun hcond => hcond.2.1)) hcond heffect

/-! ## Packages as a whole -/

/-- A member that is not in the mempool has no outputs in the overlay. -/
def NoLeftovers (env : PoolEnv SE) (txs : List Transaction) (p : MemPool) : Prop :=
  ∀ tx ∈ txs, p.inner.arena.byTxid (env.computeTxid tx) = none →
    ∀ o, (outputAt env tx o).isSome = true → p.coinsCache.mempoolOverlay o = none

/-- A package that is accepted is accepted as a whole, in every state; one that is not leaves
nothing behind, when its amounts fit and there are no leftovers. -/
theorem package_atomic {txs : List Transaction} :
    (Reachable env build options (AmountsFit env) p → AmountsFit env m (.acceptPackage txs) p →
      NoLeftovers env txs p →
      ∀ e p', MemPool.acceptPackage env build options m txs p = .err (e, p') →
        p'.inner = p.inner ∧ p'.coinsCache.mempoolOverlay = p.coinsCache.mempoolOverlay) ∧
    ∀ result p', MemPool.acceptPackage env build options m txs p = .ok (result, p') →
      ∀ tx ∈ txs, HasTx p'.inner tx := by
  constructor
  · intro hp hfit hclean e p' herr
    have hfails : Fails env build options m p txs p' := meets_acceptPackage.err herr
    obtain ⟨wss, coins1, hvetting, hinner, hcoins⟩ := (totals_reachable hp).rejected hfit hfails
    refine ⟨hinner, ?_⟩
    rw [hcoins]
    refine hvetting.vets.overlay_removed hvetting.nodup fun ws hws => ?_
    exact hclean ws.tx (hvetting.mem ws hws) (hvetting.vets.admissible ws hws).fresh
  · intro result p' hok tx htx
    obtain ⟨wss, hadmits⟩ := meets_acceptPackage.ok hok
    rw [hasTx_insertsAll hadmits.inserts]
    exact Or.inr (hadmits.complete tx htx)

/-! ## Samples -/

namespace Reference

theorem serves_client : Serves states client := grounded_coins.reports.serves

/-- The parent is in the mempool and its child is not: what has been evaluated for the grandchild,
which no other check stops. -/
def awaitsChild (p : MemPool) : Bool :=
  p.coinsCache.bestBlock = client.bestHash &&
    decide (p.coinsCache.baseCache.length ≤ p.coinsCache.capacity) &&
    (p.coinsCache.mempoolOverlay (outputOf parent)).isSome &&
    (coinIn states p.coinsCache (outputOf child)).isNone &&
    decide (checkTransaction Reference.env .default p.inner grandchild = .ok ()) &&
    (p.inner.getConflictTx (outputOf child)).isNone

/-- One accepted transaction, whose output is in the overlay. Its grandchild comes too early. -/
theorem overlayExact_parent :
    ∃ p, Reachable Reference.env .checked .default (KeepsOverlay states Reference.env .checked) p ∧
      (p.coinsCache.mempoolOverlay (outputOf parent)).isSome = true ∧
      OverlayHolds states Reference.env .checked .default p ∧
      ∃ parents, (MemPool.acceptSingleTransaction Reference.env .checked .default moment
        grandchild).eval p = .err (.missingInputs parents) := by
  have hrun : (run Reference.env .checked .default [(moment, .acceptSingleTransaction parent)]
      (.new client)).any awaitsChild = true := by decide +kernel
  have hkeeps : KeepsOverlay states Reference.env .checked moment (.acceptSingleTransaction parent)
      (.new client) :=
    ⟨serves_client, amountsFit_of_fits (by decide +kernel), trivial⟩
  obtain ⟨p, hp, hawaits⟩ := exists_step (.new client) hkeeps hrun
  simp only [awaitsChild, Bool.and_eq_true, decide_eq_true_eq, Option.isNone_iff_eq_none] at hawaits
  obtain ⟨⟨⟨⟨⟨hbest, hbounded⟩, hoverlay⟩, hcoin⟩, htransaction⟩, hconflict⟩ := hawaits
  have hholds : OverlayHolds states Reference.env .checked .default p := overlayExact_of_run hp
  have hheight : MemPool.currentHeight moment = .ok 0 := by decide +kernel
  have hknown : (states p.coinsCache.bestBlock).isSome = true := by
    rw [hbest]
    decide +kernel
  have hcurrent : Current states client p.coinsCache :=
    ⟨⟨grounded_coins.reports, hknown, cacheSound_reachable (fun hcond => hcond.1) hp⟩, hbounded⟩
  -- nothing else is wrong with the grandchild
  have hspends : grandchild.spends = [outputOf child] := rfl
  have hunopposed : Unopposed Reference.env .default p.inner grandchild :=
    ⟨htransaction, by simpa [hspends] using hconflict⟩
  have hsum : Summable (coinIn states p.coinsCache) 0 grandchild.spends :=
    ⟨by simp [hspends, hcoin], by simp [hspends, hcoin]⟩
  have hmissing : ¬ Spendable states Reference.env p [] (outputOf child) := by
    simp [hholds.exact.spendable_iff, hcoin]
  exact ⟨p, hp, hoverlay, hholds,
    hholds.missing hheight hcurrent hunopposed hsum ⟨_, List.mem_singleton_self _, hmissing⟩⟩

/-- The child of a transaction that was trimmed away is accepted. -/
def acceptsOrphan (p : MemPool) : Bool :=
  p.inner.arena.entries.keys.isEmpty &&
    (p.coinsCache.mempoolOverlay (outputOf parent)).isSome &&
    match MemPool.acceptSingleTransaction Reference.env .checked .default moment child p with
    | .ok _ => true
    | _ => false

/-- Trimming leaves the output of the parent in the overlay: it is spent by the next transaction
although no entry has it. -/
theorem not_overlayExact_trim :
    ∃ p, Reachable Reference.env .checked .default (fun _ _ _ => True) p ∧
      (∀ t, ¬ HasTx p.inner t) ∧ ¬ OverlayExact Reference.env p ∧
      ∃ p', MemPool.acceptSingleTransaction Reference.env .checked .default moment child p =
        .ok ((), p') := by
  have hrun : (run Reference.env .checked .default
      [(moment, .acceptSingleTransaction parent), (moment, .trimToSize 0)]
      (.new client)).any acceptsOrphan = true := by decide +kernel
  obtain ⟨p, hp, h⟩ := exists_reachable hrun
  rw [acceptsOrphan, Bool.and_eq_true, Bool.and_eq_true] at h
  obtain ⟨⟨hempty, hoverlay⟩, haccept⟩ := h
  have hnone : ∀ t, ¬ HasTx p.inner t := by
    rintro t ⟨k, e, he, _⟩
    have hk : k ∈ p.inner.arena.entries.keys := mem_keys_iff.mpr ⟨e, he⟩
    rw [List.isEmpty_iff.mp hempty] at hk
    cases hk
  refine ⟨p, hp, hnone, fun hexact => ?_, ?_⟩
  · obtain ⟨coin, hcoin⟩ := Option.isSome_iff_exists.mp hoverlay
    obtain ⟨t, ht, _⟩ := (hexact _ coin).mp hcoin
    exact hnone t ht
  · split at haccept
    · rename_i r hok
      exact ⟨r.2, hok⟩
    · cases haccept

/-- A parent goes when the other member of its package, whose output is dust, is refused; with its
child it is accepted. -/
theorem package_atomic_new :
    (∃ e p', MemPool.acceptPackage Reference.env .checked .default moment
        [parent, spendOf (coinAt 1) 1] (.new client) = .err (e, p') ∧
      p'.inner = .new ∧ p'.coinsCache.mempoolOverlay = fun _ => none) ∧
    ∃ result p', MemPool.acceptPackage Reference.env .checked .default moment [child, parent]
        (.new client) = .ok (result, p') ∧ ∀ tx ∈ [child, parent], HasTx p'.inner tx := by
  have hpair : (MemPool.acceptPackage Reference.env .checked .default moment [child, parent]
      (.new client)).isOk = true := by decide +kernel
  have hdust : (MemPool.acceptPackage Reference.env .checked .default moment
      [parent, spendOf (coinAt 1) 1] (.new client)).isOk = false ∧
      (MemPool.acceptPackage Reference.env .checked .default moment
        [parent, spendOf (coinAt 1) 1] (.new client)).isPanic = false := by decide +kernel
  obtain ⟨⟨result, p'⟩, hok⟩ := Outcome.isOk_eq_true.mp hpair
  refine ⟨?_, result, p', hok, package_atomic.2 result p' hok⟩
  generalize hx : MemPool.acceptPackage Reference.env .checked .default moment
    [parent, spendOf (coinAt 1) 1] (.new client) = x at hdust
  cases x with
  | ok r => cases hdust.1
  | err r =>
    exact ⟨r.1, r.2, rfl, package_atomic.1 (.new client)
      (amountsFit_of_fits (by decide +kernel)) (fun _ _ _ _ _ => rfl) r.1 r.2 hx⟩
  | panic msg => cases hdust.2

/-- A package of the parent again and of a transaction with a dust output, which fails. -/
def failsAndForgets (p : MemPool) : Bool :=
  (p.coinsCache.mempoolOverlay (outputOf parent)).isSome &&
    match MemPool.acceptPackage Reference.env .checked .default moment
      [parent, spendOf (coinAt 1) 1] p with
    | .err (_, p') => (p'.coinsCache.mempoolOverlay (outputOf parent)).isNone
    | _ => false

/-- What a failed package takes back can be what another call left. -/
theorem not_package_atomic_trim :
    ∃ p, Reachable Reference.env .checked .default (fun _ _ _ => True) p ∧
      ∃ e p', MemPool.acceptPackage Reference.env .checked .default moment
          [parent, spendOf (coinAt 1) 1] p = .err (e, p') ∧
        p'.coinsCache.mempoolOverlay ≠ p.coinsCache.mempoolOverlay := by
  have hrun : (run Reference.env .checked .default
      [(moment, .acceptSingleTransaction parent), (moment, .trimToSize 0)]
      (.new client)).any failsAndForgets = true := by decide +kernel
  obtain ⟨p, hp, h⟩ := exists_reachable hrun
  rw [failsAndForgets, Bool.and_eq_true] at h
  obtain ⟨hbefore, h⟩ := h
  split at h
  · rename_i e p' herr
    refine ⟨p, hp, e, p', herr, fun heq => ?_⟩
    rw [heq, Option.isNone_iff_eq_none] at h
    rw [h] at hbefore
    cases hbefore
  · cases h

end Reference

end Subcoin.Mempool
