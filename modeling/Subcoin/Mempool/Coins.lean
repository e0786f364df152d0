import Subcoin.Lib.Lookup
import Subcoin.Mempool.CoinsView

/-!
# Subcoin — what the coins cache answers

`Finds` is what a lookup can answer: the coin of the overlay, or else one that is cached or that
the chain has at the best block. The checks only add to the cache what the chain says (`Fetches`),
so that what they find later they would have found before.

* **`meets_getInputCoin`** — a coin that an input is given was there to be found.
* **`addMempoolCoins_overlay`**, **`removeMempoolTx_overlay`** — what the overlay holds afterwards.
-/

namespace Subcoin.Mempool

open Stateful CoinsViewCache

variable {SE : Type} {env : PoolEnv SE} {client : Client}
  {coins coins' coins'' : CoinsViewCache} {o : OutPoint} {coin : PoolCoin} {tx : Transaction}

/-! ## The chain -/

/-- The answer of the runtime at a block whose state is there. -/
def KnownAt (client : Client) (block : H256) (o : OutPoint) (answer : Option PoolCoin) : Prop :=
  ∃ state, (client.blocks block).bind StoredBlock.state = some state ∧
    answer = (state.coin o).map PoolCoin.ofCoin

/-- The cache differs by answers of the runtime only. -/
structure Fetches (client : Client) (coins coins' : CoinsViewCache) : Prop where
  overlay : coins'.mempoolOverlay = coins.mempoolOverlay
  spends : coins'.mempoolSpends = coins.mempoolSpends
  bestBlock : coins'.bestBlock = coins.bestBlock
  cached : ∀ p ∈ coins'.baseCache,
    p ∈ coins.baseCache ∨ KnownAt client coins.bestBlock p.1 p.2

namespace Fetches

theorem refl (coins : CoinsViewCache) : Fetches client coins coins :=
  ⟨rfl, rfl, rfl, fun _ hp => Or.inl hp⟩

theorem trans (h : Fetches client coins coins') (h' : Fetches client coins' coins'') :
    Fetches client coins coins'' where
  overlay := h'.overlay.trans h.overlay
  spends := h'.spends.trans h.spends
  bestBlock := h'.bestBlock.trans h.bestBlock
  cached p hp := by
    rcases h'.cached p hp with hp | hp
    · exact h.cached p hp
    · exact Or.inr (h.bestBlock ▸ hp)

variable {answer : Option PoolCoin}

theorem cache (h : KnownAt client coins.bestBlock o answer) :
    Fetches client coins (coins.cache o answer) := by
  refine ⟨rfl, rfl, rfl, fun p hp => ?_⟩
  rcases List.mem_cons.mp (List.mem_of_mem_take hp) with rfl | hp
  · exact Or.inr h
  · exact Or.inl (List.mem_of_mem_filter hp)

end Fetches

/-- A coin that a lookup can answer. -/
def Finds (client : Client) (coins : CoinsViewCache) (o : OutPoint) (coin : PoolCoin) : Prop :=
  coins.mempoolOverlay o = some coin ∨ coins.mempoolOverlay o = none ∧
    ((o, some coin) ∈ coins.baseCache ∨ KnownAt client coins.bestBlock o (some coin))

/-- What is found after more was fetched could have been found before. -/
theorem Finds.of_fetches (h : Fetches client coins coins') (hfinds : Finds client coins' o coin) :
    Finds client coins o coin := by
  unfold Finds at hfinds ⊢
  rw [h.overlay, h.bestBlock] at hfinds
  rcases hfinds with hoverlay | ⟨hnone, hcached | hknown⟩
  · exact Or.inl hoverlay
  · exact Or.inr ⟨hnone, h.cached _ hcached⟩
  · exact Or.inr ⟨hnone, Or.inr hknown⟩

/-! ## Lookups -/

/-- The runtime fails, or an input is missing. -/
def IsLookupError (e : MempoolError) : Prop :=
  (∃ msg, e = .runtimeApi msg) ∨ ∃ txids, e = .missingInputs txids

theorem mem_of_peek (h : coins.peek o = some answer) : (o, answer) ∈ coins.baseCache := by
  obtain ⟨⟨o', answer'⟩, hfind, rfl⟩ := Option.map_eq_some_iff.mp h
  have heq : o' = o := by simpa using List.find?_some hfind
  subst heq
  exact List.mem_of_find?_eq_some hfind

theorem fetchFromRuntime_eq_ok (h : coins.fetchFromRuntime env client o = .ok answer) :
    KnownAt client coins.bestBlock o answer := by
  unfold fetchFromRuntime getUtxos at h
  cases hstate : (client.blocks coins.bestBlock).bind StoredBlock.state with
  | none => simp [hstate] at h
  | some state =>
    simp only [hstate, List.map_cons] at h
    cases h
    exact ⟨state, hstate, rfl⟩

theorem isLookupError_of_fetch {e : MempoolError}
    (h : coins.fetchFromRuntime env client o = .err e) : IsLookupError e := by
  unfold fetchFromRuntime at h
  split at h
  · cases h
    exact Or.inl ⟨_, rfl⟩
  · cases h
    exact Or.inl ⟨_, rfl⟩
  · cases h

theorem meets_getCoin : Stateful.Meets (getCoin env client o) coins
    (fun answer coins' => Fetches client coins coins' ∧
      ∀ coin, answer = some coin → Finds client coins o coin)
    fun e coins' => Fetches client coins coins' ∧ IsLookupError e := by
  refine .get_bind ?_
  split
  · exact meets_pure ⟨.refl coins, by simp⟩
  split
  · rename_i coin hoverlay
    refine meets_pure ⟨.refl coins, fun coin' heq => ?_⟩
    rw [← Option.some.inj heq]
    exact Or.inl hoverlay
  · rename_i hnone hpeek
    refine meets_pure ⟨.refl coins, ?_⟩
    rintro coin rfl
    exact Or.inr ⟨hnone, Or.inl (mem_of_peek hpeek)⟩
  · rename_i hnone _
    refine .lift_bind (fun answer hfetch => ?_) fun _ he =>
      ⟨.refl coins, isLookupError_of_fetch he⟩
    have hknown : KnownAt client coins.bestBlock o answer := fetchFromRuntime_eq_ok hfetch
    refine .modify_bind (meets_pure ⟨.cache hknown, ?_⟩)
    rintro coin rfl
    exact Or.inr ⟨hnone, Or.inr hknown⟩

/-- An input is given a coin that was there to be found, or the error that names its parent. -/
theorem meets_getInputCoin : Stateful.Meets (getInputCoin env client o) coins
    (fun coin coins' => Fetches client coins coins' ∧ Finds client coins o coin)
    fun e coins' => Fetches client coins coins' ∧ IsLookupError e := by
  refine .bind meets_getCoin fun answer coins' h => ?_
  cases answer with
  | none => exact meets_fail ⟨h.1, Or.inr ⟨_, rfl⟩⟩
  | some coin => exact meets_pure ⟨h.1, h.2 coin rfl⟩

theorem fetches_foldl {answers : List (OutPoint × Option PoolCoin)}
    (h : ∀ p ∈ answers, KnownAt client coins.bestBlock p.1 p.2) :
    Fetches client coins (answers.foldl (fun coins p => coins.cache p.1 p.2) coins) := by
  induction answers generalizing coins with
  | nil => exact .refl coins
  | cons p answers ih =>
    have hp : Fetches client coins (coins.cache p.1 p.2) := .cache (h p List.mem_cons_self)
    exact hp.trans (ih fun q hq => h q (List.mem_cons_of_mem p hq))

theorem meets_ensureCoins {outpoints : List OutPoint} :
    Stateful.Meets (ensureCoins env client outpoints) coins
      (fun _ coins' => Fetches client coins coins')
      fun e coins' => Fetches client coins coins' ∧ IsLookupError e := by
  refine .get_bind ?_
  dsimp only
  split
  · exact meets_pure (.refl coins)
  · refine .lift_bind (fun fetched hfetch => ?_) fun e he => ⟨.refl coins, ?_⟩
    swap
    · unfold batchFetchFromRuntime at he
      split at he
      · cases he
        exact Or.inl ⟨_, rfl⟩
      · cases he
    refine meets_modify (fetches_foldl fun p hp => ?_)
    generalize outpoints.filter _ = missing at hfetch hp
    unfold batchFetchFromRuntime getUtxos at hfetch
    cases hstate : (client.blocks coins.bestBlock).bind StoredBlock.state with
    | none => simp [hstate] at hfetch
    | some state =>
      simp only [hstate] at hfetch
      cases hfetch
      have hzip : missing.zip ((missing.map state.coin).map fun coin => coin.map PoolCoin.ofCoin) =
          missing.map fun o => (o, (state.coin o).map PoolCoin.ofCoin) := by
        rw [List.map_map]
        nth_rewrite 1 [← List.map_id missing]
        exact List.zip_map' ..
      rw [hzip] at hp
      obtain ⟨o, _, rfl⟩ := List.mem_map.mp hp
      exact ⟨state, hstate, rfl⟩

theorem preserves_getInputCoin :
    Stateful.Preserves (Fetches client) (getInputCoin env client o) :=
  fun _ => meets_getInputCoin.mono (fun _ _ h => h.1) fun _ _ h => h.1

/-! ## The overlay -/

/-- A coin of an output that no block has yet. -/
def mempoolCoin (output : TxOut) : PoolCoin := ⟨output, mempoolHeight, false, 0⟩

/-- The output of a transaction at an outpoint. -/
def outputAt (env : PoolEnv SE) (tx : Transaction) (o : OutPoint) : Option TxOut :=
  (Lookup.collect Prod.fst (CoinsViewCache.outpointsOf (env.computeTxid tx) tx) o).map Prod.snd

theorem isSome_outputAt : (outputAt env tx o).isSome = true ↔
    ∃ i < tx.output.length, o = ⟨env.computeTxid tx, i % 2 ^ 32⟩ := by
  rw [outputAt, Option.isSome_map, Lookup.isSome_collect_iff]
  simp only [outpointsOf, List.mem_map, Prod.exists]
  constructor
  · rintro ⟨_, out, ⟨out', i, hmem, heq⟩, rfl⟩
    obtain ⟨rfl, _⟩ := Prod.mk.inj heq
    have hi := List.mem_zipIdx_iff_getElem?.mp hmem
    exact ⟨i, (List.getElem?_eq_some_iff.mp hi).1, rfl⟩
  · rintro ⟨i, hi, rfl⟩
    exact ⟨_, tx.output[i], ⟨tx.output[i], i,
      List.mem_zipIdx_iff_getElem?.mpr (List.getElem?_eq_getElem hi), rfl⟩, rfl⟩

/-- What is at an outpoint of a transaction is one of its outputs. -/
theorem vout_of_outputAt (h : (outputAt env tx o).isSome = true) :
    o.txid = env.computeTxid tx ∧ o.vout < tx.output.length := by
  obtain ⟨i, hi, rfl⟩ := isSome_outputAt.mp h
  exact ⟨rfl, Nat.lt_of_le_of_lt (Nat.mod_le _ _) hi⟩

theorem addMempoolCoins_overlay : (coins.addMempoolCoins env tx).mempoolOverlay o =
    ((outputAt env tx o).map mempoolCoin).or (coins.mempoolOverlay o) := by
  have hfold : (coins.addMempoolCoins env tx).mempoolOverlay o = _ := Lookup.foldl_update_collect
  rw [hfold, outputAt, Option.map_map]
  cases Lookup.collect Prod.fst (outpointsOf (env.computeTxid tx) tx) o with
  | none => rfl
  | some p => rfl

theorem removeMempoolTx_overlay : (coins.removeMempoolTx env tx).mempoolOverlay o =
    if (outputAt env tx o).isSome then none else coins.mempoolOverlay o := by
  have hfold : (coins.removeMempoolTx env tx).mempoolOverlay o =
      ((Lookup.collect Prod.fst (outpointsOf (env.computeTxid tx) tx) o).map
        fun _ => none).getD (coins.mempoolOverlay o) := Lookup.foldl_update_collect
  rw [hfold, outputAt, Option.isSome_map]
  cases Lookup.collect Prod.fst (outpointsOf (env.computeTxid tx) tx) o with
  | none => rfl
  | some p => rfl

/-- What is found once a transaction has added its outputs. -/
theorem Finds.of_addMempoolCoins (h : Finds client (coins.addMempoolCoins env tx) o coin) :
    (∃ out, outputAt env tx o = some out ∧ coin = mempoolCoin out) ∨
      outputAt env tx o = none ∧ Finds client coins o coin := by
  unfold Finds at h
  rw [addMempoolCoins_overlay] at h
  cases hout : outputAt env tx o with
  | none =>
    rw [hout] at h
    exact Or.inr ⟨rfl, h⟩
  | some out =>
    rw [hout] at h
    rcases h with h | ⟨h, _⟩
    · exact Or.inl ⟨out, rfl, (Option.some.inj h).symm⟩
    · cases h

/-- The overlay holds the outputs of the transaction. -/
def Added (env : PoolEnv SE) (coins : CoinsViewCache) (tx : Transaction) : Prop :=
  ∀ o out, outputAt env tx o = some out → coins.mempoolOverlay o = some (mempoolCoin out)

theorem added_addMempoolCoins : Added env (coins.addMempoolCoins env tx) tx := by
  intro o out hout
  rw [addMempoolCoins_overlay, hout]
  rfl

/-- Outputs of another transaction do not get in the way. -/
theorem Added.addMempoolCoins {tx' : Transaction} (h : Added env coins tx)
    (hne : env.computeTxid tx ≠ env.computeTxid tx') :
    Added env (coins.addMempoolCoins env tx') tx := by
  intro o out hout
  have htxid : o.txid = env.computeTxid tx := (vout_of_outputAt (by rw [hout]; rfl)).1
  have hnone : outputAt env tx' o = none := by
    rw [← Option.not_isSome_iff_eq_none]
    intro hsome
    exact hne (htxid.symm.trans (vout_of_outputAt hsome).1)
  rw [addMempoolCoins_overlay, hnone, h o out hout]
  rfl

/-- Adding the outputs once more changes nothing. -/
theorem Added.addMempoolCoins_eq (h : Added env coins tx) :
    coins.addMempoolCoins env tx = coins := by
  have hoverlay : (coins.addMempoolCoins env tx).mempoolOverlay = coins.mempoolOverlay := by
    funext o
    rw [addMempoolCoins_overlay]
    cases hout : outputAt env tx o with
    | none => rfl
    | some out => rw [h o out hout]; rfl
  calc coins.addMempoolCoins env tx
      = { coins with mempoolOverlay := (coins.addMempoolCoins env tx).mempoolOverlay } := rfl
    _ = coins := by rw [hoverlay]

/-- One of the transactions has an output at the outpoint. -/
def Creates (env : PoolEnv SE) (txs : List Transaction) (o : OutPoint) : Prop :=
  ∃ tx ∈ txs, (outputAt env tx o).isSome = true

variable {txs : List Transaction}

theorem foldl_removeMempoolTx_overlay (hcreates : ¬ Creates env txs o) :
    (txs.foldl (removeMempoolTx env) coins).mempoolOverlay o =
      coins.mempoolOverlay o := by
  induction txs generalizing coins with
  | nil => rfl
  | cons tx txs ih =>
    simp only [Creates, List.exists_mem_cons_iff, not_or] at hcreates
    rw [List.foldl_cons, ih hcreates.2, removeMempoolTx_overlay, if_neg hcreates.1]

theorem foldl_removeMempoolTx_overlay_none
    (hcreates : Creates env txs o ∨ coins.mempoolOverlay o = none) :
    (txs.foldl (removeMempoolTx env) coins).mempoolOverlay o = none := by
  induction txs generalizing coins with
  | nil =>
    rcases hcreates with ⟨_, htx, _⟩ | h
    · cases htx
    · exact h
  | cons tx txs ih =>
    rw [List.foldl_cons]
    refine ih ?_
    rw [removeMempoolTx_overlay]
    by_cases htx : (outputAt env tx o).isSome = true
    · exact Or.inr (if_pos htx)
    · rw [if_neg htx]
      simpa [Creates, List.exists_mem_cons_iff, htx] using hcreates

/-! ## The chain behind the cache -/

/-- The states of the blocks do not change: what a node has of them agrees with `chain`. -/
def Serves (chain : H256 → Option Pallet.State) (client : Client) : Prop :=
  ∀ block state, (client.blocks block).bind StoredBlock.state = some state →
    chain block = some state

/-- A coin of the chain at a block. -/
def ChainCoin (chain : H256 → Option Pallet.State) (block : H256) (o : OutPoint) (coin : Coin) :
    Prop :=
  ∃ state, chain block = some state ∧ state.coin o = some coin

/-- The cached answers are those of the chain at the best block. -/
def CacheSound (chain : H256 → Option Pallet.State) (coins : CoinsViewCache) : Prop :=
  ∀ p ∈ coins.baseCache, ∃ state, chain coins.bestBlock = some state ∧
    p.2 = (state.coin p.1).map PoolCoin.ofCoin

section

variable {chain : H256 → Option Pallet.State}

theorem KnownAt.of_serves {block : H256} (hserves : Serves chain client)
    (h : KnownAt client block o answer) :
    ∃ state, chain block = some state ∧ answer = (state.coin o).map PoolCoin.ofCoin := by
  obtain ⟨state, hstate, hanswer⟩ := h
  exact ⟨state, hserves block state hstate, hanswer⟩

theorem CacheSound.fetches (h : CacheSound chain coins) (hserves : Serves chain client)
    (hfetches : Fetches client coins coins') : CacheSound chain coins' := by
  intro p hp
  rw [hfetches.bestBlock]
  rcases hfetches.cached p hp with hp | hknown
  · exact h p hp
  · exact hknown.of_serves hserves

/-- What is found is in the overlay, or a coin of the chain. -/
theorem CacheSound.finds (h : CacheSound chain coins) (hserves : Serves chain client)
    (hfinds : Finds client coins o coin) :
    coins.mempoolOverlay o = some coin ∨
      ∃ c, ChainCoin chain coins.bestBlock o c ∧ coin = PoolCoin.ofCoin c := by
  have hcoin : ∀ {state : Pallet.State}, chain coins.bestBlock = some state →
      some coin = (state.coin o).map PoolCoin.ofCoin →
      ∃ c, ChainCoin chain coins.bestBlock o c ∧ coin = PoolCoin.ofCoin c := by
    intro state hstate heq
    obtain ⟨c, hc, rfl⟩ := Option.map_eq_some_iff.mp heq.symm
    exact ⟨c, ⟨state, hstate, hc⟩, rfl⟩
  rcases hfinds with hoverlay | ⟨_, hcached | hknown⟩
  · exact Or.inl hoverlay
  · obtain ⟨state, hstate, heq⟩ := h _ hcached
    exact Or.inr (hcoin hstate heq)
  · obtain ⟨state, hstate, heq⟩ := hknown.of_serves hserves
    exact Or.inr (hcoin hstate heq)

/-- The coin at an outpoint: of the overlay, or of the chain. -/
def coinIn (chain : H256 → Option Pallet.State) (coins : CoinsViewCache) (o : OutPoint) :
    Option PoolCoin :=
  (coins.mempoolOverlay o).or
    (((chain coins.bestBlock).bind fun state => state.coin o).map PoolCoin.ofCoin)

theorem CacheSound.coinIn_eq (h : CacheSound chain coins) (hserves : Serves chain client)
    (hfinds : Finds client coins o coin) : coinIn chain coins o = some coin := by
  have hchain : ∀ {state : Pallet.State}, chain coins.bestBlock = some state →
      some coin = (state.coin o).map PoolCoin.ofCoin → coins.mempoolOverlay o = none →
      coinIn chain coins o = some coin := by
    intro state hstate heq hnone
    rw [coinIn, hnone, hstate, Option.none_or, Option.bind_some, heq]
  rcases hfinds with hoverlay | ⟨hnone, hcached | hknown⟩
  · rw [coinIn, hoverlay, Option.some_or]
  · obtain ⟨state, hstate, heq⟩ := h _ hcached
    exact hchain hstate heq hnone
  · obtain ⟨state, hstate, heq⟩ := hknown.of_serves hserves
    exact hchain hstate heq hnone

theorem foldl_removeMempoolTx_base :
    (txs.foldl (removeMempoolTx env) coins).baseCache = coins.baseCache ∧
      (txs.foldl (removeMempoolTx env) coins).bestBlock = coins.bestBlock := by
  induction txs generalizing coins with
  | nil => exact ⟨rfl, rfl⟩
  | cons tx txs ih => exact ih

theorem CacheSound.removed (h : CacheSound chain coins) :
    CacheSound chain (txs.foldl (removeMempoolTx env) coins) := by
  obtain ⟨hbase, hbest⟩ := @foldl_removeMempoolTx_base _ env coins txs
  unfold CacheSound
  rw [hbase, hbest]
  exact h

end

end Subcoin.Mempool
