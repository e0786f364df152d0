import Subcoin.Mempool.Coherence

/-!
# Subcoin — the missing parents of a transaction

`ensure_coins` caches that a coin is absent, and `have_coin` takes every cached answer for a coin
(`agrees_iff`). Step 8 of `pre_checks` therefore only misses what the cache has evicted, and a
missing input is found by the loop of step 9, which names the parent of the first one and stops.

* **`reportsMissing_iff`** — when `pre_checks` reports the parents of all the missing inputs, and
  when the two lookups agree.
* **`missing_acceptSingleTransaction`** — where no input fails for another reason, the transaction
  is rejected for missing inputs.
-/

namespace Subcoin.Mempool

open Stateful

/-- A coin of the chain or an output of the mempool, which is not marked as spent. -/
def Available (chain : H256 → Option Pallet.State) (coins : CoinsViewCache) (o : OutPoint) : Prop :=
  o ∉ coins.mempoolSpends ∧ (coinIn chain coins o).isSome = true

/-- A cache in use, which is within its size. -/
structure Current (chain : H256 → Option Pallet.State) (client : Client) (coins : CoinsViewCache) :
    Prop extends Grounded chain client coins where
  bounded : coins.baseCache.length ≤ coins.capacity

/-- A transaction that the checks in front of the lookups let through, without a conflict. -/
structure Unopposed {SE : Type} (env : PoolEnv SE) (options : MemPoolOptions) (inner : MemPoolInner)
    (tx : Transaction) : Prop where
  transaction : checkTransaction env options inner tx = .ok ()
  conflicts : ∀ o ∈ tx.spends, inner.getConflictTx o = none

/-- The error names the parents of the inputs that are not available, each once. -/
def NamesParents {α : Type} (chain : H256 → Option Pallet.State) (coins : CoinsViewCache)
    (os : List OutPoint) (result : Outcome MempoolError α) : Prop :=
  ∃ parents, result = .err (.missingInputs parents) ∧ parents.Nodup ∧
    ∀ txid, txid ∈ parents ↔ ∃ o ∈ os, ¬ Available chain coins o ∧ o.txid = txid

/-- After `ensure_coins` the two lookups say the same. -/
def Agrees {SE : Type} (env : PoolEnv SE) (client : Client) (coins : CoinsViewCache)
    (o : OutPoint) : Prop :=
  ((CoinsViewCache.ensureCoins env client [o]).after coins).haveCoin o = true ↔
    ∃ coin, (CoinsViewCache.getCoin env client o).eval
      ((CoinsViewCache.ensureCoins env client [o]).after coins) = .ok (some coin)

/-! ## When all are named -/

namespace CoinsViewCache

def keys (coins : CoinsViewCache) : List OutPoint := coins.baseCache.map Prod.fst

/-- The outpoints that `ensure_coins` has to ask for. -/
def unknown (coins : CoinsViewCache) (os : List OutPoint) : List OutPoint :=
  os.filter fun o =>
    o ∉ coins.mempoolSpends && (coins.mempoolOverlay o).isNone && (coins.peek o).isNone

/-- An outpoint of the overlay, or one that the cache has room for once the others came in; it is
not marked as spent. -/
def Retains (coins : CoinsViewCache) (os : List OutPoint) (o : OutPoint) : Prop :=
  o ∉ coins.mempoolSpends ∧ ((coins.mempoolOverlay o).isSome = true ∨
    o ∈ ((coins.unknown os).reverse ++ coins.keys).take coins.capacity)

end CoinsViewCache

/-- Adding up inputs on top of `total` goes well up to the first missing one, whose parent is
`txid`. -/
def StopsAt (lookup : OutPoint → Option PoolCoin) (height : Nat) (txid : Txid) :
    Nat → List OutPoint → Prop
  | _, [] => False
  | total, o :: os =>
    match lookup o with
    | none => o.txid = txid
    | some coin =>
      total + coin.output.value < 2 ^ 64 ∧ (coin.isCoinbase = true → 100 ≤ height - coin.height) ∧
        StopsAt lookup height txid (total + coin.output.value) os

theorem StopsAt.exists_none {lookup : OutPoint → Option PoolCoin} {height total : Nat} {txid : Txid}
    {os : List OutPoint} (h : StopsAt lookup height txid total os) :
    ∃ o ∈ os, lookup o = none ∧ o.txid = txid := by
  induction os generalizing total with
  | nil => exact h.elim
  | cons o os ih =>
    simp only [StopsAt] at h
    cases hcoin : lookup o with
    | none => exact ⟨o, List.mem_cons_self, hcoin, by simpa only [hcoin] using h⟩
    | some coin =>
      simp only [hcoin] at h
      obtain ⟨o', ho', hnone⟩ := ih h.2.2
      exact ⟨o', List.mem_cons_of_mem o ho', hnone⟩

/-- The inputs that are there are mature, and their values fit together. -/
structure Summable (lookup : OutPoint → Option PoolCoin) (height : Nat) (os : List OutPoint) :
    Prop where
  mature : ∀ o ∈ os, ∀ coin, lookup o = some coin →
    coin.isCoinbase = true → 100 ≤ height - coin.height
  fits : ((os.filterMap lookup).map fun coin => coin.output.value).sum < 2 ^ 64

theorem exists_stopsAt {lookup : OutPoint → Option PoolCoin} {height total : Nat}
    {os : List OutPoint} (hmissing : ∃ o ∈ os, lookup o = none)
    (hmature : ∀ o ∈ os, ∀ coin, lookup o = some coin →
      coin.isCoinbase = true → 100 ≤ height - coin.height)
    (hfits : total + ((os.filterMap lookup).map fun coin => coin.output.value).sum < 2 ^ 64) :
    ∃ txid, StopsAt lookup height txid total os := by
  induction os generalizing total with
  | nil =>
    obtain ⟨o, ho, -⟩ := hmissing
    cases ho
  | cons o os ih =>
    simp only [StopsAt]
    cases hcoin : lookup o with
    | none => exact ⟨o.txid, rfl⟩
    | some coin =>
      -- the missing input is further down, and the sum up to there is a part of the whole sum
      rw [List.filterMap_cons_some hcoin, List.map_cons, List.sum_cons] at hfits
      rw [List.forall_mem_cons] at hmature
      have hrest : ∃ o ∈ os, lookup o = none := by
        obtain ⟨o', ho', hnone⟩ := hmissing
        rcases List.mem_cons.mp ho' with rfl | hmem
        · rw [hcoin] at hnone
          cases hnone
        · exact ⟨o', hmem, hnone⟩
      obtain ⟨txid, hstops⟩ := ih hrest hmature.2
        (show total + coin.output.value + _ < 2 ^ 64 by omega)
      exact ⟨txid, by omega, hmature.1 coin hcoin, hstops⟩

/-- All missing inputs have one parent, and the loop comes to the first of them. -/
def LoneParent (chain : H256 → Option Pallet.State) (coins : CoinsViewCache) (height : Nat)
    (os : List OutPoint) : Prop :=
  ∃ txid, StopsAt (coinIn chain coins) height txid 0 os ∧
    ∀ o ∈ os, ¬ Available chain coins o → o.txid = txid

/-- No input is evicted or marked as spent and there is one missing parent, or the inputs that are
have the parents of the missing ones. -/
def NamesAll (chain : H256 → Option Pallet.State) (coins : CoinsViewCache) (height : Nat)
    (os : List OutPoint) : Prop :=
  ((∀ o ∈ os, coins.Retains os o) ∧ LoneParent chain coins height os) ∨
  ((∃ o ∈ os, ¬ coins.Retains os o) ∧ ∀ txid, (∃ o ∈ os, ¬ coins.Retains os o ∧ o.txid = txid) ↔
    ∃ o ∈ os, ¬ Available chain coins o ∧ o.txid = txid)

section

variable {SE : Type} {env : PoolEnv SE} {build : Build} {options : MemPoolOptions} {m : Moment}
  {inner : MemPoolInner} {chain : H256 → Option Pallet.State} {client : Client}
  {coins : CoinsViewCache} {os : List OutPoint} {o : OutPoint} {st : Checking} {height : Nat}
  {mtp : Int}

/-! ## The cache after `ensure_coins` -/

theorem isSome_peek : (coins.peek o).isSome = true ↔ o ∈ coins.keys := by
  simp [CoinsViewCache.peek, CoinsViewCache.keys]

theorem keys_cache {answer : Option PoolCoin} (ho : o ∉ coins.keys) :
    (coins.cache o answer).keys = (o :: coins.keys).take coins.capacity := by
  have hfilter : (coins.baseCache.filter fun p => p.1 ≠ o) = coins.baseCache := by
    refine List.filter_eq_self.mpr fun p hp => ?_
    have hne : p.1 ≠ o := fun heq => ho (heq ▸ List.mem_map_of_mem hp)
    simpa using hne
  simp only [CoinsViewCache.keys, CoinsViewCache.cache, hfilter, List.map_take, List.map_cons]

variable {α : Type} {coins' : CoinsViewCache}

theorem take_append_take (l l' : List α) (n : Nat) :
    (l ++ l'.take n).take n = (l ++ l').take n := by
  rw [List.take_append, List.take_append, List.take_take, Nat.min_eq_left (Nat.sub_le _ _)]

/-- Of the answers that come in and those that were there, the most recent are kept. -/
theorem keys_foldl_cache {answer : OutPoint → Option PoolCoin} {l : List OutPoint}
    (hnodup : l.Nodup) (hnew : ∀ o ∈ l, o ∉ coins.keys)
    (hlen : coins.keys.length ≤ coins.capacity) :
    (l.foldl (fun coins o => coins.cache o (answer o)) coins).keys =
      (l.reverse ++ coins.keys).take coins.capacity := by
  induction l generalizing coins with
  | nil => rw [List.reverse_nil, List.nil_append, List.take_of_length_le hlen]; rfl
  | cons o l ih =>
    have hkeys : (coins.cache o (answer o)).keys = _ := keys_cache (hnew o List.mem_cons_self)
    have hcap : (coins.cache o (answer o)).capacity = coins.capacity := rfl
    rw [List.foldl_cons, ih (List.nodup_cons.mp hnodup).2, hkeys, hcap, take_append_take]
    · simp
    · intro o' ho' hmem
      rw [hkeys] at hmem
      rcases List.mem_cons.mp (List.mem_of_mem_take hmem) with rfl | hmem
      · exact (List.nodup_cons.mp hnodup).1 ho'
      · exact hnew o' (List.mem_cons_of_mem o ho') hmem
    · rw [hkeys, hcap]
      exact List.length_take_le _ _

theorem ensureCoins_eq (h : Current chain client coins) :
    CoinsViewCache.ensureCoins env client os coins =
      .ok ((), (coins.unknown os).foldl (fun coins' o => coins'.cache o
        (((chain coins.bestBlock).bind fun state => state.coin o).map PoolCoin.ofCoin)) coins) := by
  obtain ⟨state, hstate⟩ := Option.isSome_iff_exists.mp h.known
  change (ite ((coins.unknown os).isEmpty = true) _ _ : Stateful _ _ _) coins = _
  by_cases hempty : (coins.unknown os).isEmpty = true
  · rw [if_pos hempty, List.isEmpty_iff.mp hempty]
    rfl
  have hfetch : coins.batchFetchFromRuntime env client (coins.unknown os) =
      .ok (((coins.unknown os).map state.coin).map fun coin => coin.map PoolCoin.ofCoin) := by
    unfold CoinsViewCache.batchFetchFromRuntime getUtxos
    rw [h.reports, hstate]
  rw [if_neg hempty]
  change (lift (coins.batchFetchFromRuntime env client (coins.unknown os)) >>=
    fun fetched => modify fun coins' =>
      ((coins.unknown os).zip fetched).foldl (fun coins p => coins.cache p.1 p.2) coins') coins = _
  rw [hfetch, hstate, List.map_map]
  change Outcome.ok ((), List.foldl _ coins ((coins.unknown os).zip _)) = _
  nth_rewrite 1 [← List.map_id (coins.unknown os)]
  rw [List.zip_map', List.foldl_map]
  rfl

theorem ensureCoins_spec (env : PoolEnv SE) (h : Current chain client coins) (hnodup : os.Nodup) :
    ∃ coins', CoinsViewCache.ensureCoins env client os coins = .ok ((), coins') ∧
      Fetches client coins coins' ∧
      coins'.keys = ((coins.unknown os).reverse ++ coins.keys).take coins.capacity := by
  have hensure := @ensureCoins_eq _ env _ _ _ os h
  refine ⟨_, hensure, meets_ensureCoins.ok hensure, ?_⟩
  refine keys_foldl_cache (hnodup.filter _) (fun o ho hmem => ?_) ?_
  · have hpeek := (List.mem_filter.mp ho).2
    rw [← isSome_peek] at hmem
    simp [Option.isNone_iff_eq_none] at hpeek
    simp [hpeek] at hmem
  · rw [CoinsViewCache.keys, List.length_map]
    exact h.bounded

/-- What is retained is what `have_coin` finds, -/
theorem haveCoin_iff (hfetches : Fetches client coins coins')
    (hkeys : coins'.keys = ((coins.unknown os).reverse ++ coins.keys).take coins.capacity) :
    coins'.haveCoin o = true ↔ coins.Retains os o := by
  simp only [CoinsViewCache.haveCoin, Bool.and_eq_true, decide_eq_true_eq, Bool.or_eq_true,
    isSome_peek, hkeys, hfetches.overlay, hfetches.spends, CoinsViewCache.Retains]

/-- and `get_coin` answers for it without asking. -/
theorem getCoin_retained (h : Current chain client coins) (hfetches : Fetches client coins coins')
    (hretains : coins'.haveCoin o = true) :
    CoinsViewCache.getCoin env client o coins' = .ok (coinIn chain coins o, coins') := by
  obtain ⟨hunspent, hfound⟩ : o ∉ coins'.mempoolSpends ∧
      ((coins'.mempoolOverlay o).isSome = true ∨ (coins'.peek o).isSome = true) := by
    simpa [CoinsViewCache.haveCoin] using hretains
  cases hoverlay : coins.mempoolOverlay o with
  | some coin =>
    rw [← hfetches.overlay] at hoverlay
    rw [getCoin_overlay hunspent hoverlay, coinIn, ← hfetches.overlay, hoverlay, Option.some_or]
  | none =>
    have hnone := hoverlay
    rw [← hfetches.overlay] at hoverlay
    rw [hoverlay] at hfound
    obtain ⟨answer, hpeek⟩ := Option.isSome_iff_exists.mp (hfound.resolve_left (by simp))
    obtain ⟨state, hstate, hanswer⟩ := (h.fetches hfetches).sound _ (mem_of_peek hpeek)
    rw [hfetches.bestBlock] at hstate
    rw [getCoin_cached hunspent hoverlay hpeek, coinIn, hnone, hstate, Option.none_or,
      Option.bind_some, ← hanswer]

/-! ## The two lookups -/

/-- One outpoint alone is kept by a cache of any size but zero. -/
theorem retains_singleton (h : Current chain client coins) (hunspent : o ∉ coins.mempoolSpends)
    (hoverlay : coins.mempoolOverlay o = none) : coins.Retains [o] o ↔ 0 < coins.capacity := by
  have hkept : coins.Retains [o] o ↔
      o ∈ ((coins.unknown [o]).reverse ++ coins.keys).take coins.capacity := by
    simp [CoinsViewCache.Retains, hunspent, hoverlay]
  rw [hkept]
  cases hpeek : coins.peek o with
  | some answer =>
    have hunknown : coins.unknown [o] = [] := by simp [CoinsViewCache.unknown, hpeek]
    have hmem : o ∈ coins.keys := isSome_peek.mp (by rw [hpeek]; rfl)
    have hlen : coins.keys.length ≤ coins.capacity := by
      rw [CoinsViewCache.keys, List.length_map]
      exact h.bounded
    rw [hunknown, List.reverse_nil, List.nil_append, List.take_of_length_le hlen]
    exact iff_of_true hmem (Nat.lt_of_lt_of_le (List.length_pos_of_mem hmem) hlen)
  | none =>
    have hunknown : coins.unknown [o] = [o] := by
      simp [CoinsViewCache.unknown, hunspent, hoverlay, hpeek]
    rw [hunknown]
    cases coins.capacity with
    | zero => simp
    | succ n => simp

/-- The lookups agree on what is marked as spent and on the overlay; beyond them a cache of any size
but zero has an answer for what it was asked, also when that answer is that there is no coin. -/
theorem agrees_iff (h : Current chain client coins) :
    Agrees env client coins o ↔ o ∈ coins.mempoolSpends ∨
      (coins.mempoolOverlay o).isSome = true ∨ (0 < coins.capacity ↔ Available chain coins o) := by
  obtain ⟨coins', hensure, hfetches, hkeys⟩ :=
    ensureCoins_spec env h (List.nodup_singleton o)
  have hafter : (CoinsViewCache.ensureCoins env client [o]).after coins = coins' := by
    rw [after, hensure]
  unfold Agrees
  rw [hafter]
  by_cases hspent : o ∈ coins.mempoolSpends
  · have hspent' : o ∈ coins'.mempoolSpends := hfetches.spends ▸ hspent
    refine iff_of_true (iff_of_false ?_ ?_) (Or.inl hspent)
    · simp [CoinsViewCache.haveCoin, hspent']
    · simp [eval, getCoin_spent hspent']
  -- What is not marked as spent is answered as the overlay and the chain say.
  have hget : (∃ coin, (CoinsViewCache.getCoin env client o).eval coins' = .ok (some coin)) ↔
      Available chain coins o := by
    rw [getCoin_eq (h.fetches hfetches).sound h.reports, hfetches.view_eq,
      h.lookup_eq hspent]
    simp [Available, hspent, Option.isSome_iff_exists]
  rw [hget, or_iff_right hspent, haveCoin_iff hfetches hkeys]
  cases hoverlay : coins.mempoolOverlay o with
  | some coin =>
    refine iff_of_true (iff_of_true ⟨hspent, Or.inl ?_⟩ ⟨hspent, ?_⟩) (Or.inl rfl)
    · rw [hoverlay]; rfl
    · rw [coinIn, hoverlay]; rfl
  | none => simp [retains_singleton h hspent hoverlay]

/-! ## The loop over the inputs -/

theorem addInput_none {acc : Inputs}
    (hget : CoinsViewCache.getCoin env m.client o coins = .ok (none, coins)) :
    addInput env m height acc o coins = .err (.missingInputs [o.txid], coins) := by
  simp only [addInput, CoinsViewCache.getInputCoin, bind, hget]
  rfl

theorem addInput_some {acc : Inputs} {coin : PoolCoin}
    (hget : CoinsViewCache.getCoin env m.client o coins = .ok (some coin, coins)) :
    addInput env m height acc o coins =
      if acc.value + coin.output.value < 2 ^ 64 then
        if coin.isCoinbase = true ∧ height - coin.height < 100 then .err (.nonFinal, coins)
        else .ok (acc.add (o, coin), coins)
      else .err (.feeOverflow, coins) := by
  simp only [addInput, CoinsViewCache.getInputCoin, bind, hget]
  change lift (Outcome.okOr (checkedUnsigned 64 (acc.value + coin.output.value)) _ >>=
    fun value => _) coins = _
  by_cases hfits : acc.value + coin.output.value < 2 ^ 64
  · rw [if_pos hfits, checkedUnsigned, if_pos hfits]
    change lift (Outcome.errIf
      (coin.isCoinbase && decide (height - coin.height < 100)) _ >>= fun _ => _) coins = _
    by_cases himmature : coin.isCoinbase = true ∧ height - coin.height < 100
    · rw [if_pos himmature, himmature.1, decide_eq_true himmature.2]
      rfl
    · have hmature : (coin.isCoinbase && decide (height - coin.height < 100)) = false := by
        rw [← Bool.not_eq_true, Bool.and_eq_true, decide_eq_true_eq]
        exact himmature
      rw [if_neg himmature, hmature]
      rfl
  · rw [if_neg hfits, checkedUnsigned, if_neg hfits]
    rfl

section

variable {lookup : OutPoint → Option PoolCoin} {acc : Inputs}

section

variable (hlookup : ∀ o ∈ os, CoinsViewCache.getCoin env m.client o coins = .ok (lookup o, coins))

include hlookup

/-- The loop names the parent it stops at, and no other. -/
theorem eval_addInputs {parents : List Txid} :
    (fold (addInput env m height) acc os).eval coins = .err (.missingInputs parents) ↔
      ∃ txid, StopsAt lookup height txid acc.value os ∧ parents = [txid] := by
  -- `StopsAt` follows the loop, with the sum of the values before
  induction os generalizing acc with
  | nil => exact iff_of_false (by simp [fold, eval, pure]) (by simp [StopsAt])
  | cons o os ih =>
    have ho := hlookup o List.mem_cons_self
    change eval (addInput env m height acc o >>= fun acc =>
      fold (addInput env m height) acc os) coins = _ ↔ _
    simp only [StopsAt]
    cases hcoin : lookup o with
    | none =>
      rw [hcoin] at ho
      rw [eval_bind_err (addInput_none ho)]
      simp [eq_comm]
    | some coin =>
      rw [hcoin] at ho
      have hstep : addInput env m height acc o coins = _ := addInput_some ho
      split_ifs at hstep with hfits himmature
      · rw [eval_bind_err hstep]
        refine iff_of_false (by simp) ?_
        rintro ⟨txid, ⟨_, hmature, _⟩, _⟩
        exact absurd (hmature himmature.1) (by omega)
      · rw [eval_bind_ok hstep, ih fun o' ho' => hlookup o' (List.mem_cons_of_mem o ho')]
        have hmature : coin.isCoinbase = true → 100 ≤ height - coin.height := by
          intro hcoinbase
          by_contra hlt
          exact himmature ⟨hcoinbase, by omega⟩
        simp only [hfits, eq_true hmature, true_and]
        rfl
      · rw [eval_bind_err hstep]
        refine iff_of_false (by simp) ?_
        rintro ⟨txid, ⟨h, _⟩, _⟩
        exact hfits h

/-- It only ends when no input is missing. -/
theorem isSome_of_addInputs {r : Inputs × CoinsViewCache}
    (h : fold (addInput env m height) acc os coins = .ok r) :
    ∀ o ∈ os, (lookup o).isSome = true := by
  induction os generalizing acc with
  | nil => exact fun o ho => by cases ho
  | cons o os ih =>
    have ho := hlookup o List.mem_cons_self
    change addInput env m height acc o coins >>= _ = _ at h
    rw [Outcome.bind_eq_ok] at h
    obtain ⟨⟨acc', coins'⟩, hstep, h⟩ := h
    cases hcoin : lookup o with
    | none => rw [addInput_none (hcoin ▸ ho)] at hstep; cases hstep
    | some coin =>
      rw [addInput_some (hcoin ▸ ho)] at hstep
      split_ifs at hstep
      cases hstep
      exact List.forall_mem_cons.mpr ⟨by rw [hcoin]; rfl,
        ih (fun o' ho' => hlookup o' (List.mem_cons_of_mem o ho')) h⟩

end

end

/-! ## `pre_checks` -/

/-- The parents that step 8 reports. -/
def missingParents (coins : CoinsViewCache) (os : List OutPoint) : List Txid :=
  (((os.filter fun o => !coins.haveCoin o).map OutPoint.txid).mergeSort
    fun a b => a.hash.bytes ≤ b.hash.bytes).dedup

theorem mem_missingParents {txid : Txid} :
    txid ∈ missingParents coins os ↔ ∃ o ∈ os, ¬ coins.haveCoin o = true ∧ o.txid = txid := by
  simp [missingParents, and_assoc]

theorem checkAvailable_eq
    (hensure : CoinsViewCache.ensureCoins env m.client os coins = .ok ((), coins')) :
    checkAvailable env m os coins =
      if ∀ o ∈ os, coins'.haveCoin o = true then .ok ((), coins')
      else .err (.missingInputs (missingParents coins' os), coins') := by
  simp only [checkAvailable, bind, hensure]
  change (ite (((os.filter fun o => !coins'.haveCoin o).map OutPoint.txid).isEmpty = true) _ _ :
    Stateful _ _ _) coins' = _
  have hempty : ((os.filter fun o => !coins'.haveCoin o).map OutPoint.txid).isEmpty = true ↔
      ∀ o ∈ os, coins'.haveCoin o = true := by
    simp
  by_cases hall : ∀ o ∈ os, coins'.haveCoin o = true
  · rw [if_pos (hempty.mpr hall), if_pos hall]
    rfl
  · rw [if_neg (fun h => hall (hempty.mp h)), if_neg hall]
    rfl

variable {tx : Transaction}

theorem Unopposed.nodup_spends (h : Unopposed env options inner tx) : tx.spends.Nodup := by
  have htransaction := h.transaction
  simp only [checkTransaction, Outcome.bind_eq_ok] at htransaction
  obtain ⟨_, hsane, _⟩ := htransaction
  exact (checkTransactionSanity_eq_ok.mp (Outcome.mapErr_eq_ok.mp hsane)).nodup_spends

/-- Steps 7 to 9, on the coins alone. -/
def collectInputs (env : PoolEnv SE) (m : Moment) (height : Nat) (os : List OutPoint) :
    Stateful CoinsViewCache MempoolError Inputs := do
  checkAvailable env m os
  Stateful.fold (addInput env m height) ⟨0, false, fun _ => none⟩ os

theorem checkConflicts_none (h : ∀ o ∈ st.ws.tx.spends, inner.getConflictTx o = none) :
    ∃ ws, checkConflicts env build options m inner st = .ok ((), ⟨ws, st.coins⟩) := by
  have hfound : st.ws.tx.spends.filterMap inner.getConflictTx = [] :=
    List.filterMap_eq_nil_iff.mpr h
  refine ⟨{ st.ws with conflicts := st.ws.conflicts.extend [] }, ?_⟩
  simp only [checkConflicts, bind]
  change (ite ((st.ws.tx.spends.filterMap inner.getConflictTx).isEmpty = true) _ _ :
    Stateful _ _ _) { st with
      ws.conflicts := st.ws.conflicts.extend (st.ws.tx.spends.filterMap inner.getConflictTx) } = _
  rw [hfound]
  rfl

variable {x : Stateful CoinsViewCache MempoolError α}

theorem onCoins_ok {r : α × CoinsViewCache} (h : x st.coins = .ok r) :
    onCoins x st = .ok (r.1, ⟨st.ws, r.2⟩) := by
  simp only [onCoins, zoom, h]

theorem onCoins_ne_ok (h : ∀ r, x st.coins ≠ .ok r) (r : α × Checking) : onCoins x st ≠ .ok r := by
  simp only [onCoins, zoom]
  cases hx : x st.coins with
  | ok r => exact absurd hx (h r)
  | err r => exact fun h => by cases h
  | panic msg => exact fun h => by cases h

theorem eval_onCoins : (onCoins x).eval st = x.eval st.coins := eval_zoom

/-- What goes wrong in the collection of the inputs is what `pre_checks` reports. -/
theorem eval_preChecks {e : MempoolError} (h : Unopposed env options inner tx)
    (hfails : ∀ r, collectInputs env m height tx.spends coins ≠ .ok r) :
    (preChecks env build options m inner height mtp).eval ⟨.new env tx, coins⟩ = .err e ↔
      (collectInputs env m height tx.spends).eval coins = .err e := by
  have htx : (lift (checkTransaction env options inner tx) : Stateful Checking _ _)
      ⟨.new env tx, coins⟩ = .ok ((), ⟨.new env tx, coins⟩) := by
    rw [h.transaction]
    rfl
  obtain ⟨ws, hconflicts⟩ : ∃ ws, checkConflicts env build options m inner ⟨.new env tx, coins⟩ =
    .ok ((), ⟨ws, coins⟩) := checkConflicts_none h.conflicts
  change eval (lift (checkTransaction env options inner tx) >>= fun _ =>
    checkConflicts env build options m inner >>= fun _ =>
      onCoins (checkAvailable env m tx.spends) >>= fun _ => _) _ = _ ↔ _
  rw [eval_bind_ok htx, eval_bind_ok hconflicts]
  by_cases havailable : ∃ r, checkAvailable env m tx.spends coins = .ok r
  · obtain ⟨r, hr⟩ := havailable
    have hloop : ∀ r', fold (addInput env m height) ⟨0, false, fun _ => none⟩ tx.spends
        r.2 ≠ .ok r' := by
      intro r' hr'
      refine hfails r' ?_
      simp only [collectInputs, bind, hr]
      exact hr'
    rw [eval_bind_ok (onCoins_ok hr), collectInputs, eval_bind_ok hr,
      eval_bind_eq_err (onCoins_ne_ok hloop), eval_onCoins]
    rfl
  · have hnone : ∀ r, checkAvailable env m tx.spends coins ≠ .ok r :=
      fun r hr => havailable ⟨r, hr⟩
    rw [eval_bind_eq_err (onCoins_ne_ok hnone), eval_onCoins, collectInputs,
      eval_bind_eq_err hnone]

section

variable {coins' : CoinsViewCache} {acc : Inputs}

/-- The loop over inputs that are all retained. -/
theorem getCoin_all (h : Current chain m.client coins) (hfetches : Fetches m.client coins coins')
    (hall : ∀ o ∈ os, coins'.haveCoin o = true) :
    ∀ o ∈ os, CoinsViewCache.getCoin env m.client o coins' = .ok (coinIn chain coins o, coins') :=
  fun o ho => getCoin_retained h hfetches (hall o ho)

theorem available_iff (hfetches : Fetches m.client coins coins')
    (hhave : coins'.haveCoin o = true) :
    Available chain coins o ↔ (coinIn chain coins o).isSome = true := by
  have hunspent : o ∉ coins.mempoolSpends := by
    rw [← hfetches.spends]
    exact of_decide_eq_true (Bool.and_eq_true_iff.mp hhave).1
  exact and_iff_right hunspent

end

/-- The collection of the inputs does not return when one of them is missing. -/
theorem collectInputs_ne_ok (h : Current chain m.client coins) (hnodup : os.Nodup)
    (hmissing : ∃ o ∈ os, ¬ Available chain coins o) (r : Inputs × CoinsViewCache) :
    collectInputs env m height os coins ≠ .ok r := by
  obtain ⟨coins', hensure, hfetches, -⟩ := ensureCoins_spec env h hnodup
  intro hr
  change checkAvailable env m os coins >>= _ = _ at hr
  rw [checkAvailable_eq hensure] at hr
  split_ifs at hr with hall
  · obtain ⟨o, ho, hunavailable⟩ := hmissing
    refine hunavailable ((available_iff hfetches (hall o ho)).mpr ?_)
    exact isSome_of_addInputs (getCoin_all h hfetches hall) hr o ho
  · cases hr

/-- Step 8 reports what is not retained, and the loop the first input that is missing. -/
theorem namesParents_collectInputs (env : PoolEnv SE) (h : Current chain m.client coins)
    (hnodup : os.Nodup) :
    NamesParents chain coins os ((collectInputs env m height os).eval coins) ↔
      NamesAll chain coins height os := by
  obtain ⟨coins', hensure, hfetches, hkeys⟩ := ensureCoins_spec env h hnodup
  have hretains : ∀ o, coins.Retains os o ↔ coins'.haveCoin o = true :=
    fun o => (haveCoin_iff hfetches hkeys).symm
  unfold NamesAll
  simp only [hretains]
  have havailable := checkAvailable_eq (m := m) hensure
  split_ifs at havailable with hall
  · -- every input has an entry: the loop stops at the first one cached as missing
    have hnone : ¬ ∃ o ∈ os, ¬ coins'.haveCoin o = true := by
      rintro ⟨o, ho, hn⟩
      exact hn (hall o ho)
    rw [collectInputs, eval_bind_ok havailable, and_iff_right hall]
    simp only [hnone, false_and, or_false]
    constructor
    · rintro ⟨parents, herr, -, hmem⟩
      obtain ⟨txid, hstops, rfl⟩ := (eval_addInputs (getCoin_all h hfetches hall)).mp herr
      refine ⟨txid, hstops, fun o ho hunavailable => ?_⟩
      exact List.mem_singleton.mp ((hmem o.txid).mpr ⟨o, ho, hunavailable, rfl⟩)
    · rintro ⟨txid, hstops, hlone⟩
      refine ⟨[txid], (eval_addInputs (getCoin_all h hfetches hall)).mpr ⟨txid, hstops, rfl⟩,
        List.nodup_singleton txid, fun txid' => ?_⟩
      constructor
      · intro hmem
        obtain rfl := List.mem_singleton.mp hmem
        obtain ⟨o, ho, hcoin, htxid⟩ := hstops.exists_none
        refine ⟨o, ho, fun ha => ?_, htxid⟩
        rw [available_iff hfetches (hall o ho), hcoin] at ha
        cases ha
      · rintro ⟨o, ho, hunavailable, rfl⟩
        exact List.mem_singleton.mpr (hlone o ho hunavailable)
  · -- an input has none: the error names the parents of all such inputs
    have hsome : ∃ o ∈ os, ¬ coins'.haveCoin o = true := by simpa using hall
    rw [collectInputs, eval_bind_err havailable]
    simp only [hall, false_and, false_or, hsome, true_and, ← mem_missingParents]
    constructor
    · rintro ⟨parents, herr, -, hmem⟩
      cases herr
      exact hmem
    · exact fun hmem => ⟨_, rfl, List.nodup_dedup _, hmem⟩

/-- Where the loop comes to the first missing input, the error is that inputs are missing. -/
theorem missing_collectInputs (env : PoolEnv SE) (h : Current chain m.client coins)
    (hnodup : os.Nodup) (hmissing : ∃ o ∈ os, ¬ Available chain coins o)
    (hsum : Summable (coinIn chain coins) height os) :
    ∃ parents, (collectInputs env m height os).eval coins = .err (.missingInputs parents) := by
  obtain ⟨coins', hensure, hfetches, -⟩ := ensureCoins_spec env h hnodup
  have havailable := checkAvailable_eq (m := m) hensure
  split_ifs at havailable with hall
  · -- every input has an entry in the cache, also the missing one: the loop stops at it
    obtain ⟨o, ho, hunavailable⟩ := hmissing
    rw [available_iff hfetches (hall o ho), Option.not_isSome_iff_eq_none] at hunavailable
    obtain ⟨txid, hstops⟩ := exists_stopsAt ⟨o, ho, hunavailable⟩ hsum.mature
      (show 0 + _ < 2 ^ 64 by rw [Nat.zero_add]; exact hsum.fits)
    rw [collectInputs, eval_bind_ok havailable]
    exact ⟨[txid], (eval_addInputs (getCoin_all h hfetches hall)).mpr ⟨txid, hstops, rfl⟩⟩
  · -- step 8 stops at the inputs without an entry
    exact ⟨_, eval_bind_err havailable⟩

/-- The error of `pre_checks` is that of the acceptance. -/
theorem missing_acceptSingleTransaction {p : MemPool} (build : Build)
    (hheight : MemPool.currentHeight m = .ok height) (h : Current chain m.client p.coinsCache)
    (htx : Unopposed env options p.inner tx)
    (hmissing : ∃ o ∈ tx.spends, ¬ Available chain p.coinsCache o)
    (hsum : Summable (coinIn chain p.coinsCache) height tx.spends) :
    ∃ parents, (MemPool.acceptSingleTransaction env build options m tx).eval p =
      .err (.missingInputs parents) := by
  have hnodup : tx.spends.Nodup := htx.nodup_spends
  obtain ⟨parents, hinputs⟩ := missing_collectInputs env h hnodup hmissing hsum
  have hchecks : (preChecks env build options m p.inner height
      (MemPool.mtpAt env m p.coinsCache.bestBlock)).eval ⟨.new env tx, p.coinsCache⟩ =
      .err (.missingInputs parents) :=
    (eval_preChecks htx (collectInputs_ne_ok h hnodup hmissing)).mpr hinputs
  refine ⟨parents, ?_⟩
  have hget : (Stateful.get : Stateful MemPool MempoolError MemPool) p = .ok (p, p) := rfl
  rw [MemPool.acceptSingleTransaction, eval_bind_ok hget]
  dsimp only
  rw [eval_lift_bind, hheight]
  exact eval_bind_of_eval (eval_zoom.trans (eval_bind_of_eval hchecks))

/-- With a missing input, `pre_checks` names the parents of all of them, and after `ensure_coins`
the lookups agree on `o`. -/
def ReportsMissing (env : PoolEnv SE) (build : Build) (options : MemPoolOptions) (m : Moment)
    (chain : H256 → Option Pallet.State) (inner : MemPoolInner) (coins : CoinsViewCache)
    (height : Nat) (mtp : Int) (tx : Transaction) (o : OutPoint) : Prop :=
  ((∃ o ∈ tx.spends, ¬ Available chain coins o) → NamesParents chain coins tx.spends
    ((preChecks env build options m inner height mtp).eval ⟨.new env tx, coins⟩)) ∧
  Agrees env m.client coins o

theorem reportsMissing_iff (h : Current chain m.client coins)
    (htx : Unopposed env options inner tx) :
    ReportsMissing env build options m chain inner coins height mtp tx o ↔
      ((∃ o ∈ tx.spends, ¬ Available chain coins o) → NamesAll chain coins height tx.spends) ∧
      (o ∈ coins.mempoolSpends ∨ (coins.mempoolOverlay o).isSome = true ∨
        (0 < coins.capacity ↔ Available chain coins o)) := by
  refine and_congr (imp_congr_right fun hmissing => ?_) (agrees_iff h)
  have hnodup : tx.spends.Nodup := htx.nodup_spends
  rw [← namesParents_collectInputs env h hnodup]
  refine exists_congr fun parents => and_congr_left fun _ => ?_
  exact eval_preChecks htx (collectInputs_ne_ok h hnodup hmissing)

end

/-! ## Samples -/

namespace Reference

theorem current_coins : Current states client coins := ⟨grounded_coins, Nat.zero_le _⟩

theorem unopposed_new {tx : Transaction}
    (h : checkTransaction env .default .new tx = .ok ()) : Unopposed env .default .new tx :=
  ⟨h, fun _ _ => rfl⟩

theorem not_available {n : Nat} (h : coinIn states coins (coinAt n) = none) :
    ¬ Available states coins (coinAt n) := by
  rw [Available, h]
  exact fun ha => by cases ha.2

/-- One missing parent is named. -/
theorem reportsMissing_lone :
    ReportsMissing env .checked .default moment states .new coins 0 0 (spendOf (coinAt 7) 90000)
      (coinAt 0) := by
  refine (reportsMissing_iff current_coins (unopposed_new (by decide +kernel))).mpr
    ⟨fun _ => Or.inl ⟨fun o ho => ?_, (coinAt 7).txid, ?_, fun o ho _ => ?_⟩,
      Or.inr (Or.inr (iff_of_true (by decide) ⟨HashSet.not_mem_empty, by decide +kernel⟩))⟩
  · obtain rfl : o = coinAt 7 := List.mem_singleton.mp ho
    exact ⟨HashSet.not_mem_empty, Or.inr (by decide +kernel)⟩
  · have hcoin : coinIn states coins (coinAt 7) = none := by decide +kernel
    change StopsAt _ _ _ 0 [coinAt 7]
    simp only [StopsAt, hcoin]
  · rw [show o = coinAt 7 from List.mem_singleton.mp ho]

/-- A transaction with two missing parents. -/
def orphan : Transaction :=
  Subcoin.Reference.transaction
    ([coinAt 7, coinAt 8].map fun o => Subcoin.Reference.input o unlockScript)
    [⟨90000, lockScript⟩]

/-- Of two missing parents only the first is named, and the absent coin counts as one that the cache
has. -/
theorem not_reportsMissing_orphan :
    Current states client coins ∧ Unopposed env .default .new orphan ∧
      (preChecks env .checked .default moment .new 0 0).eval ⟨.new env orphan, coins⟩ =
        .err (.missingInputs [(coinAt 7).txid]) ∧
      ¬ Agrees env client coins (coinAt 7) ∧
      ¬ ReportsMissing env .checked .default moment states .new coins 0 0 orphan (coinAt 0) := by
  have heval : (preChecks env .checked .default moment .new 0 0).eval ⟨.new env orphan, coins⟩ =
      .err (.missingInputs [(coinAt 7).txid]) := by decide +kernel
  have hmissing : ¬ Available states coins (coinAt 8) := not_available (by decide +kernel)
  have hspent : coinAt 8 ∈ orphan.spends := List.mem_cons_of_mem _ (List.mem_singleton.mpr rfl)
  refine ⟨current_coins, unopposed_new (by decide +kernel), heval, fun hagrees => ?_, fun h => ?_⟩
  · rcases (agrees_iff current_coins).mp hagrees with h | h | h
    · exact HashSet.not_mem_empty h
    · cases h
    · exact not_available (n := 7) (by decide +kernel) (h.mp (by decide))
  · obtain ⟨parents, herr, -, hmem⟩ := h.1 ⟨coinAt 8, hspent, hmissing⟩
    rw [heval] at herr
    cases herr
    exact absurd ((hmem (coinAt 8).txid).mpr ⟨coinAt 8, hspent, hmissing, rfl⟩) (by decide +kernel)

end Reference

end Subcoin.Mempool
