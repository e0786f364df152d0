import Mathlib.Data.Set.Insert
import Subcoin.Mempool.Reference

/-!
# Subcoin — the coins cache answers as the runtime does

`CoinsView` is what `CoinsViewCache` is for: outputs and spends of the mempool over the coins
of a block, and no cache. Every call of the cache is a step of the view (`view_step`), and as long
as what is cached is what the runtime reports, a lookup answers as the view does (`getCoin_eq`).

* **`getCoin_of_history`** — after any calls, with a cache of any size, `get_coin` answers as the
  view that made the same calls.
-/

namespace Subcoin.Mempool

open Stateful CoinsViewCache

/-- The runtime answers for a block the same whenever it is asked: what the node has of the states
of blocks is `chain`. -/
def Reports (chain : H256 → Option Pallet.State) (client : Client) : Prop :=
  ∀ block, (client.blocks block).bind StoredBlock.state = chain block

/-- The calls of the coins cache; a lookup goes to the node of its time. -/
inductive CoinsCall where
  | getCoin (client : Client) (outpoint : OutPoint)
  | ensureCoins (client : Client) (outpoints : List OutPoint)
  | addMempoolCoins (tx : Transaction)
  | spendCoin (outpoint : OutPoint)
  | removeMempoolTx (tx : Transaction)
  | onBlockConnected (blockHash : H256)

/-- The nodes that a call asks satisfy `P`. -/
def CoinsCall.Asks (P : Client → Prop) : CoinsCall → Prop
  | .getCoin client _ => P client
  | .ensureCoins client _ => P client
  | _ => True

section

variable {SE : Type} (env : PoolEnv SE)

/-- The cache after a call, also one that returned an error. -/
def CoinsViewCache.step (coins : CoinsViewCache) : CoinsCall → CoinsViewCache
  | .getCoin client outpoint => (getCoin env client outpoint).after coins
  | .ensureCoins client outpoints => (ensureCoins env client outpoints).after coins
  | .addMempoolCoins tx => coins.addMempoolCoins env tx
  | .spendCoin outpoint => coins.spendCoin outpoint
  | .removeMempoolTx tx => coins.removeMempoolTx env tx
  | .onBlockConnected blockHash => coins.onBlockConnected blockHash

/-! ## The view -/

/-- The coins that transactions of the mempool created and spent, over the coins of a block. -/
structure CoinsView where
  overlay : OutPoint → Option PoolCoin
  spent : Set OutPoint
  block : H256

namespace CoinsView

def new (client : Client) : CoinsView := ⟨fun _ => none, ∅, client.bestHash⟩

def step (view : CoinsView) : CoinsCall → CoinsView
  | .getCoin _ _ => view
  | .ensureCoins _ _ => view
  | .addMempoolCoins tx =>
    { view with overlay := fun o => ((outputAt env tx o).map mempoolCoin).or (view.overlay o) }
  | .spendCoin outpoint => { view with spent := insert outpoint view.spent }
  | .removeMempoolTx tx =>
    { view with
      overlay := fun o => if (outputAt env tx o).isSome then none else view.overlay o
      spent := view.spent \ {o | o ∈ tx.spends} }
  | .onBlockConnected blockHash => { view with block := blockHash }

open Classical in
/-- The answer of a view; the runtime has to know its block. -/
noncomputable def lookup (chain : H256 → Option Pallet.State) (view : CoinsView) (o : OutPoint) :
    Outcome MempoolError (Option PoolCoin) :=
  if o ∈ view.spent then .ok none
  else
    match view.overlay o, chain view.block with
    | some coin, _ => .ok (some coin)
    | none, some state => .ok ((state.coin o).map PoolCoin.ofCoin)
    | none, none => .err (.runtimeApi ("Failed to fetch UTXO: " ++ env.debugApiError view.block))

end CoinsView

def CoinsViewCache.view (coins : CoinsViewCache) : CoinsView :=
  ⟨coins.mempoolOverlay, {o | o ∈ coins.mempoolSpends}, coins.bestBlock⟩

variable {env} {chain : H256 → Option Pallet.State} {client client₀ : Client}
  {coins coins' : CoinsViewCache} {call : CoinsCall} {o : OutPoint}

theorem Reports.serves (h : Reports chain client) : Serves chain client :=
  fun block _ hstate => (h block).symm.trans hstate

theorem Fetches.view_eq (h : Fetches client coins coins') : coins'.view = coins.view := by
  unfold view
  rw [h.overlay, h.spends, h.bestBlock]

theorem mem_foldl_erase {l : List OutPoint} {s : HashSet OutPoint} :
    o ∈ l.foldl HashSet.erase s ↔ o ∈ s ∧ o ∉ l := by
  induction l generalizing s with
  | nil => simp
  | cons a l ih =>
    rw [List.foldl_cons, ih, HashSet.mem_erase, List.mem_cons, not_or, and_assoc, and_left_comm]

/-! ## One call -/

theorem fetches_getCoin : Fetches client coins ((getCoin env client o).after coins) :=
  (meets_getCoin.mono (fun _ _ h => h.1) fun _ _ h => h.1).after (.refl coins)

theorem fetches_ensureCoins {os : List OutPoint} :
    Fetches client coins ((ensureCoins env client os).after coins) :=
  (meets_ensureCoins.mono (fun _ _ h => h) fun _ _ h => h.1).after (.refl coins)

theorem view_step : (coins.step env call).view = coins.view.step env call := by
  cases call with
  | getCoin client o => exact fetches_getCoin.view_eq
  | ensureCoins client os => exact fetches_ensureCoins.view_eq
  | addMempoolCoins tx =>
    refine congrArg (fun overlay => CoinsView.mk overlay _ _) (funext fun o => ?_)
    exact addMempoolCoins_overlay
  | spendCoin o =>
    refine congrArg (fun spent => CoinsView.mk _ spent _) (Set.ext fun o' => ?_)
    exact HashSet.mem_insert
  | removeMempoolTx tx =>
    refine congrArg₂ (fun overlay spent => CoinsView.mk overlay spent _)
      (funext fun o => removeMempoolTx_overlay) (Set.ext fun o => mem_foldl_erase)
  | onBlockConnected blockHash => rfl

theorem CacheSound.step (h : CacheSound chain coins) (hasks : call.Asks (Reports chain)) :
    CacheSound chain (coins.step env call) := by
  cases call with
  | getCoin client o => exact h.fetches (Reports.serves hasks) fetches_getCoin
  | ensureCoins client os => exact h.fetches (Reports.serves hasks) fetches_ensureCoins
  | addMempoolCoins tx => exact h
  | spendCoin o => exact h
  | removeMempoolTx tx => exact h
  | onBlockConnected blockHash => intro p hp; cases hp

/-! What a lookup answers, and where it stops. -/

theorem getCoin_spent (h : o ∈ coins.mempoolSpends) :
    getCoin env client o coins = .ok (none, coins) := by
  change (ite _ _ _ : Stateful _ _ _) coins = _
  rw [if_pos h]
  rfl

theorem getCoin_overlay {coin : PoolCoin} (hspent : o ∉ coins.mempoolSpends)
    (h : coins.mempoolOverlay o = some coin) :
    getCoin env client o coins = .ok (some coin, coins) := by
  change (ite _ _ _ : Stateful _ _ _) coins = _
  rw [if_neg hspent, h]
  rfl

theorem getCoin_cached {answer : Option PoolCoin} (hspent : o ∉ coins.mempoolSpends)
    (hoverlay : coins.mempoolOverlay o = none) (h : coins.peek o = some answer) :
    getCoin env client o coins = .ok (answer, coins) := by
  change (ite _ _ _ : Stateful _ _ _) coins = _
  rw [if_neg hspent, hoverlay, h]
  rfl

theorem getCoin_fetched (hspent : o ∉ coins.mempoolSpends)
    (hoverlay : coins.mempoolOverlay o = none) (h : coins.peek o = none) :
    (getCoin env client o).eval coins = coins.fetchFromRuntime env client o := by
  change eval (ite _ _ _) coins = _
  rw [if_neg hspent, hoverlay, h]
  change eval (lift _ >>= _) coins = _
  cases hfetch : coins.fetchFromRuntime env client o with
  | ok answer => rfl
  | err e => rfl
  | panic msg => rfl

/-- What is cached is what the runtime reports, so that it does not matter what is cached. -/
theorem getCoin_eq (h : CacheSound chain coins) (hreports : Reports chain client) :
    (getCoin env client o).eval coins = coins.view.lookup env chain o := by
  unfold CoinsView.lookup
  by_cases hspent : o ∈ coins.mempoolSpends
  · rw [if_pos (show o ∈ coins.view.spent from hspent), eval, getCoin_spent hspent]
  rw [if_neg (show o ∉ coins.view.spent from hspent)]
  simp only [view]
  cases hoverlay : coins.mempoolOverlay o with
  | some coin => rw [eval, getCoin_overlay hspent hoverlay]
  | none =>
    cases hpeek : coins.peek o with
    | some cached =>
      obtain ⟨state, hstate, hcached⟩ := h _ (mem_of_peek hpeek)
      rw [eval, getCoin_cached hspent hoverlay hpeek, hstate]
      exact congrArg Outcome.ok hcached
    | none =>
      rw [getCoin_fetched hspent hoverlay hpeek]
      unfold fetchFromRuntime getUtxos
      rw [hreports coins.bestBlock]
      cases chain coins.bestBlock with
      | none => rfl
      | some state => rfl

/-- A cache over a runtime that knows its block: what it holds is right. -/
structure Grounded (chain : H256 → Option Pallet.State) (client : Client) (coins : CoinsViewCache) :
    Prop where
  reports : Reports chain client
  known : (chain coins.bestBlock).isSome = true
  sound : CacheSound chain coins

theorem Grounded.fetches (h : Grounded chain client coins)
    (hfetches : Fetches client coins coins') : Grounded chain client coins' :=
  ⟨h.reports, hfetches.bestBlock ▸ h.known, h.sound.fetches h.reports.serves hfetches⟩

theorem Grounded.lookup_eq (h : Grounded chain client coins) (hunspent : o ∉ coins.mempoolSpends) :
    coins.view.lookup env chain o = .ok (coinIn chain coins o) := by
  obtain ⟨state, hstate⟩ := Option.isSome_iff_exists.mp h.known
  unfold CoinsView.lookup coinIn
  rw [if_neg (show o ∉ coins.view.spent from hunspent)]
  simp only [view, hstate]
  cases coins.mempoolOverlay o with
  | some coin => rfl
  | none => rfl

/-! ## Histories -/

theorem view_new {cacheSize : Nat} : (new client cacheSize).view = .new client :=
  congrArg (fun spent => CoinsView.mk _ spent _) (Set.ext fun _ => iff_of_false
    HashSet.not_mem_empty (Set.notMem_empty _))

/-- A run of the cache is one of the view. -/
theorem run_of_calls {calls : List CoinsCall}
    (hcalls : ∀ call ∈ calls, call.Asks (Reports chain)) (h : CacheSound chain coins) :
    CacheSound chain (calls.foldl (step env) coins) ∧
      (calls.foldl (step env) coins).view =
        calls.foldl (CoinsView.step env) coins.view := by
  induction calls generalizing coins with
  | nil => exact ⟨h, rfl⟩
  | cons call calls ih =>
    rw [List.foldl_cons, List.foldl_cons, ← view_step]
    exact ih (fun c hc => hcalls c (List.mem_cons_of_mem _ hc))
      (h.step (hcalls call List.mem_cons_self))

/-- After any calls, on a cache of any size, a coin is what the view that made the same calls says:
none if it is marked as spent, else the one of the overlay, else the one that the runtime reports
at the block that was connected last. -/
theorem getCoin_of_history {cacheSize : Nat} {calls : List CoinsCall}
    (hcalls : ∀ call ∈ calls, call.Asks (Reports chain)) (hreports : Reports chain client) :
    (CoinsViewCache.getCoin env client o).eval
        (calls.foldl (CoinsViewCache.step env) (.new client₀ cacheSize)) =
      (calls.foldl (CoinsView.step env) (.new client₀)).lookup env chain o := by
  have hnew : CacheSound chain (.new client₀ cacheSize) := fun p hp => by cases hp
  obtain ⟨hsound, hview⟩ := run_of_calls hcalls hnew
  rw [getCoin_eq hsound hreports, hview, view_new]

end

namespace Reference

/-- The states of the node's blocks. -/
def states (block : H256) : Option Pallet.State := (client.blocks block).bind StoredBlock.state

def coins : CoinsViewCache := .new client 10000

theorem grounded_coins : Grounded states client coins where
  reports _ := rfl
  known := by decide +kernel
  sound p hp := by cases hp

/-- Coins are asked for, more of them than a small cache holds, and a block is connected. -/
def history : List CoinsCall :=
  [.ensureCoins client [coinAt 0, coinAt 1, coinAt 7], .addMempoolCoins parent,
    .spendCoin (coinAt 2), .getCoin client (coinAt 0), .removeMempoolTx child,
    .onBlockConnected client.bestHash, .ensureCoins client [coinAt 1, coinAt 0, coinAt 3]]

theorem reports_history : ∀ call ∈ history, call.Asks (Reports states) := by
  simp [history, CoinsCall.Asks, Reports, states]

/-- Without a cache and with one of a single coin, the answer is the coin of the best block. -/
theorem getCoin_of_history_small :
    ((CoinsViewCache.getCoin env client (coinAt 0)).eval
        (history.foldl (CoinsViewCache.step env) (.new client 0)) =
      (history.foldl (CoinsView.step env) (.new client)).lookup env states (coinAt 0)) ∧
    ((CoinsViewCache.getCoin env client (coinAt 0)).eval
        (history.foldl (CoinsViewCache.step env) (.new client 1)) =
      (history.foldl (CoinsView.step env) (.new client)).lookup env states (coinAt 0)) ∧
    (CoinsViewCache.getCoin env client (coinAt 0)).eval
        (history.foldl (CoinsViewCache.step env) (.new client 1)) =
      .ok (some ⟨⟨100000, lockScript⟩, 1, false, 0⟩) :=
  ⟨getCoin_of_history reports_history fun _ => rfl,
    getCoin_of_history reports_history fun _ => rfl, by decide +kernel⟩

end Reference

end Subcoin.Mempool
