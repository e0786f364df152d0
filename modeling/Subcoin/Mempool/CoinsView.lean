import Subcoin.Lib.Stateful
import Subcoin.Mempool.Types

/-!
# Subcoin — the coins of the mempool

`CoinsViewCache`: the outputs of mempool transactions over a cache of the coins of the best block.
The cache is a list, the most recently inserted first, of at most `capacity` elements; `client` is
the node at the time of the call.
-/

namespace Subcoin.Mempool

/-- Cached answers of the runtime under the outputs and spends of the mempool. -/
structure CoinsViewCache where
  capacity : Nat
  baseCache : List (OutPoint × Option PoolCoin)
  mempoolOverlay : OutPoint → Option PoolCoin
  mempoolSpends : HashSet OutPoint
  bestBlock : H256

/-- `get_utxos` of the runtime, at a block whose state is there. -/
def getUtxos (env : PoolEnv SE) (client : Client) (block : H256) (outpoints : List OutPoint) :
    Except String (List (Option Coin)) :=
  match (client.blocks block).bind StoredBlock.state with
  | some state => .ok (outpoints.map state.coin)
  | none => .error (env.debugApiError block)

namespace CoinsViewCache

def new (client : Client) (cacheSize : Nat) : CoinsViewCache where
  capacity := cacheSize
  baseCache := []
  mempoolOverlay := fun _ => none
  mempoolSpends := .empty
  bestBlock := client.bestHash

section

variable (coins : CoinsViewCache)

/-- `LruMap::peek`. -/
def peek (outpoint : OutPoint) : Option (Option PoolCoin) :=
  (coins.baseCache.find? fun p => p.1 = outpoint).map Prod.snd

/-- `LruMap::insert`, which evicts the oldest element when the map is full. -/
def cache (outpoint : OutPoint) (coin : Option PoolCoin) : CoinsViewCache :=
  { coins with
    baseCache :=
      ((outpoint, coin) :: coins.baseCache.filter fun p => p.1 ≠ outpoint).take coins.capacity }

/-- Also true of an outpoint that is cached as absent. -/
def haveCoin (outpoint : OutPoint) : Bool :=
  outpoint ∉ coins.mempoolSpends &&
    ((coins.mempoolOverlay outpoint).isSome || (coins.peek outpoint).isSome)

/-- The outpoints of the outputs of a transaction; the index is a `u32`. -/
def outpointsOf (txid : Txid) (tx : Transaction) : List (OutPoint × TxOut) :=
  tx.output.zipIdx.map fun (output, idx) => (⟨txid, idx % 2 ^ 32⟩, output)

/-- The outpoint is marked as spent. -/
def spendCoin (outpoint : OutPoint) : CoinsViewCache :=
  { coins with mempoolSpends := coins.mempoolSpends.insert outpoint }

/-- Cached answers are those of another block now. -/
def onBlockConnected (blockHash : H256) : CoinsViewCache :=
  { coins with bestBlock := blockHash, baseCache := [] }

end

variable {SE : Type} (env : PoolEnv SE) (client : Client)

/-- The outputs become visible. -/
def addMempoolCoins (coins : CoinsViewCache) (tx : Transaction) : CoinsViewCache :=
  { coins with
    mempoolOverlay :=
      (outpointsOf (env.computeTxid tx) tx).foldl
        (fun overlay p => Function.update overlay p.1 (some ⟨p.2, mempoolHeight, false, 0⟩))
        coins.mempoolOverlay }

/-- The outputs are taken back. -/
def removeMempoolTx (coins : CoinsViewCache) (tx : Transaction) : CoinsViewCache :=
  { coins with
    mempoolOverlay :=
      (outpointsOf (env.computeTxid tx) tx).foldl
        (fun overlay p => Function.update overlay p.1 none) coins.mempoolOverlay
    mempoolSpends := tx.spends.foldl HashSet.erase coins.mempoolSpends }

/-- One outpoint at the best block. -/
def fetchFromRuntime (coins : CoinsViewCache) (outpoint : OutPoint) :
    Outcome MempoolError (Option PoolCoin) :=
  match getUtxos env client coins.bestBlock [outpoint] with
  | .error e => .err (.runtimeApi ("Failed to fetch UTXO: " ++ e))
  | .ok [] => .err (.runtimeApi "Empty response from runtime API")
  | .ok (coin :: _) => .ok (coin.map PoolCoin.ofCoin)

/-- `get_coin`. The answers of the runtime are cached, absent coins as well. -/
def getCoin (outpoint : OutPoint) : Stateful CoinsViewCache MempoolError (Option PoolCoin) := do
  let coins ← Stateful.get
  if outpoint ∈ coins.mempoolSpends then pure none
  else
    match coins.mempoolOverlay outpoint, coins.peek outpoint with
    | some coin, _ => pure (some coin)
    | none, some cached => pure cached
    | none, none => do
      let coin ← Stateful.lift (coins.fetchFromRuntime env client outpoint)
      Stateful.modify fun coins => coins.cache outpoint coin
      pure coin

/-- All outpoints in one call. -/
def batchFetchFromRuntime (coins : CoinsViewCache) (outpoints : List OutPoint) :
    Outcome MempoolError (List (Option PoolCoin)) :=
  match getUtxos env client coins.bestBlock outpoints with
  | .error e => .err (.runtimeApi ("Batch fetch failed: " ++ e))
  | .ok fetched => .ok (fetched.map fun coin => coin.map PoolCoin.ofCoin)

/-- `ensure_coins`: the missing coins are fetched with one call. -/
def ensureCoins (outpoints : List OutPoint) : Stateful CoinsViewCache MempoolError Unit := do
  let coins ← Stateful.get
  let missing := outpoints.filter fun outpoint =>
    outpoint ∉ coins.mempoolSpends && (coins.mempoolOverlay outpoint).isNone &&
      (coins.peek outpoint).isNone
  if missing.isEmpty then pure ()
  else do
    let fetched ← Stateful.lift (coins.batchFetchFromRuntime env client missing)
    Stateful.modify fun coins =>
      (missing.zip fetched).foldl (fun coins p => coins.cache p.1 p.2) coins

/-- `get_coin`, for an input that has to be there. -/
def getInputCoin (outpoint : OutPoint) : Stateful CoinsViewCache MempoolError PoolCoin := do
  match ← getCoin env client outpoint with
  | some coin => pure coin
  | none => Stateful.fail (.missingInputs [outpoint.txid])

end CoinsViewCache

end Subcoin.Mempool
