import Subcoin.Mempool.Validation

/-!
# Subcoin — the operations of the mempool

`MemPool` with the calls that change it. A call holds both locks from its start to its end, so the
calls of several threads follow one another; a panic poisons the locks, after which every call
panics. A run of the mempool therefore is a sequence of calls, each of which returned a value or an
error, and `Reachable` are the states of such runs.
-/

namespace Subcoin.Mempool

namespace MemPool

/-- `with_options`; the options are a parameter of the calls. -/
def new (client : Client) : MemPool where
  inner := .new
  coinsCache := .new client 10000
  transactionsUpdated := 0
  sequenceNumber := 1

/-- `get_transaction`. -/
def getTransaction (p : MemPool) (txid : Txid) : Outcome MempoolError (Option Transaction) :=
  match p.inner.arena.getByTxid txid with
  | some entryId => do
    let entry ← Outcome.expect (p.inner.arena.get entryId) "Entry ID must be valid"
    pure (some entry.tx)
  | none => .ok none

variable {SE : Type} (env : PoolEnv SE) (build : Build) (options : MemPoolOptions) (m : Moment)

/-- The clock as an `i64`. -/
def currentTime : Int := toSigned 64 m.now

/-- The height of the best block, which has to fit into 32 bits. -/
def currentHeight : Outcome MempoolError Nat := do
  Outcome.assertTrue (m.client.bestNumber < 2 ^ 32) "Block number must fit into u32"
  pure m.client.bestNumber

/-- The median time past of a block, or the clock when it is not known. -/
def mtpAt (block : H256) : Int :=
  match m.client.bitcoinBlockHashFor block with
  | some bitcoinBlockHash =>
    match m.client.getBlockMetadata env.toNodeEnv bitcoinBlockHash with
    | some metadata => metadata.medianTimePast
    | none => currentTime m
  | none => currentTime m

/-- `transactions_updated.fetch_add`. -/
def countUpdates (n : Nat) : Stateful MemPool MempoolError Unit :=
  Stateful.modify fun p =>
    { p with transactionsUpdated := (p.transactionsUpdated + n % 2 ^ 32) % 2 ^ 32 }

/-- `sequence_number.fetch_add(1)`. -/
def nextSequence : Stateful MemPool MempoolError Nat := do
  let p ← Stateful.get
  Stateful.modify fun p => { p with sequenceNumber := (p.sequenceNumber + 1) % 2 ^ 64 }
  pure p.sequenceNumber

/-! ## Acceptance -/

/-- The checks of a single transaction, in a workspace of it. -/
def checkSingle (inner : MemPoolInner) (height : Nat) (mtp : Int) :
    Stateful Checking MempoolError ValidationWorkspace := do
  preChecks env build options m inner height mtp
  checkLimitsAndScripts env build options m inner
  let st ← Stateful.get
  pure st.ws

/-- Checks first, then the entry; the sequence number is taken in between. -/
def acceptSingleTransaction (tx : Transaction) : Stateful MemPool MempoolError Unit := do
  let p ← Stateful.get
  let bestBlock := p.coinsCache.bestBlock
  let height ← Stateful.lift (currentHeight m)
  let mtp := mtpAt env m bestBlock
  let ws ← withWorkspace env tx (checkSingle env build options m p.inner height mtp)
  let sequence ← nextSequence
  let _ ← finalizeTx env build m ws
    { currentHeight := height
      currentTime := currentTime m
      entryBlockMtp := mtp
      entryBlockHash := entryBlockHash m bestBlock
      sequence := sequence }
  countUpdates 1

/-- `accept_package`. The time the package is given is the median time past of the best block. -/
def acceptPackage (transactions : List Transaction) :
    Stateful MemPool MempoolError PackageValidationResult := do
  Stateful.lift (Outcome.errIf (!options.enablePackageRelay) .packageRelayDisabled)
  let p ← Stateful.get
  let bestBlock := p.coinsCache.bestBlock
  let height ← Stateful.lift (currentHeight m)
  let sequenceStart := p.sequenceNumber
  let result ← validatePackage env build options m transactions height bestBlock
    (mtpAt env m bestBlock) sequenceStart
  let sequence ← Stateful.lift (build.add 64 sequenceStart result.accepted.length)
  Stateful.modify fun p => { p with sequenceNumber := sequence }
  countUpdates result.accepted.length
  pure result

/-! ## Removal -/

/-- A change of the inner state alone. -/
def onInner (f : MemPoolInner → Outcome MempoolError MemPoolInner) :
    Stateful MemPool MempoolError Unit :=
  Stateful.update fun p => do
    let inner ← f p.inner
    pure { p with inner := inner }

/-- The coins cache is not told of what goes. -/
def trimToSize (maxSize : Nat) : Stateful MemPool MempoolError Unit :=
  onInner fun inner => inner.trimToSize env build m.order maxSize

/-- As for a trim, the coins cache is not told. -/
def expire (maxAgeSeconds : Int) : Stateful MemPool MempoolError Unit :=
  onInner fun inner => inner.expire env build m.order (currentTime m) maxAgeSeconds

/-- The descendants of a set of entries, themselves included. -/
def expand (order : HashOrder) (arena : MemPoolArena) (ids : HashSet EntryId) : HashSet EntryId :=
  (ids.iter order).foldl (arena.calculateDescendants order) .empty

/-- The removal of a set of entries, with the coins they created. The transactions are captured
before the removal. -/
def removeWithCoins (expanded : HashSet EntryId) : Stateful MemPool MempoolError Unit :=
  Stateful.update fun p => do
    let removedTxs := ((expanded.iter m.order).filterMap p.inner.get).map TxMemPoolEntry.tx
    let inner ← p.inner.removeStaged env build m.order expanded false
    pure { p with
      inner := inner
      coinsCache := removedTxs.foldl (CoinsViewCache.removeMempoolTx env) p.coinsCache }

/-- The base cache starts anew at the new best block. -/
def connectBlock (newBestBlock : H256) : Stateful MemPool MempoolError Unit :=
  Stateful.modify fun p => { p with coinsCache := p.coinsCache.onBlockConnected newBestBlock }

/-- The entries that confirmed transactions remove: themselves, and their conflicts. -/
def confirmedIds (inner : MemPoolInner) (confirmedTxs : List Transaction) : HashSet EntryId :=
  HashSet.empty.extend
    (confirmedTxs.flatMap fun tx =>
      (inner.arena.getByTxid (env.computeTxid tx)).toList ++
        (collectConflicts inner tx).iter m.order)

/-- What is confirmed goes, with its conflicts and all descendants. -/
def removeForBlock (confirmedTxs : List Transaction) (newBestBlock : H256) :
    Stateful MemPool MempoolError Unit := do
  let p ← Stateful.get
  let expanded := expand m.order p.inner.arena (confirmedIds env m p.inner confirmedTxs)
  removeWithCoins env build m expanded
  connectBlock newBestBlock
  countUpdates expanded.len

/-- The entries in conflict with one of the transactions. -/
def conflictIds (inner : MemPoolInner) (txs : List Transaction) : HashSet EntryId :=
  HashSet.empty.extend (txs.flatMap fun tx => (collectConflicts inner tx).iter m.order)

/-- What conflicts with the given transactions goes, with descendants. -/
def removeConflicts (txs : List Transaction) : Stateful MemPool MempoolError Unit := do
  let p ← Stateful.get
  let expanded := expand m.order p.inner.arena (conflictIds m p.inner txs)
  removeWithCoins env build m expanded
  countUpdates expanded.len

/-- The checks of `remove_for_reorg` on one entry, with the data cached when it was accepted. -/
def invalidAt (newTipHeight : Nat) (newTipMtp : Int) (entry : TxMemPoolEntry) : Bool :=
  (0 < entry.lockPoints.height && toSigned 32 newTipHeight < entry.lockPoints.height) ||
    (0 < entry.lockPoints.time && newTipMtp < entry.lockPoints.time) ||
    entry.lockPoints.maxInputBlock.any (fun block => !m.client.isBlockOnActiveChain block) ||
    (entry.spendsCoinbase && newTipHeight < min (entry.entryHeight + 100) (2 ^ 32 - 1))

/-- The entries that are no longer valid at a new tip. -/
def reorgIds (inner : MemPoolInner) (newTipHeight : Nat) (newBestBlock : H256) :
    Outcome MempoolError (HashSet EntryId) := do
  let entries ← inner.arena.iterByEntryTime
  let invalid := entries.filter fun p =>
    invalidAt m newTipHeight (mtpAt env m newBestBlock) p.2
  pure (HashSet.empty.extend (invalid.map Prod.fst))

/-- What is no longer valid at the new tip goes, with descendants. -/
def removeForReorg (newTipHeight : Nat) (newBestBlock : H256) :
    Stateful MemPool MempoolError Unit := do
  let p ← Stateful.get
  let toRemove ← Stateful.lift (reorgIds env m p.inner newTipHeight newBestBlock)
  if toRemove.isEmpty then connectBlock newBestBlock
  else do
    let expanded := expand m.order p.inner.arena toRemove
    removeWithCoins env build m expanded
    connectBlock newBestBlock
    countUpdates expanded.len

def markBroadcastTxs (txids : List Txid) : Stateful MemPool MempoolError Unit :=
  Stateful.modify fun p =>
    { p with inner.unbroadcast := txids.foldl HashSet.erase p.inner.unbroadcast }

end MemPool

/-! ## Runs -/

/-- A call that changes the mempool. -/
inductive Call where
  | acceptSingleTransaction (tx : Transaction)
  | acceptPackage (transactions : List Transaction)
  | trimToSize (maxSize : Nat)
  | expire (maxAgeSeconds : Int)
  | removeForBlock (confirmedTxs : List Transaction) (newBestBlock : H256)
  | removeConflicts (txs : List Transaction)
  | removeForReorg (newTipHeight : Nat) (newBestBlock : H256)
  | markBroadcastTxs (txids : List Txid)

variable {SE : Type} (env : PoolEnv SE) (build : Build) (options : MemPoolOptions)

/-- What a call does. -/
def exec (m : Moment) : Call → Stateful MemPool MempoolError Unit
  | .acceptSingleTransaction tx => MemPool.acceptSingleTransaction env build options m tx
  | .acceptPackage transactions => do
    let _ ← MemPool.acceptPackage env build options m transactions
    pure ()
  | .trimToSize maxSize => MemPool.trimToSize env build m maxSize
  | .expire maxAgeSeconds => MemPool.expire env build m maxAgeSeconds
  | .removeForBlock confirmedTxs newBestBlock =>
    MemPool.removeForBlock env build m confirmedTxs newBestBlock
  | .removeConflicts txs => MemPool.removeConflicts env build m txs
  | .removeForReorg newTipHeight newBestBlock =>
    MemPool.removeForReorg env build m newTipHeight newBestBlock
  | .markBroadcastTxs txids => MemPool.markBroadcastTxs txids

/-- The states that runs from the empty mempool come to, when every call meets a condition on the
state it finds. -/
inductive Reachable (cond : Moment → Call → MemPool → Prop) : MemPool → Prop where
  | new (client : Client) : Reachable cond (MemPool.new client)
  | step {p p' : MemPool} (m : Moment) (call : Call) : Reachable cond p → cond m call p →
      (exec env build options m call).Leaves p p' → Reachable cond p'

end Subcoin.Mempool
