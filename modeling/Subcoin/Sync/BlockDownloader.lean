import Mathlib.Data.List.Sort
import Subcoin.Sync.OrphanBlocksPool

/-!
# Subcoin — the block downloader

What both strategies share: the blocks still to be requested, those requested, those downloaded and
waiting for the import queue, and those in the queue. A block gets its number from its parent when
it is added; orphans that it connects are numbered one after the other.

The peer store, which counts downloads and failures of peers, and the time of the last log line are
not part of the model.
-/

namespace Subcoin.Sync

/-- `QueuedBlocks`: numbers and memory of the blocks in the import queue, or waiting for it. -/
structure QueuedBlocks where
  hash2number : BlockHash → Option Nat
  number2hash : Nat → Option BlockHash
  blockMemory : BlockHash → Option Nat

namespace QueuedBlocks

def default : QueuedBlocks := ⟨fun _ => none, fun _ => none, fun _ => none⟩

variable (q : QueuedBlocks)

def blockHash (number : Nat) : Option BlockHash := q.number2hash number

def blockNumber (hash : BlockHash) : Option Nat := q.hash2number hash

def blockMemoryUsage (hash : BlockHash) : Option Nat := q.blockMemory hash

/-- Nothing is looked up before it is overwritten. -/
def insert (number : Nat) (hash : BlockHash) (memoryUsage : Nat) : QueuedBlocks where
  hash2number := Function.update q.hash2number hash (some number)
  number2hash := Function.update q.number2hash number (some hash)
  blockMemory := Function.update q.blockMemory hash (some memoryUsage)

/-- The number of the hash is freed, also when another hash has it by now. -/
def remove (hash : BlockHash) : QueuedBlocks where
  hash2number := Function.update q.hash2number hash none
  number2hash :=
    match q.hash2number hash with
    | some number => Function.update q.number2hash number none
    | none => q.number2hash
  blockMemory := Function.update q.blockMemory hash none

end QueuedBlocks

/-- Whether the queue takes more blocks. -/
inductive ImportQueueStatus where
  | ready
  | saturated
deriving DecidableEq

/-- What has been asked for, what has come, and what the import queue has. -/
structure BlockDownloader where
  peerId : PeerId
  missingBlocks : List BlockHash
  requestedBlocks : HashSet BlockHash
  downloadedBlocks : List Block
  blocksInQueue : BlockHash → Option Nat
  queuedBlocks : QueuedBlocks
  bestQueuedNumber : Nat
  orphanBlocksPool : OrphanBlocksPool
  lastProgressTime : Nat
  queueStatus : ImportQueueStatus
  downloadedBlocksCount : Nat
  memoryConfig : MemoryConfig
  downloadedBlocksMemory : Nat
  lastBatchSize : Nat

def blockMemoryOverhead : Nat := 128

/-- `calculate_block_memory_usage`. Encoding into a counter does not fail. -/
def calculateBlockMemoryUsage {SE : Type} (env : NodeEnv SE) (block : Block) : Nat :=
  (env.encodeHeader block.header).length +
    (block.txdata.map fun tx => (env.consensusEncode tx).length).sum + blockMemoryOverhead

namespace BlockDownloader

def new (m : Moment) (peerId : PeerId) (bestQueuedNumber : Nat) (memoryConfig : MemoryConfig) :
    BlockDownloader where
  peerId := peerId
  missingBlocks := []
  requestedBlocks := .empty
  downloadedBlocks := []
  blocksInQueue := fun _ => none
  queuedBlocks := .default
  bestQueuedNumber := bestQueuedNumber
  orphanBlocksPool := .new
  lastProgressTime := m.now
  queueStatus := .ready
  downloadedBlocksCount := 0
  memoryConfig := memoryConfig
  downloadedBlocksMemory := 0
  lastBatchSize := 0

variable {SE : Type} (env : NodeEnv SE) (m : Moment) (d : BlockDownloader)

def blockNumber (blockHash : BlockHash) : Option Nat := d.queuedBlocks.blockNumber blockHash

/-- Too many bytes or too many blocks. -/
def exceedsMemoryLimits : Bool :=
  d.memoryConfig.maxDownloadedBlocksMemory < d.downloadedBlocksMemory ||
    d.memoryConfig.maxBlocksInMemory < d.downloadedBlocks.length

/-- `on_block_response`: whether the block had been requested. -/
def onBlockResponse (blockHash : BlockHash) : Bool × BlockDownloader :=
  (blockHash ∈ d.requestedBlocks,
    { d with lastProgressTime := m.now, requestedBlocks := d.requestedBlocks.erase blockHash })

def touchProgress : BlockDownloader := { d with lastProgressTime := m.now }

def setMissingBlocks (new : List BlockHash) : BlockDownloader := { d with missingBlocks := new }

/-- The maximum number of pending blocks in the import queue. -/
def maxQueuedBlocks (bestNumber : Nat) : Nat :=
  if bestNumber ≤ 100000 then 8192
  else if bestNumber ≤ 200000 then 4096
  else if bestNumber ≤ 300000 then 2048
  else if bestNumber ≤ 600000 then 1024
  else 512

/-- What `evaluate_queue_status` decides. -/
def queueStatusAt (bestNumber : Nat) : ImportQueueStatus :=
  if maxQueuedBlocks bestNumber < d.bestQueuedNumber - bestNumber || d.exceedsMemoryLimits then
    .saturated
  else .ready

/-- The status is recorded as it is returned. -/
def evaluateQueueStatus (bestNumber : Nat) : ImportQueueStatus × BlockDownloader :=
  let status := d.queueStatusAt bestNumber
  (status, { d with queueStatus := status })

/-- Later blocks are larger, so fewer are asked for. -/
def baseMaxRequestSize : Nat :=
  if d.bestQueuedNumber ≤ 99999 then 1024
  else if d.bestQueuedNumber ≤ 199999 then 512
  else if d.bestQueuedNumber ≤ 299999 then 128
  else if d.bestQueuedNumber ≤ 399999 then 64
  else if d.bestQueuedNumber ≤ 499999 then 32
  else if d.bestQueuedNumber ≤ 599999 then 16
  else if d.bestQueuedNumber ≤ 699999 then 8
  else if d.bestQueuedNumber ≤ 799999 then 4
  else 2

/-- The pressure on memory exceeds a ratio, given in tenths. The source compares quotients of
floating-point numbers. -/
def pressureExceeds (tenths : Nat) : Bool :=
  tenths * d.memoryConfig.maxDownloadedBlocksMemory < 10 * d.downloadedBlocksMemory ||
    tenths * d.memoryConfig.maxBlocksInMemory < 10 * d.downloadedBlocks.length

/-- The adaptive size of a batch. -/
def maxRequestSize : Nat :=
  if d.memoryConfig.enableAdaptiveBatchSizing then
    if d.pressureExceeds 8 then max (d.baseMaxRequestSize / 4) 1
    else if d.pressureExceeds 6 then max (d.baseMaxRequestSize / 2) 1
    else d.baseMaxRequestSize
  else d.baseMaxRequestSize

/-- The next missing blocks are asked for. -/
def scheduleNextDownloadBatch : SyncAction × BlockDownloader :=
  let blocksToDownload := d.missingBlocks.take d.maxRequestSize
  let newMissingBlocks := d.missingBlocks.drop d.maxRequestSize
  (.getData (blocksToDownload.map .block) d.peerId,
    { d with
      missingBlocks := newMissingBlocks
      lastBatchSize := blocksToDownload.length
      -- Extended instead of replaced, for pipelining.
      requestedBlocks := d.requestedBlocks.extend blocksToDownload })

/-- `restart`, with a new peer: what has been downloaded stays, what has been requested does not. -/
def restart (newPeer : PeerId) : BlockDownloader :=
  { d with
    peerId := newPeer
    downloadedBlocksCount := 0
    requestedBlocks := .empty
    orphanBlocksPool := .new
    lastProgressTime := m.now
    queueStatus := .ready }

/-- One result of `handle_processed_blocks`. -/
def handleProcessedBlock (d : BlockDownloader)
    (result : Except BlockImportError BlockImportStatus × BlockHash) :
    Outcome Empty BlockDownloader :=
  let hash := result.2
  let blockNumber := d.blocksInQueue hash
  let d :=
    { d with
      blocksInQueue := Function.update d.blocksInQueue hash none
      queuedBlocks := d.queuedBlocks.remove hash }
  match result.1 with
  | .ok _ => .ok d
  | .error .unknownParent => .panic ("Unknown parent " ++ hash.display)
  | .error err =>
    match blockNumber with
    | some number =>
      .panic ("Failed to import block #" ++ toString number ++ "," ++ hash.display ++ ": " ++
        err.debug)
    | none => .panic ("Failed to import block #" ++ hash.display ++ ": " ++ err.debug)

/-- A block that failed to import ends the node. -/
def handleProcessedBlocks (results : ImportResults) : Outcome Empty BlockDownloader :=
  results.foldlM handleProcessedBlock { d with lastProgressTime := m.now }

/-- What the loop of `prepare_blocks_for_import` collects. -/
structure Prepared where
  blocksInQueue : BlockHash → Option Nat
  blocks : List (Nat × Block)
  memoryFreed : Nat

/-- One block of the loop. A block above the target leaves the downloader and goes nowhere. -/
def prepareBlock (queuedBlocks : QueuedBlocks) (maxBlockNumber : Option Nat) (acc : Prepared)
    (block : Block) : Outcome Empty Prepared := do
  let blockHash := env.hashOf block
  let blockNumber ← Outcome.expect (queuedBlocks.blockNumber blockHash)
    ("Corrupted state, number for " ++ blockHash.display ++ " not found in `queued_blocks`")
  let blockMemory :=
    (queuedBlocks.blockMemoryUsage blockHash).getD (calculateBlockMemoryUsage env block)
  let acc := { acc with memoryFreed := acc.memoryFreed + blockMemory }
  if maxBlockNumber.any fun targetBlock => targetBlock < blockNumber then pure acc
  else
    pure { acc with
      blocksInQueue := Function.update acc.blocksInQueue blockHash (some blockNumber)
      blocks := acc.blocks ++ [(blockNumber, block)] }

/-- What has been downloaded leaves for the import queue. -/
def prepareBlocksForImport (maxBlockNumber : Option Nat) :
    Outcome Empty ((List BlockHash × List Block) × BlockDownloader) := do
  let prepared ← d.downloadedBlocks.foldlM (prepareBlock env d.queuedBlocks maxBlockNumber)
    ⟨d.blocksInQueue, [], 0⟩
  -- Ensure the blocks sent to the import queue are ordered.
  let blocks := prepared.blocks.insertionSort fun a b => a.1 ≤ b.1
  let hashes ← blocks.mapM fun b => Outcome.expect (d.queuedBlocks.blockHash b.1)
    "Corrupted state, hash for {number} not found in `queued_blocks`"
  pure ((hashes, blocks.map Prod.snd),
    { d with
      downloadedBlocks := []
      blocksInQueue := prepared.blocksInQueue
      downloadedBlocksMemory := d.downloadedBlocksMemory - prepared.memoryFreed })

/-- The closure `insert_block` of `add_block`. -/
def insertBlock (blockNumber : Nat) (blockHash : BlockHash) (block : Block) : BlockDownloader :=
  let blockMemory := calculateBlockMemoryUsage env block
  { d with
    downloadedBlocksMemory := d.downloadedBlocksMemory + blockMemory
    downloadedBlocks := d.downloadedBlocks ++ [block]
    queuedBlocks := d.queuedBlocks.insert blockNumber blockHash blockMemory
    bestQueuedNumber := max d.bestQueuedNumber blockNumber }

/-- The orphans that a block connects, numbered by their place among them. -/
def insertChildren (blockNumber : Nat) (children : List Block) : BlockDownloader :=
  children.zipIdx.foldl
    (fun d child => d.insertBlock env (blockNumber + child.2 + 1) (env.hashOf child.1) child.1) d

/-- A block whose parent has a number, with the orphans that wait for it. -/
def addBlock (blockNumber : Nat) (blockHash : BlockHash) (block : Block) : BlockDownloader :=
  let d := d.insertBlock env blockNumber blockHash block
  let (children, pool) := d.orphanBlocksPool.removeBlocksForParent m.order blockHash
  let d := { d with orphanBlocksPool := pool }
  let d := d.insertChildren env blockNumber children
  { d with downloadedBlocksCount := d.downloadedBlocksCount + 1 }

/-- A block that waits for its parent. -/
def addOrphanBlock (orphanBlock : Block) : BlockDownloader :=
  { d with orphanBlocksPool := d.orphanBlocksPool.insertOrphanBlock env orphanBlock }

/-- A block of whose parent nothing is known; it must not come twice. -/
def addUnknownBlock (unknownBlock : Block) : Outcome Empty BlockDownloader := do
  let pool ← d.orphanBlocksPool.insertUnknownBlock env unknownBlock
  pure { d with orphanBlocksPool := pool }

end BlockDownloader

end Subcoin.Sync
