import Subcoin.Indexer.Database
import Subcoin.Lib.Runs

/-!
# Subcoin — historical indexing

`handle_index_gap` and `index_block_range` write to the database in steps: a batch of blocks is
committed in one transaction, and the progress is saved in another one. The process can end between
any two steps; what it had in memory is then lost, and a new process goes on from the saved state.
The source takes batches of `batchSize` blocks; here every step is told how many to take.
-/

namespace Subcoin.Indexer

inductive IndexerState where
  | historicalIndexing (targetHeight currentHeight : Nat)
  | active (lastIndexed : Nat)
deriving DecidableEq

/-- What is durable. -/
structure Db where
  tables : Tables
  state : Option IndexerState

/-- Number of blocks in one transaction. -/
def batchSize : Nat := 100

/-- Progress is saved every so many blocks. -/
def progressSaveInterval : Nat := 1000

/-- Where `index_block_range` is. -/
inductive Task where
  /-- At the head of its loop. -/
  | range (height stop processed : Nat)
  /-- A batch has been committed. -/
  | progress (height stop processed batchProcessed : Nat)
  /-- `handle_index_gap` has returned. -/
  | done
deriving DecidableEq

variable {SE : Type} (env : IndexerEnv SE) (chain : List Block)

/-- `get_bitcoin_block_at_height` for some heights; it fails where there is no block. -/
def loadBlocks : List Nat → Option (List (Nat × Block))
  | [] => some []
  | height :: heights => do
    let block ← chain[height]?
    let blocks ← loadBlocks heights
    pure ((height, block) :: blocks)

def indexBlockBatch (start stop : Nat) (t : Tables) : Option Tables :=
  (loadBlocks chain (List.range' start (stop - start))).map fun blocks =>
    indexBlocksBatch env blocks t

def handleIndexGap (bestNumber : Nat) (db : Db) : Db × Task :=
  match db.state with
  | some (.historicalIndexing targetHeight currentHeight) =>
    -- Resume interrupted historical indexing.
    (db, .range currentHeight targetHeight 0)
  | some (.active lastIndexed) =>
    -- Check if we fell behind.
    if lastIndexed < bestNumber then (db, .range (lastIndexed + 1) (bestNumber + 1) 0)
    else (db, .done)
  | none =>
    -- Fresh start.
    if 0 < bestNumber then
      ({ db with state := some (.historicalIndexing (bestNumber + 1) 0) },
        .range 0 (bestNumber + 1) 0)
    else ({ db with state := some (.active 0) }, .done)

/-- What `index_block_range` does up to its next write, with a batch of `size` blocks. -/
def Task.step (size : Nat) : Task → Db → Option (Db × Task)
  | .range height stop processed, db =>
    if height < stop then
      let batchEnd := min (height + size) stop
      let batchProcessed := batchEnd - height
      (indexBlockBatch env chain height batchEnd db.tables).map fun tables =>
        ({ db with tables := tables },
          .progress batchEnd stop (processed + batchProcessed) batchProcessed)
    else
      -- Transition to active state.
      some ({ db with state := some (.active (stop - 1)) }, .done)
  | .progress height stop processed batchProcessed, db =>
    let isLast := stop ≤ height
    let save := processed % progressSaveInterval = 0 ∨ isLast ∨ processed = batchProcessed
    some (
      if save ∧ ¬isLast then { db with state := some (.historicalIndexing stop height) } else db,
      .range height stop processed)
  | .done, db => some (db, .done)

/-! ## Processes -/

/-- The database and the process that works on it. Three numbers of the best block are recorded,
which no operation reads: those of the first and of the latest call of `handle_index_gap`, and that
of the call that began the range of the latest one, an earlier call where the latest one resumes.
`run` leaves its loop when the best block still is that of the latest call. -/
structure Node where
  db : Db
  task : Option Task
  firstBest : Option Nat
  lastBest : Option Nat
  begun : Nat

namespace Node

inductive Op where
  /-- A process starts, or finds that the chain has grown. -/
  | start (bestNumber : Nat)
  | step (size : Nat)
  | crash

def fresh : Node := ⟨⟨.empty, none⟩, none, none, none, 0⟩

/-- The best block of the call that began the range, after a call that finds `best`. -/
def nextBegun (best begun : Nat) (db : Db) : Nat :=
  match db.state with
  | some (.historicalIndexing _ _) => begun
  | _ => best

def apply : Op → Node → Outcome Unit (Unit × Node)
  | .start bestNumber, node =>
    match node.task with
    | none | some .done =>
      let (db, task) := handleIndexGap bestNumber node.db
      .ok ((), ⟨db, some task, node.firstBest.or (some bestNumber), some bestNumber,
        nextBegun bestNumber node.begun node.db⟩)
    | _ => .err ()
  | .step size, node =>
    match node.task with
    | none => .err ()
    | some task =>
      match task.step env chain size node.db with
      | some (db, task) => .ok ((), { node with db := db, task := some task })
      -- "Failed to handle indexing gap, indexer will not run"
      | none => .ok ((), { node with task := none })
  | .crash, node => .ok ((), { node with task := none })

end Node

end Subcoin.Indexer
