import Subcoin.Sync.Types

/-!
# Subcoin — the pool of orphan blocks

Blocks whose parent has not arrived, by hash, and the hashes of the children of each awaited parent.
`remove_blocks`, `remove_known_blocks` and `clear` are part of the pool, but nothing calls them.
-/

namespace Subcoin.Sync

structure OrphanBlocksPool where
  blocks : BlockHash → Option Block
  /-- The children of a parent that is awaited. -/
  orphanBlocks : IndexMap BlockHash (HashSet BlockHash)
  /-- Blocks that were not asked for. -/
  unknownBlocks : HashSet BlockHash

namespace OrphanBlocksPool

variable {SE : Type} (env : NodeEnv SE) (pool : OrphanBlocksPool)

def new : OrphanBlocksPool := ⟨fun _ => none, .empty, .empty⟩

def insertOrphanBlock (block : Block) : OrphanBlocksPool :=
  let blockHash := env.hashOf block
  let parent := block.header.prevBlockhash
  let children := (pool.orphanBlocks.get parent).getD .empty
  { pool with
    orphanBlocks := pool.orphanBlocks.insert parent (children.insert blockHash)
    blocks := Function.update pool.blocks blockHash (some block) }

def insertUnknownBlock (block : Block) : Outcome Empty OrphanBlocksPool := do
  let blockHash := env.hashOf block
  Outcome.assertTrue (blockHash ∉ pool.unknownBlocks) "assertion failed: newly_inserted"
  let pool := { pool with unknownBlocks := pool.unknownBlocks.insert blockHash }
  pure (pool.insertOrphanBlock env block)

/-- The children of a parent that has been taken out of the pool: each leaves the pool too. -/
def takeChild (taken : List Block × OrphanBlocksPool) (childHash : BlockHash) :
    List Block × OrphanBlocksPool :=
  let (removed, pool) := taken
  let pool := { pool with unknownBlocks := pool.unknownBlocks.erase childHash }
  match pool.blocks childHash with
  | some block =>
    (removed ++ [block], { pool with blocks := Function.update pool.blocks childHash none })
  | none => (removed, pool)

/-- The loop of `remove_blocks_for_parent`. Every round but the first takes a child that an earlier
round has found, so the number of children in the pool bounds the rounds. -/
def removeRounds (order : HashOrder) :
    Nat → List BlockHash → List Block × OrphanBlocksPool → List Block × OrphanBlocksPool
  | 0, _, taken => taken
  | _ + 1, [], taken => taken
  | rounds + 1, parentHash :: queue, (removed, pool) =>
    match pool.orphanBlocks.get parentHash with
    | none => removeRounds order rounds queue (removed, pool)
    | some children =>
      let pool := { pool with orphanBlocks := pool.orphanBlocks.remove parentHash }
      let childHashes := children.iter order
      removeRounds order rounds (queue ++ childHashes)
        (childHashes.foldl takeChild (removed, pool))

/-- The number of children in the pool. -/
def childCount : Nat := (pool.orphanBlocks.entries.map fun e => e.2.len).sum

/-- `remove_blocks_for_parent`: the blocks that descend from a hash, generation by generation. -/
def removeBlocksForParent (order : HashOrder) (hash : BlockHash) :
    List Block × OrphanBlocksPool :=
  removeRounds order (pool.childCount + 1) [hash] ([], pool)

/-- The lists of children without the given hashes, and without those that this leaves empty. -/
def delist (order : HashOrder) (hashes : HashSet BlockHash) : OrphanBlocksPool :=
  { pool with
    orphanBlocks := pool.orphanBlocks.retain fun _ orphans =>
      let orphans := orphans.without (hashes.iter order)
      if orphans.isEmpty then none else some orphans }

/-- A hash that `remove_blocks` has found under its parent. -/
def dropBlock (pool : OrphanBlocksPool) (hash : BlockHash) : OrphanBlocksPool :=
  { pool with
    unknownBlocks := pool.unknownBlocks.erase hash
    blocks := Function.update pool.blocks hash none }

/-- `remove_blocks`: the blocks with the given hashes, and all that depend on them. -/
def removeBlocks (order : HashOrder) (hashes : HashSet BlockHash) :
    List BlockHash × OrphanBlocksPool :=
  let removed := (order.arrange pool.orphanBlocks.entries).flatMap fun e =>
    (hashes.iter order).filter (· ∈ e.2)
  let pool := removed.foldl dropBlock (pool.delist order hashes)
  -- Also delete all children.
  (hashes.iter order).foldl
    (fun (removed, pool) hash =>
      let (children, pool) := pool.removeBlocksForParent order hash
      (removed ++ children.map env.hashOf, pool))
    (removed, pool)

/-- `remove_known_blocks`: all blocks that have been asked for. -/
def removeKnownBlocks (order : HashOrder) : List BlockHash × OrphanBlocksPool :=
  let orphansToRemove := HashSet.empty.extend
    (((pool.orphanBlocks.values order).flatMap fun children => children.iter order).filter
      (· ∉ pool.unknownBlocks))
  (orphansToRemove.iter order, (pool.removeBlocks env order orphansToRemove).2)

def clear (_ : OrphanBlocksPool) : OrphanBlocksPool := .new

end OrphanBlocksPool

end Subcoin.Sync
