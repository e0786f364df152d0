import Subcoin.Lib.Safety
import Subcoin.Sync.BlockDownloader

/-!
# Subcoin — what the operations of the downloader keep

A field that no part of an operation touches is not touched by the operation: the loops over orphans
and over import results are gone through once, for every field. A property of blocks that those have
which come in is a property of all blocks in the downloader.
-/

namespace Subcoin.Sync

namespace BlockDownloader

open Outcome

variable {SE : Type} {env : NodeEnv SE} {m : Moment} {d : BlockDownloader} {α : Type}
  {f : BlockDownloader → α}

/-- A result takes the block out of the queue; anything but a success panics. -/
theorem handleProcessedBlock_ok (result : Except BlockImportError BlockImportStatus × BlockHash) :
    (∃ status, result.1 = .ok status) ∧
        d.handleProcessedBlock result = .ok { d with
          blocksInQueue := Function.update d.blocksInQueue result.2 none
          queuedBlocks := d.queuedBlocks.remove result.2 } ∨
      (∃ err, result.1 = .error err) ∧ (d.handleProcessedBlock result).isPanic = true := by
  obtain ⟨result, hash⟩ := result
  cases result with
  | ok status => exact .inl ⟨⟨status, rfl⟩, rfl⟩
  | error err =>
    refine .inr ⟨⟨err, rfl⟩, ?_⟩
    unfold handleProcessedBlock
    cases err with
    | unknownParent => rfl
    | _ =>
      dsimp only
      split
      · rfl
      · rfl

theorem post_handleProcessedBlocks_field
    (htime : ∀ d now, f { d with lastProgressTime := now } = f d)
    (hqueue : ∀ d inQueue queued,
      f { d with blocksInQueue := inQueue, queuedBlocks := queued } = f d)
    (results : ImportResults) :
    Post (fun d' => f d' = f d) (d.handleProcessedBlocks m results) := by
  have hstep : ∀ {d1 result d2}, result ∈ results → f d1 = f d →
      handleProcessedBlock d1 result = .ok d2 → f d2 = f d := by
    intro d1 result d2 _ hd1 hok
    obtain ⟨-, heq⟩ | ⟨-, hpanic⟩ := handleProcessedBlock_ok (d := d1) result
    · rw [heq] at hok
      cases hok
      rw [hqueue, hd1]
    · rw [hok] at hpanic
      cases hpanic
  exact fun d' hok => foldlM_invariant hstep (htime d m.now) hok

theorem post_prepareBlocksForImport_field
    (himport : ∀ d inQueue memory, f { d with
      downloadedBlocks := []
      blocksInQueue := inQueue
      downloadedBlocksMemory := memory } = f d) (maxBlockNumber : Option Nat) :
    Post (fun r => f r.2 = f d) (d.prepareBlocksForImport env maxBlockNumber) := by
  refine Post.bind post_self fun prepared _ => ?_
  refine Post.bind post_self fun hashes _ => ?_
  exact post_ok.mpr (himport d _ _)

end BlockDownloader

/-! ## The blocks -/

namespace OrphanBlocksPool

variable {SE : Type} {env : NodeEnv SE} {P : Block → Prop} {pool : OrphanBlocksPool}

/-- Every block in the pool has a property. -/
def All (P : Block → Prop) (pool : OrphanBlocksPool) : Prop :=
  ∀ hash block, pool.blocks hash = some block → P block

theorem All.insertOrphanBlock {block : Block} (h : pool.All P) (hblock : P block) :
    (pool.insertOrphanBlock env block).All P := by
  intro hash block' hmem
  by_cases heq : hash = env.hashOf block
  · rw [heq] at hmem
    have hself : (pool.insertOrphanBlock env block).blocks _ = _ := Function.update_self ..
    cases hself.symm.trans hmem
    exact hblock
  · exact h hash block' ((Function.update_of_ne heq ..).symm.trans hmem)

/-- The blocks that have been taken out of the pool, and those in it. -/
def AllTaken (P : Block → Prop) (taken : List Block × OrphanBlocksPool) : Prop :=
  (∀ block ∈ taken.1, P block) ∧ taken.2.All P

variable {taken : List Block × OrphanBlocksPool}

theorem AllTaken.takeChild (h : AllTaken P taken) (childHash : BlockHash) :
    AllTaken P (takeChild taken childHash) := by
  obtain ⟨removed, pool⟩ := taken
  unfold OrphanBlocksPool.takeChild
  dsimp only
  split
  · rename_i child hchild
    refine ⟨?_, ?_⟩
    · intro block hmem
      rcases List.mem_append.mp hmem with hold | hnew
      · exact h.1 block hold
      · rw [List.mem_singleton.mp hnew]
        exact h.2 childHash child hchild
    · intro hash block hmem
      by_cases heq : hash = childHash
      · have hnone : Function.update pool.blocks childHash none childHash = none :=
          Function.update_self ..
        rw [heq] at hmem
        cases hnone.symm.trans hmem
      · exact h.2 hash block ((Function.update_of_ne heq ..).symm.trans hmem)
  · exact h

theorem AllTaken.takeChildren (h : AllTaken P taken) {childHashes : List BlockHash} :
    AllTaken P (childHashes.foldl OrphanBlocksPool.takeChild taken) := by
  induction childHashes generalizing taken with
  | nil => exact h
  | cons childHash childHashes ih => exact ih (h.takeChild childHash)

theorem AllTaken.removeRounds {order : HashOrder} {rounds : Nat} {queue : List BlockHash}
    (h : AllTaken P taken) : AllTaken P (removeRounds order rounds queue taken) := by
  induction rounds generalizing queue taken with
  | zero => exact h
  | succ rounds ih =>
    obtain ⟨removed, pool⟩ := taken
    cases queue with
    | nil => exact h
    | cons parentHash queue =>
      unfold OrphanBlocksPool.removeRounds
      split
      · exact ih h
      · have hpool : AllTaken P
            (removed, { pool with orphanBlocks := pool.orphanBlocks.remove parentHash }) := h
        exact ih hpool.takeChildren

theorem All.removeBlocksForParent (h : pool.All P) (order : HashOrder) (hash : BlockHash) :
    AllTaken P (pool.removeBlocksForParent order hash) :=
  AllTaken.removeRounds ⟨nofun, h⟩

end OrphanBlocksPool

end Subcoin.Sync
