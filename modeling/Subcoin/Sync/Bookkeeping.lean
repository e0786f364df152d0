import Subcoin.Lib.Index
import Subcoin.Sync.Numbering

/-!
# Subcoin — the books of the downloader

The numbers of blocks are kept twice, by hash and by number, and the memory of the downloaded blocks
is kept as a total. When a block is added, both maps are overwritten. So the books are right as long
as a number is not given to a second block while the first one is still in them, and a block does
not come again with another body.

* **`BlockDownloader.KeptBooks.apply`** — what every operation keeps.
* **`rightBooks_of_runs`** — the books along a run, and what leaves for the import queue.
-/

namespace Subcoin.Sync

open Outcome

/-! ## The two maps -/

namespace QueuedBlocks

variable {q : QueuedBlocks} {number : Nat} {hash : BlockHash}

/-- The maps are inverse to each other. -/
def Inverse (q : QueuedBlocks) : Prop :=
  ∀ number hash, q.number2hash number = some hash ↔ q.hash2number hash = some number

/-- The number is free or names this block, and the block has no number or this one. -/
def Admits (q : QueuedBlocks) (number : Nat) (hash : BlockHash) : Prop :=
  (∀ hash', q.number2hash number = some hash' → hash' = hash) ∧
    ∀ number', q.hash2number hash = some number' → number' = number

theorem inverse_default : QueuedBlocks.default.Inverse := by simp [Inverse, default]

theorem Inverse.insert (h : q.Inverse) (hadmits : q.Admits number hash) (memoryUsage : Nat) :
    (q.insert number hash memoryUsage).Inverse :=
  KeyIndex.Exact.assign_map h hadmits.2 hadmits.1

theorem Inverse.remove (h : q.Inverse) (hash : BlockHash) : (q.remove hash).Inverse := by
  cases hnumber : q.hash2number hash with
  | some number =>
    have hremoved := KeyIndex.Exact.remove_map h hnumber
    simp only [Inverse, QueuedBlocks.remove, hnumber]
    exact hremoved
  | none =>
    have hsame : Function.update q.hash2number hash none = q.hash2number := by
      rw [← hnumber, Function.update_eq_self]
    simpa only [Inverse, QueuedBlocks.remove, hnumber, hsame] using h

/-- What is admitted stays so when another block gets another number. -/
theorem Admits.insert {number' : Nat} {hash' : BlockHash} (h : q.Admits number hash)
    (hnumber : number ≠ number') (hhash : hash ≠ hash') (memoryUsage : Nat) :
    (q.insert number' hash' memoryUsage).Admits number hash := by
  unfold Admits QueuedBlocks.insert
  dsimp only
  rw [Function.update_of_ne hnumber, Function.update_of_ne hhash]
  exact h

end QueuedBlocks

namespace BlockDownloader

variable {SE : Type} {env : NodeEnv SE} {m : Moment} {d : BlockDownloader}

/-- The memory of a list of blocks. -/
def memoryOf (env : NodeEnv SE) (blocks : List Block) : Nat :=
  (blocks.map (calculateBlockMemoryUsage env)).sum

/-- The books are right: the maps are inverse to each other, the total is that of the downloaded
blocks, and the blocks that leave for the import queue leave with their own hashes. -/
structure RightBooks (env : NodeEnv SE) (d : BlockDownloader) : Prop where
  inverse : d.queuedBlocks.Inverse
  memory : d.downloadedBlocksMemory = memoryOf env d.downloadedBlocks
  hashes : ∀ maxBlockNumber, ∃ blocks d',
    d.prepareBlocksForImport env maxBlockNumber = .ok ((blocks.map env.hashOf, blocks), d')

/-- What the operations keep: the downloaded blocks are in the books, each with its memory. -/
structure KeptBooks (env : NodeEnv SE) (d : BlockDownloader) : Prop where
  inverse : d.queuedBlocks.Inverse
  memory : d.downloadedBlocksMemory = memoryOf env d.downloadedBlocks
  numbered : ∀ b ∈ d.downloadedBlocks, (d.queuedBlocks.hash2number (env.hashOf b)).isSome
  weighed : ∀ b ∈ d.downloadedBlocks,
    d.queuedBlocks.blockMemory (env.hashOf b) = some (calculateBlockMemoryUsage env b)

/-- A block can be booked under a number: both maps admit it, and a downloaded block with its hash
has the same size. -/
structure Bookable (env : NodeEnv SE) (d : BlockDownloader) (b : Block × Nat) : Prop where
  admits : d.queuedBlocks.Admits b.2 (env.hashOf b.1)
  weighs : ∀ c ∈ d.downloadedBlocks, env.hashOf c = env.hashOf b.1 →
    calculateBlockMemoryUsage env c = calculateBlockMemoryUsage env b.1

/-! ## Adding blocks -/

theorem KeptBooks.insertBlock {b : Block × Nat} (h : d.KeptBooks env) (hb : d.Bookable env b) :
    (d.insertBlock env b.2 (env.hashOf b.1) b.1).KeptBooks env := by
  refine ⟨h.inverse.insert hb.admits _, ?_, ?_, ?_⟩
  · show d.downloadedBlocksMemory + _ = memoryOf env (d.downloadedBlocks ++ [b.1])
    rw [h.memory]
    simp [memoryOf]
  · intro c hc
    show (Function.update d.queuedBlocks.hash2number (env.hashOf b.1) (some b.2)
      (env.hashOf c)).isSome
    by_cases heq : env.hashOf c = env.hashOf b.1
    · rw [heq, Function.update_self]
      rfl
    · rw [Function.update_of_ne heq]
      rcases List.mem_append.mp hc with hold | hnew
      · exact h.numbered c hold
      · exact absurd (congrArg env.hashOf (List.mem_singleton.mp hnew)) heq
  · intro c hc
    show Function.update d.queuedBlocks.blockMemory (env.hashOf b.1)
      (some (calculateBlockMemoryUsage env b.1)) (env.hashOf c) = _
    rcases List.mem_append.mp hc with hold | hnew
    · by_cases heq : env.hashOf c = env.hashOf b.1
      · rw [heq, Function.update_self, hb.weighs c hold heq]
      · rw [Function.update_of_ne heq]
        exact h.weighed c hold
    · rw [List.mem_singleton.mp hnew, Function.update_self]

/-- A block that can be booked can still be booked after another one with another number. -/
theorem Bookable.insertBlock {b c : Block × Nat} (h : d.Bookable env b) (hnumber : b.2 ≠ c.2)
    (hhash : env.hashOf b.1 ≠ env.hashOf c.1) :
    (d.insertBlock env c.2 (env.hashOf c.1) c.1).Bookable env b := by
  refine ⟨h.admits.insert hnumber hhash _, ?_⟩
  intro a ha heq
  rcases List.mem_append.mp ha with hold | hnew
  · exact h.weighs a hold heq
  · rw [List.mem_singleton.mp hnew] at heq
    exact absurd heq.symm hhash

theorem KeptBooks.storeAll {blocks : List (Block × Nat)} (h : d.KeptBooks env)
    (hdistinct : DistinctHashes env blocks) (hnumbers : (blocks.map Prod.snd).Nodup)
    (hblocks : ∀ b ∈ blocks, d.Bookable env b) : (storeAll env blocks d).KeptBooks env := by
  induction blocks generalizing d with
  | nil => exact h
  | cons b blocks ih =>
    obtain ⟨hhash, hdistinct⟩ := List.nodup_cons.mp hdistinct
    obtain ⟨hnumber, hnumbers⟩ := List.nodup_cons.mp hnumbers
    rw [List.forall_mem_cons] at hblocks
    refine ih (h.insertBlock hblocks.1) hdistinct hnumbers fun c hc => ?_
    refine (hblocks.2 c hc).insertBlock ?_ ?_
    · exact fun heq => hnumber (List.mem_map.mpr ⟨c, hc, heq⟩)
    · exact fun heq => hhash (List.mem_map.mpr ⟨c, hc, heq⟩)

/-! ## Taking blocks out -/

/-- The loop of `prepare_blocks_for_import` over blocks that are in the books. -/
theorem prepareBlocks_ok {q : QueuedBlocks} (maxBlockNumber : Option Nat) {blocks : List Block}
    (hnumbered : ∀ b ∈ blocks, (q.hash2number (env.hashOf b)).isSome)
    (hweighed : ∀ b ∈ blocks,
      q.blockMemory (env.hashOf b) = some (calculateBlockMemoryUsage env b)) (acc : Prepared) :
    ∃ acc', blocks.foldlM (prepareBlock env q maxBlockNumber) acc = .ok acc' ∧
      acc'.memoryFreed = acc.memoryFreed + memoryOf env blocks ∧
      ∀ b ∈ acc'.blocks, b ∈ acc.blocks ∨ q.hash2number (env.hashOf b.2) = some b.1 := by
  induction blocks generalizing acc with
  | nil => exact ⟨acc, rfl, rfl, fun b hb => .inl hb⟩
  | cons block blocks ih =>
    rw [List.forall_mem_cons] at hnumbered hweighed
    obtain ⟨number, hnumber⟩ := Option.isSome_iff_exists.mp hnumbered.1
    obtain ⟨acc1, hstep, hfreed, hblocks⟩ : ∃ acc1,
        prepareBlock env q maxBlockNumber acc block = .ok acc1 ∧
        acc1.memoryFreed = acc.memoryFreed + calculateBlockMemoryUsage env block ∧
        ∀ b ∈ acc1.blocks, b ∈ acc.blocks ∨ q.hash2number (env.hashOf b.2) = some b.1 := by
      simp only [prepareBlock, QueuedBlocks.blockNumber, QueuedBlocks.blockMemoryUsage, hnumber,
        hweighed.1, expect_some, ok_bind, Option.getD_some]
      split
      · exact ⟨_, rfl, rfl, fun b hb => .inl hb⟩
      · refine ⟨_, rfl, rfl, fun b hb => ?_⟩
        rcases List.mem_append.mp hb with hold | hnew
        · exact .inl hold
        · rw [List.mem_singleton.mp hnew]
          exact .inr hnumber
    obtain ⟨acc', hrest, hfreed', hblocks'⟩ := ih hnumbered.2 hweighed.2 acc1
    refine ⟨acc', ?_, ?_, ?_⟩
    · rw [List.foldlM_cons, hstep, ok_bind, hrest]
    · rw [hfreed', hfreed, Nat.add_assoc]
      rfl
    · intro b hb
      rcases hblocks' b hb with hold | hnew
      · exact hblocks b hold
      · exact .inr hnew

/-- The blocks leave with their own hashes, and their memory is given back. -/
theorem KeptBooks.prepareBlocksForImport (h : d.KeptBooks env) (maxBlockNumber : Option Nat) :
    ∃ blocks inQueue, d.prepareBlocksForImport env maxBlockNumber =
      .ok ((blocks.map env.hashOf, blocks),
        { d with
          downloadedBlocks := []
          blocksInQueue := inQueue
          downloadedBlocksMemory := 0 }) := by
  obtain ⟨prepared, hprepared, hfreed, hnumbers⟩ :=
    prepareBlocks_ok maxBlockNumber h.numbered h.weighed ⟨d.blocksInQueue, [], 0⟩
  have hhashes : (prepared.blocks.insertionSort fun a b => a.1 ≤ b.1).mapM (fun b =>
      (expect (d.queuedBlocks.blockHash b.1)
        "Corrupted state, hash for {number} not found in `queued_blocks`" :
        Outcome Empty BlockHash)) = .ok _ :=
    mapM_eq_ok_map (g := fun b => env.hashOf b.2) fun b hb => by
      rw [List.mem_insertionSort] at hb
      rcases hnumbers b hb with hnone | hnumber
      · cases hnone
      · rw [QueuedBlocks.blockHash, (h.inverse _ _).mpr hnumber]
        rfl
  refine ⟨(prepared.blocks.insertionSort fun a b => a.1 ≤ b.1).map Prod.snd,
    prepared.blocksInQueue, ?_⟩
  unfold BlockDownloader.prepareBlocksForImport
  rw [hprepared, ok_bind]
  dsimp only
  rw [hhashes, ok_bind, hfreed, h.memory, List.map_map]
  simp

theorem KeptBooks.handleProcessedBlocks (h : d.KeptBooks env) {results : ImportResults}
    (hresults : ∀ result ∈ results, ∀ b ∈ d.downloadedBlocks, env.hashOf b ≠ result.2) :
    Post (KeptBooks env) (d.handleProcessedBlocks m results) := by
  intro d' hd'
  refine (foldlM_invariant (I := fun d1 => d1.KeptBooks env ∧
    d1.downloadedBlocks = d.downloadedBlocks) ?_ ⟨?_, rfl⟩ hd').1
  · intro d1 result d2 hresult hd1 hok
    obtain ⟨-, heq⟩ | ⟨-, hpanic⟩ := handleProcessedBlock_ok (d := d1) result
    · rw [heq] at hok
      cases hok
      have hother (b : Block) (hb : b ∈ d1.downloadedBlocks) : env.hashOf b ≠ result.2 :=
        hresults result hresult b (hd1.2 ▸ hb)
      refine ⟨⟨hd1.1.inverse.remove _, hd1.1.memory, ?_, ?_⟩, hd1.2⟩
      · intro b hb
        show (Function.update d1.queuedBlocks.hash2number result.2 none (env.hashOf b)).isSome
        rw [Function.update_of_ne (hother b hb)]
        exact hd1.1.numbered b hb
      · intro b hb
        show Function.update d1.queuedBlocks.blockMemory result.2 none (env.hashOf b) = _
        rw [Function.update_of_ne (hother b hb)]
        exact hd1.1.weighed b hb
    · rw [hok] at hpanic
      cases hpanic
  · exact ⟨h.inverse, h.memory, h.numbered, h.weighed⟩

/-! ## Runs -/

/-- The block and the orphans that it connects can be booked, under the numbers that follow that of
the parent. -/
def Receivable (env : NodeEnv SE) (m : Moment) (d : BlockDownloader) (block : Block) : Prop :=
  ∀ parent, d.numberOf m block.header.prevBlockhash = some parent →
    ∀ i b, (block :: d.released env m block)[i]? = some b → d.Bookable env (b, parent + 1 + i)

/-- Blocks that come can be booked, and results of the import queue do not name blocks that have not
left for it. -/
def Op.KeepsBooks (env : NodeEnv SE) (m : Moment) (d : BlockDownloader) : Op → Prop
  | receive block => d.Receivable env m block
  | handleProcessedBlocks results =>
    ∀ result ∈ results, ∀ b ∈ d.downloadedBlocks, env.hashOf b ≠ result.2
  | _ => True

variable {B : Block → Prop}

section

variable (tree : BlockTree env B) (hindexed : d.orphanBlocksPool.Indexed env)
  (hall : d.orphanBlocksPool.All B) (h : d.KeptBooks env)

include tree hindexed hall h

theorem KeptBooks.receive {block : Block} (hreceivable : d.Receivable env m block) :
    (d.receive env m block).2.KeptBooks env := by
  cases hparent : d.numberOf m block.header.prevBlockhash with
  | none =>
    rw [receive_of_unknown hparent]
    exact h
  | some parent =>
    rw [receive_of_parent hparent, addBlock_eq]
    have hdistinct : DistinctHashes env (d.stored env m (parent + 1) block) :=
      distinctHashes_stored tree hindexed hall
    have hnumbers : ((d.stored env m (parent + 1) block).map Prod.snd).Nodup := by
      unfold stored
      rw [List.zipIdx_map_snd]
      exact List.nodup_range'
    have hstored := h.storeAll hdistinct hnumbers fun b hb => by
      obtain ⟨hle, hplace⟩ := List.mk_mem_zipIdx_iff_le_and_getElem?_sub.mp hb
      have hbook := hreceivable parent hparent _ b.1 hplace
      rwa [Nat.add_sub_cancel' hle] at hbook
    exact ⟨hstored.inverse, hstored.memory, hstored.numbered, hstored.weighed⟩

theorem KeptBooks.apply {op : Op} (hop : op.KeepsBooks env m d) :
    Post (fun r => r.2.KeptBooks env) (BlockDownloader.apply env (op, m) d) := by
  have hsame : ∀ {d' : BlockDownloader}, d'.queuedBlocks = d.queuedBlocks →
      d'.downloadedBlocksMemory = d.downloadedBlocksMemory →
      d'.downloadedBlocks = d.downloadedBlocks → d'.KeptBooks env := by
    intro d' hqueued hmemory hdownloaded
    exact ⟨hqueued ▸ h.inverse, by rw [hmemory, hdownloaded, h.memory],
      by rw [hqueued, hdownloaded]; exact h.numbered, by rw [hqueued, hdownloaded]; exact h.weighed⟩
  cases op with
  | receive block => exact post_ok.mpr (h.receive tree hindexed hall hop)
  | addUnknownBlock block =>
    refine Post.bind (P := KeptBooks env) ?_ fun d' hd' => post_ok.mpr hd'
    exact post_self.bind fun _ _ => post_ok.mpr (hsame rfl rfl rfl)
  | prepareBlocksForImport maxBlockNumber =>
    obtain ⟨blocks, inQueue, hprepare⟩ := h.prepareBlocksForImport maxBlockNumber
    refine post_self.bind fun r hr => post_ok.mpr ?_
    rw [hprepare] at hr
    cases hr
    exact ⟨h.inverse, rfl, nofun, nofun⟩
  | handleProcessedBlocks results =>
    exact (h.handleProcessedBlocks hop).bind fun d' hd' => post_ok.mpr hd'
  | addOrphanBlock | onBlockResponse | touchProgress | setMissingBlocks | evaluateQueueStatus
    | scheduleNextDownloadBatch | restart => exact post_ok.mpr (hsame rfl rfl rfl)

end

/-- A new downloader. -/
def Initial (d : BlockDownloader) : Prop :=
  ∃ m peerId best memoryConfig, d = .new m peerId best memoryConfig

end BlockDownloader

/-- In every run over the blocks of a tree where each block that comes can be booked, and where
results name only blocks that have left, the books are right. -/
theorem rightBooks_of_runs {SE : Type} (env : NodeEnv SE) (B : Block → Prop)
    (tree : BlockTree env B) (d : BlockDownloader)
    (hrun : Runs BlockDownloader.Initial (BlockDownloader.apply env)
      (fun op d => op.1.Among B ∧ op.1.KeepsBooks env op.2 d) d) : d.RightBooks env := by
  have hkept : (d.orphanBlocksPool.Indexed env ∧ d.orphanBlocksPool.All B) ∧ d.KeptBooks env := by
    refine Runs.invariant (I := fun d =>
      (d.orphanBlocksPool.Indexed env ∧ d.orphanBlocksPool.All B) ∧ d.KeptBooks env) ?_ ?_ hrun
    · rintro d ⟨m, peerId, best, memoryConfig, rfl⟩
      exact ⟨⟨OrphanBlocksPool.indexed_new, nofun⟩,
        ⟨QueuedBlocks.inverse_default, rfl, nofun, nofun⟩⟩
    · intro op d a d' _ hcond h happly
      exact ⟨BlockDownloader.post_apply_pool tree.names hcond.1 h.1.1 h.1.2 _ happly,
        h.2.apply tree h.1.1 h.1.2 hcond.2 _ happly⟩
  refine ⟨hkept.2.inverse, hkept.2.memory, fun maxBlockNumber => ?_⟩
  obtain ⟨blocks, inQueue, hprepare⟩ := hkept.2.prepareBlocksForImport maxBlockNumber
  exact ⟨blocks, _, hprepare⟩

namespace Reference

open Subcoin.Reference (env)

/-- Another block on the genesis block. -/
def rival : Block := blockOn genesisHash 9

/-- The first block again, with a transaction more that its header does not know of. -/
def heavy : Block := { block₁ with txdata := block₁.txdata ++ block₁.txdata }

def rivals : List Block := [block₁, rival, heavy]

def startDownloader : BlockDownloader := .new (moment 0) (peer 1) 0 .default

/-- What leaves for the import queue, and results for what has left. -/
def ofQueue (op : BlockDownloader.Op × Moment) (d : BlockDownloader) : Bool :=
  match op.1 with
  | .prepareBlocksForImport _ => true
  | .handleProcessedBlocks results =>
    results.all fun result => d.downloadedBlocks.all fun b => env.hashOf b ≠ result.2
  | _ => false

theorem keepsBooks_of_ofQueue (op : BlockDownloader.Op × Moment) (d : BlockDownloader)
    (h : ofQueue op d = true) : op.1.Among (· ∈ family) ∧ op.1.KeepsBooks env op.2 d := by
  obtain ⟨op, m⟩ := op
  cases op with
  | prepareBlocksForImport => exact ⟨trivial, trivial⟩
  | handleProcessedBlocks results =>
    simp only [ofQueue, List.all_eq_true, decide_eq_true_eq] at h
    exact ⟨trivial, h⟩
  | _ => cases h

/-- Two orphans have come, and the books are empty. -/
def orphaned : BlockDownloader :=
  (startDownloader.addOrphanBlock env block₃).addOrphanBlock env block₂

theorem runs_received :
    Runs BlockDownloader.Initial (BlockDownloader.apply env)
      (fun op d => op.1.Among (· ∈ family) ∧ op.1.KeepsBooks env op.2 d)
      (orphaned.receive env (moment 2) block₁).2 := by
  -- no book has an entry that could stand in the way
  have hbooks : orphaned.Receivable env (moment 2) block₁ :=
    fun _ _ _ _ _ => ⟨⟨nofun, nofun⟩, nofun⟩
  have hmem : block₁ ∈ family ∧ block₂ ∈ family ∧ block₃ ∈ family := by simp [family, orphans]
  generalize hreceive : orphaned.receive env (moment 2) block₁ = r
  obtain ⟨stored, received⟩ := r
  refine .step (.receive block₁, moment 2) ?_ ⟨hmem.1, hbooks⟩ (congrArg Outcome.ok hreceive)
  refine .step (.addOrphanBlock block₂, moment 1) ?_ ⟨hmem.2.1, trivial⟩ rfl
  exact .step (.addOrphanBlock block₃, moment 0) (.init ⟨_, _, _, _, rfl⟩) ⟨hmem.2.2, trivial⟩ rfl

/-- The books of the line of blocks: the number of the block that the queue still has. -/
theorem rightBooks_line :
    ∃ d : BlockDownloader, d.blockNumber (env.hashOf block₁) = none ∧
      d.blockNumber (env.hashOf block₃) = some 3 ∧ d.RightBooks env := by
  obtain ⟨d, hrun, hd⟩ := runs_received.exists_of_checked
    (P := fun d => d.blockNumber (env.hashOf block₁) = none ∧
      d.blockNumber (env.hashOf block₃) = some 3) keepsBooks_of_ofQueue
    (show (Runs.exec _ (lineOps.drop 3) _).any _ = true by decide +kernel)
  obtain ⟨hleft, hqueued⟩ := of_decide_eq_true hd
  exact ⟨d, hleft, hqueued, rightBooks_of_runs env _ familyTree d hrun⟩

/-- What has been evaluated of two downloads. -/
def unbooked (d : BlockDownloader) : Bool :=
  d.queuedBlocks.hash2number (env.hashOf block₁) = some 1 &&
    d.queuedBlocks.number2hash 1 = some (env.hashOf rival) &&
    Outcome.anyOk (fun r => r.1.1 ≠ r.1.2.map env.hashOf) (d.prepareBlocksForImport env none)

/-- Two blocks of one height: the second one takes the number over, and the first one leaves under
its hash. A block that comes with another body: memory that has been given back still counts. -/
theorem not_rightBooks_rivals :
    (∃ d, Runs BlockDownloader.Initial (BlockDownloader.apply env)
        (fun op _ => op.1.Among (· ∈ rivals)) d ∧ ¬ d.queuedBlocks.Inverse ∧
      ∃ r, d.prepareBlocksForImport env none = .ok r ∧ r.1.1 ≠ r.1.2.map env.hashOf) ∧
    ∃ d, Runs BlockDownloader.Initial (BlockDownloader.apply env)
        (fun op _ => op.1.Among (· ∈ rivals)) d ∧ d.downloadedBlocks = [] ∧
      d.downloadedBlocksMemory ≠ BlockDownloader.memoryOf env d.downloadedBlocks := by
  have hinit : startDownloader.Initial := ⟨_, _, _, _, rfl⟩
  constructor
  · have heval : (Runs.exec (BlockDownloader.apply env)
        [(.receive block₁, moment 0), (.receive rival, moment 1)] startDownloader).any
        unbooked = true := by
      decide +kernel
    obtain ⟨d, hrun, hd⟩ : ∃ d, Runs BlockDownloader.Initial (BlockDownloader.apply env)
        (fun op _ => op.1.Among (· ∈ rivals)) d ∧ unbooked d = true := by
      refine Runs.exists_of_exec hinit ?_ heval
      simp [BlockDownloader.Op.Among, rivals]
    simp only [unbooked, Bool.and_eq_true, decide_eq_true_eq] at hd
    obtain ⟨⟨hhash, hnumber⟩, hprepare⟩ := hd
    refine ⟨d, hrun, fun hinverse => ?_, ?_⟩
    · have hsame : some (env.hashOf block₁) = some (env.hashOf rival) :=
        ((hinverse _ _).mpr hhash).symm.trans hnumber
      revert hsame
      decide +kernel
    · obtain ⟨r, hr, hwrong⟩ := Outcome.anyOk_eq_true.mp hprepare
      exact ⟨r, hr, of_decide_eq_true hwrong⟩
  · have heval : (Runs.exec (BlockDownloader.apply env)
        [(.receive heavy, moment 0), (.receive block₁, moment 1),
          (.prepareBlocksForImport none, moment 2)] startDownloader).any
        (fun d => d.downloadedBlocks = [] ∧
          d.downloadedBlocksMemory ≠ BlockDownloader.memoryOf env d.downloadedBlocks) = true := by
      decide +kernel
    obtain ⟨d, hrun, hd⟩ : ∃ d, Runs BlockDownloader.Initial (BlockDownloader.apply env)
        (fun op _ => op.1.Among (· ∈ rivals)) d ∧ _ = true := by
      refine Runs.exists_of_exec hinit ?_ heval
      simp [BlockDownloader.Op.Among, rivals]
    exact ⟨d, hrun, of_decide_eq_true hd⟩

end Reference

end Subcoin.Sync
