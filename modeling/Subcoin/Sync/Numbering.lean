import Subcoin.Sync.OrphanTree

/-!
# Subcoin — the numbers of downloaded blocks

A block that is added gets the number after its parent's. The orphans that it connects get the
numbers that follow, one after the other in the order of the search. That is right for a chain of
orphans, and wrong as soon as two of them share a parent: the second one gets a number that is too
large, and so does everything after it.
-/

namespace Subcoin.Sync

open Outcome

/-- Blocks as they are in a tree: the hash names the parent, and a block is one above it. -/
structure BlockTree {SE : Type} (env : NodeEnv SE) (B : Block → Prop) where
  height : BlockHash → Nat
  names : OrphanBlocksPool.NamesParent env B
  height_hash : ∀ {b}, B b → height (env.hashOf b) = height b.header.prevBlockhash + 1

namespace BlockDownloader

variable {SE : Type} {env : NodeEnv SE} {m : Moment} {d : BlockDownloader} {block : Block}
  {number : Nat}

/-! ## What is stored -/

/-- The number of a block: recorded in the downloader, or in the chain. -/
def numberOf (m : Moment) (d : BlockDownloader) (hash : BlockHash) : Option Nat :=
  (d.blockNumber hash).or (m.client.blockNumber hash)

/-- The orphans that a block connects. -/
def released (env : NodeEnv SE) (m : Moment) (d : BlockDownloader) (block : Block) : List Block :=
  (d.orphanBlocksPool.removeBlocksForParent m.order (env.hashOf block)).1

/-- The blocks that `add_block` stores, with the numbers it gives them. -/
def stored (env : NodeEnv SE) (m : Moment) (d : BlockDownloader) (number : Nat) (block : Block) :
    List (Block × Nat) := (block :: d.released env m block).zipIdx number

/-- Blocks are stored with their numbers, one after the other. -/
def storeAll (env : NodeEnv SE) (blocks : List (Block × Nat)) (d : BlockDownloader) :
    BlockDownloader :=
  blocks.foldl (fun d b => d.insertBlock env b.2 (env.hashOf b.1) b.1) d

theorem storeAll_pool (blocks : List (Block × Nat)) (pool : OrphanBlocksPool) :
    storeAll env blocks { d with orphanBlocksPool := pool } =
      { storeAll env blocks d with orphanBlocksPool := pool } := by
  induction blocks generalizing d with
  | nil => rfl
  | cons b blocks ih => exact ih (d := d.insertBlock env b.2 (env.hashOf b.1) b.1)

theorem insertChildren_eq (children : List Block) :
    d.insertChildren env number children = storeAll env (children.zipIdx (number + 1)) d := by
  unfold insertChildren storeAll
  conv_rhs => rw [List.zipIdx_eq_map_add, List.foldl_map]
  congr 1
  funext d child
  rw [Nat.add_right_comm]

theorem addBlock_eq :
    d.addBlock env m number (env.hashOf block) block =
      { storeAll env (d.stored env m number block) d with
        orphanBlocksPool := (d.orphanBlocksPool.removeBlocksForParent m.order (env.hashOf block)).2
        downloadedBlocksCount :=
          (storeAll env (d.stored env m number block) d).downloadedBlocksCount + 1 } := by
  unfold addBlock
  dsimp only
  rw [insertChildren_eq, storeAll_pool]
  rfl

/-! ## The records -/

/-- The blocks of a list have different hashes. -/
def DistinctHashes (env : NodeEnv SE) (blocks : List (Block × Nat)) : Prop :=
  (blocks.map fun b => env.hashOf b.1).Nodup

variable {blocks : List (Block × Nat)}

theorem storeAll_other {hash : BlockHash} (h : ∀ b ∈ blocks, env.hashOf b.1 ≠ hash) :
    (storeAll env blocks d).blockNumber hash = d.blockNumber hash := by
  unfold storeAll
  induction blocks generalizing d with
  | nil => rfl
  | cons b blocks ih =>
    rw [List.forall_mem_cons] at h
    rw [List.foldl_cons, ih h.2]
    exact Function.update_of_ne h.1.symm ..

theorem storeAll_number (hdistinct : DistinctHashes env blocks) {b : Block × Nat}
    (hmem : b ∈ blocks) : (storeAll env blocks d).blockNumber (env.hashOf b.1) = some b.2 := by
  induction blocks generalizing d with
  | nil => cases hmem
  | cons b' blocks ih =>
    obtain ⟨hnot, hdistinct⟩ := List.nodup_cons.mp hdistinct
    rcases List.mem_cons.mp hmem with rfl | hmem
    · have hothers : ∀ c ∈ blocks, env.hashOf c.1 ≠ env.hashOf b.1 :=
        fun c hc heq => hnot (List.mem_map.mpr ⟨c, hc, heq⟩)
      have hkept := storeAll_other (d := d.insertBlock env b.2 (env.hashOf b.1) b.1) hothers
      exact hkept.trans (Function.update_self ..)
    · exact ih hdistinct hmem

theorem storeAll_bestQueuedNumber (blocks : List (Block × Nat)) :
    (storeAll env blocks d).bestQueuedNumber =
      (blocks.map Prod.snd).foldl max d.bestQueuedNumber := by
  unfold storeAll
  induction blocks generalizing d with
  | nil => rfl
  | cons b blocks ih =>
    rw [List.foldl_cons, ih]
    rfl

/-! ## The numbers of one call -/

section Numbers

variable {B : Block → Prop}

open OrphanBlocksPool (Descends)

/-- Every block that the call stores is recorded one above its parent. -/
def Numbered (env : NodeEnv SE) (m : Moment) (d : BlockDownloader) (number : Nat) (block : Block) :
    Prop :=
  ∀ b ∈ block :: d.released env m block, ∃ parent,
    (d.addBlock env m number (env.hashOf block) block).numberOf m b.header.prevBlockhash =
        some parent ∧
      (d.addBlock env m number (env.hashOf block) block).blockNumber (env.hashOf b) =
        some (parent + 1)

/-- No two orphans that descend from a block share a parent. -/
def NoSiblings (env : NodeEnv SE) (d : BlockDownloader) (block : Block) : Prop :=
  ∀ a b, Descends env d.orphanBlocksPool (env.hashOf block) a →
    Descends env d.orphanBlocksPool (env.hashOf block) b →
    a.header.prevBlockhash = b.header.prevBlockhash → env.hashOf a = env.hashOf b

variable {b : Block} {i : Nat}

/-- A block that descends from a hash is above it. -/
theorem height_lt_of_descends (tree : BlockTree env B) {pool : OrphanBlocksPool}
    (hall : pool.All B) {root : BlockHash} (h : Descends env pool root b) :
    tree.height root < tree.height (env.hashOf b) := by
  induction h with
  | child hstored hparent =>
    rw [tree.height_hash (hall _ _ hstored), hparent]
    exact Nat.lt_succ_self _
  | step _ hstored hparent ih =>
    rw [tree.height_hash (hall _ _ hstored), hparent]
    exact Nat.lt_succ_of_lt ih

theorem mem_released (h : d.orphanBlocksPool.Indexed env) :
    b ∈ d.released env m block ↔ Descends env d.orphanBlocksPool (env.hashOf block) b :=
  (h.removesSubtree (env.hashOf block)).returned b

/-- Every block but the first is stored after its parent. -/
theorem exists_parent (h : d.orphanBlocksPool.Indexed env)
    (hb : (block :: d.released env m block)[i + 1]? = some b) :
    ∃ j < i + 1, ∃ p, (block :: d.released env m block)[j]? = some p ∧
      env.hashOf p = b.header.prevBlockhash := by
  rw [List.getElem?_cons_succ] at hb
  rcases (h.removesSubtree (env.hashOf block)).ordered i b hb with hroot | ⟨j, hj, p, hp, heq⟩
  · exact ⟨0, Nat.succ_pos i, block, rfl, hroot.symm⟩
  · exact ⟨j + 1, Nat.succ_lt_succ hj, p, hp, heq⟩

variable (tree : BlockTree env B) (h : d.orphanBlocksPool.Indexed env)
  (hall : d.orphanBlocksPool.All B)

include tree hall h

/-- The blocks that are stored have different hashes. -/
theorem nodup_hashes : ((block :: d.released env m block).map env.hashOf).Nodup := by
  rw [List.map_cons, List.nodup_cons]
  refine ⟨fun hmem => ?_, (h.removesSubtree (env.hashOf block)).once⟩
  obtain ⟨b, hb, heq⟩ := List.mem_map.mp hmem
  have hlt := height_lt_of_descends tree hall ((mem_released h).mp hb)
  rw [heq] at hlt
  exact Nat.lt_irrefl _ hlt

theorem place_unique {j : Nat} {a : Block} (ha : (block :: d.released env m block)[i]? = some a)
    (hb : (block :: d.released env m block)[j]? = some b) (heq : env.hashOf a = env.hashOf b) :
    i = j := by
  have hlt : i < ((block :: d.released env m block).map env.hashOf).length := by
    rw [List.length_map]
    exact (List.getElem?_eq_some_iff.mp ha).1
  refine (List.getElem?_inj hlt (nodup_hashes tree h hall)).mp ?_
  rw [List.getElem?_map, List.getElem?_map, ha, hb, Option.map_some, Option.map_some, heq]

theorem distinctHashes_stored : DistinctHashes env (d.stored env m number block) := by
  have hnodup : ((block :: d.released env m block).map env.hashOf).Nodup :=
    nodup_hashes tree h hall
  rw [← List.zipIdx_map_fst number (block :: d.released env m block), List.map_map] at hnodup
  exact hnodup

/-- The blocks are recorded by their place. -/
theorem blockNumber_addBlock (hb : (block :: d.released env m block)[i]? = some b) :
    (d.addBlock env m number (env.hashOf block) block).blockNumber (env.hashOf b) =
      some (number + i) := by
  rw [addBlock_eq]
  refine storeAll_number (distinctHashes_stored tree h hall) (b := (b, number + i)) ?_
  unfold stored
  rw [List.mk_mem_zipIdx_iff_le_and_getElem?_sub, Nat.add_sub_cancel_left]
  exact ⟨Nat.le_add_right _ _, hb⟩

/-- Without siblings the blocks are one chain. -/
theorem parent_before (hno : NoSiblings env d block) {p : Block}
    (hb : (block :: d.released env m block)[i + 1]? = some b)
    (hp : (block :: d.released env m block)[i]? = some p) :
    env.hashOf p = b.header.prevBlockhash := by
  -- by induction on the place: a parent further up has another child already
  induction i using Nat.strong_induction_on generalizing b p with
  | _ i ih =>
    obtain ⟨j, hj, q, hq, heq⟩ := exists_parent h hb
    rcases Nat.lt_succ_iff_lt_or_eq.mp hj with hlt | rfl
    · have hlength := (List.getElem?_eq_some_iff.mp hp).1
      obtain ⟨c, hc⟩ : ∃ c, (block :: d.released env m block)[j + 1]? = some c :=
        ⟨_, List.getElem?_eq_getElem (by omega)⟩
      have hparent := ih j hlt hc hq
      have hsame : env.hashOf c = env.hashOf b := by
        refine hno c b ?_ ?_ (hparent.symm.trans heq)
        · exact (mem_released h).mp (List.mem_of_getElem? (List.getElem?_cons_succ ▸ hc))
        · exact (mem_released h).mp (List.mem_of_getElem? (List.getElem?_cons_succ ▸ hb))
      have hplace := place_unique tree h hall hc hb hsame
      omega
    · rw [hp] at hq
      cases hq
      exact heq

/-- The parent of the block that is added keeps its number. -/
theorem numberOf_parent (hblock : B block) :
    (d.addBlock env m number (env.hashOf block) block).numberOf m block.header.prevBlockhash =
      d.numberOf m block.header.prevBlockhash := by
  have hother : ∀ b ∈ d.stored env m number block,
      env.hashOf b.1 ≠ block.header.prevBlockhash := by
    intro b hb heq
    have hheight := tree.height_hash hblock
    rcases List.mem_cons.mp (List.fst_mem_of_mem_zipIdx hb) with hself | hchild
    · rw [← heq, hself] at hheight
      omega
    · have hlt := height_lt_of_descends tree hall ((mem_released h).mp hchild)
      rw [heq] at hlt
      omega
  have hsame : (d.addBlock env m number (env.hashOf block) block).blockNumber
      block.header.prevBlockhash = d.blockNumber block.header.prevBlockhash := by
    rw [addBlock_eq]
    exact storeAll_other hother
  unfold numberOf
  rw [hsame]

/-- The parent of a block that is stored in its place is recorded by its own place. -/
theorem numberOf_place {p : Block} (hp : (block :: d.released env m block)[i]? = some p) :
    (d.addBlock env m number (env.hashOf block) block).numberOf m (env.hashOf p) =
      some (number + i) := by
  unfold numberOf
  rw [blockNumber_addBlock tree h hall hp]
  rfl

/-- The numbers are right if and only if no two of the orphans share a parent. -/
theorem numbered_iff {parent : Nat} (hblock : B block)
    (hparent : d.numberOf m block.header.prevBlockhash = some parent) :
    Numbered env m d (parent + 1) block ↔ NoSiblings env d block := by
  constructor
  · intro hnumbered a b ha hb heq
    have hplace {c : Block} (hc : Descends env d.orphanBlocksPool (env.hashOf block) c) :
        ∃ i, (block :: d.released env m block)[i]? = some c ∧
          (d.addBlock env m (parent + 1) (env.hashOf block) block).numberOf m
            c.header.prevBlockhash = some (parent + i) := by
      have hmem : c ∈ block :: d.released env m block :=
        List.mem_cons_of_mem block ((mem_released h).mpr hc)
      obtain ⟨i, hi⟩ := List.mem_iff_getElem?.mp hmem
      obtain ⟨n, hn, hnumber⟩ := hnumbered c hmem
      rw [blockNumber_addBlock tree h hall hi, Option.some.injEq] at hnumber
      exact ⟨i, hi, hn.trans (congrArg some (by omega))⟩
    obtain ⟨i, hi, hni⟩ := hplace ha
    obtain ⟨j, hj, hnj⟩ := hplace hb
    rw [heq, hnj, Option.some.injEq] at hni
    obtain rfl : j = i := by omega
    rw [hi] at hj
    cases hj
    rfl
  · intro hno b hb
    obtain ⟨i, hi⟩ := List.mem_iff_getElem?.mp hb
    have hnumber : (d.addBlock env m (parent + 1) (env.hashOf block) block).blockNumber
        (env.hashOf b) = some (parent + 1 + i) := blockNumber_addBlock tree h hall hi
    cases i with
    | zero =>
      cases hi
      exact ⟨parent, (numberOf_parent tree h hall hblock).trans hparent, hnumber⟩
    | succ i =>
      obtain ⟨p, hp⟩ : ∃ p, (block :: d.released env m block)[i]? = some p := by
        have hlength := (List.getElem?_eq_some_iff.mp hi).1
        exact ⟨_, List.getElem?_eq_getElem (by omega)⟩
      refine ⟨parent + 1 + i, ?_, hnumber⟩
      rw [← parent_before tree h hall hno hi hp]
      exact numberOf_place tree h hall hp

end Numbers

/-! ## Runs -/

/-- What both strategies do with a block whose parent has a number, and what they store. -/
def receive (env : NodeEnv SE) (m : Moment) (d : BlockDownloader) (block : Block) :
    List (Block × Nat) × BlockDownloader :=
  match d.numberOf m block.header.prevBlockhash with
  | some parent => (d.stored env m (parent + 1) block,
      d.addBlock env m (parent + 1) (env.hashOf block) block)
  | none => ([], d)

theorem receive_of_parent {parent : Nat}
    (hparent : d.numberOf m block.header.prevBlockhash = some parent) :
    d.receive env m block = (d.stored env m (parent + 1) block,
      d.addBlock env m (parent + 1) (env.hashOf block) block) := by
  unfold receive
  rw [hparent]

theorem receive_of_unknown (hparent : d.numberOf m block.header.prevBlockhash = none) :
    d.receive env m block = ([], d) := by
  unfold receive
  rw [hparent]

/-- What can be done to the downloader. -/
inductive Op where
  | receive (block : Block)
  | addOrphanBlock (block : Block)
  | addUnknownBlock (block : Block)
  | onBlockResponse (hash : BlockHash)
  | touchProgress
  | setMissingBlocks (missing : List BlockHash)
  | evaluateQueueStatus (bestNumber : Nat)
  | scheduleNextDownloadBatch
  | restart (newPeer : PeerId)
  | prepareBlocksForImport (maxBlockNumber : Option Nat)
  | handleProcessedBlocks (results : ImportResults)

/-- An operation returns the blocks that it has stored, with their numbers. -/
def apply (env : NodeEnv SE) :
    Op × Moment → BlockDownloader → Outcome Empty (List (Block × Nat) × BlockDownloader)
  | (.receive block, m), d => .ok (d.receive env m block)
  | (.addOrphanBlock block, _), d => .ok ([], d.addOrphanBlock env block)
  | (.addUnknownBlock block, _), d => do
    let d ← d.addUnknownBlock env block
    pure ([], d)
  | (.onBlockResponse hash, m), d => .ok ([], (d.onBlockResponse m hash).2)
  | (.touchProgress, m), d => .ok ([], d.touchProgress m)
  | (.setMissingBlocks missing, _), d => .ok ([], d.setMissingBlocks missing)
  | (.evaluateQueueStatus bestNumber, _), d => .ok ([], (d.evaluateQueueStatus bestNumber).2)
  | (.scheduleNextDownloadBatch, _), d => .ok ([], d.scheduleNextDownloadBatch.2)
  | (.restart newPeer, m), d => .ok ([], d.restart m newPeer)
  | (.prepareBlocksForImport maxBlockNumber, _), d => do
    let r ← d.prepareBlocksForImport env maxBlockNumber
    pure ([], r.2)
  | (.handleProcessedBlocks results, m), d => do
    let d ← d.handleProcessedBlocks m results
    pure ([], d)

/-- The block that an operation brings is among the given ones. -/
def Op.Among (B : Block → Prop) : Op → Prop
  | receive block => B block
  | addOrphanBlock block => B block
  | addUnknownBlock block => B block
  | _ => True

/-- Only a block that is received is stored. -/
theorem stored_of_other {op : Op} {stored : List (Block × Nat)} {d' : BlockDownloader}
    (hop : ¬ ∃ block, op = .receive block) (happly : apply env (op, m) d = .ok (stored, d')) :
    stored = [] := by
  cases op with
  | receive block => exact absurd ⟨block, rfl⟩ hop
  | addUnknownBlock | prepareBlocksForImport | handleProcessedBlocks =>
    obtain ⟨r, -, hr⟩ := bind_eq_ok.mp happly
    cases hr
    rfl
  | addOrphanBlock | onBlockResponse | touchProgress | setMissingBlocks | evaluateQueueStatus
    | scheduleNextDownloadBatch | restart =>
    cases happly
    rfl

/-- The best queued number goes up to the numbers of the blocks that are stored. -/
theorem post_apply_best (op : Op × Moment) :
    Post (fun r => r.2.bestQueuedNumber = (r.1.map Prod.snd).foldl max d.bestQueuedNumber)
      (apply env op d) := by
  obtain ⟨op, m⟩ := op
  cases op with
  | receive block =>
    refine post_ok.mpr ?_
    cases hparent : d.numberOf m block.header.prevBlockhash with
    | some parent =>
      rw [receive_of_parent hparent, addBlock_eq]
      exact storeAll_bestQueuedNumber _
    | none =>
      rw [receive_of_unknown hparent]
      rfl
  | addUnknownBlock block =>
    refine Post.bind (P := fun d' => d'.bestQueuedNumber = d.bestQueuedNumber) ?_
      fun d' hd' => post_ok.mpr hd'
    exact post_self.bind fun _ _ => post_ok.mpr rfl
  | prepareBlocksForImport maxBlockNumber =>
    refine Post.bind (post_prepareBlocksForImport_field (f := bestQueuedNumber) ?_ _)
      fun r hr => post_ok.mpr hr
    exact fun _ _ _ => rfl
  | handleProcessedBlocks results =>
    refine Post.bind (post_handleProcessedBlocks_field (f := bestQueuedNumber) ?_ ?_ _)
      fun d' hd' => post_ok.mpr hd'
    · exact fun _ _ => rfl
    · exact fun _ _ _ => rfl
  | addOrphanBlock | onBlockResponse | touchProgress | setMissingBlocks | evaluateQueueStatus
    | scheduleNextDownloadBatch | restart => exact post_ok.mpr rfl

/-- The orphans stay indexed, and are blocks that came in. -/
theorem post_apply_pool {B : Block → Prop} {op : Op × Moment}
    (hnames : OrphanBlocksPool.NamesParent env B) (hamong : op.1.Among B)
    (h : d.orphanBlocksPool.Indexed env) (hall : d.orphanBlocksPool.All B) :
    Post (fun r => r.2.orphanBlocksPool.Indexed env ∧ r.2.orphanBlocksPool.All B)
      (apply env op d) := by
  obtain ⟨op, m⟩ := op
  cases op with
  | receive block =>
    refine post_ok.mpr ?_
    cases hparent : d.numberOf m block.header.prevBlockhash with
    | some parent =>
      rw [receive_of_parent hparent, addBlock_eq]
      exact ⟨(h.removeBlocksForParent m.order _).2.indexed,
        (hall.removeBlocksForParent m.order _).2⟩
    | none =>
      rw [receive_of_unknown hparent]
      exact ⟨h, hall⟩
  | addOrphanBlock block =>
    exact post_ok.mpr
      ⟨h.insertOrphanBlock (fun {k b} => hall k b) hnames hamong, hall.insertOrphanBlock hamong⟩
  | addUnknownBlock block =>
    have hinsert : Post _ (OrphanBlocksPool.apply env (.insertUnknownBlock block, m.order) _) :=
      OrphanBlocksPool.indexed_apply hnames hamong h hall
    refine Post.bind (P := fun d' => d'.orphanBlocksPool.Indexed env ∧ d'.orphanBlocksPool.All B)
      ?_ fun d' hd' => post_ok.mpr hd'
    exact post_self.bind fun pool hpool =>
      post_ok.mpr (hinsert ((), pool) (bind_eq_ok.mpr ⟨pool, hpool, rfl⟩))
  | restart newPeer => exact post_ok.mpr ⟨OrphanBlocksPool.indexed_new, nofun⟩
  | prepareBlocksForImport maxBlockNumber =>
    refine Post.bind (post_prepareBlocksForImport_field (f := orphanBlocksPool) ?_ _)
      fun r hr => post_ok.mpr ?_
    · exact fun _ _ _ => rfl
    · rw [hr]
      exact ⟨h, hall⟩
  | handleProcessedBlocks results =>
    refine Post.bind (post_handleProcessedBlocks_field (f := orphanBlocksPool) ?_ ?_ _)
      fun d' hd' => post_ok.mpr ?_
    · exact fun _ _ => rfl
    · exact fun _ _ _ => rfl
    · rw [hd']
      exact ⟨h, hall⟩
  | onBlockResponse | touchProgress | setMissingBlocks | evaluateQueueStatus
    | scheduleNextDownloadBatch => exact post_ok.mpr ⟨h, hall⟩

end BlockDownloader

/-- A block that was stored: its number, and the number of its parent when the call was over. -/
structure Recorded where
  block : Block
  number : Nat
  parent : Option Nat

/-- The block is one above its parent. -/
def Recorded.Right (r : Recorded) : Prop := ∃ parent, r.parent = some parent ∧ r.number = parent + 1

/-- A downloader, and all that it has stored so far. -/
structure DownloadLog where
  downloader : BlockDownloader
  recorded : List Recorded

namespace DownloadLog

open BlockDownloader (NoSiblings Numbered)

variable {SE : Type} {env : NodeEnv SE} {B : Block → Prop} {best : Nat} {l : DownloadLog}

def record (m : Moment) (d : BlockDownloader) (b : Block × Nat) : Recorded :=
  ⟨b.1, b.2, d.numberOf m b.1.header.prevBlockhash⟩

def apply (env : NodeEnv SE) (op : BlockDownloader.Op × Moment) (l : DownloadLog) :
    Outcome Empty (Unit × DownloadLog) := do
  let (stored, d) ← BlockDownloader.apply env op l.downloader
  pure ((), ⟨d, l.recorded ++ stored.map (record op.2 d)⟩)

/-- The log of a downloader that starts with a best queued number. -/
def Initial (best : Nat) (l : DownloadLog) : Prop :=
  ∃ m peerId memoryConfig, l = ⟨.new m peerId best memoryConfig, []⟩

/-- A block is added only while no two orphans that descend from it share a parent. -/
def Alone (env : NodeEnv SE) (l : DownloadLog) : BlockDownloader.Op → Prop
  | .receive block => NoSiblings env l.downloader block
  | _ => True

/-- What holds in every run. -/
structure Kept (env : NodeEnv SE) (B : Block → Prop) (best : Nat) (l : DownloadLog) : Prop where
  indexed : l.downloader.orphanBlocksPool.Indexed env
  all : l.downloader.orphanBlocksPool.All B
  best : l.downloader.bestQueuedNumber = (l.recorded.map Recorded.number).foldl max best

theorem kept_initial (h : l.Initial best) : l.Kept env B best := by
  obtain ⟨m, peerId, memoryConfig, rfl⟩ := h
  exact ⟨OrphanBlocksPool.indexed_new, nofun, rfl⟩

variable {op : BlockDownloader.Op × Moment}

theorem Kept.apply {a : Unit} {l' : DownloadLog} (hnames : OrphanBlocksPool.NamesParent env B)
    (hamong : op.1.Among B) (h : l.Kept env B best) (happly : l.apply env op = .ok (a, l')) :
    l'.Kept env B best := by
  obtain ⟨⟨stored, d⟩, hd, hl'⟩ := bind_eq_ok.mp happly
  cases hl'
  obtain ⟨hindexed, hall⟩ := BlockDownloader.post_apply_pool hnames hamong h.indexed h.all _ hd
  refine ⟨hindexed, hall, ?_⟩
  have hbest : d.bestQueuedNumber = _ := BlockDownloader.post_apply_best op (stored, d) hd
  rw [hbest, h.best, List.map_append, List.foldl_append, List.map_map]
  rfl

theorem kept_of_runs (hnames : OrphanBlocksPool.NamesParent env B)
    (hrun : Runs (DownloadLog.Initial best) (DownloadLog.apply env)
      (fun op _ => op.1.Among B) l) : l.Kept env B best := by
  refine Runs.invariant (fun h => kept_initial h) ?_ hrun
  intro op l a l' _ hamong h happly
  exact h.apply hnames hamong happly

/-- Without siblings all that is stored is recorded rightly. -/
theorem right_of_receive (tree : BlockTree env B) {m : Moment} {block : Block} (hblock : B block)
    (h : l.Kept env B best) (hno : NoSiblings env l.downloader block) :
    ∀ b ∈ (l.downloader.receive env m block).1,
      (record m (l.downloader.receive env m block).2 b).Right := by
  cases hparent : l.downloader.numberOf m block.header.prevBlockhash with
  | none =>
    rw [BlockDownloader.receive_of_unknown hparent]
    exact nofun
  | some parent =>
    rw [BlockDownloader.receive_of_parent hparent]
    have hnumbered : Numbered env m l.downloader (parent + 1) block :=
      (BlockDownloader.numbered_iff tree h.indexed h.all hblock hparent).mpr hno
    rintro ⟨b, number⟩ hb
    obtain ⟨hle, hplace⟩ := List.mk_mem_zipIdx_iff_le_and_getElem?_sub.mp hb
    obtain ⟨n, hn, hnumber⟩ := hnumbered b (List.mem_of_getElem? hplace)
    refine ⟨n, hn, ?_⟩
    rw [BlockDownloader.blockNumber_addBlock tree h.indexed h.all hplace,
      Option.some.injEq] at hnumber
    show number = n + 1
    omega

theorem right_of_apply (tree : BlockTree env B) {a : Unit} {l' : DownloadLog}
    (hamong : op.1.Among B) (halone : l.Alone env op.1) (h : l.Kept env B best)
    (hright : ∀ r ∈ l.recorded, r.Right) (happly : l.apply env op = .ok (a, l')) :
    ∀ r ∈ l'.recorded, r.Right := by
  obtain ⟨⟨stored, d⟩, hd, hl'⟩ := bind_eq_ok.mp happly
  cases hl'
  intro r hr
  rcases List.mem_append.mp hr with hold | hnew
  · exact hright r hold
  · obtain ⟨b, hb, rfl⟩ := List.mem_map.mp hnew
    obtain ⟨op, m⟩ := op
    by_cases hreceive : ∃ block, op = .receive block
    · obtain ⟨block, rfl⟩ := hreceive
      have heq : l.downloader.receive env m block = (stored, d) := Outcome.ok.inj hd
      have hstep := right_of_receive (m := m) tree hamong h halone
      rw [heq] at hstep
      exact hstep b hb
    · have hnone : stored = [] := BlockDownloader.stored_of_other hreceive hd
      rw [hnone] at hb
      cases hb

end DownloadLog

/-- In every run over the blocks of a tree the best queued number is the largest of the recorded
ones and the initial one, and the next block that is received is numbered rightly, with the orphans
that it connects, if and only if no two of these share a parent. In a run where that is so at every
block, all recorded numbers are right. -/
theorem numbered_of_runs {SE : Type} (env : NodeEnv SE) (B : Block → Prop) (tree : BlockTree env B)
    (best : Nat) (l : DownloadLog)
    (hrun : Runs (DownloadLog.Initial best) (DownloadLog.apply env) (fun op _ => op.1.Among B) l) :
    l.downloader.bestQueuedNumber = (l.recorded.map Recorded.number).foldl max best ∧
    (∀ m block parent, B block →
      l.downloader.numberOf m block.header.prevBlockhash = some parent →
      (l.downloader.Numbered env m (parent + 1) block ↔ l.downloader.NoSiblings env block)) ∧
    (Runs (DownloadLog.Initial best) (DownloadLog.apply env)
        (fun op l => op.1.Among B ∧ l.Alone env op.1) l → ∀ r ∈ l.recorded, r.Right) := by
  have hkept : l.Kept env B best := DownloadLog.kept_of_runs tree.names hrun
  refine ⟨hkept.best, ?_, fun hrun' => ?_⟩
  · intro m block parent hblock hparent
    exact BlockDownloader.numbered_iff tree hkept.indexed hkept.all hblock hparent
  · have hboth : l.Kept env B best ∧ ∀ r ∈ l.recorded, r.Right := by
      refine Runs.invariant
        (I := fun l => l.Kept env B best ∧ ∀ r ∈ l.recorded, r.Right) ?_ ?_ hrun'
      · intro l h
        refine ⟨DownloadLog.kept_initial h, ?_⟩
        obtain ⟨m, peerId, memoryConfig, rfl⟩ := h
        exact nofun
      · intro op l a l' _ hcond h happly
        exact ⟨h.1.apply tree.names hcond.1 happly,
          DownloadLog.right_of_apply tree hcond.1 hcond.2 h.1 h.2 happly⟩
    exact hboth.2

namespace Reference

open Subcoin.Reference (env)

/-- The first blocks and the orphans on them. -/
def family : List Block := block₁ :: orphans

def familyTree : BlockTree env (· ∈ family) where
  height hash :=
    if hash = env.hashOf block₁ then 1
    else if hash = env.hashOf block₂ then 2
    else if hash = env.hashOf block₃ ∨ hash = env.hashOf sibling then 3
    else 0
  names := by
    have hchecked : ∀ a ∈ family, ∀ b ∈ family, env.hashOf a = env.hashOf b →
        a.header.prevBlockhash = b.header.prevBlockhash := by decide +kernel
    exact fun a b ha hb => hchecked a ha b hb
  height_hash := by decide +kernel

def startLog : DownloadLog := ⟨.new (moment 0) (peer 1) 0 .default, []⟩

/-- The first blocks, one on the other. -/
def line : List Block := [block₁, block₂, block₃]

/-- Two orphans come in the wrong order and then the block that connects them. All three are given
to the import queue, and the queue answers for the first two. -/
def lineOps : List (BlockDownloader.Op × Moment) :=
  [(.addOrphanBlock block₃, moment 0), (.addOrphanBlock block₂, moment 1),
    (.receive block₁, moment 2), (.prepareBlocksForImport none, moment 3),
    (.handleProcessedBlocks [(.ok (.importedUnknown 1), env.hashOf block₁),
      (.ok (.importedUnknown 2), env.hashOf block₂)], moment 4)]

theorem among_lineOps : ∀ op ∈ lineOps, op.1.Among (· ∈ line) := by
  simp [lineOps, BlockDownloader.Op.Among, line]

theorem mem_family_of_line {b : Block} (h : b ∈ line) : b ∈ family := by
  have hsub : ∀ b ∈ line, b ∈ family := by decide +kernel
  exact hsub b h

theorem among_family {op : BlockDownloader.Op} (h : op.Among (· ∈ line)) :
    op.Among (· ∈ family) := by
  cases op with
  | receive | addOrphanBlock | addUnknownBlock => exact mem_family_of_line h
  | _ => trivial

/-- Orphans of one line have no siblings. -/
theorem alone_of_line {l : DownloadLog} (hall : l.downloader.orphanBlocksPool.All (· ∈ line))
    (op : BlockDownloader.Op) : l.Alone env op := by
  cases op with
  | receive block =>
    have hparents : ∀ a ∈ line, ∀ b ∈ line, a.header.prevBlockhash = b.header.prevBlockhash →
        env.hashOf a = env.hashOf b := by decide +kernel
    have hline {a : Block} (h : OrphanBlocksPool.Descends env l.downloader.orphanBlocksPool
        (env.hashOf block) a) : a ∈ line := by
      cases h with
      | child hstored | step _ hstored => exact hall _ a hstored
    exact fun a b ha hb => hparents a (hline ha) b (hline hb)
  | _ => trivial

theorem numbered_line :
    ∃ l : DownloadLog, l.recorded.map Recorded.number = [1, 2, 3] ∧
      l.downloader.downloadedBlocks = [] ∧
      l.downloader.bestQueuedNumber = 3 ∧ ∀ r ∈ l.recorded, r.Right := by
  have heval : (Runs.exec (DownloadLog.apply env) lineOps startLog).any (fun l =>
      l.recorded.map Recorded.number = [1, 2, 3] ∧ l.downloader.downloadedBlocks = []) = true := by
    decide +kernel
  obtain ⟨l, hrun, hl⟩ : ∃ l, Runs (DownloadLog.Initial 0) (DownloadLog.apply env)
      (fun op _ => op.1.Among (· ∈ line)) l ∧ _ = true :=
    Runs.exists_of_exec ⟨_, _, _, rfl⟩ (fun op hop _ => among_lineOps op hop) heval
  obtain ⟨hrecorded, hempty⟩ := of_decide_eq_true hl
  have hnames : OrphanBlocksPool.NamesParent env (· ∈ line) :=
    fun a b ha hb => familyTree.names a b (mem_family_of_line ha) (mem_family_of_line hb)
  -- the pool holds blocks of the line only, in every state of the run
  have halone : Runs (DownloadLog.Initial 0) (DownloadLog.apply env)
      (fun op l => op.1.Among (· ∈ family) ∧ l.Alone env op.1) l :=
    (hrun.and_of_runs fun h => (DownloadLog.kept_of_runs hnames h).all).mono
      fun h => ⟨among_family h.1, alone_of_line h.2 _⟩
  obtain ⟨hbest, -, hright⟩ := numbered_of_runs env _ familyTree 0 l (halone.mono And.left)
  refine ⟨l, hrecorded, hempty, ?_, hright halone⟩
  rw [hbest, hrecorded]
  rfl

/-- Two orphans on the second block: the one that comes last is recorded as number 4, with a parent
that has the number 2. -/
theorem not_numbered_sibling :
    ∃ l, Runs (DownloadLog.Initial 0) (DownloadLog.apply env)
        (fun op _ => op.1.Among (· ∈ family)) l ∧
      ∃ r ∈ l.recorded, r.block = sibling ∧ r.number = 4 ∧ r.parent = some 2 ∧ ¬ r.Right := by
  have heval : (Runs.exec (DownloadLog.apply env)
      [(.receive block₁, moment 0), (.addOrphanBlock block₃, moment 1),
        (.addOrphanBlock sibling, moment 2), (.receive block₂, moment 3)] startLog).any
      (fun l => l.recorded.any fun r =>
        r.block = sibling ∧ r.number = 4 ∧ r.parent = some 2) = true := by
    decide +kernel
  obtain ⟨l, hrun, hl⟩ : ∃ l, Runs (DownloadLog.Initial 0) (DownloadLog.apply env)
      (fun op _ => op.1.Among (· ∈ family)) l ∧ _ = true := by
    refine Runs.exists_of_exec ?_ ?_ heval
    · exact ⟨_, _, _, rfl⟩
    · simp [BlockDownloader.Op.Among, family, orphans]
  obtain ⟨r, hr, hwrong⟩ := List.any_eq_true.mp hl
  obtain ⟨hblock, hnumber, hparent⟩ := of_decide_eq_true hwrong
  refine ⟨l, hrun, r, hr, hblock, hnumber, hparent, ?_⟩
  rintro ⟨parent, hsome, hnext⟩
  rw [hparent] at hsome
  cases hsome
  omega

end Reference

end Subcoin.Sync
