import Mathlib.Data.List.Sort
import Subcoin.Indexer.Historical
import Subcoin.Indexer.Reverting

/-!
# Subcoin — historical indexing across crashes

The saved state never is ahead of what has been committed, and a database that is ahead of the saved
state still follows the chain up to it. So a process that resumes from the saved state writes what
is missing, and what it writes again is what the chain says. When `handle_index_gap` returns, the
database is the index of the chain up to the block that the state names, unless the first process
started on the genesis block: that block is then never indexed. The block that the state names is
the best block unless the call has resumed a range that was begun when the best block was another
one: it goes up to that block only, and `run` takes the index to be complete.

* **`Node.kept_of_runs`** — what every operation of a process keeps.
* **`Node.same_indexOneByOne_iff`** — that the two exceptions are the only ones.
-/

namespace Subcoin.Indexer

section

variable {SE : Type} {env : IndexerEnv SE} {chain : List Block}

/-! ## Loading blocks -/

variable {blocks : List (Nat × Block)} {n size : Nat}

theorem loadBlocks_heights (h : ∀ b ∈ blocks, chain[b.1]? = some b.2) :
    loadBlocks chain (blocks.map Prod.fst) = some blocks := by
  induction blocks with
  | nil => rfl
  | cons b blocks ih =>
    rw [List.map_cons, loadBlocks, h b List.mem_cons_self,
      ih fun b' hb' => h b' (List.mem_cons_of_mem b hb')]
    rfl

theorem blockRange_heights {start stop : Nat} (hstop : stop ≤ chain.length) :
    (blockRange chain start stop).map Prod.fst = List.range' start (stop - start) := by
  have hfilter : (blockRange chain start stop).map Prod.fst =
      (List.range chain.length).filter fun h => start ≤ h ∧ h < stop := by
    rw [← numbered_map_fst, List.filter_map]
    rfl
  rw [hfilter]
  refine (List.pairwise_lt_range.filter _).eq_of_mem_iff List.pairwise_lt_range' fun h => ?_
  rw [List.mem_filter, List.mem_range, decide_eq_true_eq, List.mem_range'_1]
  omega

theorem indexBlockBatch_eq {start stop : Nat} (hstop : stop ≤ chain.length) {t : Tables} :
    indexBlockBatch env chain start stop t =
      some (indexBlocksBatch env (blockRange chain start stop) t) := by
  have hload : loadBlocks chain ((blockRange chain start stop).map Prod.fst) =
      some (blockRange chain start stop) :=
    loadBlocks_heights fun b hb => mem_numbered.mp (List.mem_filter.mp hb).1
  unfold indexBlockBatch
  rw [← blockRange_heights hstop, hload, Option.map_some]

theorem blockRange_single {block : Block} (h : chain[n]? = some block) :
    blockRange chain n (n + 1) = [(n, block)] := by
  have hlt : n < chain.length := (List.getElem?_eq_some_iff.mp h).1
  have hload : loadBlocks chain ((blockRange chain n (n + 1)).map Prod.fst) =
      some (blockRange chain n (n + 1)) :=
    loadBlocks_heights fun b hb => mem_numbered.mp (List.mem_filter.mp hb).1
  have hheights : (blockRange chain n (n + 1)).map Prod.fst = [n] := by
    have hone : n + 1 - n = 1 := by omega
    rw [blockRange_heights hlt, hone]
    rfl
  rw [hheights, loadBlocks, h] at hload
  exact (Option.some.inj hload).symm

/-- The blocks below a height, indexed one after the other. -/
def indexOneByOne (env : IndexerEnv SE) (chain : List Block) : Nat → Tables
  | 0 => .empty
  | n + 1 =>
    match chain[n]? with
    | some block => indexBlock env n block (indexOneByOne env chain n)
    | none => indexOneByOne env chain n

theorem indexed_indexOneByOne (n : Nat) :
    Indexed env chain (min n chain.length) (indexOneByOne env chain n) := by
  induction n with
  | zero =>
    rw [Nat.zero_min]
    exact .empty
  | succ n ih =>
    rw [indexOneByOne]
    by_cases hlt : n < chain.length
    · have hblock : chain[n]? = some chain[n] := List.getElem?_eq_getElem hlt
      rw [Nat.min_eq_left hlt.le] at ih
      rw [Nat.min_eq_left hlt, hblock]
      show Indexed env chain (n + 1) (indexBlocksBatch env [(n, chain[n])] _)
      rw [← blockRange_single hblock]
      exact ih.batch (Nat.le_succ n) hlt
    · have hge := Nat.not_lt.mp hlt
      rw [Nat.min_eq_right hge] at ih
      rw [Nat.min_eq_right (hge.trans (Nat.le_succ n)), List.getElem?_eq_none hge]
      exact ih

/-- Blocks that are not indexed have no row. -/
theorem IndexOf.blocks_eq_none {t : Tables} (h : IndexOf env (chain.take n) t) {k : Nat}
    (hk : n ≤ k) : t.blocks.get k = none := by
  rw [h.blocks, rightBlock, Rows.find_eq_none, blockRows_keys, numbered_map_fst, List.mem_range,
    List.length_take]
  omega

/-- Every block that is indexed has a row. -/
theorem blocks_indexOneByOne (hvalid : ValidChain env chain) {k : Nat} (hk : k < n)
    (hlt : k < chain.length) : (indexOneByOne env chain n).blocks.get k ≠ none := by
  have hindex := (indexed_indexOneByOne n).indexOf hvalid
  rw [hindex.blocks, rightBlock, Ne, Rows.find_eq_none, not_not, blockRows_keys, numbered_map_fst,
    List.mem_range, List.length_take]
  omega

/-! ## What a process finds -/

/-- The height up to which the saved state says that blocks have been indexed. -/
def Db.cut (db : Db) : Nat :=
  match db.state with
  | none => 0
  | some (.historicalIndexing _ currentHeight) => currentHeight
  | some (.active lastIndexed) => lastIndexed + 1

/-- The height below which blocks may have been indexed, when the latest process has found `best` as
the best block. -/
def Db.top (best : Nat) (db : Db) : Nat :=
  match db.state with
  | none => 0
  | some (.historicalIndexing targetHeight _) => targetHeight
  | some (.active _) => best + 1

/-- The database follows the chain up to the saved state, and has nothing of the blocks above those
that are to be indexed. A range that is resumed ends at the block where it was begun. -/
structure Db.Resumable (env : IndexerEnv SE) (chain : List Block) (best begun : Nat) (db : Db) :
    Prop where
  follows : Follows env (chain.take (db.top best)) db.cut db.cut db.tables
  cut_le : db.cut ≤ db.top best
  top_pos : 0 < db.top best
  top_le : db.top best ≤ best + 1
  target : ∀ {targetHeight currentHeight},
    db.state = some (.historicalIndexing targetHeight currentHeight) → targetHeight = begun + 1

/-- A range is being indexed, and the database follows the chain up to the next block of it. -/
structure Db.AtRange (env : IndexerEnv SE) (chain : List Block) (best height stop : Nat) (db : Db) :
    Prop where
  top_eq : db.top best = stop
  cut_le : db.cut ≤ height
  height_le : height ≤ stop
  follows : Follows env (chain.take stop) height height db.tables

/-- What the database is while a process works on it. -/
def Task.Ready (env : IndexerEnv SE) (chain : List Block) (best begun : Nat) (db : Db) :
    Task → Prop
  | .range height stop _ => db.AtRange env chain best height stop ∧ stop = begun + 1
  | .progress height stop _ _ => db.AtRange env chain best height stop ∧ stop = begun + 1
  | .done => db.state = some (.active begun) ∧ begun < chain.length ∧
      IndexOf env (chain.take (begun + 1)) db.tables

variable {db db' : Db} {task task' : Task} {best best' begun : Nat}

/-- The next process finds a chain that has grown. -/
theorem Db.Resumable.grow (hvalid : ValidChain env chain) (h : db.Resumable env chain best begun)
    (hle : best ≤ best') : db.Resumable env chain best' begun := by
  have htop : db.top best ≤ db.top best' := by
    unfold Db.top
    split
    · exact Nat.le_refl _
    · exact Nat.le_refl _
    · omega
  refine ⟨h.follows.lift hvalid htop h.cut_le h.cut_le, h.cut_le.trans htop,
    h.top_pos.trans_le htop, ?_, h.target⟩
  have hbound := h.top_le
  unfold Db.top at hbound ⊢
  split
  · omega
  · rename_i hstate
    rw [hstate] at hbound
    exact hbound.trans (Nat.succ_le_succ hle)
  · exact Nat.le_refl _

theorem handleIndexGap_ready (h : db.Resumable env chain best begun) (hbest : best < chain.length) :
    (handleIndexGap best db).1.Resumable env chain best (Node.nextBegun best begun db) ∧
      (handleIndexGap best db).2.Ready env chain best (Node.nextBegun best begun db)
        (handleIndexGap best db).1 := by
  unfold handleIndexGap
  split
  · rename_i targetHeight currentHeight hstate
    have hcut : db.cut = currentHeight := by rw [Db.cut, hstate]
    have htop : db.top best = targetHeight := by rw [Db.top, hstate]
    have hbegun : Node.nextBegun best begun db = begun := by rw [Node.nextBegun, hstate]
    rw [hbegun]
    exact ⟨h, ⟨htop, hcut.le, hcut ▸ htop ▸ h.cut_le, hcut ▸ htop ▸ h.follows⟩, h.target hstate⟩
  · rename_i lastIndexed hstate
    have hcut : db.cut = lastIndexed + 1 := by rw [Db.cut, hstate]
    have htop : db.top best = best + 1 := by rw [Db.top, hstate]
    have hle : lastIndexed + 1 ≤ best + 1 := hcut ▸ htop ▸ h.cut_le
    have hfollows : Follows env (chain.take (best + 1)) (lastIndexed + 1) (lastIndexed + 1)
        db.tables := hcut ▸ htop ▸ h.follows
    have hnext : db.Resumable env chain best best :=
      ⟨h.follows, h.cut_le, h.top_pos, h.top_le, fun heq => nomatch hstate ▸ heq⟩
    have hbegun : Node.nextBegun best begun db = best := by rw [Node.nextBegun, hstate]
    rw [hbegun]
    split
    · exact ⟨hnext, ⟨htop, hcut.le, hle, hfollows⟩, rfl⟩
    · -- Nothing is missing.
      rename_i hge
      obtain rfl : lastIndexed = best := by omega
      have hlength := List.length_take_le (lastIndexed + 1) chain
      exact ⟨hnext, hstate, hbest, hfollows.indexOf hlength hlength⟩
  · rename_i hstate
    have hpos := h.top_pos
    rw [Db.top, hstate] at hpos
    cases hpos

/-- The first process finds an empty database. -/
theorem handleIndexGap_fresh (hpos : 0 < best) :
    (handleIndexGap best ⟨.empty, none⟩).1.Resumable env chain best best ∧
      (handleIndexGap best ⟨.empty, none⟩).2.Ready env chain best best
        (handleIndexGap best ⟨.empty, none⟩).1 := by
  unfold handleIndexGap
  simp only [if_pos hpos]
  refine ⟨⟨.empty, Nat.zero_le _, Nat.succ_pos _, Nat.le_refl _, fun heq => ?_⟩,
    ⟨rfl, Nat.le_refl _, Nat.zero_le _, .empty⟩, rfl⟩
  cases heq
  rfl

/-- A step of `index_block_range` keeps what the saved state says and goes on. -/
theorem Task.step_ready (hvalid : ValidChain env chain) (hbest : best < chain.length)
    (h : db.Resumable env chain best begun) (hready : task.Ready env chain best begun db)
    (hstep : task.step env chain size db = some (db', task')) :
    db'.Resumable env chain best begun ∧ task'.Ready env chain best begun db' := by
  cases task with
  | range height stop processed =>
    obtain ⟨hready, hstop⟩ := hready
    have htop := hready.top_eq
    have hbound := h.top_le
    have hpos := h.top_pos
    have hheight := hready.height_le
    rw [Task.step] at hstep
    split at hstep
    · rename_i hlt
      have hend : min (height + size) stop ≤ chain.length := by omega
      simp only [indexBlockBatch_eq hend, Option.map_some, Option.some.injEq,
        Prod.mk.injEq] at hstep
      obtain ⟨rfl, rfl⟩ := hstep
      -- The batch starts where the database may stop to follow the chain.
      have hnext := hready.follows.indexBlocksBatch hvalid (Nat.le_refl _) (Nat.le_refl _)
        (Nat.min_le_right (height + size) stop)
      have hcut : db.cut ≤ min (height + size) stop := hready.cut_le.trans (by omega)
      refine ⟨⟨?_, h.cut_le, hpos, hbound, h.target⟩, ⟨htop, hcut, Nat.min_le_right .., hnext⟩,
        hstop⟩
      show Follows env (chain.take (db.top best)) db.cut db.cut _
      rw [htop]
      exact hnext.mono hcut hcut
    · rename_i hge
      obtain ⟨rfl, rfl⟩ := Prod.mk.inj (Option.some.inj hstep)
      obtain rfl : height = stop := by omega
      subst hstop
      have hlength := List.length_take_le (begun + 1) chain
      have hle : begun + 1 ≤ best + 1 := htop ▸ hbound
      exact ⟨⟨hready.follows.lift hvalid hle (Nat.le_refl _) (Nat.le_refl _), hle, Nat.succ_pos _,
        Nat.le_refl _, nofun⟩, rfl, by omega, hready.follows.indexOf hlength hlength⟩
  | progress height stop processed batchProcessed =>
    obtain ⟨rfl, rfl⟩ := Prod.mk.inj (Option.some.inj hstep)
    obtain ⟨hrange, hstop⟩ := hready
    split
    · have hpos := hrange.top_eq ▸ h.top_pos
      have hbound := hrange.top_eq ▸ h.top_le
      refine ⟨⟨hrange.follows, hrange.height_le, hpos, hbound, fun heq => ?_⟩,
        ⟨rfl, Nat.le_refl _, hrange.height_le, hrange.follows⟩, hstop⟩
      cases heq
      exact hstop
    · exact ⟨h, hrange, hstop⟩
  | done =>
    obtain ⟨rfl, rfl⟩ := Prod.mk.inj (Option.some.inj hstep)
    exact ⟨h, hready⟩

/-! ## A block that is left out -/

theorem heights_loadBlocks {heights : List Nat} (h : loadBlocks chain heights = some blocks) :
    blocks.map Prod.fst = heights := by
  induction heights generalizing blocks with
  | nil =>
    cases h
    rfl
  | cons height heights ih =>
    obtain ⟨block, -, h⟩ := Option.bind_eq_some_iff.mp h
    obtain ⟨rest, hrest, h⟩ := Option.bind_eq_some_iff.mp h
    cases h
    rw [List.map_cons, ih hrest]

/-- The blocks of a batch are the only ones that it adds. -/
theorem get_blocks_of_notMem {t : Tables} (hget : t.blocks.get n = none)
    (hnot : n ∉ blocks.map Prod.fst) : (indexBlocksBatch env blocks t).blocks.get n = none := by
  rw [indexBlocksBatch_eq, Buffers.write]
  simp only [Buffers.blocksData_foldl_processBlock]
  show ((blocks.map (blockRow env)).foldl Tables.insertBlock t.blocks).get n = none
  generalize t.blocks = rows at hget
  induction blocks generalizing rows with
  | nil => exact hget
  | cons b blocks ih =>
    rw [List.map_cons, List.mem_cons, not_or] at hnot
    rw [List.map_cons, List.foldl_cons]
    refine ih hnot.2 _ ?_
    unfold Tables.insertBlock
    have hne : ¬ n = (blockRow env b).1 := hnot.1
    rw [IndexMap.get_insert, if_neg hne, IndexMap.get_retain, hget, Option.bind_none]

/-- The genesis block is not indexed, and the saved state says that it is. -/
structure Db.Skips (db : Db) : Prop where
  missing : db.tables.blocks.get 0 = none
  state : 0 < db.cut

/-- Blocks above the genesis block are being indexed. -/
def Task.Above (db : Db) : Task → Prop
  | .range height _ _ => 0 < height
  | .progress height _ _ _ => 0 < height
  | .done => ∃ lastIndexed, db.state = some (.active lastIndexed)

theorem handleIndexGap_above {bestNumber : Nat} (h : db.Skips) :
    (handleIndexGap bestNumber db).1.Skips ∧
      (handleIndexGap bestNumber db).2.Above (handleIndexGap bestNumber db).1 := by
  unfold handleIndexGap
  split
  · rename_i hstate
    have hcut := h.state
    rw [Db.cut, hstate] at hcut
    exact ⟨h, hcut⟩
  · rename_i hstate
    split
    · exact ⟨h, Nat.succ_pos _⟩
    · exact ⟨h, _, hstate⟩
  · rename_i hstate
    have hcut := h.state
    rw [Db.cut, hstate] at hcut
    cases hcut

theorem Task.step_above (h : db.Skips) (habove : task.Above db)
    (hstep : task.step env chain size db = some (db', task')) : db'.Skips ∧ task'.Above db' := by
  cases task with
  | range height stop processed =>
    rw [Task.step] at hstep
    split at hstep
    · rename_i hlt
      obtain ⟨tables, htables, heq⟩ := Option.map_eq_some_iff.mp hstep
      obtain ⟨blocks, hblocks, rfl⟩ := Option.map_eq_some_iff.mp htables
      obtain ⟨rfl, rfl⟩ := Prod.mk.inj heq
      have hpos : 0 < height := habove
      refine ⟨⟨get_blocks_of_notMem h.missing fun hmem => ?_, h.state⟩, ?_⟩
      · rw [heights_loadBlocks hblocks, List.mem_range'_1] at hmem
        omega
      · show 0 < min (height + size) stop
        omega
    · obtain ⟨rfl, rfl⟩ := Prod.mk.inj (Option.some.inj hstep)
      exact ⟨⟨h.missing, Nat.succ_pos _⟩, _, rfl⟩
  | progress height stop processed batchProcessed =>
    obtain ⟨rfl, rfl⟩ := Prod.mk.inj (Option.some.inj hstep)
    split
    · exact ⟨⟨h.missing, habove⟩, habove⟩
    · exact ⟨h, habove⟩
  | done =>
    obtain ⟨rfl, rfl⟩ := Prod.mk.inj (Option.some.inj hstep)
    exact ⟨h, habove⟩

theorem Db.Skips.not_same (hvalid : ValidChain env chain) (h : db.Skips)
    (hlength : 0 < chain.length) :
    ¬ Tables.Same db.tables (indexOneByOne env chain (n + 1)) := by
  intro hsame
  -- The genesis block has a row when the blocks are indexed one by one.
  have hgenesis := hsame.blocks 0
  rw [h.missing] at hgenesis
  exact absurd hgenesis.symm (blocks_indexOneByOne hvalid (Nat.succ_pos n) hlength)

/-- An index that goes up to the best block is that of a range begun there: that block has a row. -/
theorem Db.Resumable.begun_eq (hvalid : ValidChain env chain)
    (h : db.Resumable env chain best begun) (hbest : best < chain.length)
    (hstate : db.state = some (.active begun))
    (hindex : IndexOf env (chain.take (begun + 1)) db.tables)
    (hsame : Tables.Same db.tables (indexOneByOne env chain (best + 1))) : begun = best := by
  have hle := h.cut_le
  rw [Db.cut, Db.top, hstate] at hle
  dsimp only at hle
  by_contra hne
  have hrow := hsame.blocks best
  rw [hindex.blocks_eq_none (by omega)] at hrow
  exact absurd hrow.symm (blocks_indexOneByOne hvalid (Nat.lt_succ_self best) hbest)

/-! ## Runs -/

namespace Node

variable {node node' : Node}

/-- What an operation does: a process starts, makes a step, or ends. -/
theorem apply_cases {op : Op} {u : Unit} (h : apply env chain op node = .ok (u, node')) :
    (∃ best, op = .start best ∧
      node' = ⟨(handleIndexGap best node.db).1, some (handleIndexGap best node.db).2,
        node.firstBest.or (some best), some best, nextBegun best node.begun node.db⟩) ∨
    (∃ size task db' task', node.task = some task ∧
      task.step env chain size node.db = some (db', task') ∧
      node' = { node with db := db', task := some task' }) ∨
    node' = { node with task := none } := by
  cases op with
  | start best =>
    rw [apply] at h
    split at h
    · cases h
      exact .inl ⟨best, rfl, rfl⟩
    · cases h
      exact .inl ⟨best, rfl, rfl⟩
    · cases h
  | step size =>
    rw [apply] at h
    split at h
    · cases h
    · rename_i task htask
      split at h
      · rename_i db' task' hstep
        cases h
        exact .inr (.inl ⟨size, task, db', task', htask, hstep, rfl⟩)
      · cases h
        exact .inr (.inr rfl)
  | crash =>
    cases h
    exact .inr (.inr rfl)

/-- What is kept while the best block is `best`. Whether the genesis block is indexed is settled by
what the first process found. -/
def Holds (env : IndexerEnv SE) (chain : List Block) (first best begun : Nat) (db : Db)
    (task : Option Task) : Prop :=
  (first ≠ 0 → db.Resumable env chain best begun ∧
    ∀ running, task = some running → running.Ready env chain best begun db) ∧
  (first = 0 → db.Skips ∧ ∀ running, task = some running → running.Above db)

/-- No process has started, or what is kept across processes holds. -/
structure Kept (env : IndexerEnv SE) (chain : List Block) (node : Node) : Prop where
  fresh : node.firstBest = none → node = .fresh
  started : ∀ {first}, node.firstBest = some first → ∃ best, node.lastBest = some best ∧
    best < chain.length ∧ Holds env chain first best node.begun node.db node.task

theorem Kept.start (hvalid : ValidChain env chain) (h : Kept env chain node) {best : Nat}
    (hbest : best < chain.length) (hgrown : node.lastBest.getD 0 ≤ best) :
    Kept env chain ⟨(handleIndexGap best node.db).1, some (handleIndexGap best node.db).2,
      node.firstBest.or (some best), some best, nextBegun best node.begun node.db⟩ := by
  cases hfirst : node.firstBest with
  | none =>
    obtain rfl := h.fresh hfirst
    refine ⟨nofun, fun heq => ⟨best, rfl, hbest, fun hne => ?_, fun hzero => ?_⟩⟩
    · cases heq
      obtain ⟨hnext, hready⟩ := handleIndexGap_fresh (Nat.pos_of_ne_zero hne)
      refine ⟨hnext, fun running hrunning => ?_⟩
      cases hrunning
      exact hready
    · -- The first process starts on the genesis block.
      cases heq
      cases hzero
      refine ⟨⟨rfl, Nat.one_pos⟩, fun running hrunning => ?_⟩
      cases hrunning
      exact ⟨0, rfl⟩
  | some first =>
    obtain ⟨last, hlast, -, hgood, hbad⟩ := h.started hfirst
    refine ⟨nofun, fun heq => ⟨best, rfl, hbest, fun hne => ?_, fun hzero => ?_⟩⟩
    · cases heq
      rw [hlast, Option.getD_some] at hgrown
      obtain ⟨hnext, hready⟩ := handleIndexGap_ready ((hgood hne).1.grow hvalid hgrown) hbest
      refine ⟨hnext, fun running hrunning => ?_⟩
      cases hrunning
      exact hready
    · cases heq
      obtain ⟨hnext, habove⟩ := handleIndexGap_above (hbad hzero).1
      refine ⟨hnext, fun running hrunning => ?_⟩
      cases hrunning
      exact habove

theorem Kept.step (hvalid : ValidChain env chain) (h : Kept env chain node) {task task' : Task}
    {db' : Db} (htask : node.task = some task)
    (hstep : task.step env chain size node.db = some (db', task')) :
    Kept env chain { node with db := db', task := some task' } := by
  refine ⟨fun hnone => ?_, fun {first} hfirst => ?_⟩
  · obtain rfl := h.fresh hnone
    cases htask
  · obtain ⟨best, hlast, hbest, hgood, hbad⟩ := h.started hfirst
    refine ⟨best, hlast, hbest, fun hne => ?_, fun hzero => ?_⟩
    · obtain ⟨hresumable, hready⟩ := hgood hne
      obtain ⟨hnext, hready'⟩ := Task.step_ready hvalid hbest hresumable (hready task htask) hstep
      refine ⟨hnext, fun running hrunning => ?_⟩
      cases hrunning
      exact hready'
    · obtain ⟨hskips, habove⟩ := hbad hzero
      obtain ⟨hnext, habove'⟩ := Task.step_above hskips (habove task htask) hstep
      refine ⟨hnext, fun running hrunning => ?_⟩
      cases hrunning
      exact habove'

theorem Kept.stop (h : Kept env chain node) : Kept env chain { node with task := none } := by
  refine ⟨fun hnone => ?_, fun hfirst => ?_⟩
  · obtain rfl := h.fresh hnone
    rfl
  · obtain ⟨best, hlast, hbest, hgood, hbad⟩ := h.started hfirst
    exact ⟨best, hlast, hbest, fun hne => ⟨(hgood hne).1, nofun⟩,
      fun hzero => ⟨(hbad hzero).1, nofun⟩⟩

/-- The best block is one of the chain, and the chain only grows. -/
def Op.Grows (chain : List Block) (node : Node) : Op → Prop
  | .start best => best < chain.length ∧ node.lastBest.getD 0 ≤ best
  | _ => True

instance {op : Op} : Decidable (op.Grows chain node) := by
  unfold Op.Grows
  split
  · infer_instance
  · infer_instance

theorem kept_of_runs (hvalid : ValidChain env chain)
    (hrun : Runs (· = fresh) (apply env chain) (fun op node => op.Grows chain node) node) :
    Kept env chain node := by
  refine hrun.invariant (I := Kept env chain) (fun hinit => ?_)
    fun {op _ _ _} _ hgrows h happly => ?_
  · obtain rfl := hinit
    exact ⟨fun _ => rfl, nofun⟩
  · rcases apply_cases happly with
      ⟨best, rfl, rfl⟩ | ⟨size, task, db', task', htask, hstep, rfl⟩ | rfl
    · exact h.start hvalid hgrows.1 hgrows.2
    · exact h.step hvalid htask hstep
    · exact h.stop

/-- When historical indexing has finished, the database is the index of the chain up to the last
indexed block, in whatever batches and across whatever crashes, if the first process found more than
the genesis block, and only then. It is the index up to the best block if moreover the range has
been begun when that was the best block, and only then. -/
theorem same_indexOneByOne_iff (hvalid : ValidChain env chain)
    (hrun : Runs (· = fresh) (apply env chain) (fun op node => op.Grows chain node) node)
    (hdone : node.task = some .done) :
    ∃ best lastIndexed, node.lastBest = some best ∧
      node.db.state = some (.active lastIndexed) ∧
      (Tables.Same node.db.tables (indexOneByOne env chain (lastIndexed + 1)) ↔
        node.firstBest ≠ some 0) ∧
      (Tables.Same node.db.tables (indexOneByOne env chain (best + 1)) ↔
        node.firstBest ≠ some 0 ∧ node.begun = best) := by
  have hkept := kept_of_runs hvalid hrun
  cases hfirst : node.firstBest with
  | none =>
    obtain rfl := hkept.fresh hfirst
    cases hdone
  | some first =>
    obtain ⟨best, hlast, hbest, hgood, hbad⟩ := hkept.started hfirst
    by_cases hzero : first = 0
    · obtain ⟨hskips, habove⟩ := hbad hzero
      obtain ⟨lastIndexed, hstate⟩ := habove _ hdone
      have hnot : ∀ n, ¬ Tables.Same node.db.tables (indexOneByOne env chain (n + 1)) :=
        fun n => hskips.not_same hvalid (by omega)
      have hgenesis := congrArg some hzero
      exact ⟨best, lastIndexed, hlast, hstate,
        ⟨fun hsame => absurd hsame (hnot _), fun hne => absurd hgenesis hne⟩,
        ⟨fun hsame => absurd hsame (hnot _), fun hne => absurd hgenesis hne.1⟩⟩
    · obtain ⟨hresumable, hready⟩ := hgood hzero
      obtain ⟨hstate, hlt, hindex⟩ := hready _ hdone
      have hne : some first ≠ some 0 := fun heq => hzero (Option.some.inj heq)
      have hone := (indexed_indexOneByOne (node.begun + 1)).indexOf hvalid
      rw [Nat.min_eq_left hlt] at hone
      have hsame := hindex.same hone
      refine ⟨best, node.begun, hlast, hstate, ⟨fun _ => hne, fun _ => hsame⟩,
        fun hbestSame => ⟨hne, ?_⟩, fun h => h.2 ▸ hsame⟩
      exact hresumable.begun_eq hvalid hbest hstate hindex hbestSame

end Node

end

namespace Reference

open Node in
/-- A run on the chain that has been evaluated. -/
theorem exists_node (ops : List Op) (first best begun : Nat)
    (hexec : (Runs.exec (fun op node =>
      if decide (op.Grows (chainSpending 0) node) = true then apply env (chainSpending 0) op node
      else .panic "not allowed") ops .fresh).any
        (fun node => node.task = some .done &&
          (node.firstBest = some first && (node.lastBest = some best && node.begun = begun))) =
      true) :
    ∃ node, Runs (· = fresh) (apply env (chainSpending 0))
      (fun op node => op.Grows (chainSpending 0) node) node ∧
        node.task = some .done ∧ node.firstBest = some first ∧ node.lastBest = some best ∧
        node.begun = begun := by
  have hstart : Runs (· = fresh) (apply env (chainSpending 0))
      (fun op node => op.Grows (chainSpending 0) node) fresh := .init rfl
  obtain ⟨node, hrun, hnode⟩ := hstart.exists_of_checked (fun _ _ => of_decide_eq_true) hexec
  simp only [Bool.and_eq_true, decide_eq_true_eq] at hnode
  exact ⟨node, hrun, hnode⟩

open Node in
/-- The process ends after a batch that it has not saved, and another one goes on with the range;
a third one finds that the chain has grown. -/
theorem same_indexOneByOne_resumed :
    ∃ node, Runs (· = fresh) (apply env (chainSpending 0))
        (fun op node => op.Grows (chainSpending 0) node) node ∧ node.task = some .done ∧
      node.lastBest = some 101 ∧
      Tables.Same node.db.tables (indexOneByOne env (chainSpending 0) 102) := by
  obtain ⟨node, hrun, hdone, hfirst, hlast, hbegun⟩ := exists_node
    [.start 90, .step 40, .step 40, .step 40, .crash, .start 90, .step 40, .step 40, .step 40,
      .step 40, .step 40, .crash, .start 101, .step 100, .step 100, .step 100]
    90 101 101 (by decide +kernel)
  obtain ⟨best, lastIndexed, hbest, -, -, hiff⟩ :=
    same_indexOneByOne_iff (validChain_chainSpending (by decide)) hrun hdone
  obtain rfl : 101 = best := Option.some.inj (hlast ▸ hbest)
  exact ⟨node, hrun, hdone, hlast, hiff.mpr ⟨hfirst ▸ by decide, hbegun⟩⟩

open Node in
/-- When the first process finds the genesis block only, the next one indexes the blocks above it.
When a process resumes the range of one that had found block 51, it stops there, although block 101
is the best one. -/
theorem not_same_indexOneByOne :
    (∃ node, Runs (· = fresh) (apply env (chainSpending 0))
        (fun op node => op.Grows (chainSpending 0) node) node ∧ node.task = some .done ∧
      node.firstBest = some 0 ∧ node.lastBest = some 101 ∧
      ¬ Tables.Same node.db.tables (indexOneByOne env (chainSpending 0) 102)) ∧
    (∃ node, Runs (· = fresh) (apply env (chainSpending 0))
        (fun op node => op.Grows (chainSpending 0) node) node ∧ node.task = some .done ∧
      node.firstBest = some 51 ∧ node.lastBest = some 101 ∧
      node.db.state = some (.active 51) ∧
      ¬ Tables.Same node.db.tables (indexOneByOne env (chainSpending 0) 102)) := by
  have hvalid : ValidChain env (chainSpending 0) := validChain_chainSpending (by decide)
  constructor
  · obtain ⟨node, hrun, hdone, hfirst, hlast, -⟩ := exists_node
      [.start 0, .start 101, .step 100, .step 100, .step 100, .step 100, .step 100] 0 101 101
      (by decide +kernel)
    obtain ⟨best, -, hbest, -, hbad⟩ := (kept_of_runs hvalid hrun).started hfirst
    exact ⟨node, hrun, hdone, hfirst, hlast, (hbad rfl).1.not_same hvalid (by omega)⟩
  · obtain ⟨node, hrun, hdone, hfirst, hlast, hbegun⟩ := exists_node
      [.start 51, .step 30, .step 30, .crash, .start 101, .step 100, .step 100, .step 100]
      51 101 51 (by decide +kernel)
    obtain ⟨best, hbest, hlt, hgood, -⟩ := (kept_of_runs hvalid hrun).started hfirst
    obtain rfl : 101 = best := Option.some.inj (hlast ▸ hbest)
    rw [hbegun] at hgood
    obtain ⟨hresumable, hready⟩ := hgood (by decide)
    obtain ⟨hstate, -, hindex⟩ := hready _ hdone
    refine ⟨node, hrun, hdone, hfirst, hlast, hstate, fun hsame => ?_⟩
    exact absurd (hresumable.begun_eq hvalid hlt hstate hindex hsame) (by decide)

end Reference

end Subcoin.Indexer
