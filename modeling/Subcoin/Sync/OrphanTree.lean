import Subcoin.Lib.Runs
import Subcoin.Sync.Downloads
import Subcoin.Sync.Reference

/-!
# Subcoin — the orphans are a forest, and a subtree leaves at once

The pool keeps every block twice: by its hash, and as a child of its parent. `Indexed` says that the
two agree, whatever is done to the pool. On an indexed pool the search of `remove_blocks_for_parent`
finds the descendants of a hash and nothing else: what has been taken out never comes back
(`Searching`), so at the end no child of a block that left is still there.

Two blocks with one hash have one parent. That is all that is needed of the hash function.
-/

namespace Subcoin.Sync

open Outcome HashSet IndexMap

namespace OrphanBlocksPool

variable {SE : Type} {env : NodeEnv SE}

/-! ## The index -/

/-- The hash of a block names its parent: no collision among the given blocks hides another one. -/
def NamesParent (env : NodeEnv SE) (B : Block → Prop) : Prop :=
  ∀ a b, B a → B b → env.hashOf a = env.hashOf b →
    a.header.prevBlockhash = b.header.prevBlockhash

/-- The stored blocks are those listed under their own parent; unknown blocks are stored, and no
parent is without children. -/
structure Indexed (env : NodeEnv SE) (pool : OrphanBlocksPool) : Prop where
  hash : ∀ {h b}, pool.blocks h = some b → env.hashOf b = h
  listed : ∀ {h b}, pool.blocks h = some b →
    ∃ children, pool.orphanBlocks.get b.header.prevBlockhash = some children ∧ h ∈ children
  stored : ∀ {p children h}, pool.orphanBlocks.get p = some children → h ∈ children →
    ∃ b, pool.blocks h = some b ∧ b.header.prevBlockhash = p
  unknown : ∀ {h}, h ∈ pool.unknownBlocks → (pool.blocks h).isSome
  nonempty : ∀ {p children}, pool.orphanBlocks.get p = some children → children.isEmpty = false

variable {B : Block → Prop} {pool : OrphanBlocksPool} {block : Block} {order : HashOrder}

/-- A hash is listed as a child. -/
def Listed (pool : OrphanBlocksPool) (p k : BlockHash) : Prop :=
  ∃ children, pool.orphanBlocks.get p = some children ∧ k ∈ children

variable {k p root : BlockHash} {children hashes : HashSet BlockHash} {queue : List BlockHash}
  {taken : List Block × OrphanBlocksPool} {before : OrphanBlocksPool}

theorem Indexed.listed_iff (h : pool.Indexed env) :
    pool.Listed p k ↔ ∃ b, pool.blocks k = some b ∧ b.header.prevBlockhash = p := by
  constructor
  · rintro ⟨children, hget, hmem⟩
    exact h.stored hget hmem
  · rintro ⟨b, hb, rfl⟩
    exact h.listed hb

/-- A hash has one parent. -/
theorem Indexed.parent_unique (h : pool.Indexed env) {q : BlockHash} (hp : pool.Listed p k)
    (hq : pool.Listed q k) : p = q := by
  obtain ⟨b, hb, rfl⟩ := h.listed_iff.mp hp
  obtain ⟨b', hb', rfl⟩ := h.listed_iff.mp hq
  rw [hb] at hb'
  cases hb'
  rfl

/-- Some blocks leave the pool, and the lists of children. -/
theorem Indexed.of_dropped {pool' : OrphanBlocksPool} (h : pool.Indexed env)
    (gone : BlockHash → Prop)
    (hblocks : ∀ k b, pool'.blocks k = some b ↔ pool.blocks k = some b ∧ ¬ gone k)
    (hlists : ∀ p k, pool'.Listed p k ↔ pool.Listed p k ∧ ¬ gone k)
    (hunknown : ∀ k, k ∈ pool'.unknownBlocks → k ∈ pool.unknownBlocks ∧ ¬ gone k)
    (hnonempty : ∀ p children,
      pool'.orphanBlocks.get p = some children → children.isEmpty = false) :
    pool'.Indexed env := by
  refine ⟨?_, ?_, ?_, ?_, fun {p children} => hnonempty p children⟩
  · intro k b hb
    exact h.hash ((hblocks k b).mp hb).1
  · intro k b hb
    obtain ⟨hb, hstays⟩ := (hblocks k b).mp hb
    exact (hlists _ k).mpr ⟨h.listed hb, hstays⟩
  · intro p children k hget hmem
    obtain ⟨⟨children', hget', hmem'⟩, hstays⟩ := (hlists p k).mp ⟨children, hget, hmem⟩
    obtain ⟨b, hb, hparent⟩ := h.stored hget' hmem'
    exact ⟨b, (hblocks k b).mpr ⟨hb, hstays⟩, hparent⟩
  · intro k hk
    obtain ⟨hold, hstays⟩ := hunknown k hk
    obtain ⟨b, hb⟩ := Option.isSome_iff_exists.mp (h.unknown hold)
    rw [(hblocks k b).mpr ⟨hb, hstays⟩]
    rfl

theorem indexed_new : Indexed env .new := by
  refine ⟨nofun, nofun, ?_, ?_, ?_⟩
  · intro p children h hget
    cases hget
  · intro h hmem
    exact absurd hmem not_mem_empty
  · intro p children hget
    cases hget

/-- The pool with a block inserted. -/
theorem insertOrphanBlock_blocks (k : BlockHash) : (pool.insertOrphanBlock env block).blocks k =
    if k = env.hashOf block then some block else pool.blocks k := by
  show Function.update pool.blocks (env.hashOf block) (some block) k = _
  rw [Function.update_apply]

theorem insertOrphanBlock_orphanBlocks (p : BlockHash) :
    (pool.insertOrphanBlock env block).orphanBlocks.get p =
      if p = block.header.prevBlockhash then
        some (((pool.orphanBlocks.get p).getD .empty).insert (env.hashOf block))
      else pool.orphanBlocks.get p := by
  unfold OrphanBlocksPool.insertOrphanBlock
  rw [get_insert]
  split
  · rename_i hp
    rw [hp]
  · rfl

/-- A block is inserted. Another block of its hash that is there has the same parent, so that the
list of its children stays right. -/
theorem Indexed.insertOrphanBlock (h : pool.Indexed env)
    (hB : ∀ {k b}, pool.blocks k = some b → B b)
    (hnames : NamesParent env B) (hblock : B block) :
    (pool.insertOrphanBlock env block).Indexed env := by
  refine ⟨?_, ?_, ?_, ?_, ?_⟩
  · intro k b hk
    rw [insertOrphanBlock_blocks] at hk
    split at hk
    · rename_i heq
      cases hk
      exact heq.symm
    · exact h.hash hk
  · intro k b hk
    rw [insertOrphanBlock_blocks] at hk
    rw [insertOrphanBlock_orphanBlocks]
    split at hk
    · rename_i heq
      cases hk
      rw [if_pos rfl]
      exact ⟨_, rfl, mem_insert.mpr (.inl heq)⟩
    · obtain ⟨children, hget, hmem⟩ := h.listed hk
      split
      · rename_i hp
        rw [hp] at hget
        refine ⟨_, rfl, mem_insert.mpr (.inr ?_)⟩
        rwa [hp, hget]
      · exact ⟨children, hget, hmem⟩
  · intro p children k hget hmem
    rw [insertOrphanBlock_orphanBlocks] at hget
    rw [insertOrphanBlock_blocks]
    split at hget
    · rename_i hp
      cases hget
      by_cases hk : k = env.hashOf block
      · exact ⟨block, if_pos hk, hp.symm⟩
      · rw [if_neg hk]
        rcases mem_insert.mp hmem with heq | hold
        · exact absurd heq hk
        · cases hchildren : pool.orphanBlocks.get p with
          | none =>
            rw [hchildren] at hold
            exact absurd hold not_mem_empty
          | some children =>
            rw [hchildren] at hold
            exact h.stored hchildren hold
    · rename_i hp
      obtain ⟨b, hb, hparent⟩ := h.stored hget hmem
      -- a block of this hash is listed under its parent, which is the parent of the new one
      have hk : k ≠ env.hashOf block := by
        rintro rfl
        refine hp ?_
        rw [← hparent]
        exact hnames b block (hB hb) hblock (h.hash hb)
      rw [if_neg hk]
      exact ⟨b, hb, hparent⟩
  · intro k hk
    rw [insertOrphanBlock_blocks]
    split
    · rfl
    · exact h.unknown hk
  · intro p children hget
    rw [insertOrphanBlock_orphanBlocks] at hget
    split at hget
    · cases hget
      exact isEmpty_eq_false_iff.mpr ⟨_, mem_insert.mpr (.inl rfl)⟩
    · exact h.nonempty hget

/-! ## The search -/

/-- The blocks with the given hashes leave the pool; the lists of children stay. -/
structure Drops (hashes : List BlockHash) (pool pool' : OrphanBlocksPool) : Prop where
  lists : pool'.orphanBlocks = pool.orphanBlocks
  blocks : ∀ k, pool'.blocks k = if k ∈ hashes then none else pool.blocks k
  unknown : ∀ k, k ∈ pool'.unknownBlocks ↔ k ∈ pool.unknownBlocks ∧ k ∉ hashes

theorem Drops.cons {hash : BlockHash} {hashes : List BlockHash} {pool1 pool2 : OrphanBlocksPool}
    (hfirst : Drops [hash] pool pool1) (hrest : Drops hashes pool1 pool2) :
    Drops (hash :: hashes) pool pool2 := by
  refine ⟨hrest.lists.trans hfirst.lists, fun k => ?_, fun k => ?_⟩
  · rw [hrest.blocks, hfirst.blocks]
    by_cases hk : k ∈ hashes
    · rw [if_pos hk, if_pos (List.mem_cons_of_mem _ hk)]
    · rw [if_neg hk]
      simp only [List.mem_cons, hk, or_false, List.not_mem_nil]
  · rw [hrest.unknown, hfirst.unknown, List.mem_singleton, List.mem_cons, not_or, and_assoc]

theorem drops_dropBlock (hash : BlockHash) : Drops [hash] pool (pool.dropBlock hash) where
  lists := rfl
  blocks k := by
    simp only [List.mem_singleton]
    exact Function.update_apply ..
  unknown k := by
    rw [List.mem_singleton]
    exact mem_erase.trans and_comm

theorem drops_dropBlocks (pool : OrphanBlocksPool) (hashes : List BlockHash) :
    Drops hashes pool (hashes.foldl dropBlock pool) := by
  induction hashes generalizing pool with
  | nil => exact ⟨rfl, by simp, by simp⟩
  | cons hash hashes ih => exact (drops_dropBlock hash).cons (ih _)

section Children

variable (taken : List Block × OrphanBlocksPool)

/-- A child leaves the pool. -/
theorem takeChild_eq (hash : BlockHash) :
    (takeChild taken hash).1 = taken.1 ++ (taken.2.blocks hash).toList ∧
      Drops [hash] taken.2 (takeChild taken hash).2 := by
  obtain ⟨removed, pool⟩ := taken
  unfold takeChild
  dsimp only
  cases hblock : pool.blocks hash with
  | some block => exact ⟨rfl, drops_dropBlock hash⟩
  | none =>
    refine ⟨(List.append_nil _).symm, rfl, fun k => ?_, (drops_dropBlock hash).unknown⟩
    show pool.blocks k = _
    split
    · rename_i hk
      rw [List.mem_singleton.mp hk]
      exact hblock
    · rfl

/-- Children that leave the pool, one after the other. -/
theorem takeChildren_eq {hashes : List BlockHash} (hnodup : hashes.Nodup) :
    (hashes.foldl takeChild taken).1 = taken.1 ++ hashes.filterMap taken.2.blocks ∧
      Drops hashes taken.2 (hashes.foldl takeChild taken).2 := by
  induction hashes generalizing taken with
  | nil => exact ⟨(List.append_nil _).symm, drops_dropBlocks _ []⟩
  | cons hash hashes ih =>
    obtain ⟨hnot, hnodup⟩ := List.nodup_cons.mp hnodup
    obtain ⟨hremoved, hdrops⟩ := ih (takeChild taken hash) hnodup
    obtain ⟨hremoved1, hdrops1⟩ := takeChild_eq taken hash
    refine ⟨?_, hdrops1.cons hdrops⟩
    -- the blocks of the other hashes are still there
    have hothers : hashes.filterMap (takeChild taken hash).2.blocks =
        hashes.filterMap taken.2.blocks := by
      refine List.filterMap_congr fun k hk => ?_
      rw [hdrops1.blocks, if_neg]
      intro heq
      exact hnot (List.mem_singleton.mp heq ▸ hk)
    rw [List.foldl_cons, hremoved, hremoved1, hothers, List.filterMap_cons, List.append_assoc]
    cases taken.2.blocks hash with
    | none => rfl
    | some block => rfl

end Children

/-- The loop of `remove_blocks_for_parent` runs to its end: from a queue and what has been taken so
far to what it has taken then. -/
inductive Loop (order : HashOrder) :
    List BlockHash → List Block × OrphanBlocksPool → List Block × OrphanBlocksPool → Prop where
  | done {taken : List Block × OrphanBlocksPool} : Loop order [] taken taken
  | skip {p : BlockHash} {queue : List BlockHash} {removed : List Block} {pool : OrphanBlocksPool}
      {r : List Block × OrphanBlocksPool} (hnone : pool.orphanBlocks.get p = none)
      (hrest : Loop order queue (removed, pool) r) : Loop order (p :: queue) (removed, pool) r
  | take {p : BlockHash} {queue : List BlockHash} {removed : List Block} {pool : OrphanBlocksPool}
      {children : HashSet BlockHash} {r : List Block × OrphanBlocksPool}
      (hsome : pool.orphanBlocks.get p = some children)
      (hrest : Loop order (queue ++ children.iter order)
        ((children.iter order).foldl takeChild
          (removed, { pool with orphanBlocks := pool.orphanBlocks.remove p })) r) :
      Loop order (p :: queue) (removed, pool) r

theorem sum_filter_add_le {α : Type} {l : List α} {q : α → Bool} {a : α} (f : α → Nat)
    (hmem : a ∈ l) (hq : q a = false) :
    ((l.filter q).map f).sum + f a ≤ (l.map f).sum := by
  induction l with
  | nil => cases hmem
  | cons b l ih =>
    have hall : ((l.filter q).map f).sum ≤ (l.map f).sum :=
      (List.filter_sublist.map f).sum_le_sum fun _ _ => Nat.zero_le _
    rw [List.map_cons, List.sum_cons]
    rcases List.mem_cons.mp hmem with rfl | hmem
    · rw [List.filter_cons_of_neg (by simp [hq])]
      omega
    · have hrest := ih hmem
      by_cases hb : q b
      · rw [List.filter_cons_of_pos hb, List.map_cons, List.sum_cons]
        omega
      · rw [List.filter_cons_of_neg hb]
        omega

/-- A list of children that is removed takes its length off the number of children. -/
theorem childCount_remove (hget : pool.orphanBlocks.get p = some children) :
    ((pool.orphanBlocks.remove p).entries.map fun e => e.2.len).sum + children.len ≤
      pool.childCount :=
  sum_filter_add_le (fun e => e.2.len) (get_eq_some.mp hget) (by simp)

/-- The rounds that the model gives the loop are enough. -/
theorem loop_removeRounds {rounds : Nat} (hrounds : queue.length + taken.2.childCount ≤ rounds) :
    Loop order queue taken (removeRounds order rounds queue taken) := by
  induction rounds generalizing queue taken with
  | zero =>
    have hempty : queue = [] := List.length_eq_zero_iff.mp (by omega)
    rw [hempty]
    exact .done
  | succ rounds ih =>
    obtain ⟨removed, pool⟩ := taken
    cases queue with
    | nil => exact .done
    | cons p queue =>
      rw [List.length_cons] at hrounds
      unfold removeRounds
      split
      · rename_i hnone
        exact .skip hnone (ih (by omega))
      · rename_i children hsome
        refine .take hsome (ih ?_)
        -- the children move from the pool to the queue
        have hcount := childCount_remove hsome
        have hlength : (children.iter order).length = children.len := (order.perm _).length_eq
        have hnodup : (children.iter order).Nodup := nodup_iter
        have hdrops := (takeChildren_eq
          (removed, { pool with orphanBlocks := pool.orphanBlocks.remove p }) hnodup).2
        unfold childCount at hrounds ⊢
        unfold childCount at hcount
        rw [hdrops.lists, List.length_append, hlength]
        dsimp only at hrounds ⊢
        omega

/-- The blocks of a pool that descend from a hash, through stored blocks. -/
inductive Descends (env : NodeEnv SE) (pool : OrphanBlocksPool) (root : BlockHash) :
    Block → Prop where
  | child {k : BlockHash} {b : Block} (hstored : pool.blocks k = some b)
      (hparent : b.header.prevBlockhash = root) : Descends env pool root b
  | step {k : BlockHash} {p b : Block} (hancestor : Descends env pool root p)
      (hstored : pool.blocks k = some b) (hparent : b.header.prevBlockhash = env.hashOf p) :
      Descends env pool root b

/-- Every block of a list comes after its parent, unless that is the root. -/
def ParentsFirst (env : NodeEnv SE) (root : BlockHash) (blocks : List Block) : Prop :=
  ∀ (i : Nat) (b : Block), blocks[i]? = some b → b.header.prevBlockhash = root ∨
    ∃ j < i, ∃ p, blocks[j]? = some p ∧ env.hashOf p = b.header.prevBlockhash

theorem ParentsFirst.append {blocks more : List Block} (h : ParentsFirst env root blocks)
    (hmore : ∀ b ∈ more, b.header.prevBlockhash = root ∨ ∃ p ∈ blocks, env.hashOf p =
      b.header.prevBlockhash) : ParentsFirst env root (blocks ++ more) := by
  intro i b hb
  rcases Nat.lt_or_ge i blocks.length with hlt | hge
  · rw [List.getElem?_append_left hlt] at hb
    rcases h i b hb with hroot | ⟨j, hj, p, hp, hparent⟩
    · exact .inl hroot
    · refine .inr ⟨j, hj, p, ?_, hparent⟩
      rw [List.getElem?_append_left (hj.trans hlt)]
      exact hp
  · rw [List.getElem?_append_right hge] at hb
    rcases hmore b (List.mem_of_getElem? hb) with hroot | ⟨p, hp, hparent⟩
    · exact .inl hroot
    · obtain ⟨j, hj⟩ := List.mem_iff_getElem?.mp hp
      have hlt : j < blocks.length := (List.getElem?_eq_some_iff.mp hj).1
      refine .inr ⟨j, hlt.trans_le hge, p, ?_, hparent⟩
      rw [List.getElem?_append_left hlt]
      exact hj

/-- The invariant of the search in a pool `before`: the root and the blocks that have left are in
the queue, or have no children any more. -/
structure Searching (env : NodeEnv SE) (before : OrphanBlocksPool) (root : BlockHash)
    (queue : List BlockHash) (taken : List Block × OrphanBlocksPool) : Prop where
  indexed : taken.2.Indexed env
  split : ∀ k b, before.blocks k = some b ↔
    taken.2.blocks k = some b ∨ b ∈ taken.1 ∧ env.hashOf b = k
  left : ∀ b ∈ taken.1, taken.2.blocks (env.hashOf b) = none
  nodup : (taken.1.map env.hashOf).Nodup
  ordered : ParentsFirst env root taken.1
  descends : ∀ b ∈ taken.1, Descends env before root b
  queued : ∀ q ∈ queue, q = root ∨ ∃ b ∈ taken.1, env.hashOf b = q
  closed : ∀ q, (q = root ∨ ∃ b ∈ taken.1, env.hashOf b = q) → q ∉ queue →
    taken.2.orphanBlocks.get q = none

theorem Searching.start (h : pool.Indexed env) :
    Searching env pool root [root] ([], pool) where
  indexed := h
  split := by simp
  left := by simp
  nodup := List.nodup_nil
  ordered := by intro i b hb; simp at hb
  descends := by simp
  queued := by simp
  closed := by simp

theorem Searching.skip (h : Searching env before root (p :: queue) taken)
    (hnone : taken.2.orphanBlocks.get p = none) : Searching env before root queue taken where
  indexed := h.indexed
  split := h.split
  left := h.left
  nodup := h.nodup
  ordered := h.ordered
  descends := h.descends
  queued q hq := h.queued q (List.mem_cons_of_mem p hq)
  closed := by
    intro q hq hnot
    by_cases hp : q = p
    · rw [hp]
      exact hnone
    · exact h.closed q hq (by simp [hp, hnot])

/-- The children of a block leave an indexed pool: what stays is indexed. -/
theorem Indexed.takeChildren {removed : List Block} (h : pool.Indexed env)
    (hsome : pool.orphanBlocks.get p = some children) :
    ((children.iter order).foldl takeChild
      (removed, { pool with orphanBlocks := pool.orphanBlocks.remove p })).2.Indexed env := by
  have hnodup : (children.iter order).Nodup := nodup_iter
  have hdrops := (takeChildren_eq
    (removed, { pool with orphanBlocks := pool.orphanBlocks.remove p }) hnodup).2
  have hgone {k : BlockHash} : k ∈ children.iter order ↔ pool.Listed p k := by
    rw [mem_iter]
    refine ⟨fun hk => ⟨children, hsome, hk⟩, ?_⟩
    rintro ⟨children', hget, hk⟩
    rw [hsome] at hget
    cases hget
    exact hk
  have hlists' {q : BlockHash} : ((children.iter order).foldl takeChild (removed,
      { pool with orphanBlocks := pool.orphanBlocks.remove p })).2.orphanBlocks.get q =
        if q = p then none else pool.orphanBlocks.get q := by
    rw [hdrops.lists]
    exact get_remove
  refine h.of_dropped (pool.Listed p) (fun k b => ?_) (fun q k => ?_) (fun k hk => ?_)
    fun q children' hget => ?_
  · rw [hdrops.blocks]
    split
    · rename_i hk
      simp [hgone.mp hk]
    · rename_i hk
      simp [mt hgone.mpr hk]
  · unfold Listed
    rw [hlists']
    split
    · rename_i hq
      rw [hq]
      simp
    · rename_i hq
      refine ⟨fun hk => ⟨hk, fun hp => hq (h.parent_unique hk hp)⟩, fun hk => hk.1⟩
  · rw [hdrops.unknown, hgone] at hk
    exact hk
  · rw [hlists'] at hget
    split at hget
    · cases hget
    · exact h.nonempty hget

/-- The hashes of blocks that are looked up are the ones they are looked up by. -/
theorem Indexed.sublist_hashes (h : pool.Indexed env) (hashes : List BlockHash) :
    ((hashes.filterMap pool.blocks).map env.hashOf).Sublist hashes := by
  induction hashes with
  | nil => exact .refl _
  | cons k hashes ih =>
    cases hb : pool.blocks k with
    | none =>
      rw [List.filterMap_cons_none hb]
      exact ih.cons k
    | some b =>
      rw [List.filterMap_cons_some hb, List.map_cons, h.hash hb]
      exact ih.cons_cons k

/-- The blocks of a list of children. -/
theorem Indexed.mem_children {b : Block} (h : pool.Indexed env)
    (hsome : pool.orphanBlocks.get p = some children) :
    b ∈ (children.iter order).filterMap pool.blocks ↔
      pool.blocks (env.hashOf b) = some b ∧ b.header.prevBlockhash = p := by
  rw [List.mem_filterMap]
  constructor
  · rintro ⟨k, hk, hb⟩
    obtain ⟨b', hb', hparent⟩ := h.stored hsome (mem_iter.mp hk)
    rw [hb] at hb'
    cases hb'
    rw [h.hash hb]
    exact ⟨hb, hparent⟩
  · rintro ⟨hb, hparent⟩
    obtain ⟨children', hget, hmem⟩ := h.listed hb
    rw [hparent, hsome] at hget
    cases hget
    exact ⟨env.hashOf b, mem_iter.mpr hmem, hb⟩

/-- The children of the next hash of the queue leave. -/
theorem Searching.take {removed : List Block}
    (h : Searching env before root (p :: queue) (removed, pool))
    (hsome : pool.orphanBlocks.get p = some children) :
    Searching env before root (queue ++ children.iter order)
      ((children.iter order).foldl takeChild
        (removed, { pool with orphanBlocks := pool.orphanBlocks.remove p })) := by
  have hnodup : (children.iter order).Nodup := nodup_iter
  obtain ⟨htaken, hdrops⟩ := takeChildren_eq
    (removed, { pool with orphanBlocks := pool.orphanBlocks.remove p }) hnodup
  have hnew {b : Block} : b ∈ (children.iter order).filterMap pool.blocks ↔
      pool.blocks (env.hashOf b) = some b ∧ b.header.prevBlockhash = p :=
    h.indexed.mem_children hsome
  have hhash {b : Block} (hb : b ∈ (children.iter order).filterMap pool.blocks) :
      env.hashOf b ∈ children.iter order :=
    (h.indexed.sublist_hashes _).subset (List.mem_map_of_mem hb)
  have hparent : p = root ∨ ∃ b ∈ removed, env.hashOf b = p := h.queued p List.mem_cons_self
  refine ⟨h.indexed.takeChildren hsome, fun k b => ?_, fun b hb => ?_, ?_, ?_, fun b hb => ?_,
    fun q hq => ?_, fun q hq hnot => ?_⟩
  · rw [h.split, hdrops.blocks, htaken, List.mem_append]
    constructor
    · rintro (hb | ⟨hold, heq⟩)
      · by_cases hk : k ∈ children.iter order
        · exact .inr ⟨.inr (List.mem_filterMap.mpr ⟨k, hk, hb⟩), h.indexed.hash hb⟩
        · exact .inl (by rwa [if_neg hk])
      · exact .inr ⟨.inl hold, heq⟩
    · rintro (hb | ⟨hold | hb, heq⟩)
      · split at hb
        · cases hb
        · exact .inl hb
      · exact .inr ⟨hold, heq⟩
      · exact .inl (heq ▸ (hnew.mp hb).1)
  · rw [hdrops.blocks]
    rw [htaken] at hb
    split
    · rfl
    · rename_i hstays
      rcases List.mem_append.mp hb with hold | hb
      · exact h.left b hold
      · exact absurd (hhash hb) hstays
  · rw [htaken, List.map_append, List.nodup_append]
    refine ⟨h.nodup, hnodup.sublist (h.indexed.sublist_hashes _), ?_⟩
    intro k hk k' hk' heq
    obtain ⟨b, hb, rfl⟩ := List.mem_map.mp hk
    obtain ⟨b', hb', rfl⟩ := List.mem_map.mp hk'
    -- the one is not in the pool, the other is
    have hnone : pool.blocks (env.hashOf b) = none := h.left b hb
    rw [heq, (hnew.mp hb').1] at hnone
    cases hnone
  · rw [htaken]
    refine h.ordered.append fun b hb => ?_
    rw [(hnew.mp hb).2]
    exact hparent
  · rw [htaken] at hb
    rcases List.mem_append.mp hb with hold | hb
    · exact h.descends b hold
    · obtain ⟨hstored, hp⟩ := hnew.mp hb
      have hbefore := (h.split _ b).mpr (.inl hstored)
      rcases hparent with rfl | ⟨a, ha, rfl⟩
      · exact .child hbefore hp
      · exact .step (h.descends a ha) hbefore hp
  · rw [htaken]
    rcases List.mem_append.mp hq with hold | hchild
    · exact (h.queued q (List.mem_cons_of_mem p hold)).imp id
        fun ⟨b, hb, heq⟩ => ⟨b, List.mem_append_left _ hb, heq⟩
    · obtain ⟨b, hb, hp⟩ := h.indexed.stored hsome (mem_iter.mp hchild)
      have heq := h.indexed.hash hb
      refine .inr ⟨b, List.mem_append_right _ (hnew.mpr ⟨?_, hp⟩), heq⟩
      rw [heq]
      exact hb
  · rw [hdrops.lists]
    show (pool.orphanBlocks.remove p).get q = none
    rw [get_remove]
    split
    · rfl
    · rename_i hp
      rw [htaken] at hq
      rw [List.mem_append, not_or] at hnot
      refine h.closed q (hq.imp id ?_) (by simp [hp, hnot.1])
      rintro ⟨b, hb, rfl⟩
      rcases List.mem_append.mp hb with hold | hb
      · exact ⟨b, hold, rfl⟩
      · exact absurd (hhash hb) hnot.2

theorem Searching.loop {r : List Block × OrphanBlocksPool} (hloop : Loop order queue taken r)
    (h : Searching env before root queue taken) : Searching env before root [] r := by
  induction hloop with
  | done => exact h
  | skip hnone _ ih => exact ih (h.skip hnone)
  | take hsome _ ih => exact ih (h.take hsome)

/-- At the end of the search every descendant has left. -/
theorem Searching.mem_of_descends (h : Searching env before root [] taken) {b : Block}
    (hdescends : Descends env before root b) : b ∈ taken.1 := by
  -- a block that has stayed is listed under its parent, which has no children any more
  have hgone {k : BlockHash} {b : Block} (hb : before.blocks k = some b)
      (hparent : b.header.prevBlockhash = root ∨
        ∃ p ∈ taken.1, env.hashOf p = b.header.prevBlockhash) : b ∈ taken.1 := by
    rcases (h.split k b).mp hb with hstays | ⟨hleft, -⟩
    · obtain ⟨children, hget, -⟩ := h.indexed.listed hstays
      rw [h.closed _ hparent List.not_mem_nil] at hget
      cases hget
    · exact hleft
  induction hdescends with
  | child hstored hparent => exact hgone hstored (.inl hparent)
  | step _ hstored hparent ih => exact hgone hstored (.inr ⟨_, ih, hparent.symm⟩)

/-- The search of an indexed pool. -/
theorem Indexed.removeBlocksForParent (h : pool.Indexed env) (order : HashOrder)
    (root : BlockHash) :
    Loop order [root] ([], pool) (pool.removeBlocksForParent order root) ∧
      Searching env pool root [] (pool.removeBlocksForParent order root) := by
  have hloop : Loop order [root] ([], pool) (pool.removeBlocksForParent order root) :=
    loop_removeRounds (by rw [List.length_singleton, Nat.add_comm])
  exact ⟨hloop, Searching.loop hloop (.start h)⟩

/-! ## Removals by hash -/

/-- What holds of the pool after `remove_blocks` has dropped the hashes that it found under their
parents, and is kept when a subtree leaves, holds at its end. -/
theorem removeBlocks_induct {P : OrphanBlocksPool → Prop}
    (hdrops : ∀ found pool', (∀ k, k ∈ found ↔ k ∈ hashes ∧ ∃ p, pool.Listed p k) →
      Drops found (pool.delist order hashes) pool' → P pool')
    (hsubtree : ∀ pool' hash, P pool' → P (pool'.removeBlocksForParent order hash).2) :
    P (pool.removeBlocks env order hashes).2 := by
  refine List.foldlRecOn (motive := fun acc : List BlockHash × OrphanBlocksPool => P acc.2)
    (hashes.iter order) _ (hdrops _ _ (fun k => ?_) (drops_dropBlocks _ _))
    fun acc hacc hash _ => hsubtree acc.2 hash hacc
  simp only [List.mem_flatMap, HashOrder.mem_arrange, List.mem_filter, mem_iter,
    decide_eq_true_eq]
  constructor
  · rintro ⟨⟨p, children⟩, hmem, hk, hchild⟩
    exact ⟨hk, p, children, get_eq_some.mpr hmem, hchild⟩
  · rintro ⟨hk, p, children, hget, hchild⟩
    exact ⟨(p, children), get_eq_some.mp hget, hk, hchild⟩

theorem delist_get :
    (pool.delist order hashes).orphanBlocks.get p = some children ↔
      ∃ before, pool.orphanBlocks.get p = some before ∧
        children = before.without (hashes.iter order) ∧ children.isEmpty = false := by
  unfold delist
  dsimp only
  rw [get_retain, Option.bind_eq_some_iff]
  refine exists_congr fun before => and_congr_right fun _ => ?_
  split
  · rename_i hempty
    refine iff_of_false nofun ?_
    rintro ⟨rfl, hnot⟩
    rw [hempty] at hnot
    cases hnot
  · rename_i hnot
    rw [Option.some.injEq, eq_comm]
    exact ⟨fun h => ⟨h, h ▸ Bool.eq_false_of_not_eq_true hnot⟩, fun h => h.1⟩

theorem delist_listed : (pool.delist order hashes).Listed p k ↔ pool.Listed p k ∧ k ∉ hashes := by
  unfold Listed
  simp only [delist_get]
  constructor
  · rintro ⟨children, ⟨before, hget, rfl, -⟩, hk⟩
    rw [mem_without, mem_iter] at hk
    exact ⟨⟨before, hget, hk.1⟩, hk.2⟩
  · rintro ⟨⟨before, hget, hk⟩, hnot⟩
    have hmem : k ∈ before.without (hashes.iter order) := by
      rw [mem_without, mem_iter]
      exact ⟨hk, hnot⟩
    exact ⟨_, ⟨before, hget, rfl, isEmpty_eq_false_iff.mpr ⟨k, hmem⟩⟩, hmem⟩

theorem Indexed.removeBlocks (h : pool.Indexed env) (hashes : HashSet BlockHash) :
    (pool.removeBlocks env order hashes).2.Indexed env := by
  refine removeBlocks_induct (fun found pool' hmem hdrops => ?_)
    fun pool' hash h' => (h'.removeBlocksForParent order hash).2.indexed
  -- a hash that is stored is found under its parent
  have hfound {k : BlockHash} (hstored : (pool.blocks k).isSome) (hk : k ∈ hashes) :
      k ∈ found := by
    obtain ⟨b, hb⟩ := Option.isSome_iff_exists.mp hstored
    exact (hmem k).mpr ⟨hk, _, h.listed hb⟩
  refine h.of_dropped (· ∈ hashes) (fun k b => ?_) (fun p k => ?_) (fun k hk => ?_)
    fun p children hget => ?_
  · rw [hdrops.blocks]
    show (if _ then none else pool.blocks k) = some b ↔ _
    split
    · rename_i hk
      exact iff_of_false nofun fun hnot => hnot.2 ((hmem k).mp hk).1
    · rename_i hk
      refine ⟨fun hb => ⟨hb, fun hmem => hk (hfound ?_ hmem)⟩, fun hb => hb.1⟩
      rw [hb]
      rfl
  · unfold Listed
    rw [hdrops.lists]
    exact delist_listed
  · obtain ⟨hold, hnot⟩ := (hdrops.unknown k).mp hk
    exact ⟨hold, fun hmem => hnot (hfound (h.unknown hold) hmem)⟩
  · rw [hdrops.lists] at hget
    obtain ⟨-, -, -, hnonempty⟩ := delist_get.mp hget
    exact hnonempty

theorem Indexed.removeKnownBlocks (h : pool.Indexed env) :
    (pool.removeKnownBlocks env order).2.Indexed env := h.removeBlocks _

/-! ## Runs -/

theorem All.removeBlocks {P : Block → Prop} (h : pool.All P) (hashes : HashSet BlockHash) :
    (pool.removeBlocks env order hashes).2.All P := by
  refine removeBlocks_induct (fun found pool' _ hdrops k b hb => ?_)
    fun pool' hash h' => (h'.removeBlocksForParent order hash).2
  rw [hdrops.blocks] at hb
  split at hb
  · cases hb
  · exact h k b hb

/-- What can be done to the pool. -/
inductive Op where
  | insertOrphanBlock (block : Block)
  | insertUnknownBlock (block : Block)
  | removeBlocksForParent (hash : BlockHash)
  | removeBlocks (hashes : HashSet BlockHash)
  | removeKnownBlocks
  | clear

/-- An operation, with the order in which it iterates hash maps. -/
def apply (env : NodeEnv SE) :
    Op × HashOrder → OrphanBlocksPool → Outcome Empty (Unit × OrphanBlocksPool)
  | (.insertOrphanBlock block, _), pool => .ok ((), pool.insertOrphanBlock env block)
  | (.insertUnknownBlock block, _), pool => do
    let pool ← pool.insertUnknownBlock env block
    pure ((), pool)
  | (.removeBlocksForParent hash, order), pool =>
    .ok ((), (pool.removeBlocksForParent order hash).2)
  | (.removeBlocks hashes, order), pool => .ok ((), (pool.removeBlocks env order hashes).2)
  | (.removeKnownBlocks, order), pool => .ok ((), (pool.removeKnownBlocks env order).2)
  | (.clear, _), pool => .ok ((), pool.clear)

/-- A block that an operation inserts is among the given ones. -/
def Op.Among (B : Block → Prop) : Op → Prop
  | insertOrphanBlock block => B block
  | insertUnknownBlock block => B block
  | _ => True

/-- The step. -/
theorem indexed_apply {op : Op × HashOrder} (hnames : NamesParent env B)
    (hB : op.1.Among B) (h : pool.Indexed env) (hall : pool.All B) :
    Outcome.Post (fun r => r.2.Indexed env ∧ r.2.All B) (apply env op pool) := by
  have hinsert {pool : OrphanBlocksPool} {block : Block} (h : pool.Indexed env) (hall : pool.All B)
      (hblock : B block) : (pool.insertOrphanBlock env block).Indexed env ∧
        (pool.insertOrphanBlock env block).All B :=
    ⟨h.insertOrphanBlock (fun {k b} => hall k b) hnames hblock, hall.insertOrphanBlock hblock⟩
  obtain ⟨op, order⟩ := op
  cases op with
  | insertOrphanBlock block => exact post_ok.mpr (hinsert h hall hB)
  | insertUnknownBlock block =>
    refine Outcome.Post.bind (P := fun pool => pool.Indexed env ∧ pool.All B) ?_
      fun pool' hpool' => post_ok.mpr hpool'
    refine post_self.bind fun _ _ => post_ok.mpr ?_
    obtain ⟨hindexed, hall'⟩ := hinsert h hall hB
    refine ⟨⟨hindexed.hash, hindexed.listed, hindexed.stored, ?_, hindexed.nonempty⟩, hall'⟩
    intro k hk
    rcases mem_insert.mp hk with rfl | hold
    · show ((pool.insertOrphanBlock env block).blocks (env.hashOf block)).isSome
      rw [insertOrphanBlock_blocks, if_pos rfl]
      rfl
    · exact hindexed.unknown hold
  | removeBlocksForParent hash =>
    exact post_ok.mpr
      ⟨(h.removeBlocksForParent order hash).2.indexed, (hall.removeBlocksForParent order hash).2⟩
  | removeBlocks hashes =>
    exact post_ok.mpr ⟨h.removeBlocks hashes, hall.removeBlocks hashes⟩
  | removeKnownBlocks => exact post_ok.mpr ⟨h.removeKnownBlocks, hall.removeBlocks _⟩
  | clear => exact post_ok.mpr ⟨indexed_new, nofun⟩

/-- What `remove_blocks_for_parent` does: its loop ends; it returns the descendants of the hash,
each once and after its parent, and removes them and nothing else. -/
structure RemovesSubtree (env : NodeEnv SE) (order : HashOrder) (root : BlockHash)
    (pool : OrphanBlocksPool) : Prop where
  terminates : Loop order [root] ([], pool) (pool.removeBlocksForParent order root)
  returned : ∀ b, b ∈ (pool.removeBlocksForParent order root).1 ↔ Descends env pool root b
  once : ((pool.removeBlocksForParent order root).1.map env.hashOf).Nodup
  ordered : ParentsFirst env root (pool.removeBlocksForParent order root).1
  removed : ∀ k b, (pool.removeBlocksForParent order root).2.blocks k = some b ↔
    pool.blocks k = some b ∧ ¬ Descends env pool root b

theorem Indexed.removesSubtree (h : pool.Indexed env) (root : BlockHash) :
    pool.RemovesSubtree env order root := by
  obtain ⟨hloop, hsearch⟩ := h.removeBlocksForParent order root
  have hreturned (b : Block) :
      b ∈ (pool.removeBlocksForParent order root).1 ↔ Descends env pool root b :=
    ⟨hsearch.descends b, hsearch.mem_of_descends⟩
  refine ⟨hloop, hreturned, hsearch.nodup, hsearch.ordered, fun k b => ?_⟩
  rw [hsearch.split, ← hreturned]
  constructor
  · intro hb
    refine ⟨.inl hb, fun hleft => ?_⟩
    have hnone := hsearch.left b hleft
    rw [hsearch.indexed.hash hb, hb] at hnone
    cases hnone
  · rintro ⟨hb | ⟨hleft, -⟩, hnot⟩
    · exact hb
    · exact absurd hleft hnot

end OrphanBlocksPool

/-- In every run of the pool over blocks whose hash names their parent, the pool is indexed, and
`remove_blocks_for_parent` takes out a subtree. -/
theorem indexed_of_runs {SE : Type} (env : NodeEnv SE) (B : Block → Prop)
    (hnames : OrphanBlocksPool.NamesParent env B) (pool : OrphanBlocksPool)
    (hrun : Runs (· = .new) (OrphanBlocksPool.apply env) (fun op _ => op.1.Among B) pool) :
    pool.Indexed env ∧ ∀ order root, pool.RemovesSubtree env order root := by
  have hkept : pool.Indexed env ∧ pool.All B := by
    refine Runs.invariant (I := fun pool => pool.Indexed env ∧ pool.All B) ?_ ?_ hrun
    · rintro pool rfl
      exact ⟨OrphanBlocksPool.indexed_new, nofun⟩
    · intro op pool a pool' _ hB h happly
      exact OrphanBlocksPool.indexed_apply hnames hB h.1 h.2 (a, pool') happly
  exact ⟨hkept.1, fun order root => hkept.1.removesSubtree root⟩

namespace Reference

open Subcoin.Reference (env)

/-- Another block on the second one. -/
def sibling : Block := blockOn (env.hashOf block₂) 4

def orphans : List Block := [block₂, block₃, sibling]

/-- Two blocks on one that comes after the first of them: all three descend from the first block. -/
theorem removesSubtree_orphans :
    ∃ pool : OrphanBlocksPool,
      (pool.removeBlocksForParent .insertion (env.hashOf block₁)).1 = orphans ∧
      pool.Indexed env ∧ pool.RemovesSubtree env .insertion (env.hashOf block₁) := by
  have hnames : OrphanBlocksPool.NamesParent env (· ∈ orphans) := by
    have hchecked : ∀ a ∈ orphans, ∀ b ∈ orphans, env.hashOf a = env.hashOf b →
        a.header.prevBlockhash = b.header.prevBlockhash := by decide +kernel
    exact fun a b ha hb => hchecked a ha b hb
  have heval : (Runs.exec (OrphanBlocksPool.apply env)
      [(.insertOrphanBlock block₃, .insertion), (.insertOrphanBlock block₂, .insertion),
        (.insertUnknownBlock sibling, .insertion)] .new).any (fun pool =>
      (pool.removeBlocksForParent .insertion (env.hashOf block₁)).1 = orphans) = true := by
    decide +kernel
  obtain ⟨pool, hrun, hreturned⟩ : ∃ pool, Runs (· = .new) (OrphanBlocksPool.apply env)
      (fun op _ => op.1.Among (· ∈ orphans)) pool ∧ decide _ = true := by
    refine Runs.exists_of_exec ?_ ?_ heval
    · rfl
    · simp [OrphanBlocksPool.Op.Among, orphans]
  obtain ⟨hindexed, hremoves⟩ := indexed_of_runs env _ hnames pool hrun
  exact ⟨pool, of_decide_eq_true hreturned, hindexed, hremoves .insertion _⟩

end Reference

end Subcoin.Sync
