import Subcoin.Indexer.Balances
import Subcoin.Indexer.Resumption

/-!
# Subcoin — the live index

After historical indexing the indexer follows the import notifications of the client. A block of the
client's tree is given by the path from the genesis block to it, and the best path is the canonical
chain. A notification carries the number of the imported block and, when the best block is replaced
by one that is not its child, the route from the old best block to the parent of the new one; the
indexer reads the numbers on the route and nothing else. Every notification is handled before the
next block is imported, and the saved state repeats `last_indexed`.
-/

namespace Subcoin.Indexer

/-! ## The tree of the client -/

/-- The numbers on a route: the retracted blocks downwards, the enacted ones upwards. -/
structure TreeRoute where
  retracted : List Nat
  enacted : List Nat
deriving DecidableEq

structure ImportNotification where
  number : Nat
  treeRoute : Option TreeRoute
deriving DecidableEq

/-- The number of blocks that two paths share. -/
def commonLength : List Block → List Block → Nat
  | a :: path, b :: path' => if a = b then commonLength path path' + 1 else 0
  | _, _ => 0

def treeRoute (source target : List Block) : TreeRoute :=
  let common := commonLength source target
  { retracted := (List.range' common (source.length - common)).reverse
    enacted := List.range' common (target.length - common) }

/-- The imported blocks and the best one, as paths. -/
structure ChainTree where
  known : List (List Block)
  best : List Block

/-- A block on a known one; the client decides whether it becomes the best one. -/
structure Import where
  parent : List Block
  block : Block
  isNewBest : Bool

namespace ChainTree

/-- The tree of a chain without forks. -/
def linear (chain : List Block) : ChainTree :=
  ⟨(List.range chain.length).map fun n => chain.take (n + 1), chain⟩

def importBlock (tree : ChainTree) (i : Import) : ChainTree :=
  let path := i.parent ++ [i.block]
  ⟨path :: tree.known, if i.isNewBest then path else tree.best⟩

/-- There is a route when the best block is replaced by one that is not its child. -/
def notification (tree : ChainTree) (i : Import) : ImportNotification where
  number := i.parent.length
  treeRoute :=
    if i.isNewBest ∧ i.parent ≠ tree.best then some (treeRoute tree.best i.parent) else none

end ChainTree

/-! ## The live loop -/

section

variable {SE : Type} (env : IndexerEnv SE)

/-- The block of the canonical chain at a height is indexed, if there is one. -/
def indexHeight (canonical : List Block) (indexed : Tables × Nat) (height : Nat) : Tables × Nat :=
  match canonical[height]? with
  | some block => (indexBlock env height block indexed.1, height)
  | none => indexed

/-- Revert retracted blocks. -/
def revertRetracted (route : TreeRoute) (indexed : Tables × Nat) : Tables × Nat :=
  match route.retracted with
  | [] => indexed
  | first :: _ => (revertToHeight (first - 1) indexed.1, first - 1)

/-- What the loop of `run` does for a notification. -/
def onNotification (canonical : List Block) (notification : ImportNotification)
    (indexed : Tables × Nat) : Tables × Nat :=
  match notification.treeRoute with
  | some route => route.enacted.foldl (indexHeight env canonical) (revertRetracted route indexed)
  | none => indexHeight env canonical indexed notification.number

/-! ## The start -/

/-- `index_block_range` to its end, with fuel. -/
def Task.finish (chain : List Block) : Nat → Task → Db → Option Db
  | 0, _, _ => none
  | _ + 1, .done, db => some db
  | fuel + 1, task, db =>
    (task.step env chain batchSize db).bind fun next => Task.finish chain fuel next.2 next.1

/-- The first process indexes a chain that does not change meanwhile. -/
def catchUp (chain : List Block) : Option Db :=
  let (db, task) := handleIndexGap (chain.length - 1) ⟨.empty, none⟩
  task.finish env chain (2 * chain.length + 2) db

/-! ## Runs -/

/-- The client and the live index. -/
structure Live where
  tree : ChainTree
  tables : Tables
  lastIndexed : Nat

namespace Live

/-- Historical indexing of a chain has finished. -/
structure Initial (s : Live) : Prop where
  valid : ValidChain env s.tree.best
  nonempty : s.tree.best ≠ []
  tree : s.tree = .linear s.tree.best
  caughtUp : ∃ db, catchUp env s.tree.best = some db ∧ s.tables = db.tables ∧
    db.state = some (.active s.lastIndexed)

/-- A block is imported, and its notification is handled. -/
def apply (i : Import) (s : Live) : Outcome Empty (Unit × Live) :=
  let tree := s.tree.importBlock i
  let (tables, lastIndexed) :=
    onNotification env tree.best (s.tree.notification i) (s.tables, s.lastIndexed)
  .ok ((), ⟨tree, tables, lastIndexed⟩)

/-- The block is on a known one, and its chain is valid. -/
def Importable (i : Import) (s : Live) : Prop :=
  i.parent ∈ s.tree.known ∧ ValidChain env (i.parent ++ [i.block])

/-- The index is that of the canonical chain. -/
structure Synced (s : Live) : Prop where
  tables : Tables.Same s.tables (indexOneByOne env s.tree.best s.tree.best.length)
  lastIndexed : s.lastIndexed + 1 = s.tree.best.length

/-- The block is a child of the best one and becomes the best one, or it does not become the best
one and is not below it. -/
def Steady (i : Import) (s : Live) : Prop :=
  if i.isNewBest then i.parent = s.tree.best else s.tree.best.length ≤ i.parent.length + 1

end Live

end

section

variable {SE : Type} {env : IndexerEnv SE} {chain : List Block}

/-! ## Historical indexing finishes -/

/-- Every batch leads on by one block at least, and takes two steps. -/
theorem Task.finish_range {fuel height stop processed : Nat} {db : Db} (hstop : stop ≤ chain.length)
    (hheight : height ≤ stop) (hfuel : 2 * (stop - height) + 2 ≤ fuel) :
    ∃ db', (Task.range height stop processed).finish env chain fuel db = some db' := by
  induction fuel using Nat.strong_induction_on generalizing height processed db with
  | _ fuel ih =>
    obtain ⟨fuel, rfl⟩ : ∃ rest, fuel = rest + 2 := ⟨fuel - 2, by omega⟩
    by_cases hlt : height < stop
    · have hend : min (height + batchSize) stop ≤ chain.length := by omega
      have hpos : 0 < batchSize := by decide
      rw [Task.finish, Task.step, if_pos hlt]
      · simp only [indexBlockBatch_eq hend, Option.map_some, Option.bind_some]
        exact ih fuel (by omega) (Nat.min_le_right ..) (by omega)
      · intro h
        cases h
    · rw [Task.finish, Task.step, if_neg hlt]
      · exact ⟨_, rfl⟩
      · intro h
        cases h

/-- The database that historical indexing leaves. -/
theorem Task.finish_ready (hvalid : ValidChain env chain) {best begun fuel : Nat}
    (hbest : best < chain.length) {task : Task} {db db' : Db}
    (h : db.Resumable env chain best begun) (hready : task.Ready env chain best begun db)
    (hfinish : task.finish env chain fuel db = some db') :
    Task.done.Ready env chain best begun db' := by
  induction fuel generalizing task db with
  | zero => cases hfinish
  | succ fuel ih =>
    by_cases hdone : task = .done
    · subst hdone
      cases hfinish
      exact hready
    · rw [Task.finish] at hfinish
      · obtain ⟨next, hstep, hrest⟩ := Option.bind_eq_some_iff.mp hfinish
        obtain ⟨hnext, hready'⟩ := Task.step_ready hvalid hbest h hready hstep
        exact ih hnext hready' hrest
      · exact hdone

/-- A chain with more than the genesis block is indexed up to its best block. -/
theorem catchUp_eq (hvalid : ValidChain env chain) (hlength : 1 < chain.length) :
    ∃ db, catchUp env chain = some db ∧ db.state = some (.active (chain.length - 1)) ∧
      IndexOf env chain db.tables := by
  have hpos : 0 < chain.length - 1 := by omega
  let db0 : Db := ⟨.empty, some (.historicalIndexing (chain.length - 1 + 1) 0)⟩
  have hgap : handleIndexGap (chain.length - 1) ⟨.empty, none⟩ =
      (db0, .range 0 (chain.length - 1 + 1) 0) := by
    unfold handleIndexGap
    simp only [if_pos hpos]
    rfl
  have hfresh := @handleIndexGap_fresh _ env chain (chain.length - 1) hpos
  rw [hgap] at hfresh
  obtain ⟨db, hfinish⟩ : ∃ db, (Task.range 0 (chain.length - 1 + 1) 0).finish env chain
      (2 * chain.length + 2) db0 = some db :=
    Task.finish_range (by omega) (by omega) (by omega)
  obtain ⟨hstate, -, hindex⟩ := Task.finish_ready hvalid (by omega) hfresh.1 hfresh.2 hfinish
  have hcatchUp : catchUp env chain = some db := by
    unfold catchUp
    rw [hgap]
    exact hfinish
  rw [List.take_of_length_le (by omega)] at hindex
  exact ⟨db, hcatchUp, hstate, hindex⟩

/-! ## Imports that keep the index -/

section

variable {canonical : List Block} {indexed : Tables × Nat} {height : Nat}
  {notification : ImportNotification}

variable {block : Block}

theorem indexHeight_some (h : canonical[height]? = some block) :
    indexHeight env canonical indexed height = (indexBlock env height block indexed.1, height) := by
  rw [indexHeight, h]

theorem indexHeight_none (h : canonical[height]? = none) :
    indexHeight env canonical indexed height = indexed := by
  rw [indexHeight, h]

theorem onNotification_none (h : notification.treeRoute = none) :
    onNotification env canonical notification indexed =
      indexHeight env canonical indexed notification.number := by
  rw [onNotification, h]

end

namespace Live

variable {s : Live} {i : Import}

/-- What holds while every import is steady. -/
structure Following (env : IndexerEnv SE) (s : Live) : Prop where
  valid : ∀ path ∈ s.tree.known, ValidChain env path
  best : s.tree.best ∈ s.tree.known
  index : IndexOf env s.tree.best s.tables
  lastIndexed : s.lastIndexed + 1 = s.tree.best.length

theorem Following.synced (h : Following env s) : Synced env s := by
  have hone := (indexed_indexOneByOne s.tree.best.length).indexOf (h.valid _ h.best)
  rw [Nat.min_self, List.take_length] at hone
  exact ⟨h.index.same hone, h.lastIndexed⟩

theorem Initial.following (h : Initial env s) (hlength : 1 < s.tree.best.length) :
    Following env s := by
  obtain ⟨db, hdb, htables, hstate⟩ := h.caughtUp
  obtain ⟨db', hdb', hstate', hindex⟩ := catchUp_eq h.valid hlength
  cases hdb.symm.trans hdb'
  have hknown : s.tree.known =
      (List.range s.tree.best.length).map fun n => s.tree.best.take (n + 1) :=
    congrArg ChainTree.known h.tree
  refine ⟨fun path hpath => ?_, ?_, htables ▸ hindex, ?_⟩
  · rw [hknown] at hpath
    obtain ⟨n, -, rfl⟩ := List.mem_map.mp hpath
    exact h.valid.take (n + 1)
  · rw [hknown]
    refine List.mem_map.mpr ⟨s.tree.best.length - 1, List.mem_range.mpr (by omega), ?_⟩
    exact List.take_of_length_le (by omega)
  · have hlast := IndexerState.active.inj (Option.some.inj (hstate.symm.trans hstate'))
    omega

/-- The best block gets a child that becomes the best block. -/
theorem Following.extend (h : Following env s) (hvalid : ValidChain env (s.tree.best ++ [block])) :
    IndexOf env (s.tree.best ++ [block]) (indexBlock env s.tree.best.length block s.tables) := by
  have hget : (s.tree.best ++ [block])[s.tree.best.length]? = some block := by
    rw [List.getElem?_append_right (Nat.le_refl _), Nat.sub_self]
    rfl
  have hindex : IndexOf env ((s.tree.best ++ [block]).take s.tree.best.length) s.tables := by
    rw [List.take_left]
    exact h.index
  have hbatch := hindex.indexBlocksBatch hvalid (Nat.le_succ s.tree.best.length)
  have hall : (s.tree.best ++ [block]).length ≤ s.tree.best.length + 1 := by
    rw [List.length_append]
    exact Nat.le_refl _
  rw [blockRange_single hget, List.take_of_length_le hall] at hbatch
  exact hbatch

/-- The best block is indexed again. -/
theorem Following.again (h : Following env s) (hget : s.tree.best[s.lastIndexed]? = some block) :
    IndexOf env s.tree.best (indexBlock env s.lastIndexed block s.tables) := by
  have hlast := h.lastIndexed
  have hindex : IndexOf env (s.tree.best.take s.tree.best.length) s.tables := by
    rw [List.take_length]
    exact h.index
  have hbatch : IndexOf env (s.tree.best.take (max s.tree.best.length (s.lastIndexed + 1)))
      (indexBlocksBatch env (blockRange s.tree.best s.lastIndexed (s.lastIndexed + 1)) s.tables) :=
    Index.indexOf_batch (h.valid _ h.best) hindex (by omega) fun _ _ _ _ _ _ _ => by omega
  rw [blockRange_single hget, hlast, Nat.max_self, List.take_length] at hbatch
  exact hbatch

variable {s' : Live} {u : Unit}

theorem tree_apply (happly : Live.apply env i s = .ok (u, s')) :
    s'.tree = s.tree.importBlock i := by
  cases happly
  rfl

theorem lastIndexed_apply (happly : Live.apply env i s = .ok (u, s')) :
    s'.lastIndexed = (onNotification env (s.tree.importBlock i).best (s.tree.notification i)
      (s.tables, s.lastIndexed)).2 := by
  cases happly
  rfl

/-- The state after an import without a route. -/
theorem apply_of_none (hroute : (s.tree.notification i).treeRoute = none)
    (happly : Live.apply env i s = .ok (u, s')) :
    s' =
      let indexed :=
        indexHeight env (s.tree.importBlock i).best (s.tables, s.lastIndexed) i.parent.length
      ⟨s.tree.importBlock i, indexed.1, indexed.2⟩ := by
  have hnumber : (s.tree.notification i).number = i.parent.length := rfl
  rw [← hnumber, ← onNotification_none hroute]
  cases happly
  rfl

theorem Following.apply (h : Following env s) (himport : Importable env i s)
    (hsteady : Steady i s) (happly : Live.apply env i s = .ok (u, s')) : Following env s' := by
  obtain ⟨parent, block, isNewBest⟩ := i
  obtain ⟨hparent, hvalid⟩ := himport
  have hknown : ∀ path ∈ (parent ++ [block]) :: s.tree.known, ValidChain env path :=
    List.forall_mem_cons.mpr ⟨hvalid, h.valid⟩
  cases isNewBest with
  | true =>
    obtain rfl : parent = s.tree.best := hsteady
    have hget : (s.tree.best ++ [block])[s.tree.best.length]? = some block := by
      rw [List.getElem?_append_right (Nat.le_refl _), Nat.sub_self]
      rfl
    obtain rfl := apply_of_none (if_neg fun hne => hne.2 rfl) happly
    refine ⟨hknown, List.mem_cons_self, ?_, ?_⟩
    · show IndexOf env (s.tree.best ++ [block]) (indexHeight env (s.tree.best ++ [block]) _ _).1
      rw [indexHeight_some hget]
      exact h.extend hvalid
    · show (indexHeight env (s.tree.best ++ [block]) _ _).2 + 1 = (s.tree.best ++ [block]).length
      rw [indexHeight_some hget, List.length_append]
      rfl
  | false =>
    have hlast := h.lastIndexed
    have hge : s.tree.best.length ≤ parent.length + 1 := hsteady
    obtain rfl := apply_of_none (if_neg fun hne => Bool.false_ne_true hne.1) happly
    refine ⟨hknown, List.mem_cons_of_mem _ h.best, ?_, ?_⟩
    · show IndexOf env s.tree.best (indexHeight env s.tree.best _ parent.length).1
      cases hget : s.tree.best[parent.length]? with
      | none =>
        rw [indexHeight_none hget]
        exact h.index
      | some block =>
        -- The block of the chain at this height is the best one.
        have hlt := (List.getElem?_eq_some_iff.mp hget).1
        obtain heq : parent.length = s.lastIndexed := by omega
        rw [indexHeight_some hget, heq]
        exact h.again (heq ▸ hget)
    · show (indexHeight env s.tree.best _ parent.length).2 + 1 = s.tree.best.length
      cases hget : s.tree.best[parent.length]? with
      | none =>
        rw [indexHeight_none hget]
        exact hlast
      | some block =>
        have hlt := (List.getElem?_eq_some_iff.mp hget).1
        rw [indexHeight_some hget]
        omega

/-- The live index follows the canonical chain when it starts above the genesis block and no import
leads to a reorganisation or is below the best block. -/
theorem synced_of_runs {s : Live}
    (hrun : Runs (fun s => Initial env s ∧ 1 < s.tree.best.length) (Live.apply env)
      (fun i s => Importable env i s ∧ Steady i s) s) : Synced env s := by
  have hfollowing : Following env s := by
    refine hrun.invariant (I := Following env) (fun hinit => hinit.1.following hinit.2) ?_
    exact fun _ hcond h happly => h.apply hcond.1 hcond.2 happly
  exact hfollowing.synced

end Live

end

namespace Reference

/-- A block with a number of its own on another one. -/
def rival (number parent : Nat) : Block :=
  { blockAt number [] with
    header := { (blockAt number []).header with prevBlockhash := ⟨Hash256.ofNat (parent + 1)⟩ } }

/-- The chain that has been indexed when the first notification comes. -/
def startChain : List Block := [blockAt 0 [], blockAt 1 []]

/-- A branch from the genesis block. -/
def branch : List Block := [blockAt 0 [], rival 501 0]

theorem validChain_of_check {chain : List Block}
    (h : ((chain.map env.hashOf).Nodup ∧ ((entries chain).map fun x => env.computeTxid x.tx).Nodup ∧
      (∀ i < (entries chain).length, ∀ x ∈ (entries chain)[i]?, ∀ spend ∈ spends env [x],
        spend.1 ∈ (((entries chain).take i).flatMap (created env)).map Prod.fst) ∧
      ((spends env (entries chain)).map Prod.fst).Nodup ∧
      ∀ x ∈ entries chain, ∀ out ∈ x.tx.output, out.value ≤ maxMoney)) : ValidChain env chain :=
  ⟨h.1, h.2.1, ValidChain.earlier_of_take h.2.2.1, h.2.2.2.1, h.2.2.2.2⟩

theorem initial_startChain : ∃ s : Live, s.tree = .linear startChain ∧ s.lastIndexed = 1 ∧
    s.Initial env ∧ 1 < s.tree.best.length := by
  have hvalid : ValidChain env startChain := validChain_of_check (by decide +kernel)
  obtain ⟨db, hdb, hstate, -⟩ := catchUp_eq hvalid (by decide)
  have hlength : 1 < startChain.length := by decide
  exact ⟨⟨.linear startChain, db.tables, 1⟩, rfl, rfl, ⟨hvalid, nofun, rfl, db, hdb, rfl, hstate⟩,
    hlength⟩

/-- A block beside the best one. -/
def sideImport : Import := ⟨[blockAt 0 []], rival 501 0, false⟩

theorem importable_sideImport {s : Live} (h : s.tree = .linear startChain) :
    s.Importable env sideImport := by
  refine ⟨?_, validChain_of_check (by decide +kernel)⟩
  rw [h]
  exact List.mem_cons_self

/-- A block beside the best one, and one on it. -/
theorem synced_extended :
    ∃ s : Live, s.tree.best.length = 3 ∧ Runs (fun s => s.Initial env ∧ 1 < s.tree.best.length)
      (Live.apply env) (fun i s => s.Importable env i ∧ s.Steady i) s ∧ s.Synced env := by
  obtain ⟨s, htree, -, hinit⟩ := initial_startChain
  have hsteady : s.Steady sideImport := by
    show s.tree.best.length ≤ 2
    rw [htree]
    decide
  have hstart : Runs (fun s => s.Initial env ∧ 1 < s.tree.best.length) (Live.apply env)
      (fun i s => s.Importable env i ∧ s.Steady i) s := .init hinit
  have hside := hstart.step sideImport ⟨importable_sideImport htree, hsteady⟩ rfl
  have hextended := hside.step ⟨startChain, blockAt 2 [], true⟩ ⟨⟨?_, ?_⟩, ?_⟩ rfl
  · refine ⟨_, ?_, hextended, Live.synced_of_runs hextended⟩
    rfl
  · show startChain ∈ _ :: s.tree.known
    rw [htree]
    exact List.mem_cons_of_mem _ (by decide +kernel)
  · exact validChain_of_check (by decide +kernel)
  · show startChain = s.tree.best
    rw [htree]
    rfl

/-- The block beside the best one gets a child that becomes the best block: the child is not
indexed. -/
theorem not_synced_reorganised :
    ∃ s : Live, Runs (fun s => s.Initial env ∧ 1 < s.tree.best.length) (Live.apply env)
      (fun i s => s.Importable env i) s ∧ ¬ s.Synced env := by
  obtain ⟨s, htree, -, hinit⟩ := initial_startChain
  have hstart : Runs (fun s => s.Initial env ∧ 1 < s.tree.best.length) (Live.apply env)
      (fun i s => s.Importable env i) s := .init hinit
  obtain ⟨s1, hside⟩ : ∃ s1, Live.apply env sideImport s = .ok ((), s1) := ⟨_, rfl⟩
  let reorg : Import := ⟨branch, rival 502 501, true⟩
  obtain ⟨s2, hreorg⟩ : ∃ s2, Live.apply env reorg s1 = .ok ((), s2) := ⟨_, rfl⟩
  have htree1 : s1.tree = (ChainTree.linear startChain).importBlock sideImport := by
    rw [Live.tree_apply hside, htree]
  have hvalid : ValidChain env (branch ++ [rival 502 501]) :=
    validChain_of_check (by decide +kernel)
  have hparent : branch ∈ s1.tree.known := htree1 ▸ List.mem_cons_self
  have hrun := (hstart.step sideImport (importable_sideImport htree) hside).step reorg
    ⟨hparent, hvalid⟩ hreorg
  refine ⟨s2, hrun, fun hsynced => ?_⟩
  -- The route ends at the parent of the new best block.
  have hroute : (s1.tree.notification reorg).treeRoute = some ⟨[1], [1]⟩ := by
    rw [htree1]
    decide +kernel
  have hlast : s2.lastIndexed = 1 := by
    rw [Live.lastIndexed_apply hreorg, onNotification, hroute]
    rfl
  have hlength := hsynced.lastIndexed
  rw [hlast, Live.tree_apply hreorg, htree1] at hlength
  exact absurd hlength (by decide)

end Reference

end Subcoin.Indexer
