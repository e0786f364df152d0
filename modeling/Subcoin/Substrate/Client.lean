import Subcoin.Lib.ParentTree
import Subcoin.Pallet.Bitcoin

/-!
# Subcoin — the Substrate client

The part of the Substrate client the node relies on: a store of blocks with their headers, bodies
and states, the auxiliary key-value store, and the best block. `Client.hash` answers for the chain
of the best block only, as the database's number index does; `Client.importBlock` makes a block
best exactly when its fork choice says so and writes the auxiliary entries together with it.

A client whose blocks form a tree (`Client.WellFormed`) is a `ParentTree`, and `hash_eq_some` says
which of its nodes `Client.hash` finds.
-/

namespace Subcoin

abbrev H256 := Hash256

inductive DigestItem where
  | preRuntime (engine : List UInt8) (data : List UInt8)
  | consensus (engine : List UInt8) (data : List UInt8)
  | seal (engine : List UInt8) (data : List UInt8)
  | other (data : List UInt8)
  | runtimeEnvironmentUpdated
deriving DecidableEq

/-- `sp_runtime::generic::Header`. -/
structure SubstrateHeader where
  parentHash : H256
  number : Nat
  stateRoot : H256
  extrinsicsRoot : H256
  digest : List DigestItem
deriving DecidableEq

structure OpaqueExtrinsic where
  bytes : List UInt8
deriving DecidableEq

structure SubstrateBlock where
  header : SubstrateHeader
  extrinsics : List OpaqueExtrinsic
deriving DecidableEq

/-- `RuntimeCall`: the only call of `pallet-bitcoin`, or a call of another pallet. -/
inductive RuntimeCall where
  | transact (btcTx : Pallet.Transaction)
  | other
deriving DecidableEq

/-- The library functions of the node, those of Substrate and of the codecs included. -/
structure NodeEnv (SE : Type) extends Env SE where
  headerHash : SubstrateHeader → H256
  /-- `ordered_trie_root` of the encoded extrinsics. -/
  orderedTrieRoot : List (List UInt8) → H256
  /-- The storage root of a state. -/
  storageRoot : Pallet.State → H256
  encodeHeader : Header → List UInt8
  decodeHeader : List UInt8 → Except String Header
  /-- SCALE encoding of a bare `UncheckedExtrinsic`, as an opaque extrinsic. -/
  encodeExtrinsic : RuntimeCall → OpaqueExtrinsic
  /-- SCALE decoding of an opaque extrinsic into the call it carries. -/
  decodeExtrinsic : OpaqueExtrinsic → Option RuntimeCall

/-- `sp_blockchain::Error`, the variants the node builds or passes on: `runtimeApi` is a runtime
call that failed, with the message of its panic. -/
inductive ClientError where
  | backend (msg : String)
  | missingHeader (hash : String)
  | unknownBlock (hash : H256)
  | runtimeApi (msg : String)
deriving DecidableEq, Repr

/-- A block in the store. The state is absent when the block was imported without executing it. -/
structure StoredBlock where
  header : SubstrateHeader
  body : Option (List OpaqueExtrinsic)
  state : Option Pallet.State
deriving DecidableEq

structure Client where
  blocks : H256 → Option StoredBlock
  aux : List UInt8 → Option (List UInt8)
  genesisHash : H256
  bestHash : H256

namespace Client

def header (c : Client) (h : H256) : Option SubstrateHeader := (c.blocks h).map StoredBlock.header

def number (c : Client) (h : H256) : Option Nat := (c.header h).map SubstrateHeader.number

def bestNumber (c : Client) : Nat := (c.number c.bestHash).getD 0

/-- The first block numbered `n` on the way from `h` to the genesis block. -/
def findNumber (c : Client) (n : Nat) : Nat → H256 → Option H256
  | 0, _ => none
  | fuel + 1, h =>
    match c.header h with
    | none => none
    | some hd => if hd.number = n then some h else c.findNumber n fuel hd.parentHash

/-- `HeaderBackend::hash`: the block numbered `n` on the chain of the best block. -/
def hash (c : Client) (n : Nat) : Option H256 := c.findNumber n (c.bestNumber + 1) c.bestHash

def getAux (c : Client) (key : List UInt8) : Option (List UInt8) := c.aux key

/-- `StorageProvider::storage` under the key of a coin, decoded. Errors of the backend, such as a
missing state, read as no value. -/
def coinAt (c : Client) (h : H256) (o : OutPoint) : Option Coin :=
  ((c.blocks h).bind StoredBlock.state).bind fun st => st.coin o

end Client

inductive BlockStatus where
  | queued
  | inChainWithState
  | inChainPruned
  | knownBad
  | unknown
deriving DecidableEq, Repr

/-- `BlockBackend::block_status`. Blocks are imported one at a time, so none is queued. -/
def Client.blockStatus (c : Client) (h : H256) : BlockStatus :=
  match c.blocks h with
  | none => .unknown
  | some b => if b.state.isSome then .inChainWithState else .inChainPruned

/-! ## Importing a block -/

/-- `BlockImportParams`. `state` is the state after the storage changes of `state_action`. -/
structure BlockImportParams where
  header : SubstrateHeader
  body : Option (List OpaqueExtrinsic)
  state : Option Pallet.State
  forkChoice : Bool
  auxiliary : List (List UInt8 × Option (List UInt8))

inductive ImportResult where
  | imported (isNewBest : Bool)
  | alreadyInChain
  | knownBad
  | unknownParent
  | missingState
deriving DecidableEq, Repr

namespace Client

/-- Writes the entries in order; an entry without a value deletes its key. -/
def writeAux (aux : List UInt8 → Option (List UInt8))
    (entries : List (List UInt8 × Option (List UInt8))) : List UInt8 → Option (List UInt8) :=
  entries.foldl (fun m e => Function.update m e.1 e.2) aux

/-- The client with one more block. -/
def insertBlock (c : Client) (h : H256) (params : BlockImportParams) : Client :=
  { blocks := Function.update c.blocks h (some ⟨params.header, params.body, params.state⟩)
    aux := writeAux c.aux params.auxiliary
    genesisHash := c.genesisHash
    bestHash := if params.forkChoice then h else c.bestHash }

/-- `BlockImport::import_block` of the client. -/
def importBlock {SE : Type} (env : NodeEnv SE) (c : Client) (params : BlockImportParams) :
    ImportResult × Client :=
  let h := env.headerHash params.header
  if (c.blocks h).isSome then (.alreadyInChain, c)
  else if (c.blocks params.header.parentHash).isNone then (.unknownParent, c)
  else (.imported params.forkChoice, c.insertBlock h params)

end Client

/-! ## The tree of blocks -/

namespace Client

/-- The blocks form a tree under their parent hashes, numbered by height, with the best block in
it. -/
structure WellFormed (c : Client) : Prop where
  genesis : c.number c.genesisHash = some 0
  parent : ∀ {h b}, c.blocks h = some b → h ≠ c.genesisHash →
    ∃ p, c.blocks b.header.parentHash = some p ∧ b.header.number = p.header.number + 1
  best : (c.blocks c.bestHash).isSome = true

variable {c : Client}

variable {h : H256} {n : Nat} {b : StoredBlock}

theorem number_eq_some : c.number h = some n ↔ ∃ b, c.blocks h = some b ∧ b.header.number = n := by
  simp [number, header]

theorem number_of_blocks (hb : c.blocks h = some b) : c.number h = some b.header.number := by
  simp [number, header, hb]

def tree (c : Client) (wf : c.WellFormed) : ParentTree H256 where
  mem h := (c.blocks h).isSome = true
  parent h := ((c.header h).map SubstrateHeader.parentHash).getD default
  height h := (c.number h).getD 0
  root := c.genesisHash
  root_mem := by
    obtain ⟨b, hb, _⟩ := number_eq_some.mp wf.genesis
    simp [hb]
  height_root := by simp [wf.genesis]
  parent_mem h hmem hr := by
    obtain ⟨b, hb⟩ := Option.isSome_iff_exists.mp hmem
    obtain ⟨p, hp, _⟩ := wf.parent hb hr
    simp [header, hb, hp]
  height_parent h hmem hr := by
    obtain ⟨b, hb⟩ := Option.isSome_iff_exists.mp hmem
    obtain ⟨p, hp, hnum⟩ := wf.parent hb hr
    simp [number, header, hb, hp, hnum]

variable {wf : c.WellFormed}

theorem tree_mem_iff : (c.tree wf).mem h ↔ ∃ b, c.blocks h = some b :=
  Option.isSome_iff_exists

theorem tree_height_of_blocks (hb : c.blocks h = some b) :
    (c.tree wf).height h = b.header.number := by
  simp [tree, number_of_blocks hb]

theorem tree_parent_of_blocks (hb : c.blocks h = some b) :
    (c.tree wf).parent h = b.header.parentHash := by
  simp [tree, header, hb]

theorem best_mem : (c.tree wf).mem c.bestHash := wf.best

theorem tree_height_best : (c.tree wf).height c.bestHash = c.bestNumber := rfl

/-- The search finds the ancestor at the height it looks for, and nothing above the height it
starts from. Its fuel runs out at the genesis block, whose pointer leads out of the tree. -/
theorem findNumber_eq (hmem : (c.tree wf).mem h) (n : Nat) :
    c.findNumber n ((c.tree wf).height h + 1) h =
      if n ≤ (c.tree wf).height h then some ((c.tree wf).ancestorAt n h) else none := by
  induction hk : (c.tree wf).height h generalizing h with
  | zero =>
    obtain ⟨b, hb⟩ := tree_mem_iff.mp hmem
    have hnum : b.header.number = 0 := (tree_height_of_blocks hb).symm.trans hk
    have hself : (c.tree wf).ancestorAt 0 h = h := by
      rw [← hk]
      exact ParentTree.ancestorAt_self h
    by_cases hn : n = 0
    · subst hn
      simp [findNumber, header, hb, hnum, hself]
    · simp [findNumber, header, hb, hnum, hn, Ne.symm hn]
  | succ k ih =>
    obtain ⟨b, hb⟩ := tree_mem_iff.mp hmem
    have hr : h ≠ c.genesisHash := ParentTree.ne_root_of_height_pos (t := c.tree wf) (by omega)
    have hnum : b.header.number = k + 1 := (tree_height_of_blocks hb).symm.trans hk
    have hpar : (c.tree wf).parent h = b.header.parentHash := tree_parent_of_blocks hb
    have hp := (c.tree wf).parent_mem h hmem hr
    have hph := (c.tree wf).height_parent h hmem hr
    have hhd : c.header h = some b.header := by simp [header, hb]
    rw [findNumber, hhd]
    dsimp only
    -- the search stops here or goes on at the parent, with one unit of fuel less
    by_cases hn : b.header.number = n
    · have hself : (c.tree wf).ancestorAt n h = h := by
        rw [← hn, hnum, ← hk]
        exact ParentTree.ancestorAt_self h
      rw [if_pos hn, if_pos (by omega), hself]
    · rw [if_neg hn, ← hpar, ih hp (by omega)]
      by_cases hle : n ≤ k
      · rw [if_pos hle, if_pos (by omega), ParentTree.ancestorAt_parent hmem hr (by omega)]
      · rw [if_neg hle, if_neg (by omega)]

/-- The number index knows exactly the ancestors of the best block. -/
theorem hash_eq_some (wf : c.WellFormed) :
    c.hash n = some h ↔
      n ≤ c.bestNumber ∧ (c.tree wf).ancestorAt n c.bestHash = h := by
  have hfind : c.findNumber n ((c.tree wf).height c.bestHash + 1) c.bestHash =
      if n ≤ (c.tree wf).height c.bestHash then some ((c.tree wf).ancestorAt n c.bestHash)
      else none := findNumber_eq best_mem n
  rw [tree_height_best] at hfind
  rw [hash, hfind]
  split
  · simp_all
  · simp_all

/-! ## The best chain -/

def parentOf (c : Client) (h : H256) : H256 :=
  ((c.header h).map SubstrateHeader.parentHash).getD default

/-- The block is reached from the best block by following parent hashes. -/
def OnBestChain (c : Client) (h : H256) : Prop :=
  ∃ k ≤ c.bestNumber, c.parentOf^[k] c.bestHash = h

theorem onBestChain_iff (wf : c.WellFormed) :
    c.OnBestChain h ↔ (c.tree wf).IsAncestor h c.bestHash := by
  constructor
  · rintro ⟨k, hk, rfl⟩
    have hheight : (c.tree wf).height (c.parentOf^[k] c.bestHash) = c.bestNumber - k :=
      (ParentTree.iterate_parent best_mem (by rw [tree_height_best]; exact hk)).2
    refine ⟨by rw [hheight, tree_height_best]; omega, ?_⟩
    rw [hheight, ParentTree.ancestorAt, tree_height_best, Nat.sub_sub_self hk]
    rfl
  · rintro ⟨hle, heq⟩
    exact ⟨(c.tree wf).height c.bestHash - (c.tree wf).height h,
      by rw [tree_height_best]; omega, heq⟩

theorem hash_number_iff (wf : c.WellFormed) (hn : c.number h = some n) :
    c.hash n = some h ↔ c.OnBestChain h := by
  obtain ⟨b, hb, hnum⟩ := number_eq_some.mp hn
  have hheight : (c.tree wf).height h = n := (tree_height_of_blocks hb).trans hnum
  rw [onBestChain_iff wf, hash_eq_some wf, ParentTree.IsAncestor, hheight,
    tree_height_best]

theorem OnBestChain.hash_eq (wf : c.WellFormed) {k : Nat} (hbest : c.OnBestChain h)
    (hn : c.number h = some n) (hk : k ≤ n) : c.hash k = some ((c.tree wf).ancestorAt k h) := by
  obtain ⟨b, hb, hnum⟩ := number_eq_some.mp hn
  have hheight : (c.tree wf).height h = n := (tree_height_of_blocks hb).trans hnum
  obtain ⟨hle, heq⟩ := (onBestChain_iff wf).mp hbest
  have hanc := ParentTree.ancestorAt_ancestorAt (t := c.tree wf) best_mem
    (show k ≤ (c.tree wf).height h by omega) hle
  rw [heq] at hanc
  exact (hash_eq_some wf).mpr ⟨by rw [tree_height_best] at hle; omega, hanc.symm⟩

end Client

end Subcoin
