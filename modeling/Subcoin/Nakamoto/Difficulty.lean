import Subcoin.Nakamoto.ForkView

/-!
# Subcoin — the required target on a branch

At a retarget height `get_next_work_required` needs the header one adjustment interval below. On the
branch of the header this is an ancestor of its parent; the code asks the number index, which
follows the chain of the best block.

* **`ownTarget`** — the target as the header's own branch determines it.
* **`required_target_iff`** — the code reads its own branch exactly when there is nothing to read or
  the ancestor is on the best chain.
* **`tall_branch_panics`** — on a branch of 4031 blocks beside a heavier one of a single block the
  call panics.
-/

namespace Subcoin

open Outcome

variable {SE : Type} {env : NodeEnv SE} {c c' : Client}

/-! ## The target of a branch -/

/-- The Bitcoin header in a block. -/
def Client.embeddedHeader (env : NodeEnv SE) (c : Client) (s : H256) : Option Header :=
  (c.header s).bind fun hd => (extractBitcoinBlockHeader env hd).toOption

/-- The ancestor of `p` that is one adjustment interval below a header on `p`. -/
def retargetAncestor (c : Client) (p : H256) (params : Params) : H256 :=
  c.parentOf^[params.difficultyAdjustmentInterval - 1] p

/-- The target of a header on a block numbered `n` with the header `last`, when the period before a
retarget starts with the header `first`. -/
def targetFrom (env : NodeEnv SE) (first : Option Header) (n : Nat) (last : Header)
    (params : Params) : Option Nat :=
  if params.noPowRetargeting then some (env.target last)
  else if isRetargetHeight params (n + 1) then
    first.map fun first =>
      calculateNextWorkRequired (env.target last) first.time.toNat last.time.toNat params
  else some (env.target last)

/-- The target by the rules of the block's own branch. -/
def ownTarget (env : NodeEnv SE) (c : Client) (p : H256) (n : Nat) (last : Header)
    (params : Params) : Option Nat :=
  targetFrom env (c.embeddedHeader env (retargetAncestor c p params)) n last params

/-- The target when the period starts on the best chain. -/
def bestChainTarget (env : NodeEnv SE) (c : Client) (n : Nat) (last : Header) (params : Params) :
    Option Nat :=
  targetFrom env
    ((c.hash (n + 1 - params.difficultyAdjustmentInterval)).bind (c.embeddedHeader env)) n last
    params

/-- The code computes the target of the branch, and where it looks a header up it is the one of the
ancestor. -/
structure FollowsOwnBranch (env : NodeEnv SE) (c : Client) (p : H256) (n : Nat) (last : Header)
    (params : Params) : Prop where
  target : ∃ t, ownTarget env c p n last params = some t ∧
    getNextWorkRequired env c n last params = .ok t
  read : params.noPowRetargeting = false → isRetargetHeight params (n + 1) = true →
    ∃ first, c.embeddedHeader env (retargetAncestor c p params) = some first ∧
      retargetHeader env c (n + 1) params = .ok first

variable {s : H256}

theorem Client.blockHeader_eq_embeddedHeader {h : BlockHash}
    (hmap : c.substrateBlockHashFor h = some s) : c.blockHeader env h = c.embeddedHeader env s := by
  unfold Client.blockHeader Client.embeddedHeader
  rw [hmap, Option.bind_some]

theorem EmbedsAt.embeddedHeader {h : BlockHash} {b : StoredBlock} {header : Header}
    (he : EmbedsAt env c h s b header) : c.embeddedHeader env s = some header := by
  unfold Client.embeddedHeader Client.header
  rw [he.stored, Option.map_some, Option.bind_some, he.embedded]
  rfl

theorem Integrity.eq_of_embeddedHeader (hi : Integrity env c) {s' : H256} {b b' : StoredBlock}
    (hb : c.blocks s = some b) (hb' : c.blocks s' = some b') {header : Header}
    (hs : c.embeddedHeader env s = some header) (hs' : c.embeddedHeader env s' = some header) :
    s = s' := by
  obtain ⟨h, hmap⟩ := hi.complete hb
  obtain ⟨h', hmap'⟩ := hi.complete hb'
  obtain ⟨_, hd, he⟩ := hi.maps hmap
  obtain ⟨_, hd', he'⟩ := hi.maps hmap'
  rw [he.embeddedHeader, Option.some.injEq] at hs
  rw [he'.embeddedHeader, Option.some.injEq] at hs'
  have hh : h = h' := by rw [← he.hash_eq, ← he'.hash_eq, hs, hs']
  rw [hh, hmap', Option.some.injEq] at hmap
  exact hmap.symm

section Retarget

variable {p : H256} {n : Nat} {params : Params}

theorem le_of_isRetargetHeight (h : isRetargetHeight params (n + 1) = true) :
    params.difficultyAdjustmentInterval ≤ n + 1 := by
  unfold isRetargetHeight at h
  rw [Bool.and_eq_true, decide_eq_true_eq] at h
  exact h.1

section

variable (hi : Integrity env c)

include hi

theorem Integrity.retargetAncestor_number (hn : c.number p = some n)
    (hretarget : isRetargetHeight params (n + 1) = true) :
    c.number (retargetAncestor c p params) =
      some (n + 1 - params.difficultyAdjustmentInterval) := by
  have hpos := interval_pos_of_isRetargetHeight hretarget
  have hle := le_of_isRetargetHeight hretarget
  obtain ⟨b, hb, hnum⟩ := Client.number_eq_some.mp hn
  have hmem : (c.tree hi.wellFormed).mem p := Client.tree_mem_iff.mpr ⟨b, hb⟩
  have hheight : (c.tree hi.wellFormed).height p = n :=
    (Client.tree_height_of_blocks hb).trans hnum
  obtain ⟨hamem, haheight⟩ := ParentTree.iterate_parent hmem
    (show params.difficultyAdjustmentInterval - 1 ≤ (c.tree hi.wellFormed).height p by omega)
  obtain ⟨a, ha⟩ := Client.tree_mem_iff.mp hamem
  rw [Client.tree_height_of_blocks ha] at haheight
  exact Client.number_eq_some.mpr ⟨a, ha, by omega⟩

theorem Integrity.retargetHeader_eq (height : Nat) :
    retargetHeader env c height params =
      expect ((c.hash (height - params.difficultyAdjustmentInterval)).bind
        (c.embeddedHeader env)) "Retarget block must be available; qed" := by
  unfold retargetHeader
  dsimp only
  rw [Client.blockHash]
  cases hs : c.hash (height - params.difficultyAdjustmentInterval) with
  | none => rfl
  | some s =>
    obtain ⟨b, h, hb, hmap⟩ := hi.exists_of_hash hs
    rw [Option.bind_some, Option.bind_some, hi.digest hmap, expect_some, ok_bind,
      Client.blockHeader_eq_embeddedHeader hmap]

/-- The code computes the target of the best chain. -/
theorem Integrity.getNextWorkRequired_eq (n : Nat) (last : Header) (params : Params) :
    getNextWorkRequired env c n last params =
      expect (bestChainTarget env c n last params)
        "Retarget block must be available; qed" := by
  unfold getNextWorkRequired bestChainTarget targetFrom
  dsimp only
  rw [hi.retargetHeader_eq]
  split
  · rfl
  · split
    · cases (c.hash (n + 1 - params.difficultyAdjustmentInterval)).bind (c.embeddedHeader env) with
      | none => rfl
      | some first => rfl
    · rfl

theorem Integrity.retargetHeader_eq_ok {height : Nat} {first : Header} :
    retargetHeader env c height params = .ok first ↔
      ∃ s, c.hash (height - params.difficultyAdjustmentInterval) = some s ∧
        c.embeddedHeader env s = some first := by
  rw [hi.retargetHeader_eq, expect_eq_ok, Option.bind_eq_some_iff]

theorem Integrity.onBestChain_of_number_zero (h : c.number s = some 0) : c.OnBestChain s := by
  rw [← Client.hash_number_iff hi.wellFormed h, Client.hash_eq_some hi.wellFormed]
  refine ⟨Nat.zero_le _, ?_⟩
  have hle : 0 ≤ (c.tree hi.wellFormed).height c.bestHash := Nat.zero_le _
  rw [hi.eq_genesisHash h]
  exact ParentTree.eq_root_of_height_eq_zero (ParentTree.ancestorAt_mem Client.best_mem hle)
    (ParentTree.height_ancestorAt Client.best_mem hle)

theorem Integrity.reads_ancestor_iff (hn : c.number p = some n)
    (hretarget : isRetargetHeight params (n + 1) = true) :
    (∃ first, c.embeddedHeader env (retargetAncestor c p params) = some first ∧
        retargetHeader env c (n + 1) params = .ok first) ↔
      c.OnBestChain (retargetAncestor c p params) := by
  have hnum := hi.retargetAncestor_number hn hretarget
  obtain ⟨a, ha, _⟩ := Client.number_eq_some.mp hnum
  rw [← Client.hash_number_iff hi.wellFormed hnum]
  constructor
  · rintro ⟨first, hown, hread⟩
    obtain ⟨s, hs, hheader⟩ := hi.retargetHeader_eq_ok.mp hread
    obtain ⟨b, _, hb, _⟩ := hi.exists_of_hash hs
    -- different blocks embed different headers, so the block read is the ancestor
    rw [hs, hi.eq_of_embeddedHeader hb ha hheader hown]
  · intro hhash
    obtain ⟨h, hmap⟩ := hi.complete ha
    obtain ⟨_, first, he⟩ := hi.maps hmap
    exact ⟨first, he.embeddedHeader, hi.retargetHeader_eq_ok.mpr ⟨_, hhash, he.embeddedHeader⟩⟩

theorem Integrity.followsOwnBranch_iff (hn : c.number p = some n) (last : Header) :
    FollowsOwnBranch env c p n last params ↔
      params.noPowRetargeting = true ∨ isRetargetHeight params (n + 1) = false ∨
        c.OnBestChain (retargetAncestor c p params) := by
  -- only at a retarget height of a network that retargets is there a lookup
  cases hno : params.noPowRetargeting with
  | true =>
    refine ⟨fun _ => Or.inl rfl, fun _ => ⟨⟨env.target last, ?_, ?_⟩, ?_⟩⟩
    · rw [ownTarget, targetFrom, if_pos hno]
    · rw [getNextWorkRequired, if_pos hno, pure_eq_ok]
    · intro hfalse
      rw [hno] at hfalse
      cases hfalse
  | false =>
    cases hretarget : isRetargetHeight params (n + 1) with
    | false =>
      refine ⟨fun _ => Or.inr (Or.inl rfl), fun _ => ⟨⟨env.target last, ?_, ?_⟩, ?_⟩⟩
      · simp only [ownTarget, targetFrom, hno, hretarget, Bool.false_eq_true, if_false]
      · simp only [getNextWorkRequired, hno, hretarget, Bool.false_eq_true, if_false,
          pure_eq_ok]
      · intro _ htrue
        rw [hretarget] at htrue
        cases htrue
    | true =>
      rw [← hi.reads_ancestor_iff hn hretarget]
      constructor
      · intro hfollow
        exact Or.inr (Or.inr (hfollow.read hno hretarget))
      · rintro (hfalse | hfalse | ⟨first, hown, hread⟩)
        · cases hfalse
        · cases hfalse
        · refine ⟨⟨calculateNextWorkRequired (env.target last) first.time.toNat
            last.time.toNat params, ?_, ?_⟩, fun _ _ => ⟨first, hown, hread⟩⟩
          · simp only [ownTarget, targetFrom, hno, hretarget, Bool.false_eq_true, if_false, if_true,
              hown, Option.map_some]
          · simp only [getNextWorkRequired, hno, hretarget, Bool.false_eq_true, if_false, if_true,
              hread, ok_bind, pure_eq_ok]

end

/-- The target of a branch does not depend on what else is imported. -/
theorem Grows.ownTarget_eq (hg : Grows c c') (hi : Integrity env c) (hi' : Integrity env c')
    (hn : c.number p = some n) (last : Header) :
    ownTarget env c' p n last params = ownTarget env c p n last params := by
  unfold ownTarget targetFrom
  by_cases hretarget : isRetargetHeight params (n + 1) = true
  · have hpos := interval_pos_of_isRetargetHeight hretarget
    have hle := le_of_isRetargetHeight hretarget
    obtain ⟨b, hb, hnum⟩ := Client.number_eq_some.mp hn
    have hmem : (c.tree hi.wellFormed).mem p := Client.tree_mem_iff.mpr ⟨b, hb⟩
    have hheight : (c.tree hi.wellFormed).height p = n :=
      (Client.tree_height_of_blocks hb).trans hnum
    have hanc : retargetAncestor c' p params = retargetAncestor c p params :=
      (hg.extends hi.wellFormed hi'.wellFormed).iterate_eq hmem (by omega)
    obtain ⟨a, ha, _⟩ := Client.number_eq_some.mp (hi.retargetAncestor_number hn hretarget)
    rw [hanc, Client.embeddedHeader, Client.embeddedHeader, hg.header ha]
  · simp only [hretarget, Bool.false_eq_true, if_false]

end Retarget

/-- **The required target.** For a header on any block of any tree that imports have built: the code
computes the target of the header's own branch, without a panic and from the header of its own
ancestor, exactly when the network does not retarget, the height is no retarget height, or the
ancestor one interval below is on the best chain. The target of the branch itself never changes with
further imports. -/
theorem required_target_iff (env : NodeEnv SE) (hround : HeaderRoundTrip env) (genesis : Block)
    (st : Pallet.State) (imported : List Block) (c : Client)
    (hrun : ImportRun env (Client.genesis env genesis st) imported c) (p : H256) (n : Nat)
    (hn : c.number p = some n) (last : Header) (params : Params) :
    (FollowsOwnBranch env c p n last params ↔
      params.noPowRetargeting = true ∨ isRetargetHeight params (n + 1) = false ∨
        c.OnBestChain (retargetAncestor c p params)) ∧
      ∀ more c', ImportRun env c more c' →
        ownTarget env c' p n last params = ownTarget env c p n last params := by
  obtain ⟨hi, _⟩ := hrun.records hround
  refine ⟨hi.followsOwnBranch_iff hn last, ?_⟩
  intro more c' hmore
  obtain ⟨hi', hg⟩ := hmore.grows hround hi
  exact hg.ownTarget_eq hi hi' hn last

/-! ## A tall branch beside a heavy block

A block of main network difficulty and a branch of blocks of the least difficulty sit on one genesis
block. The heavy block stays best while the branch grows far beyond it. The branch is too long to
evaluate, so the run is built by induction on its height (`Tall`). -/

namespace TallSample

open Reference

/-- The reference library with a counter for a block hash, which a Substrate block shares with the
Bitcoin block it embeds. -/
def tallEnv : NodeEnv Unit :=
  { Reference.env with
    blockHash := fun header => ⟨Hash256.ofNat (header.nonce.toNat + 1)⟩
    headerHash := fun hd =>
      match hd.digest with
      | .preRuntime _ v :: _ => (Hash256.fromSlice v).getD default
      | _ => default }

theorem headerRoundTrip : HeaderRoundTrip tallEnv := Reference.decodeHeader_encodeHeader

def importer : BitcoinBlockImporter := ⟨⟨ChainParams.new paramsOf .bitcoin, .none, .core⟩, false⟩

def reward : Transaction := coinbase [1, 1] 5000000000

def rewardRoot : TxMerkleNode := (tallEnv.calculateRoot [tallEnv.computeTxid reward]).getD default

/-- The block with the hash `i + 1` on the block with the hash `prev`. -/
def block (i prev : Nat) (bits : UInt32) : Block :=
  { header :=
      { version := 1, prevBlockhash := ⟨Hash256.ofNat prev⟩, merkleRoot := rewardRoot
        time := 1231006600, bits := bits, nonce := UInt32.ofNat i }
    txdata := [reward] }

def bitcoinHash (j : Nat) : BlockHash := ⟨Hash256.ofNat j⟩

def substrateHash (j : Nat) : H256 := (Hash256.ofNat j).reverse

def genesis : Block := block 1 0 0x1d00ffff

def heavy : Block := block 0 2 0x1d00ffff

def light (k : Nat) : Block := block (k + 2) (k + 2) 0x207fffff

def client : Client := Client.genesis tallEnv genesis Pallet.State.empty

theorem checkBlockSanity_block (n i prev : Nat) (bits : UInt32) :
    checkBlockSanity tallEnv.toEnv n (block i prev bits) =
      (.ok [tallEnv.computeTxid reward] : Outcome (VerifyError Unit) (List Txid)) := by
  have hroot : tallEnv.calculateRoot [tallEnv.computeTxid reward] = some rewardRoot := by
    decide +kernel
  have hsize : blockBaseSize tallEnv.toEnv (block i prev bits) =
      blockBaseSize tallEnv.toEnv genesis := rfl
  have hlimit : ¬ 4000000 < blockBaseSize tallEnv.toEnv genesis * 4 := by decide +kernel
  have hcoinbase : reward.isCoinbase = true := by decide +kernel
  have htx : checkTxSanity tallEnv.toEnv (block i prev bits) ⟨[], 0⟩ 0 reward =
      (.ok ⟨[tallEnv.computeTxid reward], 0⟩ : Outcome (VerifyError Unit) SanityState) := by
    have hsane : checkTransactionSanity tallEnv.toEnv reward = .ok () := by decide +kernel
    have hsigops : getLegacySigOpCount tallEnv.toEnv reward = 0 := by decide +kernel
    simp [checkTxSanity, hsane, hsigops, errIf, mapErr]
  have hdata : (block i prev bits).txdata = [reward] := rfl
  have hmerkle : (block i prev bits).header.merkleRoot = rewardRoot := rfl
  simp [checkBlockSanity, hdata, hmerkle, Loop.forEnum, errIf, hsize, hlimit, hcoinbase,
    htx, hroot, maxBlockWeight, witnessScaleFactor]

section Hashes

variable {i : Nat} (hi : i < 2 ^ 32)

include hi

theorem hashOf_block (prev : Nat) (bits : UInt32) :
    tallEnv.hashOf (block i prev bits) = bitcoinHash (i + 1) := by
  show (⟨Hash256.ofNat ((UInt32.ofNat i).toNat + 1)⟩ : BlockHash) = _
  rw [UInt32.toNat_ofNat_of_lt' hi]
  rfl

theorem headerHash_substrateHeader (prev : Nat) (bits : UInt32) (parent : HashAndNumber) :
    tallEnv.headerHash (substrateHeader tallEnv (block i prev bits) parent) =
      substrateHash (i + 1) := by
  show (Hash256.fromSlice (Hash256.reverse
    (tallEnv.hashOf (block i prev bits)).hash).bytes).getD default = _
  rw [Hash256.fromSlice_bytes, hashOf_block hi]
  rfl

end Hashes

theorem bitcoinHash_ne {j j' : Nat} (hj : j < 2 ^ 256) (hj' : j' < 2 ^ 256) (h : j ≠ j') :
    bitcoinHash j ≠ bitcoinHash j' := by
  intro heq
  exact h ((Hash256.ofNat_inj hj hj').mp (congrArg BlockHash.hash heq))

theorem substrateHash_ne {j j' : Nat} (hj : j < 2 ^ 256) (hj' : j' < 2 ^ 256) (h : j ≠ j') :
    substrateHash j ≠ substrateHash j' := by
  intro heq
  have hrev := congrArg Hash256.reverse heq
  unfold substrateHash at hrev
  rw [Hash256.reverse_reverse, Hash256.reverse_reverse] at hrev
  exact h ((Hash256.ofNat_inj hj hj').mp hrev)

theorem work_light (k : Nat) : tallEnv.work (light k).header = 2#256 := by
  have h : tallEnv.work (block 0 0 0x207fffff).header = 2#256 := by decide +kernel
  exact h

def Reversed (c : Client) : Prop :=
  ∀ ⦃h s⦄, c.substrateBlockHashFor h = some s → s = h.hash.reverse

section Step

variable {c : Client} {i prev n : Nat} {bits : UInt32} {total : Work} {fc : Bool}

variable (i prev n bits total fc) in
/-- The client after the import of a block on the block numbered `n` with the hash `prev`. -/
def extended (c : Client) : Client :=
  (Addition.unexecuted tallEnv (block i prev bits) ⟨substrateHash prev, n⟩ total fc).apply tallEnv c
    (block i prev bits)

theorem importBlock_block (hint : Integrity tallEnv c) (hrev : Reversed c) (hi : i < 2 ^ 32)
    (hfresh : c.substrateBlockHashFor (bitcoinHash (i + 1)) = none)
    (hparent : c.substrateBlockHashFor (bitcoinHash prev) = some (substrateHash prev))
    (hnum : c.number (substrateHash prev) = some n)
    (hwork : calculateChainWorkAndForkChoice tallEnv c (block i prev bits).header (n + 1) =
      .ok (total, fc)) :
    importBlock tallEnv importer Build.checked 0 c (block i prev bits) =
      .ok (.imported (n + 1) (bitcoinHash (i + 1)) fc, extended i prev n bits total fc c) := by
  have hnew : c.blocks (substrateHash (i + 1)) = none := by
    cases hb : c.blocks (substrateHash (i + 1)) with
    | none => rfl
    | some b =>
      -- a stored block is mapped, from the hash it is the reverse of
      obtain ⟨h, hmap⟩ := hint.complete hb
      have hh : h = bitcoinHash (i + 1) := by
        have hrevh := congrArg Hash256.reverse (hrev hmap)
        unfold substrateHash at hrevh
        rw [Hash256.reverse_reverse, Hash256.reverse_reverse] at hrevh
        rw [bitcoinHash, hrevh]
      rw [hh, hfresh] at hmap
      cases hmap
  let parent : HashAndNumber := ⟨substrateHash prev, n⟩
  have hun : c.substrateBlockHashFor (tallEnv.hashOf (block i prev bits)) = none := by
    rw [hashOf_block hi, hfresh]
  have hnew' : c.blocks (tallEnv.headerHash
      (substrateHeader tallEnv (block i prev bits) parent)) = none := by
    rw [headerHash_substrateHeader hi, hnew]
  rw [← hashOf_block hi prev bits]
  exact importBlock_unverified rfl rfl (checkBlockSanity_block (n + 1) i prev bits) hun
    (show _ = some parent.hash from hparent) hnum hwork hnew'

theorem substrateBlockHashFor_extended (hi : i < 2 ^ 32) (h : BlockHash) :
    (extended i prev n bits total fc c).substrateBlockHashFor h =
      if h = bitcoinHash (i + 1) then some (substrateHash (i + 1))
      else c.substrateBlockHashFor h := by
  unfold extended
  rw [Addition.substrateBlockHashFor_apply, hashOf_block hi]
  congr 2
  exact headerHash_substrateHeader hi prev bits _

theorem number_extended (hi : i < 2 ^ 32) (x : H256) :
    (extended i prev n bits total fc c).number x =
      if x = substrateHash (i + 1) then some (n + 1) else c.number x := by
  have hash : tallEnv.headerHash (Addition.unexecuted tallEnv (block i prev bits)
      ⟨substrateHash prev, n⟩ total fc).header = substrateHash (i + 1) :=
    headerHash_substrateHeader hi prev bits _
  unfold Client.number Client.header extended
  rw [Addition.blocks_apply, hash]
  split
  · rfl
  · rfl

theorem loadChainWork_extended (hi : i < 2 ^ 32) (h : BlockHash) :
    loadChainWork (extended i prev n bits total fc c) h =
      if h = bitcoinHash (i + 1) then .ok total else loadChainWork c h := by
  rw [← hashOf_block hi prev bits]
  exact loadChainWork_insertBlock rfl h

theorem bestHash_extended (hi : i < 2 ^ 32) :
    (extended i prev n bits total fc c).bestHash =
      if fc then substrateHash (i + 1) else c.bestHash := by
  rw [← headerHash_substrateHeader hi prev bits ⟨substrateHash prev, n⟩]
  rfl

theorem Reversed.extended (hrev : Reversed c) (hi : i < 2 ^ 32) :
    Reversed (extended i prev n bits total fc c) := by
  intro h s hmap
  rw [substrateBlockHashFor_extended hi] at hmap
  split at hmap
  · rename_i hh
    cases hmap
    rw [hh]
    rfl
  · exact hrev hmap

end Step

/-! ### The branch -/

/-- The branch from the genesis block has reached the height `k`, and `work k` is its work. -/
structure Branch (work : Nat → Nat) (k : Nat) (c : Client) : Prop where
  reversed : Reversed c
  fresh : ∀ j, k + 2 < j → j < 2 ^ 256 → c.substrateBlockHashFor (bitcoinHash j) = none
  tip : c.substrateBlockHashFor (bitcoinHash (k + 2)) = some (substrateHash (k + 2))
  tip_number : c.number (substrateHash (k + 2)) = some k
  tip_work : parentWork tallEnv c (bitcoinHash (k + 2)) (k + 1) = .ok (BitVec.ofNat 256 (work k))

theorem branch_genesis {b : Block} {st : Pallet.State} {work : Nat → Nat}
    (hroot : tallEnv.hashOf b = bitcoinHash 2)
    (hgenesis : (Client.genesis tallEnv b st).genesisHash = substrateHash 2)
    (hwork : parentWork tallEnv (Client.genesis tallEnv b st) (bitcoinHash 2) 1 =
      .ok (BitVec.ofNat 256 (work 0))) : Branch work 0 (Client.genesis tallEnv b st) := by
  have hmap : ∀ h, (Client.genesis tallEnv b st).substrateBlockHashFor h =
      if h = bitcoinHash 2 then some (substrateHash 2) else none := by
    intro h
    rw [Client.substrateBlockHashFor_genesis, hroot, hgenesis]
  have hint : Integrity tallEnv (Client.genesis tallEnv b st) := .genesis headerRoundTrip b _
  refine ⟨?_, ?_, ?_, ?_, hwork⟩
  · intro h s hs
    rw [hmap] at hs
    split at hs
    · rename_i hh
      cases hs
      rw [hh]
      rfl
    · cases hs
  · intro j hj hlt
    rw [hmap, if_neg (bitcoinHash_ne hlt (by norm_num) (by omega))]
  · rw [hmap, if_pos rfl]
  · rw [← hgenesis]
    exact hint.wellFormed.genesis

variable {c : Client} {k : Nat} {work : Nat → Nat} {bits : UInt32}

/-- A block on the tip of the branch. -/
theorem Branch.forkChoice (h : Branch work k c) {best : Work}
    (hlast : lastBestWork c (substrateHash (k + 2)) (BitVec.ofNat 256 (work k)) = .ok best)
    (hwork : BitVec.ofNat 256 (work k) + tallEnv.work (block (k + 2) (k + 2) bits).header =
      BitVec.ofNat 256 (work (k + 1))) :
    calculateChainWorkAndForkChoice tallEnv c (block (k + 2) (k + 2) bits).header (k + 1) =
      .ok (BitVec.ofNat 256 (work (k + 1)), decide (best < BitVec.ofNat 256 (work (k + 1)))) := by
  have hprev : (block (k + 2) (k + 2) bits).header.prevBlockhash = bitcoinHash (k + 2) := rfl
  unfold calculateChainWorkAndForkChoice
  dsimp only
  rw [hprev, h.tip_work, ok_bind, h.tip, okOr_some, ok_bind, hlast, ok_bind, hwork, pure_eq_ok]

theorem Branch.extended (h : Branch work k c) (hi : k + 2 < 2 ^ 32) (fc : Bool) :
    Branch work (k + 1)
      (extended (k + 2) (k + 2) k bits (BitVec.ofNat 256 (work (k + 1))) fc c) := by
  refine ⟨h.reversed.extended hi, ?_, ?_, ?_, ?_⟩
  · intro j hj hlt
    rw [substrateBlockHashFor_extended hi, if_neg (bitcoinHash_ne hlt (by omega) (by omega))]
    exact h.fresh j (by omega) hlt
  · rw [substrateBlockHashFor_extended hi, if_pos rfl]
  · rw [number_extended hi, if_pos rfl]
  · rw [parentWork, if_neg (by omega), loadChainWork_extended hi, if_pos rfl]

/-- The heavy block is best, and the branch has reached the height `k`. -/
structure Tall (k : Nat) (c : Client) : Prop extends Branch (4295032833 + 2 * ·) k c where
  best : c.bestHash = substrateHash 1
  best_mapped : c.substrateBlockHashFor (bitcoinHash 1) = some (substrateHash 1)
  best_number : c.number (substrateHash 1) = some 1
  best_work : loadChainWork c (bitcoinHash 1) = .ok (BitVec.ofNat 256 (2 * 4295032833))

theorem exists_tall_zero :
    ∃ c, ImportRun tallEnv client [heavy] c ∧ Tall 0 c := by
  have hbranch : Branch (4295032833 + 2 * ·) 0 client :=
    branch_genesis (hashOf_block (by norm_num) _ _) (by decide +kernel) (by decide +kernel)
  have hint : Integrity tallEnv client := .genesis headerRoundTrip genesis _
  have hone : (0 : Nat) < 2 ^ 32 := by norm_num
  have hfresh : client.substrateBlockHashFor (bitcoinHash 1) = none := by decide +kernel
  have hne : substrateHash 2 ≠ substrateHash 1 :=
    substrateHash_ne (by norm_num) (by norm_num) (by norm_num)
  have hwork : calculateChainWorkAndForkChoice tallEnv client heavy.header 1 =
      .ok (BitVec.ofNat 256 (2 * 4295032833), true) := by
    decide +kernel
  have hcall := importBlock_block hint hbranch.reversed hone hfresh hbranch.tip hbranch.tip_number
    hwork
  -- the heavy block becomes best, and the branch starts at the genesis block
  have hrun := ImportRun.start.call importer Build.checked 0 heavy hcall
  refine ⟨_, hrun, ⟨hbranch.reversed.extended hone, ?_, ?_, ?_, ?_⟩, ?_, ?_, ?_, ?_⟩
  · intro j hj hlt
    rw [substrateBlockHashFor_extended hone, if_neg (bitcoinHash_ne hlt (by norm_num) (by omega))]
    exact hbranch.fresh j hj hlt
  · rw [substrateBlockHashFor_extended hone,
      if_neg (bitcoinHash_ne (by norm_num) (by norm_num) (by norm_num))]
    exact hbranch.tip
  · rw [number_extended hone, if_neg hne, hbranch.tip_number]
  · decide +kernel
  · rw [bestHash_extended hone, if_pos rfl]
  · rw [substrateBlockHashFor_extended hone, if_pos rfl]
  · rw [number_extended hone, if_pos rfl]
  · rw [loadChainWork_extended hone, if_pos rfl]

theorem Tall.forkChoice (hint : Integrity tallEnv c) (ht : Tall k c) (hk : k < 4031) :
    calculateChainWorkAndForkChoice tallEnv c (light k).header (k + 1) =
      .ok (BitVec.ofNat 256 (4295032833 + 2 * (k + 1)), false) := by
  have hbest : substrateHash 1 ≠ substrateHash (k + 2) :=
    substrateHash_ne (by norm_num) (by omega) (by omega)
  have hlast : lastBestWork c (substrateHash (k + 2)) (BitVec.ofNat 256 (4295032833 + 2 * k)) =
      .ok (BitVec.ofNat 256 (2 * 4295032833)) := by
    unfold lastBestWork
    rw [ht.best, if_neg hbest, hint.digest ht.best_mapped, expect_some, ok_bind,
      ht.best_work]
  have hsum : BitVec.ofNat 256 (4295032833 + 2 * k) + tallEnv.work (light k).header =
      BitVec.ofNat 256 (4295032833 + 2 * (k + 1)) := by
    rw [work_light, ← BitVec.ofNat_add]
    congr 1
  -- 4031 blocks of work 2 do not reach the work of the heavy block
  have hlt : ¬ BitVec.ofNat 256 (2 * 4295032833) <
      BitVec.ofNat 256 (4295032833 + 2 * (k + 1)) := by
    rw [BitVec.lt_def, BitVec.toNat_ofNat, BitVec.toNat_ofNat]
    omega
  rw [light, ht.toBranch.forkChoice hlast hsum, decide_eq_false hlt]

theorem Tall.step {imported : List Block} (hrun : ImportRun tallEnv client imported c)
    (ht : Tall k c) (hk : k < 4031) :
    ∃ c', ImportRun tallEnv client (imported ++ [light k]) c' ∧ Tall (k + 1) c' := by
  obtain ⟨hint, _⟩ := hrun.records headerRoundTrip
  -- every hash of the branch is below its own counter, so nothing wraps or collides
  have hi : k + 2 < 2 ^ 32 := by omega
  have hcall := importBlock_block hint ht.reversed hi (ht.fresh _ (by omega) (by omega)) ht.tip
    ht.tip_number (ht.forkChoice hint hk)
  have hone : bitcoinHash 1 ≠ bitcoinHash (k + 2 + 1) :=
    bitcoinHash_ne (by norm_num) (by omega) (by omega)
  have hone' : substrateHash 1 ≠ substrateHash (k + 2 + 1) :=
    substrateHash_ne (by norm_num) (by omega) (by omega)
  refine ⟨_, hrun.call importer Build.checked 0 (light k) hcall, ht.toBranch.extended hi false,
    ?_, ?_, ?_, ?_⟩
  · rw [bestHash_extended hi, if_neg (by decide), ht.best]
  · rw [substrateBlockHashFor_extended hi, if_neg hone, ht.best_mapped]
  · rw [number_extended hi, if_neg hone', ht.best_number]
  · rw [loadChainWork_extended hi, if_neg hone, ht.best_work]

theorem exists_tall (hk : k ≤ 4031) :
    ∃ imported c, ImportRun tallEnv client imported c ∧ Tall k c := by
  induction k with
  | zero =>
    obtain ⟨c, hrun, ht⟩ := exists_tall_zero
    exact ⟨_, c, hrun, ht⟩
  | succ k ih =>
    obtain ⟨imported, c, hrun, ht⟩ := ih (by omega)
    obtain ⟨c', hrun', ht'⟩ := ht.step hrun (by omega)
    exact ⟨_, c', hrun', ht'⟩

theorem Tall.hash_eq_none {n : Nat} (hint : Integrity tallEnv c) (ht : Tall k c) (hn : 1 < n) :
    c.hash n = none := by
  cases hs : c.hash n with
  | none => rfl
  | some s =>
    obtain ⟨hle, _⟩ := (Client.hash_eq_some hint.wellFormed).mp hs
    have hbest : c.bestNumber = 1 := by
      rw [Client.bestNumber, ht.best, ht.best_number]
      rfl
    omega

end TallSample

open TallSample in
/-- The call panics for a header on the 4031st block of the branch, although its ancestor one
interval below is stored. -/
theorem tall_branch_panics :
    ∃ imported c p last, ImportRun tallEnv client imported c ∧ c.number p = some 4031 ∧
      c.embeddedHeader tallEnv p = some last ∧
      c.number (retargetAncestor c p (Reference.paramsOf .bitcoin)) = some 2016 ∧
      getNextWorkRequired tallEnv c 4031 last (Reference.paramsOf .bitcoin) =
        .panic "Retarget block must be available; qed" := by
  obtain ⟨imported, c, hrun, ht⟩ := exists_tall (le_refl 4031)
  obtain ⟨hint, _⟩ := hrun.records headerRoundTrip
  obtain ⟨b, last, he⟩ := hint.maps ht.tip
  have hretarget : isRetargetHeight (Reference.paramsOf .bitcoin) (4031 + 1) = true := by decide
  have hheight : 4031 + 1 - (Reference.paramsOf .bitcoin).difficultyAdjustmentInterval = 2016 := by
    decide
  -- the best chain ends at number 1, so the index has nothing at number 2016
  have htarget : bestChainTarget tallEnv c 4031 last (Reference.paramsOf .bitcoin) = none := by
    rw [bestChainTarget, targetFrom, if_neg (by decide), if_pos hretarget, hheight,
      ht.hash_eq_none hint (by norm_num)]
    rfl
  refine ⟨imported, c, _, last, hrun, ht.tip_number, he.embeddedHeader, ?_, ?_⟩
  · rw [hint.retargetAncestor_number ht.tip_number hretarget, hheight]
  · rw [hint.getNextWorkRequired_eq, htarget]
    rfl

open TallSample in
/-- At the first retarget of the branch the ancestor is the genesis block, which is on every chain,
so the branch gets its own target while the heavy block is best. -/
theorem required_target_first_retarget :
    ∃ imported c p last, ImportRun tallEnv client imported c ∧ c.number p = some 2015 ∧
      c.bestHash = substrateHash 1 ∧
      FollowsOwnBranch tallEnv c p 2015 last (Reference.paramsOf .bitcoin) := by
  obtain ⟨imported, c, hrun, ht⟩ := exists_tall (show 2015 ≤ 4031 by norm_num)
  obtain ⟨hint, _⟩ := hrun.records headerRoundTrip
  obtain ⟨b, last, he⟩ := hint.maps ht.tip
  have hretarget : isRetargetHeight (Reference.paramsOf .bitcoin) (2015 + 1) = true := by decide
  have hheight : 2015 + 1 - (Reference.paramsOf .bitcoin).difficultyAdjustmentInterval = 0 := by
    decide
  have hzero := hint.retargetAncestor_number ht.tip_number hretarget
  rw [hheight] at hzero
  have htarget := required_target_iff tallEnv headerRoundTrip genesis Pallet.State.empty imported c
    hrun _ 2015 ht.tip_number last (Reference.paramsOf .bitcoin)
  exact ⟨imported, c, _, last, hrun, ht.tip_number, ht.best,
    htarget.1.mpr (Or.inr (Or.inr (hint.onBestChain_of_number_zero hzero)))⟩

end Subcoin
