import Subcoin.Nakamoto.Accepted
import Subcoin.Nakamoto.ChainWork

/-!
# Subcoin — what verification reads on a branch

`verify_transactions` takes the state of the block that the number index gives for the parent
number. The index follows the chain of the best block, so this is the parent's own state when the
parent is on that chain, and another block's state, or none, when it is not.

* **`Grows`** — what further imports leave alone: stored blocks, entries, the genesis block.
* **`verifyBlock_congr`** — two clients, one grown from the other, give one verdict on a block whose
  parent is on the best chain of both.
* **`fork_view_iff`** — the lookup reads the parent's state exactly when the parent is on the best
  chain, and as long as it is the verdict depends on its ancestors only.
-/

namespace Subcoin

open Outcome

variable {SE : Type} {env : NodeEnv SE} {c c' : Client}

/-! ## Growth -/

/-- `c'` has the blocks and entries of `c`, and maybe more. -/
structure Grows (c c' : Client) : Prop where
  genesisHash_eq : c'.genesisHash = c.genesisHash
  blocks : ∀ {s b}, c.blocks s = some b → c'.blocks s = some b
  maps : ∀ {h s}, c.substrateBlockHashFor h = some s → c'.substrateBlockHashFor h = some s

theorem Grows.refl (c : Client) : Grows c c := ⟨rfl, id, id⟩

theorem Grows.addition (hg : Grows c c') (hm : MapsSoundly env c') {a : Addition} {block : Block}
    (hv : a.Valid env c' block) : Grows c (a.apply env c' block) where
  genesisHash_eq := hg.genesisHash_eq
  blocks hb := hv.blocks_of_some (hg.blocks hb)
  maps hmap := (hv.maps_of_some hm (hg.maps hmap)).2

theorem ImportRun.grows (hround : HeaderRoundTrip env) (hi : Integrity env c) {more : List Block}
    (hrun : ImportRun env c more c') : Integrity env c' ∧ Grows c c' := by
  refine ImportRun.induct (P := fun _ c' => Integrity env c' ∧ Grows c c') ⟨hi, .refl c⟩ ?_ hrun
  rintro _ _ a block ⟨hi', hg⟩ hv
  exact ⟨hi'.addition hround hv, hg.addition hi'.maps hv⟩

variable {s : H256} {h : BlockHash}

theorem Grows.header (hg : Grows c c') {b : StoredBlock} (hb : c.blocks s = some b) :
    c'.header s = c.header s := by
  unfold Client.header
  rw [hb, hg.blocks hb]

theorem Grows.extends (hg : Grows c c') (wf : c.WellFormed) (wf' : c'.WellFormed) :
    (c.tree wf).Extends (c'.tree wf') where
  root_eq := hg.genesisHash_eq
  mem_of_mem hmem := by
    obtain ⟨b, hb⟩ := Client.tree_mem_iff.mp hmem
    exact Client.tree_mem_iff.mpr ⟨b, hg.blocks hb⟩
  parent_eq hmem := by
    obtain ⟨b, hb⟩ := Client.tree_mem_iff.mp hmem
    rw [Client.tree_parent_of_blocks hb, Client.tree_parent_of_blocks (hg.blocks hb)]
  height_eq hmem := by
    obtain ⟨b, hb⟩ := Client.tree_mem_iff.mp hmem
    rw [Client.tree_height_of_blocks hb, Client.tree_height_of_blocks (hg.blocks hb)]

/-! ## Reading a mapped block -/

section Lookup

variable (hg : Grows c c')
include hg

theorem Grows.blockHeader_eq (hm : MapsSoundly env c) (hmap : c.substrateBlockHashFor h = some s) :
    c'.blockHeader env h = c.blockHeader env h := by
  obtain ⟨b, hd, he⟩ := hm hmap
  unfold Client.blockHeader
  rw [hmap, hg.maps hmap, Option.bind_some, Option.bind_some, hg.header he.stored]

theorem Grows.blockNumber_eq (hm : MapsSoundly env c) (hmap : c.substrateBlockHashFor h = some s) :
    c'.blockNumber h = c.blockNumber h := by
  obtain ⟨b, hd, he⟩ := hm hmap
  unfold Client.blockNumber Client.number
  rw [hmap, hg.maps hmap, Option.bind_some, Option.bind_some, hg.header he.stored]

theorem Grows.hash_eq (wf : c.WellFormed) (wf' : c'.WellFormed) {p : H256} {n k : Nat}
    (hn : c.number p = some n) (hbest : c.OnBestChain p) (hbest' : c'.OnBestChain p) (hk : k ≤ n) :
    c'.hash k = c.hash k := by
  obtain ⟨b, hb, hnum⟩ := Client.number_eq_some.mp hn
  have hn' : c'.number p = some n := Client.number_eq_some.mpr ⟨b, hg.blocks hb, hnum⟩
  have hmem : (c.tree wf).mem p := Client.tree_mem_iff.mpr ⟨b, hb⟩
  rw [hbest.hash_eq wf hn hk, hbest'.hash_eq wf' hn' hk, (hg.extends wf wf').ancestorAt_eq hmem]

theorem Grows.coinAt_eq {p : H256} {b : StoredBlock} (hb : c.blocks p = some b) :
    c'.coinAt p = c.coinAt p := by
  funext o
  unfold Client.coinAt
  rw [hb, hg.blocks hb]

end Lookup

/-! ## One verdict -/

theorem interval_pos_of_isRetargetHeight {params : Params} {n : Nat}
    (h : isRetargetHeight params (n + 1) = true) : 0 < params.difficultyAdjustmentInterval := by
  unfold isRetargetHeight at h
  rw [Bool.and_eq_true, decide_eq_true_eq, decide_eq_true_eq] at h
  by_contra hzero
  have hinterval : params.difficultyAdjustmentInterval = 0 := by omega
  rw [hinterval, Nat.mod_zero] at h
  omega

theorem Integrity.exists_of_hash (hi : Integrity env c) {k : Nat} (hs : c.hash k = some s) :
    ∃ b h, c.blocks s = some b ∧ c.substrateBlockHashFor h = some s := by
  obtain ⟨hle, hanc⟩ := (Client.hash_eq_some hi.wellFormed).mp hs
  have hmem : (c.tree hi.wellFormed).mem s := by
    rw [← hanc]
    exact ParentTree.ancestorAt_mem Client.best_mem hle
  obtain ⟨b, hb⟩ := Client.tree_mem_iff.mp hmem
  obtain ⟨h, hmap⟩ := hi.complete hb
  exact ⟨b, h, hb, hmap⟩

section Verdict

variable {header : Header} {p : H256} {n : Nat}

theorem Grows.getNextWorkRequired_eq (hg : Grows c c') (hi : Integrity env c)
    (hi' : Integrity env c') (hn : c.number p = some n) (hbest : c.OnBestChain p)
    (hbest' : c'.OnBestChain p) (last : Header) (params : Params) :
    getNextWorkRequired env c' n last params = getNextWorkRequired env c n last params := by
  unfold getNextWorkRequired
  dsimp only
  by_cases hretarget : isRetargetHeight params (n + 1) = true
  · -- the block one interval below is an ancestor of `p`, and both indices follow `p` down
    have hpos := interval_pos_of_isRetargetHeight hretarget
    have hk : n + 1 - params.difficultyAdjustmentInterval ≤ n := by omega
    have hhash := hbest.hash_eq hi.wellFormed hn hk
    obtain ⟨b, h, hb, hmap⟩ := hi.exists_of_hash hhash
    have hblock : c.blockHash (n + 1 - params.difficultyAdjustmentInterval) = some h := by
      rw [Client.blockHash, hhash, Option.bind_some, hi.digest hmap]
    have hblock' : c'.blockHash (n + 1 - params.difficultyAdjustmentInterval) = some h := by
      rw [Client.blockHash, hg.hash_eq hi.wellFormed hi'.wellFormed hn hbest hbest' hk, hhash,
        Option.bind_some, hi'.digest (hg.maps hmap)]
    have hread : retargetHeader env c' (n + 1) params = retargetHeader env c (n + 1) params := by
      unfold retargetHeader
      dsimp only
      rw [hblock, hblock', expect_some, ok_bind, ok_bind,
        hg.blockHeader_eq hi.maps hmap]
    rw [hread]
  · simp only [hretarget, Bool.false_eq_true, if_false]

theorem calculateMedianTimePast_of_unmapped (hun : c.substrateBlockHashFor h = none) :
    c.calculateMedianTimePast env h = none := by
  unfold Client.calculateMedianTimePast Client.blockHeader
  rw [hun]
  rfl

theorem Grows.verifyHeader_eq (hg : Grows c c') (hi : Integrity env c) (hi' : Integrity env c')
    (hparent : c.substrateBlockHashFor header.prevBlockhash = some p) (hn : c.number p = some n)
    (hbest : c.OnBestChain p) (hbest' : c'.OnBestChain p)
    (hun : c.substrateBlockHashFor (env.blockHash header) = none)
    (hun' : c'.substrateBlockHashFor (env.blockHash header) = none)
    (build : Build) (chainParams : ChainParams) (now : Nat) :
    verifyHeader env build c' chainParams now header =
      verifyHeader env build c chainParams now header := by
  have hnumber : c.blockNumber header.prevBlockhash = some n := by
    rw [Client.blockNumber, hparent, Option.bind_some, hn]
  -- the median is asked for the header's own hash, which neither client maps
  have hcutoff : ∀ blockNumber, lockTimeCutoff env c' chainParams blockNumber header =
      lockTimeCutoff env c chainParams blockNumber header := by
    intro blockNumber
    unfold lockTimeCutoff
    dsimp only
    rw [calculateMedianTimePast_of_unmapped hun, calculateMedianTimePast_of_unmapped hun']
  have hwork : ∀ last, getNextWorkRequired env c' n last chainParams.params =
      getNextWorkRequired env c n last chainParams.params :=
    fun last => hg.getNextWorkRequired_eq hi hi' hn hbest hbest' last _
  unfold verifyHeader
  dsimp only
  rw [hg.blockHeader_eq hi.maps hparent, hg.blockNumber_eq hi.maps hparent, hnumber]
  simp only [expect_some, ok_bind, hwork, hcutoff]

variable {block : Block}

theorem verifyBlock_congr (hg : Grows c c') (hi : Integrity env c) (hi' : Integrity env c')
    (hparent : c.substrateBlockHashFor block.header.prevBlockhash = some p)
    (hn : c.number p = some n) (hbest : c.OnBestChain p) (hbest' : c'.OnBestChain p)
    (hun' : c'.substrateBlockHashFor (env.hashOf block) = none) (v : BlockVerifier)
    (build : Build) (now : Nat) :
    verifyBlock env v build c' now (n + 1) block = verifyBlock env v build c now (n + 1) block := by
  -- entries are never removed, so a block that is not imported later was not imported before
  have hun : c.substrateBlockHashFor (env.hashOf block) = none := by
    cases hmap : c.substrateBlockHashFor (env.hashOf block) with
    | none => rfl
    | some s =>
      rw [hg.maps hmap] at hun'
      cases hun'
  have hheader := hg.verifyHeader_eq hi hi' hparent hn hbest hbest' hun hun' build v.chainParams now
  obtain ⟨b, hb, _⟩ := Client.number_eq_some.mp hn
  have hhash : c.hash n = some p := (Client.hash_number_iff hi.wellFormed hn).mpr hbest
  have hhash' : c'.hash n = some p := by
    rw [hg.hash_eq hi.wellFormed hi'.wellFormed hn hbest hbest' le_rfl, hhash]
  have htxs : ∀ txids cutoff, verifyTransactions env v build c' (n + 1) block txids cutoff =
      verifyTransactions env v build c (n + 1) block txids cutoff := by
    intro txids cutoff
    have hsub : (build.sub 32 (n + 1) 1 : Outcome (VerifyError SE) Nat) = .ok n :=
      Build.sub_of_le (Nat.le_add_left 1 n)
    unfold verifyTransactions
    rw [hsub, ok_bind, ok_bind, hhash, hhash', okOr_some, ok_bind,
      ok_bind, hg.coinAt_eq hb]
  unfold verifyBlock contextualCheckBlock
  rw [hheader]
  simp only [htxs]

end Verdict

/-- **The view of a branch.** For a block on an imported parent, in any tree that imports have
built: the block whose state `verify_transactions` reads is the parent exactly when the parent is on
the best chain. Then the coins are those of the parent's state, and no further imports change the
verdict as long as the parent stays on the best chain and the block itself is not imported. -/
theorem fork_view_iff (env : NodeEnv SE) (hround : HeaderRoundTrip env) (genesis : Block)
    (st : Pallet.State) (imported : List Block) (c : Client)
    (hrun : ImportRun env (Client.genesis env genesis st) imported c) (block : Block) (p : H256)
    (n : Nat) (hparent : c.substrateBlockHashFor block.header.prevBlockhash = some p)
    (hn : c.number p = some n) :
    (c.hash n = some p ↔ c.OnBestChain p) ∧
      (c.OnBestChain p →
        (∀ build, utxoView build c (n + 1) = c.coinAt p) ∧
        ∀ more c', ImportRun env c more c' → c'.OnBestChain p →
          c'.substrateBlockHashFor (env.hashOf block) = none →
          ∀ v build now, verifyBlock env v build c' now (n + 1) block =
            verifyBlock env v build c now (n + 1) block) := by
  obtain ⟨hi, _⟩ := hrun.records hround
  have hindex := Client.hash_number_iff hi.wellFormed hn
  refine ⟨hindex, ?_⟩
  intro hbest
  refine ⟨?_, ?_⟩
  · intro build
    rw [utxoView_succ, hindex.mpr hbest]
    rfl
  · intro more c' hmore hbest' hun v build now
    obtain ⟨hi', hg⟩ := hmore.grows hround hi
    exact verifyBlock_congr hg hi hi' hparent hn hbest hbest' hun v build now

/-! ## A block on the losing branch -/

namespace ForkSample

open Reference BranchSample

/-- A block on `rival` that spends the coinbase output of `rival` too early. -/
def spender : Block :=
  Reference.block (Reference.env.hashOf rival) 1231006700 0x1d00ffff 11
    [coinbase [1, 4] 5000000000,
      transaction [input ⟨Reference.env.computeTxid (coinbase [1, 2] 5000000000), 0⟩ []]
        [⟨5000000000, [0x51]⟩]]

def verdict (blocks : List Block) : Option (Outcome (VerifyError Unit) Unit) :=
  (imports blocks).map fun c =>
    verifyBlock Reference.env importer.verifier Build.checked c 1231006800 2 spender

/-- The block whose state is read for `spender`, and the block it extends. -/
def readAndParent (blocks : List Block) : Option (Option H256 × Option H256) :=
  (imports blocks).map fun c => (c.hash 1, c.substrateBlockHashFor spender.header.prevBlockhash)

def next : Block :=
  Reference.block (Reference.env.hashOf first) 1231006700 0x1d00ffff 12 [coinbase [1, 5] 5000000000]

end ForkSample

open Reference BranchSample ForkSample in
/-- With `first` as the best block, the state read for `spender` is not the one of `rival`, so the
coin it spends is missing. Once a block on another branch makes the chain of `rival` the best one,
the same verification finds the coin, and rejects the block as a premature spend. -/
theorem losing_branch_misread :
    (readAndParent [first, rival]).any (fun r => r.2.isSome && decide (r.1 ≠ r.2)) = true ∧
      verdict [first, rival] =
        some (.err (.missingUtxoInState (Reference.env.hashOf spender)
          ⟨2, 1, Reference.env.computeTxid (spender.txdata.getD 1 (coinbase [] 0))⟩
          ⟨Reference.env.computeTxid (coinbase [1, 2] 5000000000), 0⟩)) ∧
      verdict [first, rival, heir] =
        some (.err (.prematureSpendOfCoinbase (Reference.env.hashOf spender))) := by
  decide +kernel

open Reference BranchSample ForkSample in
/-- On the best block the state read is the one of the parent. -/
theorem fork_view_best_block :
    ∃ c p, imports [first] = some c ∧
      c.substrateBlockHashFor next.header.prevBlockhash = some p ∧ c.hash 1 = some p := by
  have hcheck : (imports [first]).any (fun c =>
      decide (c.substrateBlockHashFor next.header.prevBlockhash = some c.bestHash) &&
        decide (c.number c.bestHash = some 1)) = true := by
    decide +kernel
  obtain ⟨c, hc, hparent⟩ := (Option.any_eq_true _ _).mp hcheck
  rw [Bool.and_eq_true, decide_eq_true_eq, decide_eq_true_eq] at hparent
  have hrun : ImportRun Reference.env client ([] ++ [first]) c := ImportRun.importBlocks .start hc
  have hbest : c.OnBestChain c.bestHash := ⟨0, Nat.zero_le _, rfl⟩
  have hview := fork_view_iff Reference.env decodeHeader_encodeHeader genesisBlock
    Pallet.State.empty _ c hrun next c.bestHash 1 hparent.1 hparent.2
  exact ⟨c, c.bestHash, hc, hparent.1, hview.1.mpr hbest⟩

end Subcoin
