import Subcoin.Nakamoto.Imported
import Subcoin.Reference

/-!
# Subcoin — the best chain has the most work

Along every run of imports the chain work the store holds for a block is the work of its headers
down to the genesis block, and the best block is the first imported one with the most work.

* **`Ancestry`** — the headers from a block down to the genesis block, by Bitcoin parent hashes.
* **`WorkInvariant`** — what one import keeps: a stored work for each imported block, none for the
  genesis block, and the best block ahead of everything before it.
* **`import_run_most_work`** — the invariant read off a run.

`Work` values are 256 bits wide and so is their sum. While the natural sum of the works fits it is
that sum.
-/

namespace Subcoin

open Outcome

variable {SE : Type} {env : NodeEnv SE} {c : Client} {genesis : Block} {imported : List Block}

/-! ## Ancestry -/

/-- The headers from a block down to the genesis block, the block's own first. -/
inductive Ancestry (env : NodeEnv SE) (genesis : Block) (imported : List Block) :
    Block → List Header → Prop
  | root : Ancestry env genesis imported genesis [genesis.header]
  | child {b p : Block} {l : List Header} (hb : b ∈ imported) (hp : p ∈ genesis :: imported)
      (hprev : env.hashOf p = b.header.prevBlockhash) (hl : Ancestry env genesis imported p l) :
      Ancestry env genesis imported b (b.header :: l)

/-- The work of a branch. -/
def totalWork (env : NodeEnv SE) : List Header → Work
  | [] => 0#256
  | header :: l => env.work header + totalWork env l

theorem totalWork_cons (header : Header) (l : List Header) :
    totalWork env (header :: l) = env.work header + totalWork env l := rfl

theorem totalWork_singleton (header : Header) : totalWork env [header] = env.work header :=
  BitVec.add_zero _

variable {l : List Header} {b block best : Block} {w : Work} {s : H256}

theorem toNat_totalWork (h : (l.map fun header => (env.work header).toNat).sum < 2 ^ 256) :
    (totalWork env l).toNat = (l.map fun header => (env.work header).toNat).sum := by
  induction l with
  | nil => rfl
  | cons header l ih =>
    rw [List.map_cons, List.sum_cons] at h ⊢
    rw [totalWork_cons, BitVec.toNat_add, ih (by omega), Nat.mod_eq_of_lt h]

theorem Ancestry.mono {imported' : List Block} (hsub : ∀ b ∈ imported, b ∈ imported')
    (h : Ancestry env genesis imported b l) : Ancestry env genesis imported' b l := by
  induction h with
  | root => exact .root
  | child hb hp hprev _ ih =>
    refine .child (hsub _ hb) ?_ hprev ih
    rcases List.mem_cons.mp hp with rfl | hp
    · exact List.mem_cons_self ..
    · exact List.mem_cons_of_mem _ (hsub _ hp)

theorem Ancestry.unique (hnodup : ((genesis :: imported).map env.hashOf).Nodup) {l' : List Header}
    (h : Ancestry env genesis imported b l) (h' : Ancestry env genesis imported b l') : l = l' := by
  have hroot : genesis ∉ imported := by
    intro hmem
    rw [List.map_cons, List.nodup_cons] at hnodup
    exact hnodup.1 (List.mem_map_of_mem hmem)
  induction h generalizing l' with
  | root =>
    cases h' with
    | root => rfl
    | child hb => exact absurd hb hroot
  | child hb hp hprev _ ih =>
    cases h' with
    | root => exact absurd hb hroot
    | child _ hp' hprev' hl' =>
      obtain rfl := List.inj_on_of_nodup_map hnodup hp hp' (hprev.trans hprev'.symm)
      rw [ih hl']

/-! ## The invariant -/

/-- The work of the blocks from the genesis block on. -/
def HasWork (env : NodeEnv SE) (genesis : Block) (imported : List Block) (b : Block) (w : Work) :
    Prop :=
  ∃ l, Ancestry env genesis imported b l ∧ w = totalWork env l

theorem HasWork.unique (hnodup : ((genesis :: imported).map env.hashOf).Nodup) {w' : Work}
    (h : HasWork env genesis imported b w) (h' : HasWork env genesis imported b w') : w = w' := by
  obtain ⟨l, hl, rfl⟩ := h
  obtain ⟨l', hl', rfl⟩ := h'
  rw [hl.unique hnodup hl']

theorem HasWork.snoc (h : HasWork env genesis imported b w) :
    HasWork env genesis (imported ++ [block]) b w := by
  obtain ⟨l, hl, hw⟩ := h
  exact ⟨l, hl.mono fun _ hb => List.mem_append_left _ hb, hw⟩

theorem HasWork.child {p : Block} (h : HasWork env genesis imported p w)
    (hp : p ∈ genesis :: imported) (hprev : env.hashOf p = block.header.prevBlockhash) :
    HasWork env genesis (imported ++ [block]) block (w + env.work block.header) := by
  have hsnoc : HasWork env genesis (imported ++ [block]) p w := h.snoc
  obtain ⟨l, hl, rfl⟩ := hsnoc
  refine ⟨block.header :: l, .child (by simp) ?_ hprev hl, ?_⟩
  · rw [← List.cons_append]
    exact List.mem_append_left _ hp
  · rw [totalWork_cons, BitVec.add_comm]

/-- `best` is the first block of the record with the most work, `w`. -/
structure IsFirstBest (env : NodeEnv SE) (genesis : Block) (imported : List Block) (best : Block)
    (w : Work) : Prop where
  work : HasWork env genesis imported best w
  split : ∃ pre post, genesis :: imported = pre ++ best :: post ∧
    (∀ b ∈ pre, ∃ w', HasWork env genesis imported b w' ∧ w' < w) ∧
    ∀ b ∈ post, ∃ w', HasWork env genesis imported b w' ∧ w' ≤ w

/-- Works are stored, and the best block has the most. -/
structure WorkInvariant (env : NodeEnv SE) (genesis : Block) (imported : List Block) (c : Client) :
    Prop where
  stored : ∀ b ∈ imported, ∃ w, HasWork env genesis imported b w ∧
    loadChainWork c (env.hashOf b) = .ok w
  genesis_unstored : ∀ w, loadChainWork c (env.hashOf genesis) ≠ .ok w
  best : ∃ b w, c.substrateBlockHashFor (env.hashOf b) = some c.bestHash ∧
    IsFirstBest env genesis imported b w

theorem hasWork_genesis : HasWork env genesis imported genesis (env.work genesis.header) :=
  ⟨_, .root, (totalWork_singleton _).symm⟩

section

variable (h : IsFirstBest env genesis imported best w)

include h

theorem IsFirstBest.mem : best ∈ genesis :: imported := by
  obtain ⟨pre, post, hsplit, _⟩ := h.split
  rw [hsplit]
  exact List.mem_append_right _ (List.mem_cons_self ..)

theorem IsFirstBest.le (hb : b ∈ genesis :: imported) :
    ∃ w', HasWork env genesis imported b w' ∧ w' ≤ w := by
  obtain ⟨pre, post, hsplit, hpre, hpost⟩ := h.split
  rw [hsplit, List.mem_append, List.mem_cons] at hb
  rcases hb with hb | rfl | hb
  · obtain ⟨w', hw', hlt⟩ := hpre b hb
    exact ⟨w', hw', BitVec.le_of_lt hlt⟩
  · exact ⟨w, h.work, BitVec.le_refl w⟩
  · exact hpost b hb

/-- A later block with strictly more work takes over, and only such a block does. -/
theorem IsFirstBest.snoc {total : Work}
    (hblock : HasWork env genesis (imported ++ [block]) block total) :
    if w < total then IsFirstBest env genesis (imported ++ [block]) block total
    else IsFirstBest env genesis (imported ++ [block]) best w := by
  obtain ⟨pre, post, hsplit, hpre, hpost⟩ := h.split
  split
  · -- everything in the record is before the new best block
    rename_i hlt
    refine ⟨hblock, genesis :: imported, [], by rw [List.cons_append], ?_, by simp⟩
    intro b hb
    obtain ⟨w', hw', hle⟩ := h.le hb
    have hlt' : w'.toNat < total.toNat :=
      Nat.lt_of_le_of_lt (BitVec.le_def.mp hle) (BitVec.lt_def.mp hlt)
    exact ⟨w', hw'.snoc, BitVec.lt_def.mpr hlt'⟩
  · -- the block joins those after the best block, with at most its work
    rename_i hlt
    refine ⟨h.work.snoc, pre, post ++ [block], ?_, ?_, ?_⟩
    · rw [← List.cons_append, hsplit, List.append_assoc, List.cons_append]
    · intro b hb
      obtain ⟨w', hw', hlt'⟩ := hpre b hb
      exact ⟨w', hw'.snoc, hlt'⟩
    · intro b hb
      rw [List.mem_append, List.mem_singleton] at hb
      rcases hb with hb | rfl
      · obtain ⟨w', hw', hle⟩ := hpost b hb
        exact ⟨w', hw'.snoc, hle⟩
      · exact ⟨total, hblock, BitVec.not_lt.mp hlt⟩

end

/-! ## One import -/

theorem calculateChainWorkAndForkChoice_eq_ok {header : Header} {n : Nat} {total : Work} {fc : Bool}
    (h : calculateChainWorkAndForkChoice env c header n = .ok (total, fc)) :
    ∃ parentHash pw last, parentWork env c header.prevBlockhash n = .ok pw ∧
      c.substrateBlockHashFor header.prevBlockhash = some parentHash ∧
      lastBestWork c parentHash pw = .ok last ∧
      total = pw + env.work header ∧ fc = decide (last < total) := by
  obtain ⟨pw, hpw, h⟩ := bind_eq_ok.mp h
  obtain ⟨parentHash, hmap, h⟩ := bind_eq_ok.mp h
  obtain ⟨last, hlast, h⟩ := bind_eq_ok.mp h
  rw [okOr_eq_ok] at hmap
  cases h
  exact ⟨parentHash, pw, last, hpw, hmap, hlast, rfl, rfl⟩

theorem Integrity.hash_inj (hi : Integrity env c) {h h' : BlockHash}
    (hs : c.substrateBlockHashFor h = some s) (hs' : c.substrateBlockHashFor h' = some s) :
    h = h' := by
  have hd := hi.digest hs
  rw [hi.digest hs', Option.some.injEq] at hd
  exact hd.symm

theorem Records.blockHeader (hround : HeaderRoundTrip env) (hr : Records env genesis imported c)
    (hb : b ∈ genesis :: imported) : c.blockHeader env (env.hashOf b) = some b.header := by
  obtain ⟨s, sb, hmap, hsb, hdigest, _⟩ := hr.stored b hb
  unfold Client.blockHeader Client.header
  rw [hmap, Option.bind_some, hsb, Option.map_some, Option.bind_some,
    extractBitcoinBlockHeader_of_digest hround hdigest]
  rfl

theorem Integrity.eq_genesisHash (hi : Integrity env c) (h : c.number s = some 0) :
    s = c.genesisHash := by
  obtain ⟨b, hb, hnum⟩ := Client.number_eq_some.mp h
  have hmem : (c.tree hi.wellFormed).mem s := Client.tree_mem_iff.mpr ⟨b, hb⟩
  have hheight : (c.tree hi.wellFormed).height s = 0 :=
    (Client.tree_height_of_blocks hb).trans hnum
  exact ParentTree.eq_root_of_height_eq_zero hmem hheight

section Step

variable {p : Block} {pw : Work}

theorem WorkInvariant.of_load (hw : WorkInvariant env genesis imported c)
    (hp : p ∈ genesis :: imported) (hload : loadChainWork c (env.hashOf p) = .ok pw) :
    HasWork env genesis imported p pw := by
  rcases List.mem_cons.mp hp with rfl | hp
  · exact absurd hload (hw.genesis_unstored pw)
  · obtain ⟨w, hwork, hstored⟩ := hw.stored p hp
    rw [hstored, Outcome.ok.injEq] at hload
    exact hload ▸ hwork

theorem WorkInvariant.parentWork (hround : HeaderRoundTrip env) (hi : Integrity env c)
    (hr : Records env genesis imported c) (hw : WorkInvariant env genesis imported c)
    (hp : p ∈ genesis :: imported) {n : Nat}
    (hmap : c.substrateBlockHashFor (env.hashOf p) = some s) (hnum : c.number s = some n)
    (h : parentWork env c (env.hashOf p) (n + 1) = .ok pw) : HasWork env genesis imported p pw := by
  unfold Subcoin.parentWork at h
  by_cases hn : n + 1 = 1
  · -- the hardcoded case: the parent is the genesis block
    rw [if_pos hn] at h
    obtain ⟨header, hheader, hpw⟩ := bind_eq_ok.mp h
    obtain rfl : n = 0 := by omega
    have hs : s = c.genesisHash := hi.eq_genesisHash hnum
    rw [hs] at hmap
    have hpg : p = genesis := hr.eq_of_hashOf_eq hp (List.mem_cons_self ..)
      (hi.hash_inj hmap hr.root)
    subst hpg
    rw [expect_eq_ok, hr.blockHeader hround hp, Option.some.injEq] at hheader
    cases hpw
    rw [← hheader]
    exact hasWork_genesis
  · rw [if_neg hn] at h
    exact hw.of_load hp h

theorem WorkInvariant.lastBestWork (hi : Integrity env c) (hr : Records env genesis imported c)
    (hw : WorkInvariant env genesis imported c) (hp : p ∈ genesis :: imported)
    (hpw : HasWork env genesis imported p pw) {parentHash : H256} {last : Work}
    (hmap : c.substrateBlockHashFor (env.hashOf p) = some parentHash)
    (h : lastBestWork c parentHash pw = .ok last)
    (hbest : c.substrateBlockHashFor (env.hashOf best) = some c.bestHash)
    (hfirst : IsFirstBest env genesis imported best w) : last = w := by
  unfold Subcoin.lastBestWork at h
  by_cases heq : c.bestHash = parentHash
  · -- the shortcut: the parent is the best block
    rw [if_pos heq] at h
    cases h
    rw [← heq] at hmap
    have hbp : best = p := hr.eq_of_hashOf_eq hfirst.mem hp (hi.hash_inj hbest hmap)
    subst hbp
    exact hpw.unique hr.nodup hfirst.work
  · rw [if_neg heq] at h
    obtain ⟨bitcoinHash, hhash, hload⟩ := bind_eq_ok.mp h
    rw [expect_eq_ok, hi.digest hbest, Option.some.injEq] at hhash
    rw [← hhash] at hload
    exact (hw.of_load hfirst.mem hload).unique hr.nodup hfirst.work

theorem WorkInvariant.addition (hround : HeaderRoundTrip env) (hi : Integrity env c)
    (hr : Records env genesis imported c) (hw : WorkInvariant env genesis imported c)
    {a : Addition} (hv : a.Valid env c block) :
    WorkInvariant env genesis (imported ++ [block]) (a.apply env c block) := by
  obtain ⟨parentHash, pw, last, hpw, hmap, hlast, htotal, hfc⟩ :=
    calculateChainWorkAndForkChoice_eq_ok hv.work
  obtain ⟨p, hp, hprev⟩ := hr.mapped hmap
  rw [← hprev] at hpw hmap
  have hparent : parentHash = a.parent.hash := by
    have := hv.parent_mapped
    rw [← hprev, hmap, Option.some.injEq] at this
    exact this
  have hwork : HasWork env genesis imported p pw :=
    hw.parentWork hround hi hr hp hmap (by rw [hparent, hv.parent_number]) hpw
  have hblock : HasWork env genesis (imported ++ [block]) block a.totalWork := by
    rw [htotal]
    exact hwork.child hp hprev
  have hload : ∀ h, loadChainWork (a.apply env c block) h =
      if h = env.hashOf block then .ok a.totalWork else loadChainWork c h :=
    loadChainWork_insertBlock rfl
  -- the comparison of the code is with the work of the best block so far
  obtain ⟨best, w, hbest, hfirst⟩ := hw.best
  have hlastw : last = w := hw.lastBestWork hi hr hp hwork hmap hlast hbest hfirst
  refine ⟨?_, ?_, ?_⟩
  · intro b hb
    rw [List.mem_append, List.mem_singleton] at hb
    rcases hb with hb | rfl
    · obtain ⟨w', hw', hstored⟩ := hw.stored b hb
      have hne := hr.hashOf_ne hi.maps hv (List.mem_cons_of_mem _ hb)
      exact ⟨w', hw'.snoc, by rw [hload, if_neg hne, hstored]⟩
    · exact ⟨a.totalWork, hblock, by rw [hload, if_pos rfl]⟩
  · intro w'
    rw [hload, if_neg (hr.hashOf_ne hi.maps hv (List.mem_cons_self ..))]
    exact hw.genesis_unstored w'
  · have hsnoc := hfirst.snoc hblock
    rw [hlastw] at hfc
    by_cases hlt : w < a.totalWork
    · rw [if_pos hlt] at hsnoc
      refine ⟨block, a.totalWork, ?_, hsnoc⟩
      rw [Addition.bestHash_apply, hfc, decide_eq_true hlt, if_pos rfl, Addition.maps_new]
    · rw [if_neg hlt] at hsnoc
      refine ⟨best, w, ?_, hsnoc⟩
      rw [Addition.bestHash_apply, hfc, decide_eq_false hlt]
      exact (hv.maps_of_some hi.maps hbest).2

end Step

/-! ## Runs -/

theorem WorkInvariant.start (st : Pallet.State) :
    WorkInvariant env genesis [] (Client.genesis env genesis st) := by
  refine ⟨by simp, ?_, ?_⟩
  · -- the genesis client holds one entry, under a key of the other kind
    intro w hload
    have hnone : (Client.genesis env genesis st).getAux (chainWorkKey (env.hashOf genesis)) =
        none := by
      show Function.update (fun _ => none) (env.hashOf genesis).hash.bytes _
        (chainWorkKey (env.hashOf genesis)) = none
      rw [Function.update_of_ne (bytes_ne_chainWorkKey _ _).symm]
    unfold loadChainWork at hload
    rw [hnone] at hload
    cases hload
  · refine ⟨genesis, env.work genesis.header, ?_, hasWork_genesis, [], [], rfl, by simp, by simp⟩
    rw [Client.substrateBlockHashFor_genesis, if_pos rfl]
    rfl

theorem ImportRun.workInvariant (hround : HeaderRoundTrip env) {st : Pallet.State}
    (hrun : ImportRun env (Client.genesis env genesis st) imported c) :
    (Integrity env c ∧ Records env genesis imported c) ∧
      WorkInvariant env genesis imported c := by
  refine ImportRun.induct (P := fun imported c =>
    (Integrity env c ∧ Records env genesis imported c) ∧ WorkInvariant env genesis imported c)
    ?_ ?_ hrun
  · exact ⟨⟨.genesis hround genesis st, .start genesis st⟩, .start st⟩
  · rintro _ _ a block ⟨⟨hi, hr⟩, hw⟩ hv
    exact ⟨⟨hi.addition hround hv, hr.addition hi.maps hv⟩, hw.addition hround hi hr hv⟩

/-- **The best block has the most work.** After any run of successful imports every imported block
has an ancestry, the work stored for it is the sum of the works along it (the natural sum while that
fits in 256 bits), and the best block is in the record with strictly more work than everything
imported before it and at least as much as everything imported after it. -/
theorem import_run_most_work (env : NodeEnv SE) (hround : HeaderRoundTrip env) (genesis : Block)
    (st : Pallet.State) (imported : List Block) (c : Client)
    (hrun : ImportRun env (Client.genesis env genesis st) imported c) :
    (∀ b ∈ imported, (∃ l, Ancestry env genesis imported b l) ∧
      ∀ l, Ancestry env genesis imported b l →
        loadChainWork c (env.hashOf b) = .ok (totalWork env l) ∧
        ((l.map fun header => (env.work header).toNat).sum < 2 ^ 256 →
          (totalWork env l).toNat = (l.map fun header => (env.work header).toNat).sum)) ∧
    ∃ pre best post, genesis :: imported = pre ++ best :: post ∧
      c.substrateBlockHashFor (env.hashOf best) = some c.bestHash ∧
      ∀ l, Ancestry env genesis imported best l →
        (∀ b ∈ pre, ∀ l', Ancestry env genesis imported b l' →
          totalWork env l' < totalWork env l) ∧
        ∀ b ∈ post, ∀ l', Ancestry env genesis imported b l' →
          totalWork env l' ≤ totalWork env l := by
  obtain ⟨⟨_, hr⟩, hw⟩ := hrun.workInvariant hround
  refine ⟨?_, ?_⟩
  · intro b hb
    obtain ⟨w, ⟨l, hl, rfl⟩, hload⟩ := hw.stored b hb
    refine ⟨⟨l, hl⟩, ?_⟩
    intro l' hl'
    rw [← hl.unique hr.nodup hl']
    exact ⟨hload, toNat_totalWork⟩
  · -- an ancestry is unique, so the works of the invariant are those of any ancestry
    obtain ⟨best, w, hbest, ⟨lb, hlb, rfl⟩, pre, post, hsplit, hpre, hpost⟩ := hw.best
    refine ⟨pre, best, post, hsplit, hbest, ?_⟩
    intro l hl
    rw [← hlb.unique hr.nodup hl]
    refine ⟨?_, ?_⟩
    · intro b hb l' hl'
      obtain ⟨w', ⟨l'', hl'', rfl⟩, hlt⟩ := hpre b hb
      rwa [hl'.unique hr.nodup hl'']
    · intro b hb l' hl'
      obtain ⟨w', ⟨l'', hl'', rfl⟩, hle⟩ := hpost b hb
      rwa [hl'.unique hr.nodup hl'']

/-! ## Two branches -/

namespace BranchSample

open Reference

def importer : BitcoinBlockImporter := ⟨⟨ChainParams.new paramsOf .bitcoin, .full, .core⟩, true⟩

def client : Client := Client.genesis Reference.env genesisBlock Pallet.State.empty

/-- Two blocks on the genesis block and one on the second of them. -/
def first : Block :=
  Reference.block (Reference.env.hashOf genesisBlock) 1231006600 0x1d00ffff 7
    [coinbase [1, 1] 5000000000]

def rival : Block :=
  Reference.block (Reference.env.hashOf genesisBlock) 1231006601 0x1d00ffff 8
    [coinbase [1, 2] 5000000000]

def heir : Block :=
  Reference.block (Reference.env.hashOf rival) 1231006700 0x1d00ffff 9 [coinbase [1, 3] 5000000000]

def imports (blocks : List Block) : Option Client :=
  importBlocks Reference.env importer Build.checked 1231006800 client blocks

end BranchSample

open Reference BranchSample in
/-- The second branch overtakes the first, and each block has the work of its own branch. -/
theorem most_work_two_branches :
    ∃ c, ImportRun Reference.env client [first, rival, heir] c ∧
      c.substrateBlockHashFor (Reference.env.hashOf heir) = some c.bestHash ∧
      ∀ b ∈ [first, rival, heir], ∃ l,
        Ancestry Reference.env genesisBlock [first, rival, heir] b l ∧
        loadChainWork c (Reference.env.hashOf b) = .ok (totalWork Reference.env l) := by
  have hbest : (imports [first, rival, heir]).any (fun c =>
      c.substrateBlockHashFor (Reference.env.hashOf heir) = some c.bestHash) = true := by
    decide +kernel
  obtain ⟨c, hc, hheir⟩ := (Option.any_eq_true _ _).mp hbest
  have hrun : ImportRun Reference.env client [first, rival, heir] c :=
    ImportRun.importBlocks .start hc
  refine ⟨c, hrun, of_decide_eq_true hheir, ?_⟩
  intro b hb
  obtain ⟨⟨l, hl⟩, hwork⟩ := (import_run_most_work Reference.env decodeHeader_encodeHeader
    genesisBlock Pallet.State.empty _ c hrun).1 b hb
  exact ⟨l, hl, (hwork l hl).1⟩

end Subcoin
