import Subcoin.Lib.Compact
import Subcoin.Nakamoto.HeaderTime

/-!
# Subcoin — the bits of an accepted header

`HeaderVerifier::verify` does not compare the `bits` of a header with the required ones. It decodes
them to a target, encodes that target again and compares the result, so it accepts every word that
decodes to a target with the required encoding.

* **`RequiresTarget`** — the target a header on a block has to meet.
* **`required_bits_iff`** — the bits of an accepted header are the encoding of the required target
  exactly when they are a canonical word.
* **`accepts_other_bits`** — at the first retarget of a chain on the main network a header is
  accepted with `0x1d004003` where `0x1c400300` is required.
-/

namespace Subcoin

open Outcome

variable {SE : Type} {env : NodeEnv SE} {c : Client} {params : Params}

/-- The compact targets of the `bitcoin` crate are those of Bitcoin Core. Nothing is asked about
words with a sign. -/
structure CompactTargets (env : Env SE) : Prop where
  target_lt : ∀ bits, env.targetFromCompact bits < 2 ^ 256
  fromCompact : ∀ bits < 2 ^ 32, bits / 2 ^ 23 % 2 = 0 →
    env.targetFromCompact bits = Compact.decode bits
  toCompact : ∀ target < 2 ^ 256, env.toCompactLossy target = Compact.encode target

/-- A header on the block `prev` has to meet `target`. -/
def RequiresTarget (env : NodeEnv SE) (c : Client) (params : Params) (prev : BlockHash)
    (target : Nat) : Prop :=
  ∃ last n, c.blockHeader env prev = some last ∧ c.blockNumber prev = some n ∧
    getNextWorkRequired env c n last params = .ok target

theorem calculateNextWorkRequired_lt (target first last : Nat) (params : Params) :
    calculateNextWorkRequired target first last params < 2 ^ 256 := by
  unfold calculateNextWorkRequired
  dsimp only
  generalize (if params.powTargetTimespan * 4 < _ then _ else _ : Nat) = timespan
  have hlt : target * timespan % 2 ^ 256 / params.powTargetTimespan < 2 ^ 256 :=
    lt_of_le_of_lt (Nat.div_le_self _ _) (Nat.mod_lt _ (by norm_num))
  split
  · rename_i hcut
    exact hcut.trans hlt
  · exact hlt

theorem getNextWorkRequired_lt (henv : CompactTargets env.toEnv) {n target : Nat} {last : Header}
    (h : getNextWorkRequired env c n last params = .ok target) : target < 2 ^ 256 := by
  unfold getNextWorkRequired at h
  dsimp only at h
  split at h
  · cases h
    exact henv.target_lt _
  · split at h
    · obtain ⟨first, -, htarget⟩ := bind_eq_ok.mp h
      cases htarget
      exact calculateNextWorkRequired_lt _ _ _ _
    · cases h
      exact henv.target_lt _

theorem RequiresTarget.unique {prev : BlockHash} {target target' : Nat}
    (h : RequiresTarget env c params prev target) (h' : RequiresTarget env c params prev target') :
    target = target' := by
  obtain ⟨last, n, hlast, hn, hnext⟩ := h
  obtain ⟨last', n', hlast', hn', hnext'⟩ := h'
  cases hlast.symm.trans hlast'
  cases hn.symm.trans hn'
  exact Outcome.ok.inj (hnext.symm.trans hnext')

theorem RequiresTarget.lt (henv : CompactTargets env.toEnv) {prev : BlockHash} {target : Nat}
    (h : RequiresTarget env c params prev target) : target < 2 ^ 256 := by
  obtain ⟨last, n, -, -, hnext⟩ := h
  exact getNextWorkRequired_lt henv hnext

section Accepted

variable {build : Build} {chainParams : ChainParams} {now cutoff : Nat} {header : Header}

/-- What an accepted header says about its target. -/
theorem meetsTarget_of_verifyHeader
    (h : verifyHeader env build c chainParams now header = .ok cutoff) :
    ∃ target, RequiresTarget env c chainParams.params header.prevBlockhash target ∧
      MeetsTarget env header target := by
  cases hlast : c.blockHeader env header.prevBlockhash with
  | none =>
    unfold verifyHeader at h
    dsimp only at h
    rw [hlast] at h
    cases h
  | some last =>
    cases hn : c.blockNumber header.prevBlockhash with
    | none =>
      unfold verifyHeader at h
      dsimp only at h
      rw [hlast, hn] at h
      cases h
    | some n =>
      rw [verifyHeader_eq_bind hlast hn] at h
      obtain ⟨target, htarget, h⟩ := bind_eq_ok.mp h
      obtain ⟨u, hchecks, -⟩ := bind_eq_ok.mp h
      exact ⟨target, ⟨last, n, hlast, hn, htarget⟩,
        (headerChecks_eq_ok.mp hchecks).2.toMeetsTarget⟩

/-- An accepted header with canonical bits has the required ones. -/
theorem bits_eq_of_canonical (henv : CompactTargets env.toEnv)
    (haccept : verifyHeader env build c chainParams now header = .ok cutoff)
    (hcanonical : Compact.Canonical header.bits.toNat) {target : Nat}
    (htarget : RequiresTarget env c chainParams.params header.prevBlockhash target) :
    header.bits.toNat = Compact.encode target := by
  obtain ⟨target', htarget', hmeets⟩ := meetsTarget_of_verifyHeader haccept
  cases htarget.unique htarget'
  have hdecode : env.target header = Compact.decode header.bits.toNat :=
    henv.fromCompact _ header.bits.toNat_lt (Compact.unsigned_of_canonical hcanonical)
  have hbits := hmeets.bits
  have htarget_lt : env.target header < 2 ^ 256 := henv.target_lt _
  rw [henv.toCompact _ htarget_lt, henv.toCompact _ (htarget.lt henv), hdecode,
    Compact.encode_decode_of_canonical hcanonical] at hbits
  exact hbits

end Accepted

/-- **The bits of an accepted header.** They are the compact encoding of the required target exactly
when they are a canonical word. Two accepted headers on one block that both have canonical bits have
the same bits. -/
theorem required_bits_iff (env : NodeEnv SE) (henv : CompactTargets env.toEnv) (build : Build)
    (c : Client) (chainParams : ChainParams) (now : Nat) (header : Header) (cutoff : Nat)
    (haccept : verifyHeader env build c chainParams now header = .ok cutoff) :
    ((∃ target, RequiresTarget env c chainParams.params header.prevBlockhash target ∧
        header.bits.toNat = Compact.encode target) ↔
      Compact.Canonical header.bits.toNat) ∧
    ∀ build' now' header' cutoff',
      verifyHeader env build' c chainParams now' header' = .ok cutoff' →
      header'.prevBlockhash = header.prevBlockhash → Compact.Canonical header.bits.toNat →
      Compact.Canonical header'.bits.toNat → header'.bits = header.bits := by
  obtain ⟨target, htarget, -⟩ := meetsTarget_of_verifyHeader haccept
  refine ⟨⟨?_, fun hcanonical => ?_⟩, ?_⟩
  · rintro ⟨target, htarget, hbits⟩
    rw [hbits]
    exact Compact.canonical_encode (htarget.lt henv)
  · exact ⟨target, htarget, bits_eq_of_canonical henv haccept hcanonical htarget⟩
  · intro build' now' header' cutoff' haccept' hprev hcanonical hcanonical'
    have htarget' : RequiresTarget env c chainParams.params header'.prevBlockhash target :=
      hprev ▸ htarget
    refine UInt32.toNat_inj.mp ?_
    rw [bits_eq_of_canonical henv haccept' hcanonical' htarget',
      bits_eq_of_canonical henv haccept hcanonical htarget]

/-! ## The first retarget of a chain

A chain of 2015 blocks of the least difficulty on a genesis block that is 302460 seconds older. The
target of the next block is a quarter of the limit and a little more: its word has a zero byte at
the end, and a second word for the same target is one byte shorter. -/

namespace GrownSample

open Reference TallSample

def oldGenesis : Block :=
  { TallSample.genesis with
    header := { TallSample.genesis.header with time := 1231006600 - 302460 } }

def start : Client := Client.genesis tallEnv oldGenesis Pallet.State.empty

/-- The block above the one numbered `k`. -/
def next (k : Nat) : Block := TallSample.block (k + 2) (k + 2) 0x1d00ffff

theorem compactTargets : CompactTargets tallEnv.toEnv where
  target_lt bits := by
    show Reference.targetFromCompact bits < 2 ^ 256
    unfold Reference.targetFromCompact
    dsimp only
    split
    · norm_num
    · split
      · rename_i hmantissa _
        refine lt_of_le_of_lt (Nat.shiftRight_le _ _) ?_
        omega
      · exact Nat.mod_lt _ (by norm_num)
  fromCompact bits _ hsign := by
    have hmantissa : bits % 2 ^ 24 = bits % 2 ^ 23 := by omega
    have hle : ¬ 0x7fffff < bits % 2 ^ 23 := by omega
    show Reference.targetFromCompact bits = Compact.decode bits
    unfold Reference.targetFromCompact Compact.decode
    rw [hmantissa, if_neg hle]
  toCompact _ _ := rfl

/-- The best chain has reached the height `k`. -/
structure Grown (k : Nat) (c : Client) : Prop extends
    Branch (fun k => 4295032833 * (k + 1)) k c where
  best : c.bestHash = substrateHash (k + 2)

theorem grown_start : Grown 0 start :=
  ⟨branch_genesis (by decide +kernel) (by decide +kernel) (by decide +kernel), by decide +kernel⟩

theorem Grown.forkChoice {k : Nat} {c : Client} (h : Grown k c) (hk : k < 2015) :
    calculateChainWorkAndForkChoice tallEnv c (next k).header (k + 1) =
      .ok (BitVec.ofNat 256 (4295032833 * (k + 1 + 1)), true) := by
  have hwork : tallEnv.work (next k).header = BitVec.ofNat 256 4295032833 := by
    have hfixed : tallEnv.work (TallSample.block 0 0 0x1d00ffff).header =
        BitVec.ofNat 256 4295032833 := by
      decide +kernel
    exact hfixed
  have hsum : BitVec.ofNat 256 (4295032833 * (k + 1)) + tallEnv.work (next k).header =
      BitVec.ofNat 256 (4295032833 * (k + 1 + 1)) := by
    rw [hwork, ← BitVec.ofNat_add]
    congr 1
  have hlt : BitVec.ofNat 256 (4295032833 * (k + 1)) <
      BitVec.ofNat 256 (4295032833 * (k + 1 + 1)) := by
    rw [BitVec.lt_def, BitVec.toNat_ofNat, BitVec.toNat_ofNat, Nat.mod_eq_of_lt (by omega),
      Nat.mod_eq_of_lt (by omega)]
    omega
  have hlast : lastBestWork c (substrateHash (k + 2)) (BitVec.ofNat 256 (4295032833 * (k + 1))) =
      .ok (BitVec.ofNat 256 (4295032833 * (k + 1))) := by
    unfold lastBestWork
    rw [if_pos h.best, pure_eq_ok]
  rw [next, h.toBranch.forkChoice hlast hsum, decide_eq_true hlt]

theorem Grown.step {k : Nat} {imported : List Block} {c : Client}
    (hrun : ImportRun tallEnv start imported c) (h : Grown k c) (hk : k < 2015) :
    ∃ c', ImportRun tallEnv start (imported ++ [next k]) c' ∧ Grown (k + 1) c' := by
  obtain ⟨hint, _⟩ := hrun.records headerRoundTrip
  have hi : k + 2 < 2 ^ 32 := by omega
  have hcall := importBlock_block hint h.reversed hi (h.fresh _ (by omega) (by omega)) h.tip
    h.tip_number (h.forkChoice hk)
  refine ⟨_, hrun.call importer Build.checked 0 (next k) hcall, h.toBranch.extended hi true, ?_⟩
  rw [bestHash_extended hi, if_pos rfl]

theorem exists_grown {k : Nat} (hk : k < 2015) :
    ∃ imported c, ImportRun tallEnv start imported c ∧ Grown (k + 1) c ∧ next k ∈ imported := by
  induction k with
  | zero =>
    obtain ⟨c, hrun, h⟩ := grown_start.step .start hk
    exact ⟨_, c, hrun, h, List.mem_cons_self⟩
  | succ k ih =>
    obtain ⟨imported, c, hrun, h, -⟩ := ih (by omega)
    obtain ⟨c', hrun', h'⟩ := h.step hrun hk
    exact ⟨_, c', hrun', h', List.mem_append_right _ List.mem_cons_self⟩

/-- A header at the first retarget height. -/
def headerAtRetarget (bits : UInt32) : Header :=
  { (TallSample.block 3000 2017 bits).header with time := 1231007000 }

def mainParams : ChainParams := ChainParams.new paramsOf .bitcoin

def requiredAtRetarget : Nat := calculateNextWorkRequired (0xffff <<< 208) (1231006600 - 302460)
  1231006600 (paramsOf .bitcoin)

/-- The chain up to the first retarget, and what `verify` says about a header there. -/
theorem exists_retarget :
    ∃ imported c, ImportRun tallEnv start imported c ∧
      RequiresTarget tallEnv c mainParams.params (bitcoinHash 2017) requiredAtRetarget ∧
      ∀ bits, headerChecks tallEnv Build.checked mainParams 1231007000 2016 (headerAtRetarget bits)
          requiredAtRetarget = .ok () →
        verifyHeader tallEnv Build.checked c mainParams 1231007000 (headerAtRetarget bits) =
          .ok 1231007000 := by
  obtain ⟨imported, c, hrun, hgrown, hmem⟩ := exists_grown (show 2014 < 2015 by norm_num)
  obtain ⟨hint, hrecords⟩ := hrun.records headerRoundTrip
  have hlast : c.blockHeader tallEnv (bitcoinHash 2017) = some (next 2014).header :=
    hashOf_block (show 2016 < 2 ^ 32 by norm_num) 2016 0x1d00ffff ▸
      hrecords.blockHeader headerRoundTrip (List.mem_cons_of_mem _ hmem)
  have hn : c.blockNumber (bitcoinHash 2017) = some 2015 := by
    unfold Client.blockNumber
    rw [hgrown.tip, Option.bind_some, hgrown.tip_number]
  -- the period starts at the genesis block
  have hzero : c.number c.genesisHash = some 0 := hint.wellFormed.genesis
  have hhash : c.hash 0 = some c.genesisHash :=
    (Client.hash_number_iff hint.wellFormed hzero).mpr (hint.onBestChain_of_number_zero hzero)
  have hfirst : c.embeddedHeader tallEnv c.genesisHash = some oldGenesis.header := by
    rw [← Client.blockHeader_eq_embeddedHeader hrecords.root]
    exact hrecords.blockHeader headerRoundTrip List.mem_cons_self
  have hbest : bestChainTarget tallEnv c 2015 (next 2014).header mainParams.params =
      some requiredAtRetarget := by
    have hheight : 2015 + 1 - mainParams.params.difficultyAdjustmentInterval = 0 := by decide
    unfold bestChainTarget
    rw [hheight, hhash, Option.bind_some, hfirst]
    decide +kernel
  have hnext : getNextWorkRequired tallEnv c 2015 (next 2014).header mainParams.params =
      .ok requiredAtRetarget := by
    rw [hint.getNextWorkRequired_eq, hbest]
    rfl
  refine ⟨imported, c, hrun, ⟨_, _, hlast, hn, hnext⟩, fun bits hchecks => ?_⟩
  have hun : c.substrateBlockHashFor (tallEnv.blockHash (headerAtRetarget bits)) = none :=
    hgrown.fresh 3001 (by norm_num) (by norm_num)
  rw [hint.verifyHeader_eq hlast hn hun, hbest, expect_some, ok_bind, hchecks,
    ok_bind, if_neg (by decide)]
  rfl

end GrownSample

open GrownSample TallSample in
/-- The required word is accepted. -/
theorem required_bits_accepted :
    ∃ imported c, ImportRun tallEnv start imported c ∧
      verifyHeader tallEnv Build.checked c mainParams 1231007000 (headerAtRetarget 0x1c400300) =
        .ok 1231007000 ∧
      ∃ target, RequiresTarget tallEnv c mainParams.params (bitcoinHash 2017) target ∧
        Compact.encode target = 0x1c400300 := by
  obtain ⟨imported, c, hrun, -, haccept⟩ := exists_retarget
  have hverify := haccept 0x1c400300 (by decide +kernel)
  have hbits := (required_bits_iff tallEnv compactTargets Build.checked c mainParams 1231007000
    (headerAtRetarget 0x1c400300) 1231007000 hverify).1
  obtain ⟨target, htarget, hencode⟩ := hbits.mpr (by decide)
  exact ⟨imported, c, hrun, hverify, target, htarget, hencode.symm⟩

open GrownSample TallSample in
/-- Another word for the same target is accepted too. -/
theorem accepts_other_bits :
    ∃ imported c, ImportRun tallEnv start imported c ∧
      verifyHeader tallEnv Build.checked c mainParams 1231007000 (headerAtRetarget 0x1d004003) =
        .ok 1231007000 ∧
      ¬ ∃ target, RequiresTarget tallEnv c mainParams.params
          (headerAtRetarget 0x1d004003).prevBlockhash target ∧
        (headerAtRetarget 0x1d004003).bits.toNat = Compact.encode target := by
  obtain ⟨imported, c, hrun, hrequired, haccept⟩ := exists_retarget
  refine ⟨imported, c, hrun, haccept 0x1d004003 (by decide +kernel), ?_⟩
  rintro ⟨target, htarget, hbits⟩
  cases hrequired.unique htarget
  exact absurd hbits (by decide +kernel)

end Subcoin
