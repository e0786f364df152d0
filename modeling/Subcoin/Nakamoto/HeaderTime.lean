import Subcoin.Nakamoto.Difficulty

/-!
# Subcoin — the time rules of a header

A header must be later than the median of the timestamps of its parent and up to ten blocks before
it, and from the CSV height on that median is the lock time cutoff of its transactions.

* **`Records.calculateMedianTimePast_eq`** — for an imported block `calculate_median_time_past` is
  the median of the branch down from it.
* **`header_time_iff`** — `verify` keeps the rules exactly for the headers that an earlier check
  rejects, and for those below the CSV height that are later than the median.
* **`fresh_header_panics`** — from the CSV height on the median is asked for the header itself,
  whose block is not there yet; below it nothing compares the time with the median.
-/

namespace Subcoin

open Outcome Client

variable {SE : Type} {env : NodeEnv SE} {c : Client} {genesis : Block} {imported : List Block}

/-! ## The median -/

/-- The middle entry of the list in sorted order. -/
def IsMedian (times : List Nat) (m : Nat) : Prop :=
  ∃ sorted : List Nat, sorted.Perm times ∧ sorted.Pairwise (· ≤ ·) ∧
    sorted[times.length / 2]? = some m

theorem medianOf_eq_some {times : List Nat} {m : Nat} :
    medianOf times = some m ↔ IsMedian times m := by
  have hperm : (times.mergeSort (· ≤ ·)).Perm times := List.mergeSort_perm ..
  have hsorted : (times.mergeSort (· ≤ ·)).Pairwise (· ≤ ·) := List.pairwise_mergeSort' _ times
  constructor
  · intro h
    exact ⟨_, hperm, hsorted, h⟩
  · rintro ⟨sorted, hperm', hsorted', h⟩
    -- a list has one sorted order
    have heq : times.mergeSort (· ≤ ·) = sorted :=
      (hperm.trans hperm'.symm).eq_of_pairwise (fun a b _ _ => Nat.le_antisymm) hsorted hsorted'
    rw [medianOf, heq, h]

theorem exists_isMedian {times : List Nat} (h : times ≠ []) : ∃ m, IsMedian times m := by
  have hlen : times.length / 2 < (times.mergeSort (· ≤ ·)).length := by
    rw [List.length_mergeSort]
    have := List.length_pos_iff.mpr h
    omega
  exact ⟨_, medianOf_eq_some.mp (List.getElem?_eq_getElem hlen)⟩

/-- The timestamps of a block and up to ten blocks before it. -/
def medianTimes (l : List Header) : List Nat :=
  (l.take Client.medianTimeSpan).map fun header => header.time.toNat

/-! ## Reading a branch -/

section Branch

variable {b : Block} {l : List Header}

theorem Ancestry.ne_nil (h : Ancestry env genesis imported b l) : l ≠ [] := by
  cases h with
  | root => exact List.cons_ne_nil _ _
  | child _ _ _ _ => exact List.cons_ne_nil _ _

theorem Ancestry.mem (h : Ancestry env genesis imported b l) : b ∈ genesis :: imported := by
  cases h with
  | root => exact List.mem_cons_self ..
  | child hb _ _ _ => exact List.mem_cons_of_mem _ hb

theorem Records.blockNumber_eq (hround : HeaderRoundTrip env) (hi : Integrity env c)
    (hr : Records env genesis imported c) (h : Ancestry env genesis imported b l) :
    c.blockNumber (env.hashOf b) = some (l.length - 1) := by
  induction h with
  | root =>
    rw [blockNumber, hr.root, Option.bind_some, hi.wellFormed.genesis]
    rfl
  | @child b p l hb hp hprev hl ih =>
    obtain ⟨s, _, hmap, _⟩ := hr.stored b (List.mem_cons_of_mem _ hb)
    obtain ⟨sb, header, he⟩ := hi.maps hmap
    have hheader : header = b.header := by
      have hread := hr.blockHeader hround (List.mem_cons_of_mem _ hb)
      rw [blockHeader_eq_embeddedHeader hmap, he.embeddedHeader, Option.some.injEq] at hread
      exact hread
    -- an imported block is not the genesis block, whose hash is not used twice
    have hne : s ≠ c.genesisHash := by
      rintro rfl
      have hbg : b = genesis := hr.eq_of_hashOf_eq (List.mem_cons_of_mem _ hb)
        (List.mem_cons_self ..) (hi.hash_inj hmap hr.root)
      exact (List.nodup_cons.mp hr.nodup).1 (hbg ▸ List.mem_map_of_mem hb)
    obtain ⟨sp, hsp, hpmap, hnum⟩ := he.linked hne
    rw [hheader, ← hprev] at hpmap
    have hlen : 0 < l.length := List.length_pos_iff.mpr hl.ne_nil
    rw [blockNumber, hpmap, Option.bind_some, number_of_blocks hsp,
      Option.some.injEq] at ih
    rw [blockNumber, hmap, Option.bind_some, number_of_blocks he.stored, hnum, ih,
      List.length_cons]
    congr 1
    omega

theorem calculateMedianTimePast_of_ne_zero {h : BlockHash} (hne : h ≠ BlockHash.allZeros) :
    c.calculateMedianTimePast env h =
      (c.collectTimestamps env medianTimeSpan h).bind medianOf := by
  unfold calculateMedianTimePast
  rw [medianTimeSpan, collectTimestamps, if_neg hne]
  cases c.blockHeader env h with
  | none => rfl
  | some header =>
    show (c.collectTimestamps env 10 header.prevBlockhash).bind _ =
      ((c.collectTimestamps env 10 header.prevBlockhash).bind _).bind _
    cases c.collectTimestamps env 10 header.prevBlockhash with
    | none => rfl
    | some rest => rfl

section

variable (hround : HeaderRoundTrip env) (hr : Records env genesis imported c)
  (hzero : genesis.header.prevBlockhash = BlockHash.allZeros)
  (hne : ∀ b ∈ genesis :: imported, env.hashOf b ≠ BlockHash.allZeros)
  (h : Ancestry env genesis imported b l)

include hround hr hzero hne h

/-- The walk of `calculate_median_time_past`, in a tree whose genesis block is the only block on the
zero hash and in which no block has that hash. -/
theorem Records.collectTimestamps_eq (k : Nat) :
    c.collectTimestamps env k (env.hashOf b) =
      some ((l.take k).map fun header => header.time.toNat) := by
  induction h generalizing k with
  | root =>
    cases k with
    | zero => rfl
    | succ k =>
      rw [collectTimestamps, if_neg (hne _ (List.mem_cons_self ..)),
        hr.blockHeader hround (List.mem_cons_self ..)]
      -- the walk stops at the zero hash
      cases k with
      | zero => rfl
      | succ k =>
        show ((c.collectTimestamps env (k + 1) genesis.header.prevBlockhash).bind _) = _
        rw [collectTimestamps, if_pos hzero]
        rfl
  | @child b p l hb hp hprev hl ih =>
    cases k with
    | zero => rfl
    | succ k =>
      have hmem : b ∈ genesis :: imported := List.mem_cons_of_mem _ hb
      rw [collectTimestamps, if_neg (hne _ hmem), hr.blockHeader hround hmem]
      show ((c.collectTimestamps env k b.header.prevBlockhash).bind _) = _
      rw [← hprev, ih k]
      rfl

theorem Records.calculateMedianTimePast_eq {m : Nat} :
    c.calculateMedianTimePast env (env.hashOf b) = some m ↔ IsMedian (medianTimes l) m := by
  rw [calculateMedianTimePast_of_ne_zero (hne b h.mem),
    hr.collectTimestamps_eq hround hzero hne h, Option.bind_some, ← medianOf_eq_some]
  rfl

end

end Branch

/-! ## The checks before the time rule -/

/-- What `verify` checks of a header before it looks at the median. -/
def headerChecks (env : NodeEnv SE) (build : Build) (chainParams : ChainParams) (now height : Nat)
    (header : Header) (target : Nat) : Outcome HeaderError Unit := do
  Outcome.errIf (env.toCompactLossy (env.target header) ≠ env.toCompactLossy target)
    (.badDifficultyBits (env.target header) target)
  checkPow env header (env.target header)
  let latest ← build.add 32 (now % 2 ^ 32) maxFutureBlockTime
  Outcome.errIf (latest < header.time.toNat) .tooFarInFuture
  Outcome.errIf (outdatedVersion chainParams.params header.version height) .badVersion

structure MeetsTarget (env : NodeEnv SE) (header : Header) (target : Nat) : Prop where
  bits : env.toCompactLossy (env.target header) = env.toCompactLossy target
  pow : ∃ hash, env.validatePow header (env.target header) = .ok hash

/-- The clock is two hours from its last 32-bit value, or the build does not look. -/
def ClockFits (build : Build) (now : Nat) : Prop :=
  now % 2 ^ 32 + maxFutureBlockTime < 2 ^ 32 ∨ build.overflowChecks = false

structure PassesChecks (env : NodeEnv SE) (chainParams : ChainParams) (now height : Nat)
    (header : Header) (target : Nat) : Prop extends MeetsTarget env header target where
  future : header.time.toNat ≤ wrappingAdd 32 (now % 2 ^ 32) maxFutureBlockTime
  version : outdatedVersion chainParams.params header.version height = false

section Verify

variable {header last : Header} {n now height target : Nat} {build : Build}
  {chainParams : ChainParams}

theorem checkPow_eq_ok {u : Unit} :
    checkPow env header target = .ok u ↔ ∃ hash, env.validatePow header target = .ok hash := by
  unfold checkPow
  cases env.validatePow header target with
  | error e => simp
  | ok hash => simp

theorem headerChecks_eq_ok {u : Unit} :
    headerChecks env build chainParams now height header target = .ok u ↔
      ClockFits build now ∧ PassesChecks env chainParams now height header target := by
  unfold headerChecks
  simp only [bind_eq_ok, errIf_eq_ok, checkPow_eq_ok, Build.add_eq_ok,
    decide_eq_false_iff_not, not_not, not_lt]
  constructor
  · rintro ⟨_, hbits, _, hpow, latest, ⟨hclock, hlatest⟩, _, hfuture, hversion⟩
    exact ⟨hclock, ⟨hbits, hpow⟩, hlatest ▸ hfuture, hversion⟩
  · rintro ⟨hclock, ⟨hbits, hpow⟩, hfuture, hversion⟩
    exact ⟨(), hbits, (), hpow, _, ⟨hclock, rfl⟩, (), hfuture, hversion⟩

theorem headerChecks_isPanic :
    (headerChecks env build chainParams now height header target).isPanic = true ↔
      MeetsTarget env header target ∧ ¬ ClockFits build now := by
  unfold headerChecks
  -- the sum with the clock comes after the two checks of the target and before all others
  by_cases hbits : env.toCompactLossy (env.target header) = env.toCompactLossy target
  · rw [decide_eq_false (not_not.mpr hbits), errIf_false, ok_bind]
    unfold checkPow
    cases hpow : env.validatePow header (env.target header) with
    | error e =>
      constructor
      · intro h
        cases h
      · rintro ⟨⟨_, hash, hok⟩, _⟩
        rw [hpow] at hok
        cases hok
    | ok hash =>
      rw [ok_bind]
      by_cases hclock : ClockFits build now
      · rw [Build.add_eq_ok.mpr ⟨hclock, rfl⟩, ok_bind,
          isPanic_bind (isPanic_errIf _ _) fun _ => isPanic_errIf _ _]
        constructor
        · intro h
          cases h
        · intro h
          exact absurd hclock h.2
      · obtain ⟨hsum, hbuild⟩ := not_or.mp hclock
        rw [Build.add, if_neg hsum, if_pos (by simpa using hbuild), panic_bind]
        exact ⟨fun _ => ⟨⟨hbits, hash, hpow⟩, hclock⟩, fun _ => rfl⟩
  · rw [decide_eq_true hbits, errIf_true, err_bind]
    constructor
    · intro h
      cases h
    · intro h
      exact absurd h.1.bits hbits

/-- The call on a parent that is there: the checks against the required target, then the cutoff. -/
theorem verifyHeader_eq_bind (hlast : c.blockHeader env header.prevBlockhash = some last)
    (hn : c.blockNumber header.prevBlockhash = some n) :
    verifyHeader env build c chainParams now header = (do
      let target ← getNextWorkRequired env c n last chainParams.params
      headerChecks env build chainParams now (n + 1) header target
      lockTimeCutoff env c chainParams (n + 1) header) := by
  unfold verifyHeader headerChecks
  dsimp only
  rw [hlast, okOr_some, ok_bind, hn, expect_some, ok_bind]
  simp only [bind_assoc]

/-- The call on an imported parent, for a header whose own block is not imported. -/
theorem Integrity.verifyHeader_eq (hi : Integrity env c)
    (hlast : c.blockHeader env header.prevBlockhash = some last)
    (hn : c.blockNumber header.prevBlockhash = some n)
    (hun : c.substrateBlockHashFor (env.blockHash header) = none) :
    verifyHeader env build c chainParams now header = (do
      let target ← expect (bestChainTarget env c n last chainParams.params)
        "Retarget block must be available; qed"
      headerChecks env build chainParams now (n + 1) header target
      if chainParams.csvHeight ≤ n + 1 then .panic "Block must exist; qed"
      else .ok header.time.toNat) := by
  have hcutoff : lockTimeCutoff env c chainParams (n + 1) header =
      if chainParams.csvHeight ≤ n + 1 then .panic "Block must exist; qed"
      else .ok header.time.toNat := by
    unfold lockTimeCutoff
    dsimp only
    rw [calculateMedianTimePast_of_unmapped hun]
    rfl
  rw [verifyHeader_eq_bind hlast hn, hi.getNextWorkRequired_eq, hcutoff]

end Verify

/-! ## The time rules -/

/-- What a call of `verify` on a header may answer, with `m` the median of the parent's branch: it
returns, it accepts only a later header, and under BIP 113 it returns the median. -/
structure MeetsTimeRules (answer : Outcome HeaderError Nat) (header : Header) (csv : Prop)
    (m : Nat) : Prop where
  returns : answer.isPanic = false
  later : ∀ cutoff, answer = .ok cutoff → m < header.time.toNat
  cutoff_eq : ∀ cutoff, answer = .ok cutoff → csv → cutoff = m

section Rules

variable {header last : Header} {n now target m : Nat} {build : Build} {chainParams : ChainParams}

theorem meetsTimeRules_of_target :
    MeetsTimeRules (do
        headerChecks env build chainParams now (n + 1) header target
        if chainParams.csvHeight ≤ n + 1 then .panic "Block must exist; qed"
        else .ok header.time.toNat) header (chainParams.csvHeight ≤ n + 1) m ↔
      (MeetsTarget env header target → ClockFits build now) ∧
        (PassesChecks env chainParams now (n + 1) header target →
          n + 1 < chainParams.csvHeight ∧ m < header.time.toNat) := by
  cases hchecks : headerChecks env build chainParams now (n + 1) header target with
  | panic msg =>
    obtain ⟨hmeets, hclock⟩ := headerChecks_isPanic.mp (congrArg isPanic hchecks)
    rw [panic_bind]
    constructor
    · intro h
      cases h.returns
    · intro h
      exact absurd (h.1 hmeets) hclock
  | err e =>
    have hclock : MeetsTarget env header target → ClockFits build now := by
      intro hmeets
      by_contra hclock
      have hreturns := congrArg isPanic hchecks
      rw [headerChecks_isPanic.mpr ⟨hmeets, hclock⟩] at hreturns
      cases hreturns
    rw [err_bind]
    constructor
    · intro _
      refine ⟨hclock, fun hp => ?_⟩
      rw [(headerChecks_eq_ok (u := ())).mpr ⟨hclock hp.toMeetsTarget, hp⟩] at hchecks
      cases hchecks
    · intro _
      refine ⟨rfl, ?_, ?_⟩
      · intro cutoff h
        cases h
      · intro cutoff h
        cases h
  | ok u =>
    obtain ⟨hclock, hpasses⟩ := headerChecks_eq_ok.mp hchecks
    rw [ok_bind]
    by_cases hcsv : chainParams.csvHeight ≤ n + 1
    · -- BIP 113 is active: the call panics
      rw [if_pos hcsv]
      constructor
      · intro h
        cases h.returns
      · intro h
        exact absurd hcsv (not_le.mpr (h.2 hpasses).1)
    · -- the time is returned unchecked
      rw [if_neg hcsv]
      constructor
      · intro h
        exact ⟨fun _ => hclock, fun _ => ⟨not_le.mp hcsv, h.later _ rfl⟩⟩
      · intro h
        exact ⟨rfl, fun _ _ => (h.2 hpasses).2, fun _ _ h' => absurd h' hcsv⟩

theorem Integrity.meetsTimeRules_iff (hi : Integrity env c)
    (hlast : c.blockHeader env header.prevBlockhash = some last)
    (hn : c.blockNumber header.prevBlockhash = some n)
    (hun : c.substrateBlockHashFor (env.blockHash header) = none) :
    MeetsTimeRules (verifyHeader env build c chainParams now header) header
        (chainParams.csvHeight ≤ n + 1) m ↔
      ∃ target, bestChainTarget env c n last chainParams.params = some target ∧
        (MeetsTarget env header target → ClockFits build now) ∧
        (PassesChecks env chainParams now (n + 1) header target →
          n + 1 < chainParams.csvHeight ∧ m < header.time.toNat) := by
  rw [hi.verifyHeader_eq hlast hn hun]
  cases bestChainTarget env c n last chainParams.params with
  | none =>
    rw [expect_none, panic_bind]
    constructor
    · intro h
      cases h.returns
    · rintro ⟨target, h, _⟩
      cases h
  | some target =>
    rw [expect_some, ok_bind, meetsTimeRules_of_target]
    simp only [Option.some.injEq, exists_eq_left']

end Rules

/-- **The time rules.** For every imported parent there is the branch down from it, and its median.
`verify` keeps the rules for a header on the parent, whose own block is not imported, exactly when
the header it reads for a retarget is there, the clock fits unless the header misses its target, and
a header that passes the other checks is below the CSV height and later than the median. -/
theorem header_time_iff (env : NodeEnv SE) (hround : HeaderRoundTrip env) (genesis : Block)
    (st : Pallet.State) (imported : List Block) (c : Client)
    (hrun : ImportRun env (Client.genesis env genesis st) imported c) (parent : Block)
    (hparent : parent ∈ genesis :: imported) :
    ∃ l n m, Ancestry env genesis imported parent l ∧ l.length = n + 1 ∧
      IsMedian (medianTimes l) m ∧
      ∀ (build : Build) (chainParams : ChainParams) (now : Nat) (header : Header),
        header.prevBlockhash = env.hashOf parent →
        c.substrateBlockHashFor (env.blockHash header) = none →
        (MeetsTimeRules (verifyHeader env build c chainParams now header) header
            (chainParams.csvHeight ≤ n + 1) m ↔
          ∃ target, bestChainTarget env c n parent.header chainParams.params = some target ∧
            (MeetsTarget env header target → ClockFits build now) ∧
            (PassesChecks env chainParams now (n + 1) header target →
              n + 1 < chainParams.csvHeight ∧ m < header.time.toNat)) := by
  obtain ⟨⟨hi, hr⟩, hw⟩ := hrun.workInvariant hround
  -- every block of the record has a work, and with it an ancestry
  obtain ⟨best, w, _, hfirst⟩ := hw.best
  obtain ⟨_, ⟨l, hl, _⟩, _⟩ := hfirst.le hparent
  have hlen : 0 < l.length := List.length_pos_iff.mpr hl.ne_nil
  have htimes : medianTimes l ≠ [] := by
    intro hnil
    have hlength := congrArg List.length hnil
    rw [medianTimes, List.length_map, List.length_take, medianTimeSpan,
      List.length_nil] at hlength
    omega
  obtain ⟨m, hm⟩ := exists_isMedian htimes
  refine ⟨l, l.length - 1, m, hl, by omega, hm, ?_⟩
  intro build chainParams now header hprev hun
  refine hi.meetsTimeRules_iff ?_ ?_ hun
  · rw [hprev, hr.blockHeader hround hparent]
  · rw [hprev, hr.blockNumber_eq hround hi hl]

/-- **Median time past.** After every run of imports, whatever the forks, the call for a block
returns the median over the branch down from it. The genesis block stands on the zero hash,
and no block has it. -/
theorem medianTimePast_of_run (env : NodeEnv SE) (hround : HeaderRoundTrip env) (genesis : Block)
    (st : Pallet.State) (imported : List Block) (c : Client)
    (hrun : ImportRun env (Client.genesis env genesis st) imported c)
    (hzero : genesis.header.prevBlockhash = BlockHash.allZeros)
    (hne : ∀ b ∈ genesis :: imported, env.hashOf b ≠ BlockHash.allZeros) (b : Block)
    (hb : b ∈ genesis :: imported) :
    ∃ l m, Ancestry env genesis imported b l ∧ IsMedian (medianTimes l) m ∧
      c.calculateMedianTimePast env (env.hashOf b) = some m := by
  obtain ⟨⟨_, hr⟩, hw⟩ := hrun.workInvariant hround
  obtain ⟨_, _, _, hfirst⟩ := hw.best
  obtain ⟨_, ⟨l, hl, _⟩, _⟩ := hfirst.le hb
  obtain ⟨m, hm⟩ := exists_isMedian
    (show medianTimes l ≠ [] by simp [medianTimes, medianTimeSpan, hl.ne_nil])
  exact ⟨l, m, hl, hm, (hr.calculateMedianTimePast_eq hround hzero hne hl).mpr hm⟩

open Reference BranchSample in
theorem medianTimePast_heir : ∃ c l m, imports [first, rival, heir] = some c ∧
    Ancestry Reference.env genesisBlock [first, rival, heir] heir l ∧ IsMedian (medianTimes l) m ∧
      c.calculateMedianTimePast Reference.env (Reference.env.hashOf heir) = some m := by
  have hsome : (imports [first, rival, heir]).isSome = true := by decide +kernel
  obtain ⟨c, hc⟩ := Option.isSome_iff_exists.mp hsome
  obtain ⟨l, m, h⟩ := medianTimePast_of_run Reference.env decodeHeader_encodeHeader genesisBlock
    Pallet.State.empty _ c (ImportRun.importBlocks .start hc) rfl (by decide +kernel) heir (by simp)
  exact ⟨c, l, m, hc, h⟩

/-! ## Headers on the genesis block -/

namespace TimeSample

open Reference BranchSample

def header (time : UInt32) : Header :=
  (Reference.block (Reference.env.hashOf genesisBlock) time 0x1d00ffff 7
    [coinbase [1, 1] 5000000000]).header

def verdict (network : Network) (time : UInt32) : Outcome HeaderError Nat :=
  verifyHeader Reference.env Build.checked client (ChainParams.new paramsOf network) 1231006800
    (header time)

end TimeSample

open Reference BranchSample TimeSample in
/-- On a network with BIP 113 active from the first block on, a header on the genesis block makes
the call panic. On the main network, long before BIP 113, one with the time of the genesis block is
accepted, although the median of the branch is that time. -/
theorem fresh_header_panics :
    verdict .regtest 1231006600 = .panic "Block must exist; qed" ∧
      verdict .bitcoin 1231006505 = .ok 1231006505 ∧
      Client.medianOf (medianTimes [genesisBlock.header]) = some 1231006505 := by
  decide +kernel

open Reference BranchSample TimeSample in
/-- Below the CSV height a header later than the genesis block is accepted by the rules. -/
theorem header_time_first :
    verdict .bitcoin 1231006600 = .ok 1231006600 ∧
      MeetsTimeRules (verdict .bitcoin 1231006600) (header 1231006600) (419328 ≤ 1) 1231006505 := by
  refine ⟨by decide +kernel, ?_⟩
  obtain ⟨l, n, m, hl, hlen, hm, hrules⟩ := header_time_iff Reference.env decodeHeader_encodeHeader
    genesisBlock Pallet.State.empty [] client .start genesisBlock (List.mem_cons_self ..)
  cases hl with
  | child hb _ _ _ => cases hb
  | root =>
    obtain rfl : n = 0 := by simpa using hlen.symm
    have hmedian : medianOf (medianTimes [genesisBlock.header]) = some 1231006505 := by
      decide +kernel
    rw [← medianOf_eq_some, hmedian, Option.some.injEq] at hm
    subst hm
    have hun :
        client.substrateBlockHashFor (Reference.env.blockHash (header 1231006600)) = none := by
      decide +kernel
    have htarget : bestChainTarget Reference.env client 0 genesisBlock.header (paramsOf .bitcoin) =
        some (Reference.env.target genesisBlock.header) := rfl
    exact (hrules Build.checked (ChainParams.new paramsOf .bitcoin) 1231006800 (header 1231006600)
      rfl hun).mpr ⟨_, htarget, fun _ => Or.inl (by decide), fun _ => ⟨by decide, by decide⟩⟩

end Subcoin
