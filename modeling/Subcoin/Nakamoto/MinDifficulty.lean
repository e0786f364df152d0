import Subcoin.Nakamoto.DifficultyBits

/-!
# Subcoin — the minimum-difficulty rule

On the test network a block may have the least difficulty when it comes more than two spacings after
its parent, and a block in time takes up the difficulty from before such blocks. The function of
Bitcoin Core that `get_next_work_required` follows has both; the code returns the target of the
parent at every height without a retarget.

* **`CoreRequires`** — the target of Bitcoin Core between two retargets.
* **`requiresCoreTarget_iff`** — the code requires it exactly when a late header has a parent of the
  least difficulty, and one in time a parent from which there is nothing to walk back to.
-/

namespace Subcoin

variable {SE : Type}

/-- The bits of a block of the least difficulty. -/
def limitBits (env : NodeEnv SE) (params : Params) : Nat :=
  env.toCompactLossy params.maxAttainableTarget

/-- More than two spacings lie between a header and its parent. -/
def IsLate (params : Params) (last header : Header) : Prop :=
  last.time.toNat + 2 * params.powTargetSpacing < header.time.toNat

/-- The walk back stops at a block numbered `n`: it is the first of a period, or of a difficulty of
its own. -/
def Stops (env : NodeEnv SE) (params : Params) (n : Nat) (header : Header) : Prop :=
  n % params.difficultyAdjustmentInterval = 0 ∨ header.bits.toNat ≠ limitBits env params

/-- The nearest block at which the walk back from `p`, numbered `n`, stops: `k` blocks below. -/
structure StopsFirst (env : NodeEnv SE) (c : Client) (params : Params) (p : H256) (n k : Nat)
    (header : Header) : Prop where
  le : k ≤ n
  embedded : c.embeddedHeader env (c.parentOf^[k] p) = some header
  stops : Stops env params (n - k) header
  nearest : ∀ j < k, ∀ nearer, c.embeddedHeader env (c.parentOf^[j] p) = some nearer →
    ¬ Stops env params (n - j) nearer

/-- `GetNextWorkRequired` of Bitcoin Core for a header on the block `p`, at a height without a
retarget and where blocks of the least difficulty are allowed. -/
def CoreRequires (env : NodeEnv SE) (c : Client) (params : Params) (p : H256) (n : Nat)
    (last header : Header) (target : Nat) : Prop :=
  (IsLate params last header ∧ target = params.maxAttainableTarget) ∨
    ¬ IsLate params last header ∧
      ∃ k stop, StopsFirst env c params p n k stop ∧ target = env.target stop

/-- The rule asks for the target of the parent: a late header has a parent of the least difficulty,
and one in time a parent where the walk back stops at once, or ends at the least difficulty too. -/
def ParentDecides (env : NodeEnv SE) (c : Client) (params : Params) (p : H256) (n : Nat)
    (last header : Header) : Prop :=
  (IsLate params last header ∧ env.target last = params.maxAttainableTarget) ∨
    ¬ IsLate params last header ∧ (Stops env params n last ∨
      ∃ k stop, StopsFirst env c params p n k stop ∧
        env.target stop = params.maxAttainableTarget)

section Rule

variable {env : NodeEnv SE} {c : Client} {params : Params} {p : H256} {n k : Nat}
  {last header stop : Header}

theorem requiresTarget_iff (hretarget : params.noPowRetargeting = false)
    (hheight : ¬ params.difficultyAdjustmentInterval ∣ n + 1)
    (hp : c.substrateBlockHashFor header.prevBlockhash = some p) (hn : c.number p = some n)
    (hlast : c.embeddedHeader env p = some last) {target : Nat} :
    RequiresTarget env c params header.prevBlockhash target ↔ target = env.target last := by
  have hblock : c.blockHeader env header.prevBlockhash = some last := by
    rw [Client.blockHeader_eq_embeddedHeader hp, hlast]
  have hnumber : c.blockNumber header.prevBlockhash = some n := by
    rw [Client.blockNumber, hp, Option.bind_some, hn]
  have hnext : getNextWorkRequired env c n last params = .ok (env.target last) := by
    have hno : isRetargetHeight params (n + 1) = false := by
      simp [isRetargetHeight, Nat.dvd_iff_mod_eq_zero.not.mp hheight]
    simp [getNextWorkRequired, hretarget, hno]
  constructor
  · intro h
    exact h.unique ⟨last, n, hblock, hnumber, hnext⟩
  · rintro rfl
    exact ⟨last, n, hblock, hnumber, hnext⟩

theorem stopsFirst_zero (hlast : c.embeddedHeader env p = some last)
    (h : Stops env params n last) : StopsFirst env c params p n 0 last :=
  ⟨Nat.zero_le _, hlast, h, fun _ hj => absurd hj (Nat.not_lt_zero _)⟩

/-- The walk either stops at the parent, or the parent has the least difficulty. -/
theorem StopsFirst.cases (h : StopsFirst env c params p n k stop)
    (hlast : c.embeddedHeader env p = some last)
    (hlimit : env.targetFromCompact (limitBits env params) = params.maxAttainableTarget) :
    (stop = last ∧ Stops env params n last) ∨ env.target last = params.maxAttainableTarget := by
  cases k with
  | zero =>
    have hstop : some last = some stop := hlast.symm.trans h.embedded
    cases hstop
    exact .inl ⟨rfl, h.stops⟩
  | succ k =>
    right
    have hwalks := h.nearest 0 (Nat.succ_pos k) last hlast
    rw [Stops, not_or, not_not] at hwalks
    rw [Env.target, hwalks.2, hlimit]

end Rule

/-- **The minimum-difficulty rule.** For every chain and every header between two retargets, the
target that `verify` requires is the one of Bitcoin Core exactly when the parent decides it. -/
theorem requiresCoreTarget_iff (env : NodeEnv SE) (params : Params)
    (hretarget : params.noPowRetargeting = false)
    (hlimit : env.targetFromCompact (limitBits env params) = params.maxAttainableTarget)
    (c : Client) (header last : Header) (p : H256) (n : Nat)
    (hp : c.substrateBlockHashFor header.prevBlockhash = some p) (hn : c.number p = some n)
    (hlast : c.embeddedHeader env p = some last)
    (hheight : ¬ params.difficultyAdjustmentInterval ∣ n + 1) :
    (∃ target, CoreRequires env c params p n last header target ∧
        RequiresTarget env c params header.prevBlockhash target) ↔
      ParentDecides env c params p n last header := by
  simp only [requiresTarget_iff hretarget hheight hp hn hlast, exists_eq_right]
  refine or_congr Iff.rfl (and_congr_right fun _ => ?_)
  constructor
  · rintro ⟨k, stop, hstop, htarget⟩
    rcases hstop.cases hlast hlimit with ⟨-, hstops⟩ | hmax
    · exact .inl hstops
    · exact .inr ⟨k, stop, hstop, htarget ▸ hmax⟩
  · rintro (hstops | ⟨k, stop, hstop, htarget⟩)
    · exact ⟨0, last, stopsFirst_zero hlast hstops, rfl⟩
    · refine ⟨k, stop, hstop, ?_⟩
      rcases hstop.cases hlast hlimit with ⟨rfl, -⟩ | hmax
      · rfl
      · rw [hmax, htarget]

/-! ## A late block -/

namespace MinDifficultySample

open Reference BranchSample

/-- A block of four times the least difficulty. -/
def hard : Block :=
  Reference.block (Reference.env.hashOf genesisBlock) 1296688700 0x1c3fffc0 7
    [coinbase [1, 1] 5000000000]

def testnet : ChainParams := ChainParams.new paramsOf .testnet

/-- The chain of `hard`, imported without verification. -/
def imported : Option Client :=
  importBlocks Reference.env ⟨⟨testnet, .none, .core⟩, false⟩ Build.checked 1296690000 client [hard]

/-- A header on `hard`, `after` seconds later. -/
def headerAfter (after : UInt32) : Header :=
  (Reference.block (Reference.env.hashOf hard) (1296688700 + after) 0x1c3fffc0 8 []).header

theorem exists_imported :
    ∃ c, imported = some c ∧ c.number c.bestHash = some 1 ∧
      c.embeddedHeader Reference.env c.bestHash = some hard.header ∧
      ∀ after, c.substrateBlockHashFor (headerAfter after).prevBlockhash = some c.bestHash := by
  have hcheck : imported.any (fun c => decide (c.number c.bestHash = some 1) &&
      decide (c.embeddedHeader Reference.env c.bestHash = some hard.header) &&
      decide (c.substrateBlockHashFor (Reference.env.hashOf hard) = some c.bestHash)) = true := by
    decide +kernel
  obtain ⟨c, hc, h⟩ := (Option.any_eq_true _ _).mp hcheck
  simp only [Bool.and_eq_true, decide_eq_true_eq] at h
  exact ⟨c, hc, h.1.1, h.1.2, fun _ => h.2⟩

end MinDifficultySample

open MinDifficultySample in
/-- In time, the header has the target of its parent by both rules. -/
theorem requiresCoreTarget_in_time :
    ∃ c p target, imported = some c ∧
      CoreRequires Reference.env c testnet.params p 1 hard.header (headerAfter 600) target ∧
      RequiresTarget Reference.env c testnet.params (headerAfter 600).prevBlockhash target := by
  obtain ⟨c, hc, hn, hlast, hp⟩ := exists_imported
  obtain ⟨target, hcore, hrequires⟩ := (requiresCoreTarget_iff Reference.env testnet.params rfl
    (by decide +kernel) c (headerAfter 600) hard.header c.bestHash 1 (hp 600) hn hlast
    (by decide)).mpr (.inr ⟨show ¬ _ < _ by decide +kernel, .inl (.inr (by decide +kernel))⟩)
  exact ⟨c, c.bestHash, target, hc, hcore, hrequires⟩

open MinDifficultySample in
/-- After twenty minutes and a second the least difficulty is allowed, and the code still asks for
that of the parent. -/
theorem not_requiresCoreTarget_late :
    ∃ c p, imported = some c ∧ c.number p = some 1 ∧
      c.substrateBlockHashFor (headerAfter 1201).prevBlockhash = some p ∧
      c.embeddedHeader Reference.env p = some hard.header ∧
      ¬ ∃ target,
        CoreRequires Reference.env c testnet.params p 1 hard.header (headerAfter 1201) target ∧
        RequiresTarget Reference.env c testnet.params (headerAfter 1201).prevBlockhash target := by
  obtain ⟨c, hc, hn, hlast, hp⟩ := exists_imported
  refine ⟨c, c.bestHash, hc, hn, hp 1201, hlast, ?_⟩
  rintro ⟨target, hcore, hrequires⟩
  rw [requiresTarget_iff rfl (by decide) (hp 1201) hn hlast] at hrequires
  have hlate : IsLate testnet.params hard.header (headerAfter 1201) :=
    show _ < _ by decide +kernel
  rcases hcore with ⟨-, hmax⟩ | ⟨hin, -⟩
  · have hne : Reference.env.target hard.header ≠ testnet.params.maxAttainableTarget := by
      decide +kernel
    exact hne (hrequires ▸ hmax)
  · exact hin hlate

end Subcoin
