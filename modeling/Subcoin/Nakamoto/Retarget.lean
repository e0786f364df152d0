import Subcoin.Reference

/-!
# Subcoin — the arithmetic of a retarget

`calculate_next_work_required` works in 256 bits: it clamps the timespan of the last period with
saturating subtraction and two comparisons, multiplies, divides, and cuts the result off at the
limit of the network. `exactTarget` is the same rule over the integers, where nothing saturates or
wraps.

* **`calculateNextWorkRequired_eq_exactTarget`** — the code computes the exact rule for every target
  up to the limit, when the limit times the longest timespan fits 256 bits.
* **`retarget_exact`** — it does on the main network, the test network and signet, where the product
  stays below `2 ^ 256` by less than one part in 200000.
-/

namespace Subcoin

/-! ## The exact rule -/

/-- The timespan a retarget counts: at least a quarter and at most four times the target one. -/
def clampedTimespan (params : Params) (first last : ℤ) : ℤ :=
  max (params.powTargetTimespan / 4) (min (last - first) (4 * params.powTargetTimespan))

def exactTarget (params : Params) (target first last : ℤ) : ℤ :=
  min params.maxAttainableTarget
    (target * clampedTimespan params first last / params.powTargetTimespan)

/-- What the arithmetic needs to know about the parameters of a network. -/
structure Params.Retargets (params : Params) : Prop where
  timespan_pos : 0 < params.powTargetTimespan
  quarters : 4 ∣ params.powTargetTimespan
  fits : params.maxAttainableTarget * (4 * params.powTargetTimespan) < 2 ^ 256

section Exact

variable {params : Params} {target first last : ℤ}

theorem clampedTimespan_bounds (params : Params) (first last : ℤ) :
    (params.powTargetTimespan : ℤ) / 4 ≤ clampedTimespan params first last ∧
      clampedTimespan params first last ≤ 4 * params.powTargetTimespan := by
  unfold clampedTimespan
  omega

theorem clampedTimespan_mono {last' : ℤ} (h : last ≤ last') :
    clampedTimespan params first last ≤ clampedTimespan params first last' := by
  unfold clampedTimespan
  omega

theorem clampedTimespan_nonneg (params : Params) (first last : ℤ) :
    0 ≤ clampedTimespan params first last := by
  have hlow := (clampedTimespan_bounds params first last).1
  omega

theorem exactTarget_mono_target (h : params.Retargets) {target' : ℤ} (hle : target ≤ target') :
    exactTarget params target first last ≤ exactTarget params target' first last := by
  refine min_le_min_left _ (Int.ediv_le_ediv (by exact_mod_cast h.timespan_pos) ?_)
  exact mul_le_mul_of_nonneg_right hle (clampedTimespan_nonneg params first last)

theorem exactTarget_mono_last (h : params.Retargets) (hpos : 0 ≤ target) {last' : ℤ}
    (hle : last ≤ last') :
    exactTarget params target first last ≤ exactTarget params target first last' := by
  refine min_le_min_left _ (Int.ediv_le_ediv (by exact_mod_cast h.timespan_pos) ?_)
  exact mul_le_mul_of_nonneg_left (clampedTimespan_mono hle) hpos

theorem exactTarget_bounds (h : params.Retargets) (hpos : 0 ≤ target)
    (hle : target ≤ params.maxAttainableTarget) (first last : ℤ) :
    target / 4 ≤ exactTarget params target first last ∧
      exactTarget params target first last ≤ min (4 * target) params.maxAttainableTarget := by
  obtain ⟨hlow, hhigh⟩ := clampedTimespan_bounds params first last
  have htimespan : (0 : ℤ) < params.powTargetTimespan := by exact_mod_cast h.timespan_pos
  obtain ⟨quarter, hquarter⟩ := h.quarters
  have hquarter' : (params.powTargetTimespan : ℤ) = quarter * 4 := by
    rw [hquarter]
    push_cast
    ring
  constructor
  · refine le_min (by omega) ?_
    -- a quarter of the timespan divides out
    calc target / 4 = target * quarter / params.powTargetTimespan := by
          rw [hquarter', mul_comm target, Int.mul_ediv_mul_of_pos _ _ (by omega)]
      _ ≤ target * clampedTimespan params first last / params.powTargetTimespan := by
          refine Int.ediv_le_ediv htimespan (mul_le_mul_of_nonneg_left ?_ hpos)
          omega
  · refine le_min ((min_le_right _ _).trans ?_) (min_le_left _ _)
    calc target * clampedTimespan params first last / params.powTargetTimespan
        ≤ target * (4 * params.powTargetTimespan) / params.powTargetTimespan :=
          Int.ediv_le_ediv htimespan (mul_le_mul_of_nonneg_left hhigh hpos)
      _ = 4 * target := by
          rw [← mul_assoc, Int.mul_ediv_cancel _ htimespan.ne']
          ring

end Exact

/-! ## The code -/

section Code

variable {params : Params} {target : Nat}

/-- The two comparisons after a saturating subtraction are a clamp. -/
theorem clampedTimespan_eq (params : Params) (first last : Nat) :
    clampedTimespan params first last =
      ((if params.powTargetTimespan * 4 <
            (if last - first < params.powTargetTimespan / 4 then params.powTargetTimespan / 4
              else last - first)
          then params.powTargetTimespan * 4
          else if last - first < params.powTargetTimespan / 4 then params.powTargetTimespan / 4
            else last - first : Nat) : ℤ) := by
  unfold clampedTimespan
  split
  · split at *
    · omega
    · omega
  · split
    · omega
    · omega

theorem mul_clampedTimespan_lt (h : params.Retargets) (hle : target ≤ params.maxAttainableTarget)
    (first last : Nat) : (target : ℤ) * clampedTimespan params first last < 2 ^ 256 := by
  have hhigh := (clampedTimespan_bounds params first last).2
  have hfits : (params.maxAttainableTarget : ℤ) * (4 * params.powTargetTimespan) < 2 ^ 256 := by
    exact_mod_cast h.fits
  have hle' : (target : ℤ) ≤ params.maxAttainableTarget := by exact_mod_cast hle
  have hprod := mul_le_mul hle' hhigh (clampedTimespan_nonneg params first last) (by omega)
  omega

theorem calculateNextWorkRequired_eq {first last timespan : Nat}
    (h : clampedTimespan params first last = timespan) :
    calculateNextWorkRequired target first last params =
      min params.maxAttainableTarget (target * timespan % 2 ^ 256 / params.powTargetTimespan) := by
  rw [clampedTimespan_eq, Int.natCast_inj] at h
  unfold calculateNextWorkRequired
  dsimp only
  rw [h]
  split
  · rename_i hlt
    exact (Nat.min_eq_left hlt.le).symm
  · rename_i hlt
    exact (Nat.min_eq_right (Nat.le_of_not_lt hlt)).symm

/-- The code computes the exact rule. -/
theorem calculateNextWorkRequired_eq_exactTarget (h : params.Retargets)
    (hle : target ≤ params.maxAttainableTarget) (first last : Nat) :
    (calculateNextWorkRequired target first last params : ℤ) =
      exactTarget params target first last := by
  obtain ⟨timespan, htimespan⟩ := Int.eq_ofNat_of_zero_le (clampedTimespan_nonneg params first last)
  have hfits := mul_clampedTimespan_lt h hle first last
  unfold exactTarget
  rw [htimespan] at hfits ⊢
  have hmod : target * timespan % 2 ^ 256 = target * timespan :=
    Nat.mod_eq_of_lt (by exact_mod_cast hfits)
  rw [calculateNextWorkRequired_eq htimespan, hmod]
  push_cast
  omega

end Code

/-! ## The networks -/

theorem retargets_paramsOf {network : Network} (h : network ≠ .regtest) :
    (Reference.paramsOf network).Retargets := by
  cases network with
  | bitcoin => exact ⟨by decide, by decide, by decide⟩
  | testnet => exact ⟨by decide, by decide, by decide⟩
  | signet => exact ⟨by decide, by decide, by decide⟩
  | regtest => exact absurd rfl h

/-- **A retarget is exact.** On every network that retargets, for every target up to the limit and
all 32-bit times: the product fits 256 bits, and the code returns the exact rule, which stays
between a quarter of the target and the smaller of four times the target and the limit, and grows
with the target and with the time of the last block. -/
theorem retarget_exact (network : Network) (hnetwork : network ≠ .regtest) (target : Nat)
    (hle : target ≤ (Reference.paramsOf network).maxAttainableTarget) (first last : UInt32) :
    let params := Reference.paramsOf network
    let next (target : Nat) (last : UInt32) : ℤ :=
      calculateNextWorkRequired target first.toNat last.toNat params
    (target : ℤ) * clampedTimespan params first.toNat last.toNat < 2 ^ 256 ∧
      next target last = exactTarget params target first.toNat last.toNat ∧
      (target : ℤ) / 4 ≤ next target last ∧
      next target last ≤ min (4 * (target : ℤ)) params.maxAttainableTarget ∧
      (∀ target', target ≤ target' → target' ≤ params.maxAttainableTarget →
        next target last ≤ next target' last) ∧
      ∀ last', last ≤ last' → next target last ≤ next target last' := by
  intro params next
  have hretargets : params.Retargets := retargets_paramsOf hnetwork
  have hnext : ∀ target' last', target' ≤ params.maxAttainableTarget →
      next target' last' = exactTarget params target' first.toNat last'.toNat :=
    fun target' last' hle' =>
      calculateNextWorkRequired_eq_exactTarget hretargets hle' first.toNat last'.toNat
  obtain ⟨hlow, hhigh⟩ := exactTarget_bounds hretargets (Int.natCast_nonneg target)
    (Int.ofNat_le.mpr hle) first.toNat last.toNat
  rw [← hnext target last hle] at hlow hhigh
  refine ⟨mul_clampedTimespan_lt hretargets hle _ _, hnext target last hle, hlow, hhigh, ?_, ?_⟩
  · intro target' htarget hle'
    rw [hnext target last hle, hnext target' last hle']
    exact exactTarget_mono_target hretargets (by exact_mod_cast htarget)
  · intro last' hlast
    rw [hnext target last hle, hnext target last' hle]
    exact exactTarget_mono_last hretargets (Int.natCast_nonneg target)
      (by exact_mod_cast UInt32.le_iff_toNat_le.mp hlast)

/-- The limit of signet after the slowest period. -/
theorem retarget_exact_signet :
    ((Reference.paramsOf .signet).maxAttainableTarget : ℤ) *
      clampedTimespan (Reference.paramsOf .signet) 0 0xffffffff < 2 ^ 256 :=
  (retarget_exact .signet (by decide) (Reference.paramsOf .signet).maxAttainableTarget le_rfl 0
    0xffffffff).1

end Subcoin
