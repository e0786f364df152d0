import Subcoin.Primitives.Backend

/-!
# Subcoin — block locators

`BlockLocatorProvider`: the hashes a node sends to a peer to say where its chain stands, dense near
the given height and exponentially sparser below it.
-/

namespace Subcoin

structure BlockLocator where
  latestBlock : Nat
  locatorHashes : List BlockHash
deriving DecidableEq

/-- The loop of `locator_indexes`. The height falls in every round, so `height` rounds suffice. -/
def locatorHeights : Nat → Nat → Nat → Nat → List Nat
  | 0, _, _, _ => []
  | rounds + 1, taken, step, height =>
    if height = 0 then []
    else
      -- For the first 8 blocks, don't skip any heights.
      let step := if 8 ≤ taken then step * 2 else step
      height :: locatorHeights rounds (taken + 1) step (height - step)

def locatorIndexes (height : Nat) : List Nat := locatorHeights height 0 1 height ++ [0]

namespace Client

variable {SE : Type} (env : NodeEnv SE) (c : Client)

/-- The hash of a locator at one height. -/
def locatorHash (searchPendingBlock : Nat → Option BlockHash) (height : Nat) : Option BlockHash :=
  match searchPendingBlock height with
  | some hash => some hash
  | none => do
    let hash ← c.hash height
    let header ← c.header hash
    c.bitcoinBlockHashFor (env.headerHash header)

def blockLocator (height : Option Nat) (searchPendingBlock : Nat → Option BlockHash) :
    BlockLocator :=
  let height := height.getD c.bestNumber
  ⟨height, (locatorIndexes height).filterMap (c.locatorHash env searchPendingBlock)⟩

end Client

/-! ## The heights of a locator -/

/-- The loop of `locator_indexes` with the 32-bit step of the source. -/
def locatorLoop (build : Build) : Nat → List Nat → Nat → Nat → Outcome Empty (List Nat)
  | 0, _, _, _ => .panic "no rounds left"
  | rounds + 1, indexes, step, height =>
    if height = 0 then .ok (indexes ++ [0])
    else
      (if 8 ≤ indexes.length then build.mul 32 step 2 else .ok step) >>= fun step =>
        locatorLoop build rounds (indexes ++ [height]) step (height - step)

/-- How far the entry `i` lies below the first one. -/
def backoff (i : Nat) : Nat := if i ≤ 8 then i else 6 + 2 ^ (i - 7)

theorem backoff_succ (i : Nat) : backoff (i + 1) = backoff i + 2 ^ (i + 1 - 8) := by
  unfold backoff
  rcases Nat.lt_trichotomy i 8 with hi | rfl | hi
  · rw [if_pos (by omega), if_pos (by omega), show i + 1 - 8 = 0 by omega]
    rfl
  · rfl
  · rw [if_neg (by omega), if_neg (by omega), show i + 1 - 7 = i - 7 + 1 by omega,
      show i + 1 - 8 = i - 7 by omega, Nat.pow_succ]
    omega

theorem backoff_strictMono : StrictMono backoff := by
  refine strictMono_nat_of_lt_succ fun i => ?_
  rw [backoff_succ]
  exact Nat.lt_add_of_pos_right (Nat.two_pow_pos _)

theorem step_eq (i : Nat) :
    (if 8 ≤ i then 2 ^ (i - 8) * 2 else 2 ^ (i - 8)) = 2 ^ (i + 1 - 8) := by
  split
  · rw [← Nat.pow_succ, show (i - 8).succ = i + 1 - 8 by omega]
  · rw [show i - 8 = 0 by omega, show i + 1 - 8 = 0 by omega]

/-- From the ninth entry on, a step that has not reached the bottom is smaller than the height. -/
theorem two_pow_le_backoff {i : Nat} (hi : 8 ≤ i) : 2 ^ (i + 1 - 8) ≤ backoff i := by
  unfold backoff
  split
  · obtain rfl : i = 8 := by omega
    decide
  · rw [show i + 1 - 8 = i - 7 by omega]
    omega

/-- The first `n` entries. -/
def locatorEntries (h n : Nat) : List Nat := (List.range n).map fun i => h - backoff i

theorem locatorEntries_succ (h n : Nat) :
    locatorEntries h (n + 1) = locatorEntries h n ++ [h - backoff n] := by
  rw [locatorEntries, List.range_succ, List.map_append]
  rfl

/-- The loop ends after the first entry that would not be positive, and no step overflows. -/
theorem exists_locatorLoop_eq {h : Nat} (build : Build) (hh : h < 2 ^ 32) {rounds i : Nat}
    (hrounds : h - backoff i ≤ rounds) (hi : ∀ k < i, backoff k < h) :
    ∃ n, (∀ k < n, backoff k < h) ∧ h ≤ backoff n ∧
      locatorLoop build (rounds + 1) (locatorEntries h i) (2 ^ (i - 8)) (h - backoff i) =
        .ok (locatorEntries h (n + 1)) ∧
      locatorEntries h i ++ locatorHeights rounds i (2 ^ (i - 8)) (h - backoff i) ++ [0] =
        locatorEntries h (n + 1) := by
  induction rounds generalizing i with
  | zero =>
    have hzero : h - backoff i = 0 := by omega
    refine ⟨i, hi, by omega, ?_, ?_⟩
    · rw [locatorLoop, if_pos hzero, locatorEntries_succ, hzero]
    · rw [locatorHeights, locatorEntries_succ, hzero, List.append_nil]
  | succ rounds ih =>
    by_cases hzero : h - backoff i = 0
    · refine ⟨i, hi, by omega, ?_, ?_⟩
      · rw [locatorLoop, if_pos hzero, locatorEntries_succ, hzero]
      · rw [locatorHeights, if_pos hzero, locatorEntries_succ, hzero, List.append_nil]
    · have hlen : (locatorEntries h i).length = i := by simp [locatorEntries]
      have hnext : h - backoff (i + 1) = h - backoff i - 2 ^ (i + 1 - 8) := by
        rw [backoff_succ, Nat.sub_add_eq]
      have hpos : 0 < 2 ^ (i + 1 - 8) := Nat.two_pow_pos _
      obtain ⟨n, hn, hlast, hloop, hheights⟩ := ih (i := i + 1) (by omega) fun k hk => by
        rcases Nat.lt_succ_iff_lt_or_eq.mp hk with hk | rfl
        · exact hi k hk
        · omega
      -- the step doubles from the ninth entry on, below the height that is left above it
      have hstep : (if 8 ≤ i then build.mul 32 (2 ^ (i - 8)) 2 else .ok (2 ^ (i - 8)) :
          Outcome Empty Nat) = .ok (2 ^ (i + 1 - 8)) := by
        rw [← step_eq i]
        split
        · rename_i h8
          have hle := two_pow_le_backoff h8
          rw [← step_eq i, if_pos h8] at hle
          exact if_pos (by omega)
        · rfl
      refine ⟨n, hn, hlast, ?_, ?_⟩
      · rw [locatorLoop, if_neg hzero, hlen, hstep, Outcome.ok_bind, ← hnext,
          ← locatorEntries_succ, hloop]
      · rw [locatorHeights, if_neg hzero]
        dsimp only
        rw [step_eq, ← hnext, ← hheights, locatorEntries_succ]
        simp

/-- What the heights of a locator are to look like. -/
structure LocatorShape (h : Nat) (heights : List Nat) : Prop where
  first : heights.head? = some h
  last : heights.getLast? = some 0
  decreasing : heights.Pairwise (· > ·)
  dense : heights.take (min h 9) = (List.range (min h 9)).map (h - ·)
  /-- Only the last gap may be cut short. -/
  gaps : ∀ i a b, 8 ≤ i → heights[i]? = some a → heights[i + 1]? = some b →
    a = b + 2 ^ (i - 7) ∨ b = 0 ∧ a ≤ 2 ^ (i - 7)
  length_le : heights.length ≤ 9 + Nat.log 2 (h + 1)

theorem locatorShape_entries {h n : Nat} (hn : ∀ k < n, backoff k < h) (hlast : h ≤ backoff n) :
    LocatorShape h (locatorEntries h (n + 1)) where
  first := by simp [locatorEntries, List.range_succ_eq_map, backoff]
  last := by
    rw [locatorEntries_succ, List.getLast?_concat, Nat.sub_eq_zero_of_le hlast]
  decreasing := by
    rw [locatorEntries, List.pairwise_map]
    refine List.pairwise_lt_range.imp_of_mem fun {i j} hi hj hlt => ?_
    have hbelow := hn i (by rw [List.mem_range] at hj; omega)
    have hmono := backoff_strictMono hlt
    omega
  dense := by
    have hmin : min h 9 ≤ n + 1 := by
      by_contra hlt
      rw [backoff, if_pos (by omega)] at hlast
      omega
    rw [locatorEntries, ← List.map_take, List.take_range, Nat.min_eq_left hmin]
    refine List.map_congr_left fun i hi => ?_
    rw [List.mem_range] at hi
    rw [backoff, if_pos (by omega)]
  gaps := by
    intro i a b hi ha hb
    obtain ⟨hlt, rfl⟩ := List.getElem?_eq_some_iff.mp hb
    obtain ⟨_, rfl⟩ := List.getElem?_eq_some_iff.mp ha
    have hbelow := hn i (by simpa [locatorEntries] using hlt)
    have hnext := backoff_succ i
    rw [show i + 1 - 8 = i - 7 by omega] at hnext
    simp only [locatorEntries, List.getElem_map, List.getElem_range]
    omega
  length_le := by
    rw [locatorEntries, List.length_map, List.length_range]
    by_cases h9 : n ≤ 8
    · omega
    · have hprev := hn (n - 1) (by omega)
      have hpow : 2 ^ (n - 8) ≤ h + 1 := by
        have hle := two_pow_le_backoff (show 8 ≤ n - 1 by omega)
        rw [show n - 1 + 1 - 8 = n - 8 by omega] at hle
        omega
      have := Nat.le_log_of_pow_le (by norm_num) hpow
      omega

theorem forall₂_filterMap {α β : Type} (f : α → Option β) (l : List α) :
    List.Forall₂ (fun a b => f a = some b) (l.filter fun a => (f a).isSome) (l.filterMap f) := by
  induction l with
  | nil => exact .nil
  | cons a l ih =>
    cases ha : f a with
    | none => simpa [ha] using ih
    | some b => simpa [ha] using ih

/-- **Locators.** For every 32-bit height the loop returns, its step does not overflow, and the
heights have the shape of a locator; the hashes of a locator belong to heights that fall. -/
theorem locator_correct {SE : Type} (build : Build) (h : Nat) (hh : h < 2 ^ 32) :
    locatorLoop build (h + 1) [] 1 h = .ok (locatorIndexes h) ∧
      LocatorShape h (locatorIndexes h) ∧
      ∀ (env : NodeEnv SE) (c : Client) (searchPendingBlock : Nat → Option BlockHash)
        (height : Option Nat), height.getD c.bestNumber = h →
        ∃ heights : List Nat, heights.Pairwise (· > ·) ∧
          List.Forall₂ (fun n hash => c.locatorHash env searchPendingBlock n = some hash) heights
            (c.blockLocator env height searchPendingBlock).locatorHashes := by
  obtain ⟨n, hn, hlast, hloop, hheights⟩ :=
    exists_locatorLoop_eq (i := 0) build hh (Nat.sub_le _ _)
      fun _ hk => absurd hk (Nat.not_lt_zero _)
  have hindexes : locatorIndexes h = locatorEntries h (n + 1) := hheights
  have hshape : LocatorShape h (locatorIndexes h) := hindexes ▸ locatorShape_entries hn hlast
  refine ⟨hindexes ▸ hloop, hshape, ?_⟩
  intro env c searchPendingBlock height hheight
  unfold Client.blockLocator
  rw [hheight]
  exact ⟨_, hshape.decreasing.filter _, forall₂_filterMap _ _⟩

/-- A locator of a chain of the height 30. -/
theorem locator_correct_thirty :
    locatorLoop .checked 31 [] 1 30 = .ok [30, 29, 28, 27, 26, 25, 24, 23, 22, 20, 16, 8, 0] :=
  (@locator_correct Unit .checked 30 (by norm_num)).1

end Subcoin
