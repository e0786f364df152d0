import Subcoin.Mempool.Coherence

/-!
# Subcoin — relative locks at admission

`calculate_lock_points_at_tip` against BIP68. A transaction is for the block after the tip, whose
median time past is that of the tip. The code does not read the version of the transaction, asks for
two blocks more than BIP68 does, refuses every lock on a coinbase, counts times from zero, and takes
the sentinel height of a mempool coin for a number.

* **`accepts_iff`** — what the code accepts as long as no height wraps.
* **`followsBip68_iff`** — when that is what BIP68 allows.
-/

namespace Subcoin.Mempool

open Outcome Stateful CoinsViewCache

/-! ## BIP68 -/

/-- The sequence of an input, the coin it spends, and whether the mempool created that coin. -/
structure SpentInput where
  sequence : Nat
  coin : PoolCoin
  inMempool : Bool

namespace SpentInput

variable (mtp : Nat → Nat) (tip : Nat) (i : SpentInput)

def IsLocked : Prop := i.sequence &&& sequenceLocktimeDisableFlag = 0

def IsHeightLock : Prop := i.sequence &&& sequenceLocktimeTypeFlag = 0

def value : Nat := i.sequence &&& sequenceLocktimeMask

/-- The height of the coin; one of the mempool will be in the next block at the earliest. -/
def height : Nat := if i.inMempool then tip + 1 else i.coin.height

/-- BIP68 for one lock, in the block after the tip. -/
def Meets : Prop :=
  (i.IsHeightLock → i.height tip + i.value ≤ tip + 1) ∧
    (¬ i.IsHeightLock → mtp (i.height tip - 1) + 512 * i.value ≤ mtp tip)

/-- The heights that the code casts to an `i32` fit into one. -/
def Fits : Prop :=
  i.IsHeightLock → i.coin.height + i.value + 1 < 2 ^ 31 ∧ tip < 2 ^ 31

/-- What the code asks of one lock. -/
def Admitted : Prop :=
  i.coin.isCoinbase = false ∧ (i.IsHeightLock → i.coin.height + i.value + 1 ≤ tip) ∧
    (¬ i.IsHeightLock → 512 * i.value ≤ mtp tip)

/-- A lock that BIP68 meets, on a coinbase or by at most two blocks. -/
def TooStrict : Prop :=
  (i.coin.isCoinbase = true ∧ i.Meets mtp tip) ∨
    (i.IsHeightLock ∧ (i.coin.height + i.value = tip ∨ i.coin.height + i.value = tip + 1))

/-- A time lock that has run out since the start of time, but not since the coin was created. -/
def TooLax : Prop :=
  i.coin.isCoinbase = false ∧ ¬ i.IsHeightLock ∧ 512 * i.value ≤ mtp tip ∧
    mtp tip < mtp (i.height tip - 1) + 512 * i.value

/-- A lock that BIP68 does not meet, and that the code sees. -/
def Refused : Prop :=
  ¬ i.Meets mtp tip ∧ (i.coin.isCoinbase = true ∨ i.IsHeightLock ∨ mtp tip < 512 * i.value)

end SpentInput

section

variable (mtp : Nat → Nat) (tip : Nat) (version : Int) (inputs : List SpentInput)

/-- The transaction may be in the block after the tip. -/
def Bip68 : Prop := version < 2 ∨ ∀ i ∈ inputs, i.IsLocked → i.Meets mtp tip

def NoWrap : Prop := ∀ i ∈ inputs, i.IsLocked → i.Fits tip

/-- With the version below two no lock may be in the way of the code. Else there is a lock that both
refuse, or none on which they differ, or locks on which they differ either way. -/
def SameVerdict : Prop :=
  (version < 2 ∧ ∀ i ∈ inputs, i.IsLocked → i.Admitted mtp tip) ∨
  (2 ≤ version ∧ ((∃ i ∈ inputs, i.IsLocked ∧ i.Refused mtp tip) ∨
    (∀ i ∈ inputs, i.IsLocked → ¬ i.TooStrict mtp tip ∧ ¬ i.TooLax mtp tip) ∨
    ((∃ i ∈ inputs, i.IsLocked ∧ i.TooStrict mtp tip) ∧
      ∃ i ∈ inputs, i.IsLocked ∧ i.TooLax mtp tip)))

end

/-- The overlay holds coins without a block only. -/
def OverlayUnconfirmed (coins : CoinsViewCache) : Prop :=
  ∀ o coin, coins.mempoolOverlay o = some coin → ∃ out, coin = mempoolCoin out

/-- The coins of the inputs of a transaction, all of them available. -/
def Provides (chain : H256 → Option Pallet.State) (coins : CoinsViewCache) (tx : Transaction)
    (coinOf : OutPoint → PoolCoin) : Prop :=
  ∀ o ∈ tx.spends, o ∉ coins.mempoolSpends ∧ coinIn chain coins o = some (coinOf o)

def spentInputs (coins : CoinsViewCache) (tx : Transaction) (coinOf : OutPoint → PoolCoin) :
    List SpentInput :=
  tx.input.map fun txin =>
    ⟨txin.sequence, coinOf txin.previousOutput, (coins.mempoolOverlay txin.previousOutput).isSome⟩

section

variable {SE : Type} {env : PoolEnv SE} {m : Moment} {chain : H256 → Option Pallet.State}
  {coins coins' : CoinsViewCache} {tx : Transaction} {coinOf : OutPoint → PoolCoin} {o : OutPoint}
  {mtp : Nat → Nat} {tip : Nat} {version : Int} {i : SpentInput} {inputs : List SpentInput}

/-! ## Histories -/

theorem OverlayUnconfirmed.step {call : CoinsCall} (h : OverlayUnconfirmed coins) :
    OverlayUnconfirmed (coins.step env call) := by
  intro o coin hcoin
  have hview : (coins.view.step env call).overlay o = some coin := by
    rw [← view_step]
    exact hcoin
  cases call with
  | getCoin client o' => exact h o coin hview
  | ensureCoins client os => exact h o coin hview
  | addMempoolCoins tx =>
    rcases Option.or_eq_some_iff.mp hview with hout | ⟨-, hold⟩
    · obtain ⟨out, -, rfl⟩ := Option.map_eq_some_iff.mp hout
      exact ⟨out, rfl⟩
    · exact h o coin hold
  | spendCoin o' => exact h o coin hview
  | removeMempoolTx tx =>
    have hkept : (if (outputAt env tx o).isSome then none else coins.mempoolOverlay o) =
      some coin := hview
    split_ifs at hkept
    exact h o coin hkept
  | onBlockConnected blockHash => exact h o coin hview

theorem overlayUnconfirmed_of_history {client : Client} {cacheSize : Nat} {calls : List CoinsCall} :
    OverlayUnconfirmed (calls.foldl (step env) (.new client cacheSize)) := by
  have hrun : ∀ coins, OverlayUnconfirmed coins →
      OverlayUnconfirmed (calls.foldl (step env) coins) := by
    induction calls with
    | nil => exact fun _ h => h
    | cons call calls ih => exact fun coins h => ih _ h.step
  exact hrun _ fun _ _ h => by cases h

/-- What holds of a coin of an input: it has no time, and no height while it is in the mempool. -/
structure IsPoolCoin (i : SpentInput) : Prop where
  time : i.coin.medianTimePast = 0
  height : i.inMempool = true → i.coin.height = mempoolHeight

theorem isPoolCoin_of_provides (hoverlay : OverlayUnconfirmed coins)
    (hprovides : Provides chain coins tx coinOf) :
    ∀ i ∈ spentInputs coins tx coinOf, IsPoolCoin i := by
  intro i hi
  obtain ⟨txin, htxin, rfl⟩ := List.mem_map.mp hi
  have hcoin := (hprovides txin.previousOutput (List.mem_map_of_mem htxin)).2
  cases ho : coins.mempoolOverlay txin.previousOutput with
  | some coin =>
    rw [coinIn, ho, Option.some_or, Option.some.injEq] at hcoin
    obtain ⟨out, rfl⟩ := hoverlay _ _ ho
    constructor
    · rw [← hcoin]; rfl
    · rw [← hcoin]; exact fun _ => rfl
  | none =>
    rw [coinIn, ho, Option.none_or] at hcoin
    obtain ⟨c, -, hc⟩ := Option.map_eq_some_iff.mp hcoin
    constructor
    · rw [← hc]; rfl
    · exact fun h => by cases h

/-! ## What the code accepts -/

theorem checkedSigned_of_lt {n : Nat} (h : n < 2 ^ 63) : checkedSigned 64 n = some (n : Int) := by
  have hfits : fitsSigned 64 n = true := by
    rw [fitsSigned, Bool.and_eq_true, decide_eq_true_eq, decide_eq_true_eq]
    omega
  rw [checkedSigned, if_pos hfits]

theorem addLock_eq_ok {locks locks' : LockPoints} (hi : IsPoolCoin i) :
    addLock locks i.sequence i.coin = .ok locks' ↔
      (¬ i.IsLocked ∧ locks' = locks) ∨
      (i.IsLocked ∧ i.coin.isCoinbase = false ∧ i.IsHeightLock ∧
        i.coin.height + i.value + 1 < 2 ^ 32 ∧
        locks' = { locks with
          height := max locks.height (toSigned 32 (i.coin.height + i.value + 1 : Nat)) }) ∨
      (i.IsLocked ∧ i.coin.isCoinbase = false ∧ ¬ i.IsHeightLock ∧
        locks' = { locks with time := max locks.time (512 * i.value : Nat) }) := by
  have hmask : i.sequence &&& sequenceLocktimeMask = i.value := rfl
  simp only [addLock, hmask, bind_eq_ok, errIf_eq_ok, exists_const]
  by_cases hlocked : i.IsLocked
  · have henabled : ¬ i.sequence &&& sequenceLocktimeDisableFlag ≠ 0 := fun h => h hlocked
    simp only [henabled, if_false, decide_false, Bool.not_false, Bool.and_true, hlocked,
      not_true_eq_false, false_and, false_or, true_and]
    by_cases hheight : i.IsHeightLock
    · rw [if_pos (show i.sequence &&& sequenceLocktimeTypeFlag = 0 from hheight)]
      simp only [hheight, true_and, not_true_eq_false, false_and, and_false, or_false,
        bind_eq_ok, okOr_eq_ok, Option.bind_eq_some_iff, checkedUnsigned_eq_some]
      refine and_congr_right fun _ => ⟨?_, ?_⟩
      · rintro ⟨_, ⟨_, ⟨_, rfl⟩, hlt, rfl⟩, hlocks⟩
        exact ⟨hlt, (Outcome.ok.inj hlocks).symm⟩
      · rintro ⟨hlt, rfl⟩
        exact ⟨_, ⟨_, ⟨by omega, rfl⟩, hlt, rfl⟩, rfl⟩
    · -- a coin of the pool has time 0, so only the offset is left and nothing overflows
      rw [if_neg (show ¬ i.sequence &&& sequenceLocktimeTypeFlag = 0 from hheight)]
      simp only [hheight, false_and, and_false, false_or, not_false_eq_true, true_and,
        bind_eq_ok, okOr_eq_ok, hi.time, Int.zero_add]
      have hvalue : i.value ≤ 65535 := Nat.and_le_right
      have hoffset : i.value * sequenceLocktimeGranularity = (512 * i.value : Nat) := by
        rw [sequenceLocktimeGranularity]
        omega
      refine and_congr_right fun _ => ?_
      rw [hoffset, checkedSigned_of_lt (by omega)]
      constructor
      · rintro ⟨offset, hfirst, time, htime, hlocks⟩
        rw [← Option.some.inj hfirst, checkedSigned_of_lt (by omega)] at htime
        rw [← Outcome.ok.inj hlocks, ← Option.some.inj htime]
      · rintro rfl
        exact ⟨_, rfl, _, checkedSigned_of_lt (by omega), rfl⟩
  · have hdisabled : i.sequence &&& sequenceLocktimeDisableFlag ≠ 0 := hlocked
    rw [if_pos hdisabled, decide_eq_true hdisabled]
    simp only [Bool.not_true, Bool.and_false, true_and, hlocked, not_false_eq_true, false_and,
      or_false]
    exact ⟨fun h => (Outcome.ok.inj h).symm, fun h => congrArg Outcome.ok h.symm⟩

/-- The points allow the transaction at the tip. -/
def Final (mtp : Nat → Nat) (tip : Nat) (locks : LockPoints) : Prop :=
  (0 < locks.height → locks.height ≤ toSigned 32 tip) ∧ (0 < locks.time → locks.time ≤ mtp tip)

theorem toSigned_of_lt_half {x : Nat} (h : x < 2 ^ 31) : toSigned 32 x = x := by
  have hcast : toSigned 32 x = (x + 2 ^ 31) % 2 ^ 32 - 2 ^ 31 := rfl
  omega

theorem final_addLock {locks : LockPoints} (hi : IsPoolCoin i) (hfits : i.IsLocked → i.Fits tip) :
    (∃ locks', addLock locks i.sequence i.coin = .ok locks' ∧ Final mtp tip locks') ↔
      Final mtp tip locks ∧ (i.IsLocked → i.Admitted mtp tip) := by
  simp only [addLock_eq_ok hi]
  by_cases hlocked : i.IsLocked
  · by_cases hheight : i.IsHeightLock
    · -- below the sign bit the comparison of `i32` values is the one of heights
      obtain ⟨hsmall, htip⟩ := hfits hlocked hheight
      have hsigned := toSigned_of_lt_half hsmall
      have hsignedTip := toSigned_of_lt_half htip
      simp only [hlocked, hheight, SpentInput.Admitted, Final, hsigned, hsignedTip]
      constructor
      · rintro ⟨_, ⟨h, _⟩ | ⟨_, hcoinbase, _, _, rfl⟩ | ⟨_, _, h, _⟩, hfinal, htime⟩
        · exact absurd trivial h
        · dsimp only at hfinal htime
          exact ⟨⟨by omega, htime⟩, fun _ =>
            ⟨hcoinbase, fun _ => by omega, fun h => (h trivial).elim⟩⟩
        · exact absurd trivial h
      · rintro ⟨⟨hfinal, htime⟩, hadmitted⟩
        obtain ⟨hcoinbase, hle, -⟩ := hadmitted trivial
        refine ⟨_, Or.inr (Or.inl ⟨trivial, hcoinbase, trivial, by omega, rfl⟩), ?_, htime⟩
        have hle := hle trivial
        dsimp only
        omega
    · simp only [hlocked, hheight, SpentInput.Admitted, Final]
      constructor
      · rintro ⟨_, ⟨h, _⟩ | ⟨_, _, h, _⟩ | ⟨_, hcoinbase, _, rfl⟩, hfinal, htime⟩
        · exact absurd trivial h
        · exact h.elim
        · dsimp only at hfinal htime
          exact ⟨⟨hfinal, by omega⟩, fun _ => ⟨hcoinbase, False.elim, fun _ => by omega⟩⟩
      · rintro ⟨⟨hfinal, htime⟩, hadmitted⟩
        obtain ⟨hcoinbase, -, hle⟩ := hadmitted trivial
        have hle := hle not_false
        refine ⟨_, Or.inr (Or.inr ⟨trivial, hcoinbase, not_false, rfl⟩), hfinal, ?_⟩
        dsimp only
        omega
  · simp [hlocked]

/-- The loop over the inputs leaves points that are final if every lock is admitted. -/
theorem final_foldlM {locks : LockPoints} (hi : ∀ i ∈ inputs, IsPoolCoin i)
    (hfits : NoWrap tip inputs) :
    (∃ locks', inputs.foldlM (fun locks i => addLock locks i.sequence i.coin) locks = .ok locks' ∧
      Final mtp tip locks') ↔
      Final mtp tip locks ∧ ∀ i ∈ inputs, i.IsLocked → i.Admitted mtp tip := by
  induction inputs generalizing locks with
  | nil =>
    simp only [List.foldlM_nil, List.not_mem_nil, false_imp_iff, implies_true, and_true]
    exact ⟨fun ⟨_, heq, h⟩ => Outcome.ok.inj heq ▸ h, fun h => ⟨locks, rfl, h⟩⟩
  | cons i inputs ih =>
    obtain ⟨hfirst, hrest⟩ := List.forall_mem_cons.mp hi
    obtain ⟨hfitsFirst, hfitsRest⟩ := List.forall_mem_cons.mp hfits
    simp only [List.foldlM_cons, bind_eq_ok, List.forall_mem_cons]
    rw [← and_assoc, ← final_addLock hfirst hfitsFirst]
    constructor
    · rintro ⟨locks', ⟨middle, hmiddle, hlocks'⟩, hfinal⟩
      obtain ⟨hfinal, hall⟩ := (ih hrest hfitsRest).mp ⟨locks', hlocks', hfinal⟩
      exact ⟨⟨middle, hmiddle, hfinal⟩, hall⟩
    · rintro ⟨⟨middle, hmiddle, hfinal⟩, hall⟩
      obtain ⟨locks', hlocks', hfinal⟩ := (ih hrest hfitsRest).mpr ⟨hfinal, hall⟩
      exact ⟨locks', ⟨middle, hmiddle, hlocks'⟩, hfinal⟩

/-! ## Lookups -/

/-- An input that is available is given its coin, whatever was fetched before. -/
theorem getInputCoin_eq (env : PoolEnv SE) {coin : PoolCoin} (h : Grounded chain m.client coins)
    (hfetches : Fetches m.client coins coins') (hunspent : o ∉ coins.mempoolSpends)
    (hcoin : coinIn chain coins o = some coin) :
    ∃ coins'', getInputCoin env m.client o coins' = .ok (coin, coins'') ∧
      Fetches m.client coins coins'' := by
  have h' := h.fetches hfetches
  have heval : (getCoin env m.client o).eval coins' = .ok (some coin) := by
    rw [getCoin_eq h'.sound h'.reports, hfetches.view_eq, h.lookup_eq hunspent, hcoin]
  obtain ⟨coins'', hget⟩ := eval_eq_ok.mp heval
  refine ⟨coins'', ?_, hfetches.trans (meets_getCoin.ok hget).1⟩
  simp only [getInputCoin, bind, hget]
  rfl

/-- The loop of the code is one over the coins of the inputs. -/
theorem eval_locks (env : PoolEnv SE) {txins : List TxIn} (locks : LockPoints)
    (h : Grounded chain m.client coins) (hfetches : Fetches m.client coins coins')
    (hcoins : ∀ txin ∈ txins, txin.previousOutput ∉ coins.mempoolSpends ∧
      coinIn chain coins txin.previousOutput = some (coinOf txin.previousOutput)) :
    (fold
      (fun locks (txin : TxIn) => do
        let coin ← getInputCoin env m.client txin.previousOutput
        lift (addLock locks txin.sequence coin)) locks txins).eval coins' =
      txins.foldlM (fun locks txin => addLock locks txin.sequence (coinOf txin.previousOutput))
        locks := by
  induction txins generalizing locks coins' with
  | nil => rfl
  | cons txin txins ih =>
    obtain ⟨⟨hunspent, hcoin⟩, hrest⟩ := List.forall_mem_cons.mp hcoins
    obtain ⟨coins'', hget, hfetches'⟩ := getInputCoin_eq env h hfetches hunspent hcoin
    have hbody : (getInputCoin env m.client txin.previousOutput >>= fun coin =>
        lift (addLock locks txin.sequence coin)) coins' =
        (lift (addLock locks txin.sequence (coinOf txin.previousOutput)) :
          Stateful _ _ _) coins'' := by
      simp only [bind, hget]
      rfl
    rw [List.foldlM_cons, fold, eval_bind_congr hbody, eval_lift_bind]
    exact bind_congr fun locks' => ih locks' hfetches' hrest

theorem eval_lockPoints (h : Grounded chain m.client coins)
    (hprovides : Provides chain coins tx coinOf) :
    (∃ locks, (calculateLockPointsAtTip env m tx tip (mtp tip)).eval coins = .ok locks) ↔
      ∃ locks, (spentInputs coins tx coinOf).foldlM
        (fun locks i => addLock locks i.sequence i.coin) ⟨-1, 0, none⟩ = .ok locks ∧
        Final mtp tip locks := by
  have hloop := eval_locks env ⟨-1, 0, none⟩ h (.refl coins)
    (fun txin htxin => hprovides _ (List.mem_map_of_mem htxin))
  rw [spentInputs, List.foldlM_map, ← hloop, calculateLockPointsAtTip, eval_bind_lift]
  simp only [bind_eq_ok, errIf_eq_ok, Final]
  constructor
  · rintro ⟨locks, locks', hlocks', _, hheight, _, htime, hlocks⟩
    cases hlocks
    exact ⟨locks, hlocks', by simpa using hheight, by simpa using htime⟩
  · rintro ⟨locks, hlocks, hheight, htime⟩
    exact ⟨locks, locks, hlocks, (), by simpa using hheight, (), by simpa using htime, rfl⟩

/-! ## The verdicts -/

/-- The code accepts a transaction whose inputs are available when it admits every lock. -/
theorem accepts_iff (h : Grounded chain m.client coins) (hoverlay : OverlayUnconfirmed coins)
    (hprovides : Provides chain coins tx coinOf)
    (hfits : NoWrap tip (spentInputs coins tx coinOf)) :
    (∃ locks, (calculateLockPointsAtTip env m tx tip (mtp tip)).eval coins = .ok locks) ↔
      ∀ i ∈ spentInputs coins tx coinOf, i.IsLocked → i.Admitted mtp tip := by
  rw [eval_lockPoints h hprovides,
    final_foldlM (isPoolCoin_of_provides hoverlay hprovides) hfits]
  exact and_iff_right ⟨fun h => absurd h (by decide), fun h => absurd h (by decide)⟩

/-- Two rules for every element of a list agree on the list. -/
theorem forall_iff_forall {α : Type} {l : List α} {P Q : α → Prop} :
    ((∀ a ∈ l, P a) ↔ ∀ a ∈ l, Q a) ↔
      (∃ a ∈ l, ¬ P a ∧ ¬ Q a) ∨ (∀ a ∈ l, ¬ (¬ P a ∧ Q a) ∧ ¬ (P a ∧ ¬ Q a)) ∨
        ((∃ a ∈ l, ¬ P a ∧ Q a) ∧ ∃ a ∈ l, P a ∧ ¬ Q a) := by
  by_cases hP : ∀ a ∈ l, P a
  · by_cases hQ : ∀ a ∈ l, Q a
    · exact iff_of_true (iff_of_true hP hQ) (Or.inr (Or.inl fun a ha =>
        ⟨fun h => h.1 (hP a ha), fun h => h.2 (hQ a ha)⟩))
    · refine iff_of_false (fun h => hQ (h.mp hP)) ?_
      rintro (⟨a, ha, h⟩ | h | ⟨⟨a, ha, h⟩, -⟩)
      · exact h.1 (hP a ha)
      · exact hQ fun a ha => by_contra fun hn => (h a ha).2 ⟨hP a ha, hn⟩
      · exact h.1 (hP a ha)
  · obtain ⟨b, hb, hPb⟩ : ∃ b ∈ l, ¬ P b := by simpa using hP
    by_cases hQ : ∀ a ∈ l, Q a
    · refine iff_of_false (fun h => hP (h.mpr hQ)) ?_
      rintro (⟨a, ha, h⟩ | h | ⟨-, a, ha, h⟩)
      · exact h.2 (hQ a ha)
      · exact (h b hb).1 ⟨hPb, hQ b hb⟩
      · exact h.2 (hQ a ha)
    · obtain ⟨c, hc, hQc⟩ : ∃ c ∈ l, ¬ Q c := by simpa using hQ
      refine iff_of_true (iff_of_false hP hQ) ?_
      by_cases hQb : Q b
      · by_cases hPc : P c
        · exact Or.inr (Or.inr ⟨⟨b, hb, hPb, hQb⟩, c, hc, hPc, hQc⟩)
        · exact Or.inl ⟨c, hc, hPc, hQc⟩
      · exact Or.inl ⟨b, hb, hPb, hQb⟩

section

variable (hi : IsPoolCoin i) (hfits : i.Fits tip)

include hi hfits

/-- A coin with a height lock that fits is in a block: the sentinel does not. -/
theorem height_of_fits (hheight : i.IsHeightLock) : i.height tip = i.coin.height := by
  have hconfirmed : ¬ i.inMempool = true := by
    intro hmempool
    have hlt := (hfits hheight).1
    rw [hi.height hmempool, mempoolHeight] at hlt
    omega
  exact if_neg hconfirmed

theorem tooStrict_iff : i.TooStrict mtp tip ↔ ¬ i.Admitted mtp tip ∧ i.Meets mtp tip := by
  unfold SpentInput.TooStrict SpentInput.Admitted SpentInput.Meets
  by_cases hheight : i.IsHeightLock
  · have hconfirmed := height_of_fits hi hfits hheight
    simp only [hheight, hconfirmed]
    cases i.coin.isCoinbase with
    | true => simp; omega
    | false => simp; omega
  · simp only [hheight]
    cases i.coin.isCoinbase with
    | true => simp
    | false => simp; omega

theorem tooLax_iff : i.TooLax mtp tip ↔ i.Admitted mtp tip ∧ ¬ i.Meets mtp tip := by
  unfold SpentInput.TooLax SpentInput.Admitted SpentInput.Meets
  by_cases hheight : i.IsHeightLock
  · have hconfirmed := height_of_fits hi hfits hheight
    simp only [hheight, hconfirmed]
    simp; omega
  · simp [hheight, and_assoc]

theorem refused_iff : i.Refused mtp tip ↔ ¬ i.Admitted mtp tip ∧ ¬ i.Meets mtp tip := by
  unfold SpentInput.Refused SpentInput.Admitted SpentInput.Meets
  by_cases hheight : i.IsHeightLock
  · have hconfirmed := height_of_fits hi hfits hheight
    simp only [hheight, hconfirmed]
    simp; omega
  · simp only [hheight]
    cases i.coin.isCoinbase with
    | true => simp
    | false => simp; omega

end

/-- The code accepts what BIP68 allows in the next block, and no height wraps. -/
def FollowsBip68 (env : PoolEnv SE) (m : Moment) (mtp : Nat → Nat) (tip : Nat)
    (coins : CoinsViewCache) (tx : Transaction) (inputs : List SpentInput) : Prop :=
  ((∃ locks, (calculateLockPointsAtTip env m tx tip (mtp tip)).eval coins = .ok locks) ↔
    Bip68 mtp tip tx.version inputs) ∧ NoWrap tip inputs

theorem followsBip68_iff (h : Grounded chain m.client coins) (hoverlay : OverlayUnconfirmed coins)
    (hprovides : Provides chain coins tx coinOf) :
    FollowsBip68 env m mtp tip coins tx (spentInputs coins tx coinOf) ↔
      SameVerdict mtp tip tx.version (spentInputs coins tx coinOf) ∧
        NoWrap tip (spentInputs coins tx coinOf) := by
  refine and_congr_left fun hfits => ?_
  rw [accepts_iff h hoverlay hprovides hfits]
  have hcoins := isPoolCoin_of_provides hoverlay hprovides
  generalize spentInputs coins tx coinOf = inputs at hfits hcoins
  unfold Bip68 SameVerdict
  by_cases hversion : tx.version < 2
  · simp [hversion, Int.not_le.mpr hversion]
  simp only [hversion, false_or, false_and, Int.not_lt.mp hversion, true_and]
  rw [forall_iff_forall]
  have hlocked : ∀ i ∈ inputs, i.IsLocked → (i.TooStrict mtp tip ↔
      ¬ i.Admitted mtp tip ∧ i.Meets mtp tip) ∧ (i.TooLax mtp tip ↔
      i.Admitted mtp tip ∧ ¬ i.Meets mtp tip) ∧ (i.Refused mtp tip ↔
      ¬ i.Admitted mtp tip ∧ ¬ i.Meets mtp tip) := fun i hi hlock =>
    ⟨tooStrict_iff (hcoins i hi) (hfits i hi hlock), tooLax_iff (hcoins i hi) (hfits i hi hlock),
      refused_iff (hcoins i hi) (hfits i hi hlock)⟩
  refine or_congr (exists_congr fun i => and_congr_right fun hi => ?_)
    (or_congr (forall₂_congr fun i hi => ?_) (and_congr
      (exists_congr fun i => and_congr_right fun hi => ?_)
      (exists_congr fun i => and_congr_right fun hi => ?_)))
  all_goals
    by_cases hlock : i.IsLocked
    · simp only [hlock, true_imp_iff, true_and, hlocked i hi hlock]
    · simp [hlock]

end

/-! ## Samples -/

namespace Reference

/-- A coin of the node, in the block of height one. -/
def confirmed : PoolCoin := ⟨⟨100000, lockScript⟩, 1, false, 0⟩

def lockedSpend (sequence : Nat) : Transaction :=
  { spendOf (coinAt 0) 90000 with
    version := 2
    input := [⟨coinAt 0, unlockScript, sequence, []⟩] }

def blockTime (height : Nat) : Nat := 1231006505 + 600 * height

theorem overlayUnconfirmed_coins : OverlayUnconfirmed coins :=
  @overlayUnconfirmed_of_history _ env client 10000 []

theorem provides_lockedSpend {sequence : Nat} :
    Provides states coins (lockedSpend sequence) fun _ => confirmed := by
  intro o ho
  rw [show o = coinAt 0 from List.mem_singleton.mp ho]
  exact ⟨HashSet.not_mem_empty, by decide +kernel⟩

/-- A lock of three blocks, in time for a tip of height ten. -/
theorem followsBip68_met :
    FollowsBip68 env moment blockTime 10 coins (lockedSpend 3)
      (spentInputs coins (lockedSpend 3) fun _ => confirmed) := by
  refine (followsBip68_iff grounded_coins overlayUnconfirmed_coins provides_lockedSpend).mpr
    ⟨Or.inr ⟨by decide, Or.inr (Or.inl fun i hi _ => ?_)⟩, fun i hi _ _ => ?_⟩
  · obtain rfl : i = ⟨3, confirmed, false⟩ := List.mem_singleton.mp hi
    constructor
    · rintro (⟨h, -⟩ | ⟨-, h | h⟩)
      · cases h
      · exact absurd h (by decide)
      · exact absurd h (by decide)
    · exact fun h => h.2.1 (show 3 &&& sequenceLocktimeTypeFlag = 0 by decide)
  · obtain rfl : i = ⟨3, confirmed, false⟩ := List.mem_singleton.mp hi
    exact by decide

/-- A lock of no blocks on a coin of the tip: BIP68 allows the next block, the code does not. -/
theorem not_followsBip68_tip :
    Grounded states client coins ∧ OverlayUnconfirmed coins ∧
      Provides states coins (lockedSpend 0) (fun _ => confirmed) ∧
      Bip68 blockTime 1 2 (spentInputs coins (lockedSpend 0) fun _ => confirmed) ∧
      (calculateLockPointsAtTip env moment (lockedSpend 0) 1 (blockTime 1)).eval coins =
        .err .nonBIP68Final ∧
      ¬ FollowsBip68 env moment blockTime 1 coins (lockedSpend 0)
        (spentInputs coins (lockedSpend 0) fun _ => confirmed) := by
  have heval : (calculateLockPointsAtTip env moment (lockedSpend 0) 1 (blockTime 1)).eval coins =
      .err .nonBIP68Final := by decide +kernel
  have hmeets : Bip68 blockTime 1 2 (spentInputs coins (lockedSpend 0) fun _ => confirmed) := by
    refine Or.inr fun i hi _ => ?_
    obtain rfl : i = ⟨0, confirmed, false⟩ := List.mem_singleton.mp hi
    exact ⟨fun _ => by decide,
      fun h => absurd (show 0 &&& sequenceLocktimeTypeFlag = 0 by decide) h⟩
  refine ⟨grounded_coins, overlayUnconfirmed_coins, provides_lockedSpend, hmeets, heval, ?_⟩
  intro h
  obtain ⟨locks, hlocks⟩ := h.1.mpr hmeets
  rw [heval] at hlocks
  cases hlocks

end Reference

end Subcoin.Mempool
