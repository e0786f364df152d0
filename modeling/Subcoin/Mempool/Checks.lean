import Subcoin.Lib.Failure
import Subcoin.Mempool.Coins
import Subcoin.Mempool.Pool

/-!
# Subcoin — what the checks guarantee

What is known of a transaction that is inserted after its checks. `Vetted` says it for a member of
a package: it is new, conflicts with nothing, is within the limits, has its coins and its scripts
pass, and it either passed every other check of `pre_checks` (`Passes`) or had a fee that is too
low forgiven (`Forgiven`), in which case its workspace is still a blank one. A replacement is never
among them: the rule on its fee is tested while the workspace still holds a fee of zero
(`checkRbfPolicy_ne_ok`). The coins change by what the checks fetch.

* **`meets_preChecks`** — the checks that return, and those that end with a fee that is too low.
* **`meets_checkSingle`**, **`meets_preValidatePackageTx`** — what the two callers make of them.
-/

namespace Subcoin.Mempool

open Outcome Stateful

variable {SE : Type} {env : PoolEnv SE} {build : Build} {options : MemPoolOptions} {m : Moment}
  {inner : MemPoolInner} {tx : Transaction} {ws : ValidationWorkspace} {coins : CoinsViewCache}

/-! ## What is checked -/

structure Checked (env : PoolEnv SE) (inner : MemPoolInner) (tx : Transaction)
    (ws : ValidationWorkspace) : Prop where
  tx_eq : ws.tx = tx
  txWeight : ws.txWeight = env.txWeight tx
  vsize : ws.vsize = toSigned 64 (toVbytesCeil (env.txWeight tx))
  conflictSet : ws.conflictSet = none
  fresh : inner.arena.byTxid (env.computeTxid tx) = none
  unspent : ∀ o ∈ tx.spends, inner.mapNextTx o = none

/-- A checked transaction within the limits on its relatives. -/
structure Admissible (env : PoolEnv SE) (build : Build) (options : MemPoolOptions) (m : Moment)
    (inner : MemPoolInner) (tx : Transaction) (ws : ValidationWorkspace) : Prop
    extends Checked env inner tx ws where
  limits : checkPackageLimits build options m inner ws = .ok ()

/-- Coins for a list of outpoints, in order, as lookups answer them. -/
structure Supplies (client : Client) (coins : CoinsViewCache) (outpoints : List OutPoint)
    (found : List (OutPoint × PoolCoin)) : Prop where
  outpoints : found.map Prod.fst = outpoints
  finds : ∀ p ∈ found, Finds client coins p.1 p.2

def Inputs.add (acc : Inputs) (p : OutPoint × PoolCoin) : Inputs where
  value := acc.value + p.2.output.value
  spendsCoinbase := acc.spendsCoinbase || p.2.isCoinbase
  prevOutputs := Function.update acc.prevOutputs p.1 (some p.2.output)

def Inputs.ofCoins (found : List (OutPoint × PoolCoin)) : Inputs :=
  found.foldl Inputs.add ⟨0, false, fun _ => none⟩

/-- The lock points of a transaction whose inputs spend these coins. -/
def lockPointsOf (tx : Transaction) (found : List (OutPoint × PoolCoin)) :
    Outcome MempoolError LockPoints :=
  (tx.input.zip (found.map Prod.snd)).foldlM (fun locks p => addLock locks p.1.sequence p.2)
    ⟨-1, 0, none⟩

/-- The coins of the inputs, none of them an immature one. -/
structure Funds (client : Client) (height : Nat) (coins : CoinsViewCache) (tx : Transaction)
    (found : List (OutPoint × PoolCoin)) : Prop extends
    Supplies client coins tx.spends found where
  mature : ∀ p ∈ found, p.2.isCoinbase = true → 100 ≤ height - p.2.height

/-- The BIP68 locks of the inputs, which allow the transaction at the tip. -/
structure Unlocked (client : Client) (height : Nat) (mtp : Int) (coins : CoinsViewCache)
    (tx : Transaction) (locks : LockPoints) : Prop where
  points : ∃ found, Supplies client coins tx.spends found ∧ lockPointsOf tx found = .ok locks
  height : 0 < locks.height → locks.height ≤ toSigned 32 height
  time : 0 < locks.time → locks.time ≤ mtp

/-- A transaction that all of `pre_checks` lets through. -/
structure Passes (env : PoolEnv SE) (build : Build) (options : MemPoolOptions) (m : Moment)
    (height : Nat) (mtp : Int) (coins : CoinsViewCache) (tx : Transaction)
    (ws : ValidationWorkspace) : Prop where
  fee : ∃ found, Funds m.client height coins tx found ∧
    checkFee build options tx ws.vsize (Inputs.ofCoins found).value = .ok ws.baseFee ∧
    checkSigops env m tx height (Inputs.ofCoins found) = .ok ws.sigopCost ∧
    ws.spendsCoinbase = (Inputs.ofCoins found).spendsCoinbase
  modifiedFee : ws.modifiedFee = ws.baseFee
  locks : Unlocked m.client height mtp coins tx ws.lockPoints

def IsFeeTooLow (e : MempoolError) : Prop := ∃ minKvb actualKvb, e = .feeTooLow minKvb actualKvb

theorem IsLookupError.not_feeTooLow {e : MempoolError} (h : IsLookupError e) :
    ¬ IsFeeTooLow e := by
  rcases h with ⟨_, rfl⟩ | ⟨_, rfl⟩
  · simp [IsFeeTooLow]
  · simp [IsFeeTooLow]

/-- A transaction that `pre_checks` ends at its fee, which leaves the workspace it started with. -/
structure Forgiven (env : PoolEnv SE) (build : Build) (options : MemPoolOptions) (m : Moment)
    (height : Nat) (coins : CoinsViewCache) (tx : Transaction) (ws : ValidationWorkspace) :
    Prop where
  fee : ∃ found, Funds m.client height coins tx found ∧
    Outcome.FailsWith IsFeeTooLow
      (checkFee build options tx ws.vsize (Inputs.ofCoins found).value)
  blank : ∃ conflicts, ws = { ValidationWorkspace.new env tx with conflicts := conflicts }

def ScriptsPass (env : PoolEnv SE) (client : Client) (coins : CoinsViewCache) (tx : Transaction)
    (flags : Script.VerifyFlags) : Prop :=
  ∀ p ∈ tx.input.zipIdx, ∃ coin, Finds client coins p.1.previousOutput coin ∧
    env.verifyScript p.1.scriptSig coin.output.scriptPubkey p.1.witness flags.bits tx p.2
      coin.output.value = .ok ()

/-- What is known of a member of a package that the checks let through. -/
structure Vetted (env : PoolEnv SE) (build : Build) (options : MemPoolOptions) (m : Moment)
    (height : Nat) (mtp : Int) (inner : MemPoolInner) (coins : CoinsViewCache) (tx : Transaction)
    (ws : ValidationWorkspace) : Prop extends Admissible env build options m inner tx ws where
  transaction : checkTransaction env options inner tx = .ok ()
  prechecks : Passes env build options m height mtp coins tx ws ∨
    Forgiven env build options m height coins tx ws
  standard : ScriptsPass env m.client coins tx standardScriptVerifyFlags
  mandatory : ScriptsPass env m.client coins tx mandatoryScriptVerifyFlags

/-! What is known of coins after more was fetched was known before. -/

section

variable {client : Client} {coins' : CoinsViewCache} {height : Nat}
  {found : List (OutPoint × PoolCoin)} {outpoints : List OutPoint}

theorem Supplies.of_fetches (h : Fetches client coins coins')
    (hsupplies : Supplies client coins' outpoints found) :
    Supplies client coins outpoints found :=
  ⟨hsupplies.outpoints, fun p hp => .of_fetches h (hsupplies.finds p hp)⟩

theorem Funds.of_fetches (h : Fetches client coins coins')
    (hfunds : Funds client height coins' tx found) : Funds client height coins tx found :=
  ⟨hfunds.toSupplies.of_fetches h, hfunds.mature⟩

variable {mtp : Int} {height : Nat} {st : Checking}

theorem Unlocked.of_fetches {locks : LockPoints} (h : Fetches client coins coins')
    (hlocks : Unlocked client height mtp coins' tx locks) :
    Unlocked client height mtp coins tx locks := by
  obtain ⟨found, hsupplies, hpoints⟩ := hlocks.points
  exact ⟨⟨found, hsupplies.of_fetches h, hpoints⟩, hlocks.height, hlocks.time⟩

theorem Passes.of_fetches (h : Fetches m.client coins coins')
    (hpasses : Passes env build options m height mtp coins' tx ws) :
    Passes env build options m height mtp coins tx ws := by
  obtain ⟨found, hfunds, hfee⟩ := hpasses.fee
  exact ⟨⟨found, hfunds.of_fetches h, hfee⟩, hpasses.modifiedFee, hpasses.locks.of_fetches h⟩

theorem Forgiven.of_fetches (h : Fetches m.client coins coins')
    (hforgiven : Forgiven env build options m height coins' tx ws) :
    Forgiven env build options m height coins tx ws := by
  obtain ⟨found, hfunds, hfee⟩ := hforgiven.fee
  exact ⟨⟨found, hfunds.of_fetches h, hfee⟩, hforgiven.blank⟩

theorem ScriptsPass.of_fetches {flags : Script.VerifyFlags} (h : Fetches client coins coins')
    (hscripts : ScriptsPass env client coins' tx flags) :
    ScriptsPass env client coins tx flags := by
  intro p hp
  obtain ⟨coin, hfinds, hverify⟩ := hscripts p hp
  exact ⟨coin, .of_fetches h hfinds, hverify⟩

theorem Vetted.of_fetches (h : Fetches m.client coins coins')
    (hvetted : Vetted env build options m height mtp inner coins' tx ws) :
    Vetted env build options m height mtp inner coins tx ws where
  toAdmissible := hvetted.toAdmissible
  transaction := hvetted.transaction
  prechecks := hvetted.prechecks.imp (.of_fetches h) (.of_fetches h)
  standard := hvetted.standard.of_fetches h
  mandatory := hvetted.mandatory.of_fetches h

end

/-- Every input of a vetted transaction has a coin. -/
theorem Vetted.finds (h : Vetted env build options m height mtp inner coins tx ws) {o : OutPoint}
    (ho : o ∈ tx.spends) : ∃ coin, Finds m.client coins o coin := by
  have hfunds : ∃ found, Funds m.client height coins tx found := by
    rcases h.prechecks with hpasses | hforgiven
    · obtain ⟨found, hfunds, _⟩ := hpasses.fee
      exact ⟨found, hfunds⟩
    · obtain ⟨found, hfunds, _⟩ := hforgiven.fee
      exact ⟨found, hfunds⟩
  obtain ⟨found, hfunds⟩ := hfunds
  rw [← hfunds.outpoints] at ho
  obtain ⟨p, hp, rfl⟩ := List.mem_map.mp ho
  exact ⟨p.2, hfunds.finds p hp⟩

/-! ## Fees -/

theorem Inputs.ofCoins_value {found : List (OutPoint × PoolCoin)} :
    (Inputs.ofCoins found).value = (found.map fun p => p.2.output.value).sum := by
  have hfold : ∀ acc : Inputs, (found.foldl Inputs.add acc).value =
      acc.value + (found.map fun p => p.2.output.value).sum := by
    induction found with
    | nil => simp
    | cons p found ih =>
      intro acc
      rw [List.foldl_cons, ih, List.map_cons, List.sum_cons, ← Nat.add_assoc]
      rfl
  rw [Inputs.ofCoins, hfold, Nat.zero_add]

/-- The fee is what the inputs have over the outputs, and at least the minimum. -/
theorem checkFee_eq_ok {vsize : Int} {inputValue fee : Nat}
    (h : checkFee build options tx vsize inputValue = .ok fee) :
    ∃ out minFee, sumOutputs build tx.output = (.ok out : Outcome MempoolError Nat) ∧
      out ≤ inputValue ∧ fee = inputValue - out ∧
      options.minRelayFeeRate.getFee vsize = (.ok minFee : Outcome MempoolError Nat) ∧
      minFee ≤ fee := by
  simp only [checkFee, bind_eq_ok, errIf_eq_ok, decide_eq_false_iff_not,
    not_lt] at h
  obtain ⟨out, hout, _, hle, minFee, hmin, h⟩ := h
  split at h
  · rw [bind_eq_ok] at h
    obtain ⟨_, _, h⟩ := h
    cases h
  · rename_i hmin'
    cases h
    exact ⟨out, minFee, hout, hle, rfl, hmin, Nat.le_of_not_lt hmin'⟩

/-- A bound on the value of every coin that can be found. -/
def Bounds (client : Client) (coins : CoinsViewCache) (bound : OutPoint → Nat) : Prop :=
  ∀ o coin, Finds client coins o coin → coin.output.value ≤ bound o

theorem Vetted.baseFee_le {bound : OutPoint → Nat}
    (h : Vetted env build options m height mtp inner coins tx ws)
    (hbound : Bounds m.client coins bound) : ws.baseFee ≤ (tx.spends.map bound).sum := by
  rcases h.prechecks with hpasses | hforgiven
  · obtain ⟨found, hfunds, hfee, _⟩ := hpasses.fee
    obtain ⟨out, _, _, _, hbase, _⟩ := checkFee_eq_ok hfee
    calc ws.baseFee ≤ (Inputs.ofCoins found).value := hbase ▸ Nat.sub_le _ _
      _ = (found.map fun p => p.2.output.value).sum := Inputs.ofCoins_value
      _ ≤ (found.map fun p => bound p.1).sum :=
        List.sum_le_sum fun p hp => hbound p.1 p.2 (hfunds.finds p hp)
      _ = (tx.spends.map bound).sum := by rw [← hfunds.outpoints, List.map_map]; rfl
  · obtain ⟨conflicts, rfl⟩ := hforgiven.blank
    exact Nat.zero_le _

theorem Vetted.modifiedFee (h : Vetted env build options m height mtp inner coins tx ws) :
    ws.modifiedFee = ws.baseFee := by
  rcases h.prechecks with hpasses | hforgiven
  · exact hpasses.modifiedFee
  · obtain ⟨conflicts, rfl⟩ := hforgiven.blank
    rfl

/-! ## The transaction and its conflicts -/

theorem checkTransaction_eq_ok (h : checkTransaction env options inner tx = .ok ()) :
    inner.arena.byTxid (env.computeTxid tx) = none := by
  simp only [checkTransaction, bind_eq_ok, errIf_eq_ok] at h
  obtain ⟨_, _, _, _, _, _, _, _, h⟩ := h
  exact Option.not_isSome_iff_eq_none.mp (Bool.eq_false_iff.mp h)

theorem not_failsWith_checkTransaction :
    ¬ Outcome.FailsWith IsFeeTooLow (checkTransaction env options inner tx) := by
  refine not_failsWith_bind ?_ fun _ => not_failsWith_bind ?_ fun _ =>
    not_failsWith_bind ?_ fun _ => not_failsWith_bind ?_ fun _ => ?_
  · rw [failsWith_mapErr]
    exact not_failsWith_of_forall (by simp [IsFeeTooLow]) _
  · simp [IsFeeTooLow]
  · unfold checkStandardness
    split
    · rw [failsWith_mapErr]
      exact not_failsWith_of_forall (by simp [IsFeeTooLow]) _
    · simp
  · simp [IsFeeTooLow]
  · simp [IsFeeTooLow]

/-- The fee of a workspace that has none yet never exceeds what it would replace. -/
theorem checkRbfPolicy_ne_ok (hfee : ws.modifiedFee = 0) (set : ConflictSet) :
    checkRbfPolicy env build options m inner ws ≠ .ok set := by
  intro h
  simp only [checkRbfPolicy, bind_eq_ok, errIf_eq_ok] at h
  obtain ⟨_, _, _, _, _, _, _, _, _, _, _, hrule, _⟩ := h
  simp [hfee] at hrule

theorem not_failsWith_getFee {rate : FeeRate} {vsize : Int} :
    ¬ Outcome.FailsWith IsFeeTooLow (rate.getFee vsize) := by
  exact not_failsWith_bind not_failsWith_expect fun _ =>
    not_failsWith_pure

theorem not_failsWith_checkRbfPolicy :
    ¬ Outcome.FailsWith IsFeeTooLow (checkRbfPolicy env build options m inner ws) := by
  have hsignals : ∀ id, ¬ Outcome.FailsWith IsFeeTooLow (checkSignals inner id) := by
    intro id
    exact not_failsWith_bind (by simp [IsFeeTooLow]) fun _ => by simp [IsFeeTooLow]
  have hreplaced : ∀ acc id, ¬ Outcome.FailsWith IsFeeTooLow (addReplaced build inner acc id) := by
    intro acc id
    exact not_failsWith_bind (by simp [IsFeeTooLow]) fun _ =>
      not_failsWith_bind (by simp [IsFeeTooLow]) fun _ =>
        not_failsWith_bind not_failsWith_signed fun _ =>
          not_failsWith_pure
  refine not_failsWith_bind (by simp [IsFeeTooLow]) fun _ =>
    not_failsWith_bind (by simp [IsFeeTooLow]) fun _ =>
    not_failsWith_bind (not_failsWith_mapM hsignals _) fun _ =>
    not_failsWith_bind (not_failsWith_foldlM hreplaced _ _) fun _ =>
    not_failsWith_bind (by simp [IsFeeTooLow]) fun _ =>
    not_failsWith_bind (by simp [IsFeeTooLow]) fun _ =>
    not_failsWith_bind not_failsWith_getFee fun _ =>
    not_failsWith_bind not_failsWith_signed fun _ =>
    not_failsWith_bind (by simp [IsFeeTooLow]) fun _ =>
    not_failsWith_bind not_failsWith_getFee fun _ =>
    not_failsWith_bind (by simp [IsFeeTooLow]) fun _ => not_failsWith_pure

/-- Without conflicts the workspace keeps what is checked; a conflict is an error. -/
theorem meets_checkConflicts (hfee : st.ws.modifiedFee = 0) :
    Stateful.Meets (checkConflicts env build options m inner) st
      (fun _ st' => (∃ conflicts, st'.ws = { st.ws with conflicts := conflicts }) ∧
        st'.coins = st.coins ∧ ∀ o ∈ st.ws.tx.spends, inner.mapNextTx o = none)
      fun e st' => ¬ IsFeeTooLow e ∧ st'.coins = st.coins := by
  refine .get_bind (.modify_bind ?_)
  split
  · rename_i hnone
    refine meets_pure ⟨⟨_, rfl⟩, rfl, fun o ho => ?_⟩
    rw [List.isEmpty_iff, List.filterMap_eq_nil_iff] at hnone
    exact hnone o ho
  · split
    · refine .lift_bind (fun set hset => ?_) fun e he => ⟨fun hlow => ?_, rfl⟩
      · exact absurd hset (checkRbfPolicy_ne_ok hfee set)
      · exact not_failsWith_checkRbfPolicy ⟨e, he, hlow⟩
    · exact meets_fail ⟨by simp [IsFeeTooLow], rfl⟩

/-! ## The coins of the inputs -/

/-- Computations on the coins leave the workspace alone. -/
theorem meets_onCoins {α : Type} {x : Stateful CoinsViewCache MempoolError α}
    {Q : α → CoinsViewCache → Prop} {E : MempoolError → CoinsViewCache → Prop}
    (h : Stateful.Meets x st.coins Q E) :
    Stateful.Meets (onCoins x) st (fun a st' => st'.ws = st.ws ∧ Q a st'.coins)
      fun e st' => st'.ws = st.ws ∧ E e st'.coins :=
  .zoom (h.mono (fun _ _ h => ⟨rfl, h⟩) fun _ _ h => ⟨rfl, h⟩)

theorem meets_checkAvailable {outpoints : List OutPoint} :
    Stateful.Meets (checkAvailable env m outpoints) coins
      (fun _ coins' => Fetches m.client coins coins')
      fun e coins' => Fetches m.client coins coins' ∧ ¬ IsFeeTooLow e := by
  refine .bind (meets_ensureCoins.mono (fun _ _ h => h) fun _ _ h => ⟨h.1, h.2.not_feeTooLow⟩)
    fun _ coins1 h1 => .get_bind ?_
  dsimp only
  split
  · exact meets_pure h1
  · exact meets_fail ⟨h1, by simp [IsFeeTooLow]⟩

namespace Supplies

variable {client : Client} {outpoints : List OutPoint} {found : List (OutPoint × PoolCoin)}

theorem nil : Supplies client coins [] [] := ⟨rfl, by simp⟩

/-- One more coin at the end. -/
theorem snoc {o : OutPoint} {coin : PoolCoin} (h : Supplies client coins outpoints found)
    (ho : Finds client coins o coin) :
    Supplies client coins (outpoints ++ [o]) (found ++ [(o, coin)]) := by
  refine ⟨by simp [h.outpoints], fun p hp => ?_⟩
  rcases List.mem_append.mp hp with hp | hp
  · exact h.finds p hp
  · rw [List.mem_singleton.mp hp]
    exact ho

end Supplies

/-- The loop over the inputs adds up the coins it is given, and rejects immature ones. -/
theorem meets_addInputs :
    Stateful.Meets
      (fold (addInput env m height) ⟨0, false, fun _ => none⟩ tx.spends) coins
      (fun inputs coins' => Fetches m.client coins coins' ∧
        ∃ found, Funds m.client height coins tx found ∧ inputs = Inputs.ofCoins found)
      fun e coins' => Fetches m.client coins coins' ∧ ¬ IsFeeTooLow e := by
  -- The accumulator is what the coins found so far make.
  let I : Inputs → List OutPoint → CoinsViewCache → Prop := fun inputs rest coins' =>
    Fetches m.client coins coins' ∧ ∃ seen found, seen ++ rest = tx.spends ∧
      Supplies m.client coins seen found ∧
      (∀ p ∈ found, p.2.isCoinbase = true → 100 ≤ height - p.2.height) ∧
      inputs = Inputs.ofCoins found
  refine (Stateful.Meets.fold (I := I) ?_ ⟨.refl coins, [], [], rfl, .nil, by simp, rfl⟩).mono
    ?_ fun _ _ h => h
  · rintro inputs o rest coins1 ⟨h1, seen, found, hseen, hsupplies, hmature, rfl⟩
    refine .bind (meets_getInputCoin.mono (fun _ _ h => h) fun _ _ h =>
      ⟨h1.trans h.1, h.2.not_feeTooLow⟩) ?_
    rintro coin coins2 ⟨h2, hfinds⟩
    refine meets_lift (fun inputs' hinputs => ?_) fun e he => ⟨h1.trans h2, fun hlow => ?_⟩
    · simp only [bind_eq_ok, okOr_eq_ok, errIf_eq_ok] at hinputs
      obtain ⟨value, hvalue, _, himmature, hinputs⟩ := hinputs
      cases hinputs
      obtain ⟨_, rfl⟩ := checkedUnsigned_eq_some.mp hvalue
      refine ⟨h1.trans h2, seen ++ [o], found ++ [(o, coin)], by simp [← hseen],
        hsupplies.snoc (.of_fetches h1 hfinds), ?_, ?_⟩
      · intro p hp hcoinbase
        rcases List.mem_append.mp hp with hp | hp
        · exact hmature p hp hcoinbase
        · obtain rfl := List.mem_singleton.mp hp
          have himmature : decide (height - coin.height < 100) = false := by
            rwa [show coin.isCoinbase = true from hcoinbase, Bool.true_and] at himmature
          simpa using himmature
      · simp [Inputs.ofCoins, Inputs.add]
    · have hfails : Outcome.FailsWith IsFeeTooLow _ := ⟨e, he, hlow⟩
      refine not_failsWith_bind ?_ (fun _ => not_failsWith_bind ?_ fun _ =>
        not_failsWith_pure) hfails
      · simp [IsFeeTooLow]
      · simp [IsFeeTooLow]
  · rintro inputs coins' ⟨h, seen, found, hseen, hsupplies, hmature, rfl⟩
    rw [List.append_nil] at hseen
    exact ⟨h, found, ⟨hseen ▸ hsupplies, hmature⟩, rfl⟩

theorem not_failsWith_checkSigops {inputs : Inputs} :
    ¬ Outcome.FailsWith IsFeeTooLow (checkSigops env m tx height inputs) := by
  exact not_failsWith_bind (by simp [IsFeeTooLow]) fun _ =>
    not_failsWith_bind (by simp) fun _ =>
      not_failsWith_bind (by simp [IsFeeTooLow]) fun _ => not_failsWith_pure

theorem not_failsWith_addLock {locks : LockPoints} {sequence : Nat} {coin : PoolCoin} :
    ¬ Outcome.FailsWith IsFeeTooLow (addLock locks sequence coin) := by
  refine not_failsWith_bind (by simp [IsFeeTooLow]) fun _ => ?_
  split
  · exact not_failsWith_pure
  split
  · exact not_failsWith_bind (by simp [IsFeeTooLow]) fun _ => not_failsWith_pure
  · exact not_failsWith_bind (by simp [IsFeeTooLow]) fun _ =>
      not_failsWith_bind (by simp [IsFeeTooLow]) fun _ => not_failsWith_pure

/-- The lock points are those of the coins that the second loop over the inputs is given. -/
theorem meets_calculateLockPointsAtTip :
    Stateful.Meets (calculateLockPointsAtTip env m tx height mtp) coins
      (fun locks coins' => Fetches m.client coins coins' ∧
        Unlocked m.client height mtp coins tx locks)
      fun e coins' => Fetches m.client coins coins' ∧ ¬ IsFeeTooLow e := by
  let I : LockPoints → List TxIn → CoinsViewCache → Prop := fun locks rest coins' =>
    Fetches m.client coins coins' ∧ ∃ seen found, seen ++ rest = tx.input ∧
      Supplies m.client coins (seen.map TxIn.previousOutput) found ∧
      (seen.zip (found.map Prod.snd)).foldlM (fun locks p => addLock locks p.1.sequence p.2)
        ⟨-1, 0, none⟩ = .ok locks
  refine .bind (Stateful.Meets.fold (I := I) ?_ ⟨.refl coins, [], [], rfl, .nil, rfl⟩) ?_
  · rintro locks txin rest coins1 ⟨h1, seen, found, hseen, hsupplies, hlocks⟩
    refine .bind (meets_getInputCoin.mono (fun _ _ h => h) fun _ _ h =>
      ⟨h1.trans h.1, h.2.not_feeTooLow⟩) ?_
    rintro coin coins2 ⟨h2, hfinds⟩
    refine meets_lift (fun locks' hlocks' => ?_) fun e he =>
      ⟨h1.trans h2, fun hlow => not_failsWith_addLock ⟨e, he, hlow⟩⟩
    have hlen : seen.length = (found.map Prod.snd).length := by
      simpa using congrArg List.length hsupplies.outpoints.symm
    refine ⟨h1.trans h2, seen ++ [txin], found ++ [(txin.previousOutput, coin)],
      by simp [← hseen], ?_, ?_⟩
    · rw [List.map_append]
      exact hsupplies.snoc (.of_fetches h1 hfinds)
    · rw [List.map_append, List.zip_append hlen, List.foldlM_append, hlocks]
      show (addLock locks txin.sequence coin >>= fun locks => List.foldlM _ locks []) = _
      rw [hlocks']
      rfl
  · rintro locks coins1 ⟨h1, seen, found, hseen, hsupplies, hlocks⟩
    rw [List.append_nil] at hseen
    subst hseen
    refine meets_lift (fun locks' hlocks' => ?_) fun e he => ⟨h1, fun hlow => ?_⟩
    · simp only [bind_eq_ok, errIf_eq_ok] at hlocks'
      obtain ⟨_, hheight, _, htime, hlocks'⟩ := hlocks'
      cases hlocks'
      exact ⟨h1, ⟨found, hsupplies, hlocks⟩, by simpa using hheight, by simpa using htime⟩
    · have hfails : Outcome.FailsWith IsFeeTooLow _ := ⟨e, he, hlow⟩
      refine not_failsWith_bind ?_ (fun _ => not_failsWith_bind ?_ fun _ =>
        not_failsWith_pure) hfails
      · simp [IsFeeTooLow]
      · simp [IsFeeTooLow]

theorem meets_checkInputs {flags : Script.VerifyFlags} :
    Stateful.Meets (checkInputs env m tx flags) coins
      (fun _ coins' => Fetches m.client coins coins' ∧ ScriptsPass env m.client coins tx flags)
      fun _ coins' => Fetches m.client coins coins' := by
  let I : List (TxIn × Nat) → CoinsViewCache → Prop := fun rest coins' =>
    Fetches m.client coins coins' ∧ ∀ p ∈ tx.input.zipIdx, p ∉ rest →
      ∃ coin, Finds m.client coins p.1.previousOutput coin ∧
        env.verifyScript p.1.scriptSig coin.output.scriptPubkey p.1.witness flags.bits tx p.2
          coin.output.value = .ok ()
  refine (Stateful.Meets.forEach (I := I) ?_ ⟨.refl coins, fun p hp hn => absurd hp hn⟩).mono
    (fun _ _ h => ⟨h.1, fun p hp => h.2 p hp (List.not_mem_nil)⟩) fun _ _ h => h
  rintro ⟨txin, i⟩ rest coins1 ⟨h1, hscripts⟩
  refine .bind (meets_getInputCoin.mono (fun _ _ h => h) fun _ _ h => h1.trans h.1) ?_
  rintro coin coins2 ⟨h2, hfinds⟩
  refine meets_lift (fun _ hverify => ⟨h1.trans h2, fun p hp hn => ?_⟩)
    fun _ _ => h1.trans h2
  by_cases heq : p = (txin, i)
  · subst heq
    exact ⟨coin, .of_fetches h1 hfinds, mapErr_eq_ok.mp hverify⟩
  · exact hscripts p hp (by simpa [heq] using hn)

theorem meets_checkLimitsAndScripts :
    Stateful.Meets (checkLimitsAndScripts env build options m inner) st
      (fun _ st' => st'.ws = st.ws ∧ Fetches m.client st.coins st'.coins ∧
        checkPackageLimits build options m inner st.ws = .ok () ∧
        ScriptsPass env m.client st.coins st.ws.tx standardScriptVerifyFlags ∧
        ScriptsPass env m.client st.coins st.ws.tx mandatoryScriptVerifyFlags)
      fun _ st' => Fetches m.client st.coins st'.coins := by
  refine .get_bind (.lift_bind (fun _ hlimits => ?_) fun _ _ => .refl _)
  refine .bind ((meets_onCoins meets_checkInputs).mono (fun _ _ h => h) fun _ _ h => h.2) ?_
  rintro _ st1 ⟨hws1, h1, hstandard⟩
  refine (meets_onCoins meets_checkInputs).mono ?_ fun _ _ h => h1.trans h.2
  rintro _ st2 ⟨hws2, h2, hmandatory⟩
  exact ⟨hws2.trans hws1, h1.trans h2, hlimits, hstandard, hmandatory.of_fetches h1⟩

/-! ## The callers -/

/-- The checks that return, and those that end with a fee that is too low, have found the
transaction to be new and without conflicts. -/
theorem meets_preChecks :
    Stateful.Meets (preChecks env build options m inner height mtp) ⟨.new env tx, coins⟩
      (fun _ st' => Fetches m.client coins st'.coins ∧ Checked env inner tx st'.ws ∧
        checkTransaction env options inner tx = .ok () ∧
        Passes env build options m height mtp coins tx st'.ws)
      fun e st' => Fetches m.client coins st'.coins ∧
        (IsFeeTooLow e → Checked env inner tx st'.ws ∧
          checkTransaction env options inner tx = .ok () ∧
          Forgiven env build options m height coins tx st'.ws) := by
  refine .get_bind (.get_bind (.lift_bind (fun _ htx => ?_) fun e he =>
    ⟨.refl coins, fun hlow => absurd ⟨e, he, hlow⟩ not_failsWith_checkTransaction⟩))
  refine .bind (Q := fun _ st => st.coins = coins ∧ Checked env inner tx st.ws ∧
    ∃ conflicts, st.ws = { ValidationWorkspace.new env tx with conflicts := conflicts })
    ((meets_checkConflicts rfl).mono ?_ fun _ _ h =>
      ⟨h.2 ▸ .refl coins, fun hlow => absurd hlow h.1⟩) ?_
  · rintro _ st ⟨⟨conflicts, hws⟩, hcoins, hunspent⟩
    refine ⟨hcoins, ?_, conflicts, hws⟩
    rw [hws]
    exact ⟨rfl, rfl, rfl, rfl, checkTransaction_eq_ok htx, hunspent⟩
  rintro _ ⟨ws, _⟩ ⟨rfl, hchecked, hblank⟩
  -- Nothing below writes to the workspace before the end.
  refine .bind ((meets_onCoins meets_checkAvailable).mono (fun _ _ h => h) fun _ _ h =>
    ⟨h.2.1, fun hlow => absurd hlow h.2.2⟩) ?_
  rintro _ ⟨ws, coins2⟩ ⟨rfl, h2⟩
  refine .bind ((meets_onCoins meets_addInputs).mono (fun _ _ h => h) fun _ _ h =>
    ⟨h2.trans h.2.1, fun hlow => absurd hlow h.2.2⟩) ?_
  rintro _ ⟨ws, coins3⟩ ⟨rfl, h3, found, hfunds, rfl⟩
  have hfunds : Funds m.client height _ tx found := hfunds.of_fetches h2
  have hvsize : checkFee build options tx (ValidationWorkspace.new env tx).vsize =
      checkFee build options tx ws.vsize := by
    rw [hchecked.vsize]
    rfl
  refine .lift_bind (fun baseFee hfee => ?_) fun e he => ⟨h2.trans h3, fun hlow =>
    ⟨hchecked, htx, ⟨found, hfunds, e, (congrFun hvsize _).symm.trans he, hlow⟩, hblank⟩⟩
  refine .lift_bind (fun sigopCost hsigops => ?_) fun e he =>
    ⟨h2.trans h3, fun hlow => absurd ⟨e, he, hlow⟩ not_failsWith_checkSigops⟩
  refine .bind ((meets_onCoins meets_calculateLockPointsAtTip).mono (fun _ _ h => h) fun _ _ h =>
    ⟨(h2.trans h3).trans h.2.1, fun hlow => absurd hlow h.2.2⟩) ?_
  rintro lockPoints ⟨ws, coins4⟩ ⟨rfl, h4, hlocks⟩
  refine meets_modify ⟨(h2.trans h3).trans h4, ⟨hchecked.tx_eq, hchecked.txWeight,
    hchecked.vsize, hchecked.conflictSet, hchecked.fresh, hchecked.unspent⟩, htx, ?_⟩
  exact ⟨⟨found, hfunds, (congrFun hvsize _).symm.trans hfee, hsigops, rfl⟩, rfl,
    hlocks.of_fetches (h2.trans h3)⟩

theorem meets_checkSingle :
    Stateful.Meets (MemPool.checkSingle env build options m inner height mtp)
      ⟨.new env tx, coins⟩
      (fun ws st' => Fetches m.client coins st'.coins ∧
        Vetted env build options m height mtp inner coins tx ws ∧
        Passes env build options m height mtp coins tx ws)
      fun _ st' => Fetches m.client coins st'.coins := by
  refine .bind (meets_preChecks.mono (fun _ _ h => h) fun _ _ h => h.1) ?_
  rintro _ st1 ⟨h1, hchecked, htx, hpasses⟩
  refine .bind (meets_checkLimitsAndScripts.mono (fun _ _ h => h) fun _ _ h => h1.trans h) ?_
  rintro _ ⟨ws, coins2⟩ ⟨rfl, h2, hlimits, hstandard, hmandatory⟩
  rw [hchecked.tx_eq] at hstandard hmandatory
  exact .get_bind (meets_pure ⟨h1.trans h2, ⟨⟨hchecked, hlimits⟩, htx, Or.inl hpasses,
    hstandard.of_fetches h1, hmandatory.of_fetches h1⟩, hpasses⟩)

/-- A fee that is too low is forgiven when the package pays for it. -/
theorem meets_preValidatePackageTx {rate : FeeRate} :
    Stateful.Meets (preValidatePackageTx env build options m inner height mtp rate)
      ⟨.new env tx, coins⟩
      (fun ws st' => Fetches m.client coins st'.coins ∧
        Vetted env build options m height mtp inner coins tx ws)
      fun _ st' => Fetches m.client coins st'.coins := by
  refine .bind (Q := fun _ st => Fetches m.client coins st.coins ∧ Checked env inner tx st.ws ∧
      checkTransaction env options inner tx = .ok () ∧
      (Passes env build options m height mtp coins tx st.ws ∨
        Forgiven env build options m height coins tx st.ws))
    (.rescue (meets_preChecks.mono (fun _ _ h => ⟨h.1, h.2.1, h.2.2.1, Or.inl h.2.2.2⟩)
      fun _ _ h => h) ?_) ?_
  · rintro e st ⟨h, he⟩
    split
    · -- the fee is forgiven: the workspace is the one the failed checks left
      split
      · obtain ⟨hchecked, htx, hforgiven⟩ := he ⟨_, _, rfl⟩
        exact meets_pure ⟨h, hchecked, htx, Or.inr hforgiven⟩
      · exact meets_fail h
    · exact meets_fail h
  rintro _ st1 ⟨h1, hchecked, htx, hprechecks⟩
  refine .bind (meets_checkLimitsAndScripts.mono (fun _ _ h => h) fun _ _ h => h1.trans h) ?_
  rintro _ ⟨ws, coins2⟩ ⟨rfl, h2, hlimits, hstandard, hmandatory⟩
  rw [hchecked.tx_eq] at hstandard hmandatory
  exact .get_bind (meets_pure ⟨h1.trans h2, ⟨⟨hchecked, hlimits⟩, htx, hprechecks,
    hstandard.of_fetches h1, hmandatory.of_fetches h1⟩⟩)

end Subcoin.Mempool
