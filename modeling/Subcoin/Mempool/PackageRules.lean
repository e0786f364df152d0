import Subcoin.Mempool.Overlay

/-!
# Subcoin — the rules for the members of a package

A member of a package may pay less than the minimum fee if the package as a whole pays enough. Its
checks then have ended at the fee: what comes after it in `pre_checks` was not checked, and the
workspace has none of the values that the checks compute. Coinbase maturity comes before the fee,
and the scripts are checked in any case.

* **`Vetting.view_eq`** — the coins that the checks of a member find: outputs of other members, of
  the overlay, or of the chain.
* **`rules_iff_paysMinimum`** — the rules hold of an accepted member and its record is right if and
  only if it pays the minimum itself.
-/

namespace Subcoin.Mempool

open Outcome

variable {SE : Type} {env : PoolEnv SE} {build : Build} {options : MemPoolOptions} {m : Moment}
  {p p' : MemPool} {tx : Transaction} {txs : List Transaction} {ws : ValidationWorkspace}
  {wss : List ValidationWorkspace} {chain : H256 → Option Pallet.State} {o : OutPoint}
  {coin : PoolCoin} {found : List (OutPoint × PoolCoin)}

/-! ## The coins of a transaction -/

/-- The coin at an outpoint for a transaction that comes with others. -/
def viewWith (chain : H256 → Option Pallet.State) (env : PoolEnv SE) (p : MemPool)
    (others : List Transaction) (o : OutPoint) : Option PoolCoin :=
  match others.findSome? fun t => outputAt env t o with
  | some out => some (mempoolCoin out)
  | none => coinIn chain p.coinsCache o

/-- The members of a package other than a transaction. -/
def othersOf (env : PoolEnv SE) (txs : List Transaction) (tx : Transaction) : List Transaction :=
  txs.filter fun t => env.computeTxid t ≠ env.computeTxid tx

/-- The coins of the inputs, in order. -/
def coinsOf (view : OutPoint → Option PoolCoin) (tx : Transaction) :
    Option (List (OutPoint × PoolCoin)) :=
  tx.spends.mapM fun o => (view o).map fun coin => (o, coin)

theorem coinsOf_eq {view : OutPoint → Option PoolCoin} (houtpoints : found.map Prod.fst = tx.spends)
    (hview : ∀ q ∈ found, view q.1 = some q.2) : coinsOf view tx = some found := by
  rw [coinsOf, ← houtpoints]
  clear houtpoints
  induction found with
  | nil => rfl
  | cons q found ih =>
    obtain ⟨hq, hfound⟩ := List.forall_mem_cons.mp hview
    rw [List.map_cons, List.mapM_cons, ih hfound, hq]
    rfl

/-- What the checks of a member find of a coin. The members that it spends come before it. -/
theorem Vetting.view_eq {before after : List ValidationWorkspace} {coins2 coins' : CoinsViewCache}
    (hvetting : Vetting env build options m p txs wss coins')
    (hcomplete : ∀ tx ∈ txs, ∃ ws ∈ wss, ws.tx = tx) (hserves : Serves chain m.client)
    (hsound : CacheSound chain p.coinsCache) (hsplit : wss = before ++ ws :: after)
    (hbefore : VetsAll env build options m m.client.bestNumber
      (MemPool.mtpAt env m p.coinsCache.bestBlock) p.inner p.coinsCache before coins2)
    (ho : o ∈ ws.tx.spends) (hfinds : Finds m.client coins2 o coin) :
    viewWith chain env p (othersOf env txs ws.tx) o = some coin := by
  have hordered : ∀ ws' ∈ after, ¬ Names env ws.tx ws'.tx := by
    have hpairwise := hvetting.ordered
    rw [hsplit, List.pairwise_append, List.pairwise_cons] at hpairwise
    exact hpairwise.2.1.1
  have hnodup : (before.map fun ws => env.computeTxid ws.tx).Nodup ∧
      ∀ ws' ∈ before, env.computeTxid ws'.tx ≠ env.computeTxid ws.tx := by
    have hall := hvetting.nodup
    rw [hsplit, List.map_append, List.map_cons, List.nodup_append] at hall
    refine ⟨hall.1, fun ws' hws' => ?_⟩
    exact hall.2.2 _ (List.mem_map_of_mem hws') _ List.mem_cons_self
  have hcoin : coinIn chain coins2 o = some coin :=
    (hsound.vets hserves hbefore).coinIn_eq hserves hfinds
  unfold viewWith
  split
  · -- another member has an output there: it comes before, and its output is in the overlay
    rename_i out hsome
    obtain ⟨t, ht, hout⟩ := List.exists_of_findSome?_eq_some hsome
    obtain ⟨ht, hne⟩ := List.mem_filter.mp ht
    obtain ⟨ws', hws', rfl⟩ := hcomplete t ht
    have hmem : ws' ∈ before := by
      rw [hsplit, List.mem_append, List.mem_cons] at hws'
      rcases hws' with hws' | rfl | hws'
      · exact hws'
      · simp at hne
      · exact absurd ⟨o, ho, txid_of_outputAt hout⟩ (hordered ws' hws')
    have hoverlay : coins2.mempoolOverlay o = some (mempoolCoin out) :=
      (hbefore.overlay_eq_some hnodup.1).mpr (Or.inl ⟨ws', hmem, out, hout, rfl⟩)
    rw [coinIn, hoverlay, Option.some_or] at hcoin
    exact hcoin
  · -- no other member has: the overlay is as it was before the package
    rename_i hnone
    rw [List.findSome?_eq_none_iff] at hnone
    have hcreates : ¬ ∃ ws' ∈ before, (outputAt env ws'.tx o).isSome = true := by
      rintro ⟨ws', hws', hsome⟩
      have hmem : ws'.tx ∈ othersOf env txs ws.tx := by
        refine List.mem_filter.mpr ⟨hvetting.mem ws' ?_, by simpa using hnodup.2 ws' hws'⟩
        rw [hsplit]
        exact List.mem_append_left _ hws'
      rw [hnone _ hmem] at hsome
      cases hsome
    have hoverlay : coins2.mempoolOverlay o = p.coinsCache.mempoolOverlay o := by
      refine Option.ext fun c => (hbefore.overlay_eq_some hnodup.1).trans ?_
      constructor
      · rintro (⟨ws', hws', out, hout, _⟩ | ⟨_, h⟩)
        · exact absurd ⟨ws', hws', by rw [hout]; rfl⟩ hcreates
        · exact h
      · refine fun h => Or.inr ⟨?_, h⟩
        rintro ⟨t, ht, hsome⟩
        obtain ⟨ws', hws', rfl⟩ := List.mem_map.mp ht
        exact hcreates ⟨ws', hws', hsome⟩
    rw [coinIn, hoverlay, hbefore.bestBlock] at hcoin
    exact hcoin

/-! ## The rules -/

def ScriptsHold (env : PoolEnv SE) (view : OutPoint → Option PoolCoin) (tx : Transaction)
    (flags : Script.VerifyFlags) : Prop :=
  ∀ q ∈ tx.input.zipIdx, ∃ coin, view q.1.previousOutput = some coin ∧
    env.verifyScript q.1.scriptSig coin.output.scriptPubkey q.1.witness flags.bits tx q.2
      coin.output.value = .ok ()

/-- The rules of `accept_single_transaction` apart from the one on the fee, for a transaction that
spends these coins. -/
structure NonFeeRules (env : PoolEnv SE) (m : Moment) (height : Nat) (mtp : Int)
    (view : OutPoint → Option PoolCoin) (tx : Transaction) (found : List (OutPoint × PoolCoin)) :
    Prop where
  mature : ∀ q ∈ found, q.2.isCoinbase = true → 100 ≤ height - q.2.height
  final : isFinalTx tx height (m.now % 2 ^ 32) = true
  sigops : (env.totalSigopCost tx (Inputs.ofCoins found).prevOutputs : Int) ≤
    maxStandardTxSigopsCost
  locks : ∃ locks, lockPointsOf tx found = .ok locks ∧
    (0 < locks.height → locks.height ≤ toSigned 32 height) ∧ (0 < locks.time → locks.time ≤ mtp)
  standard : ScriptsHold env view tx standardScriptVerifyFlags
  mandatory : ScriptsHold env view tx mandatoryScriptVerifyFlags

/-- The entry records what is true of its transaction. -/
structure RecordsTruth (env : PoolEnv SE) (tx : Transaction) (found : List (OutPoint × PoolCoin))
    (e : TxMemPoolEntry) : Prop where
  fee : e.fee + tx.outputValue = (found.map fun q => q.2.output.value).sum
  sigopCost : e.sigopCost = env.totalSigopCost tx (Inputs.ofCoins found).prevOutputs
  spendsCoinbase : e.spendsCoinbase = found.any fun q => q.2.isCoinbase
  lockPoints : lockPointsOf tx found = .ok e.lockPoints

/-- The entry of a transaction that came in with others: the rules hold, and it is recorded
truly. -/
def RulesHold (chain : H256 → Option Pallet.State) (env : PoolEnv SE) (m : Moment) (p : MemPool)
    (others : List Transaction) (tx : Transaction) (p' : MemPool) : Prop :=
  ∃ found k e, coinsOf (viewWith chain env p others) tx = some found ∧
    p'.inner.get k = some e ∧ e.tx = tx ∧
    NonFeeRules env m m.client.bestNumber (MemPool.mtpAt env m p.coinsCache.bestBlock)
      (viewWith chain env p others) tx found ∧
    RecordsTruth env tx found e

/-- The transaction pays the minimum fee for its size. -/
def PaysMinimum (chain : H256 → Option Pallet.State) (env : PoolEnv SE) (options : MemPoolOptions)
    (p : MemPool) (others : List Transaction) (tx : Transaction) : Prop :=
  ∃ found minFee, coinsOf (viewWith chain env p others) tx = some found ∧
    options.minRelayFeeRate.getFee (toSigned 64 (toVbytesCeil (env.txWeight tx))) =
      (.ok minFee : Outcome MempoolError Nat) ∧
    minFee + tx.outputValue ≤ (found.map fun q => q.2.output.value).sum

/-! ## What the checks have computed -/

theorem sumOutputs_eq {ε : Type} {outs : List TxOut}
    (hsum : (outs.map TxOut.value).sum < 2 ^ 64) :
    sumOutputs build outs = (.ok (outs.map TxOut.value).sum : Outcome ε Nat) := by
  have hfold : ∀ {acc : Nat} {l : List TxOut}, acc + (l.map TxOut.value).sum < 2 ^ 64 →
      l.foldlM (fun acc txout => build.add 64 acc txout.value) acc =
        (.ok (acc + (l.map TxOut.value).sum) : Outcome ε Nat) := by
    intro acc l hlt
    induction l generalizing acc with
    | nil => rfl
    | cons out l ih =>
      rw [List.map_cons, List.sum_cons, ← Nat.add_assoc] at hlt ⊢
      rw [List.foldlM_cons, Build.add_of_lt (by omega), ok_bind, ih hlt]
  rw [sumOutputs, hfold (by omega), Nat.zero_add]

/-- The outputs of a transaction that passes the checks do not overflow. -/
theorem sumOutputs_of_checked {inner : MemPoolInner}
    (h : checkTransaction env options inner tx = .ok ()) :
    sumOutputs build tx.output = (.ok tx.outputValue : Outcome MempoolError Nat) := by
  simp only [checkTransaction, bind_eq_ok, mapErr_eq_ok] at h
  obtain ⟨_, hsane, _⟩ := h
  have hle : tx.outputValue ≤ maxMoney := (checkTransactionSanity_eq_ok.mp hsane).output_value_le
  refine sumOutputs_eq (Nat.lt_of_le_of_lt hle ?_)
  decide

theorem failsWith_checkFee {vsize : Int} {inputValue : Nat}
    (h : Outcome.FailsWith IsFeeTooLow (checkFee build options tx vsize inputValue)) :
    ∃ out minFee, sumOutputs build tx.output = (.ok out : Outcome MempoolError Nat) ∧
      options.minRelayFeeRate.getFee vsize = (.ok minFee : Outcome MempoolError Nat) ∧
      inputValue - out < minFee := by
  unfold checkFee at h
  have hsum : ¬ Outcome.FailsWith IsFeeTooLow (sumOutputs build tx.output) :=
    not_failsWith_foldlM (by simp) _ _
  rw [failsWith_bind_of_not hsum] at h
  obtain ⟨out, hout, h⟩ := h
  rw [failsWith_bind_of_not (by simp [IsFeeTooLow])] at h
  obtain ⟨_, _, h⟩ := h
  rw [failsWith_bind_of_not not_failsWith_getFee] at h
  obtain ⟨minFee, hmin, h⟩ := h
  split at h
  · rename_i hlow
    exact ⟨out, minFee, hout, hmin, hlow⟩
  · exact absurd h not_failsWith_pure

theorem Inputs.ofCoins_spendsCoinbase :
    (Inputs.ofCoins found).spendsCoinbase = found.any fun q => q.2.isCoinbase := by
  have hfold : ∀ acc : Inputs, (found.foldl Inputs.add acc).spendsCoinbase =
      (acc.spendsCoinbase || found.any fun q => q.2.isCoinbase) := by
    induction found with
    | nil => simp
    | cons q found ih =>
      intro acc
      rw [List.foldl_cons, ih, List.any_cons, ← Bool.or_assoc]
      rfl
  rw [Inputs.ofCoins, hfold, Bool.false_or]

theorem checkSigops_eq_ok {height : Nat} {inputs : Inputs} {sigopCost : Int}
    (h : checkSigops env m tx height inputs = .ok sigopCost) :
    isFinalTx tx height (m.now % 2 ^ 32) = true ∧
      sigopCost = env.totalSigopCost tx inputs.prevOutputs ∧
      sigopCost ≤ maxStandardTxSigopsCost := by
  simp only [checkSigops, bind_eq_ok, errIf_eq_ok] at h
  obtain ⟨_, hfinal, _, _, _, hsigops, h⟩ := h
  cases h
  exact ⟨by simpa using hfinal, rfl, by simpa using hsigops⟩

/-- A computed lock height is not the one of a blank workspace. -/
theorem height_ne_zero_of_lockPointsOf {locks : LockPoints}
    (h : lockPointsOf tx found = .ok locks) : locks.height ≠ 0 := by
  have hstep : ∀ {locks : LockPoints} {q : TxIn × PoolCoin} {locks' : LockPoints},
      locks.height ≠ 0 → addLock locks q.1.sequence q.2 = .ok locks' → locks'.height ≠ 0 := by
    intro locks q locks' hne h
    simp only [addLock, bind_eq_ok] at h
    obtain ⟨_, _, h⟩ := h
    split at h
    · cases h
      exact hne
    split at h
    · simp only [bind_eq_ok, okOr_eq_ok, Option.bind_eq_some_iff,
        checkedUnsigned_eq_some] at h
      obtain ⟨lockHeight, ⟨_, _, hlt, heq⟩, h⟩ := h
      obtain rfl := Outcome.ok.inj h
      -- a height of at least one, which fits into 32 bits, is not cast to zero
      have hcast : toSigned 32 lockHeight ≠ 0 := toSigned_ne_zero (by omega) (heq ▸ hlt)
      show max locks.height (toSigned 32 lockHeight) ≠ 0
      omega
    · simp only [bind_eq_ok] at h
      obtain ⟨_, _, _, _, h⟩ := h
      cases h
      exact hne
  exact foldlM_invariant (I := fun locks => locks.height ≠ 0) (fun _ => hstep) (by decide) h

section

variable {view : OutPoint → Option PoolCoin} {coins : CoinsViewCache} {height : Nat} {mtp : Int}
  (hview : ∀ {o coin}, o ∈ tx.spends → Finds m.client coins o coin → view o = some coin)
include hview

theorem coinsOf_of_supplies (h : Supplies m.client coins tx.spends found) :
    coinsOf view tx = some found := by
  refine coinsOf_eq h.outpoints fun q hq => hview ?_ (h.finds q hq)
  rw [← h.outpoints]
  exact List.mem_map_of_mem hq

theorem ScriptsPass.hold {flags : Script.VerifyFlags}
    (h : ScriptsPass env m.client coins tx flags) : ScriptsHold env view tx flags := by
  intro q hq
  obtain ⟨coin, hfinds, hverify⟩ := h q hq
  refine ⟨coin, hview ?_ hfinds, hverify⟩
  exact List.mem_map_of_mem (List.fst_mem_of_mem_zipIdx hq)

/-- A transaction that passes keeps to the rules, and its workspace has what is true of it. -/
theorem Passes.rules (hpasses : Passes env build options m height mtp coins tx ws)
    (hstandard : ScriptsPass env m.client coins tx standardScriptVerifyFlags)
    (hmandatory : ScriptsPass env m.client coins tx mandatoryScriptVerifyFlags) :
    ∃ found, coinsOf view tx = some found ∧ NonFeeRules env m height mtp view tx found ∧
      checkFee build options tx ws.vsize (found.map fun q => q.2.output.value).sum =
        .ok ws.baseFee ∧
      ws.sigopCost = env.totalSigopCost tx (Inputs.ofCoins found).prevOutputs ∧
      ws.spendsCoinbase = (found.any fun q => q.2.isCoinbase) ∧
      lockPointsOf tx found = .ok ws.lockPoints := by
  obtain ⟨found, hfunds, hfee, hsigops, hspends⟩ := hpasses.fee
  have hcoins : coinsOf view tx = some found := coinsOf_of_supplies hview hfunds.toSupplies
  obtain ⟨found2, hsupplies2, hpoints⟩ := hpasses.locks.points
  obtain rfl : found = found2 :=
    Option.some.inj (hcoins.symm.trans (coinsOf_of_supplies hview hsupplies2))
  obtain ⟨hfinal, hcost, hlimit⟩ := checkSigops_eq_ok hsigops
  rw [Inputs.ofCoins_value] at hfee
  rw [Inputs.ofCoins_spendsCoinbase] at hspends
  refine ⟨found, hcoins, ⟨hfunds.mature, hfinal, hcost ▸ hlimit, ?_, hstandard.hold hview,
    hmandatory.hold hview⟩, hfee, hcost, hspends, hpoints⟩
  exact ⟨ws.lockPoints, hpoints, hpasses.locks.height, hpasses.locks.time⟩

/-- The fee of a transaction that was forgiven is below the minimum. -/
theorem Forgiven.not_pays (hforgiven : Forgiven env build options m height coins tx ws)
    (hout : sumOutputs build tx.output = (.ok tx.outputValue : Outcome MempoolError Nat))
    {minFee : Nat} (hcoins : coinsOf view tx = some found)
    (hmin : options.minRelayFeeRate.getFee ws.vsize = (.ok minFee : Outcome MempoolError Nat)) :
    (found.map fun q => q.2.output.value).sum - tx.outputValue < minFee := by
  obtain ⟨found', hfunds, hcheck⟩ := hforgiven.fee
  obtain rfl : found' = found :=
    Option.some.inj ((coinsOf_of_supplies hview hfunds.toSupplies).symm.trans hcoins)
  obtain ⟨out, minFee', hout', hmin', hlow⟩ := failsWith_checkFee hcheck
  obtain rfl : tx.outputValue = out := Outcome.ok.inj (hout.symm.trans hout')
  obtain rfl : minFee' = minFee := Outcome.ok.inj (hmin'.symm.trans hmin)
  rwa [Inputs.ofCoins_value] at hlow

end

/-! ## The members of an accepted package -/

/-- The entry of a member holds what its workspace held. -/
theorem entry_of_admits (hp' : ByTxid env p'.inner)
    (hadmits : Admits env build options m p txs wss p') (hws : ws ∈ wss) :
    ∃ k e, p'.inner.get k = some e ∧ e.tx = ws.tx ∧ e.fee = ws.baseFee ∧
      e.sigopCost = ws.sigopCost ∧ e.spendsCoinbase = ws.spendsCoinbase ∧
      e.lockPoints = ws.lockPoints ∧
      ∀ {k' e'}, p'.inner.get k' = some e' → e'.tx = ws.tx → e' = e := by
  obtain ⟨k, e, ctx, he, hrecord⟩ := record_insertsAll hadmits.inserts ws hws
  have htx : e.tx = ws.tx := congrArg TxMemPoolEntry.tx hrecord
  refine ⟨k, e, he, htx, congrArg TxMemPoolEntry.fee hrecord,
    congrArg TxMemPoolEntry.sigopCost hrecord, congrArg TxMemPoolEntry.spendsCoinbase hrecord,
    congrArg TxMemPoolEntry.lockPoints hrecord, fun {k' e'} he' htx' => ?_⟩
  obtain rfl := hp'.unique he he' (by rw [htx, htx'])
  exact Option.some.inj (he'.symm.trans he)

/-- The rules hold of an accepted member and it is recorded truly, if and only if it pays the
minimum fee itself. -/
theorem rules_iff_paysMinimum
    (hp : Reachable env build options (fun m _ _ => Serves chain m.client) p)
    (hserves : Serves chain m.client) {result : PackageValidationResult}
    (hok : MemPool.acceptPackage env build options m txs p = .ok (result, p')) (htx : tx ∈ txs) :
    RulesHold chain env m p (othersOf env txs tx) tx p' ↔
      PaysMinimum chain env options p (othersOf env txs tx) tx := by
  have hsound : CacheSound chain p.coinsCache := cacheSound_reachable (fun h => h) hp
  obtain ⟨wss, hadmits⟩ := meets_acceptPackage.ok hok
  have hp' : ByTxid env p'.inner := (byTxid_reachable hp).accepted hadmits.accepted
  obtain ⟨ws, hws, rfl⟩ := hadmits.complete tx htx
  obtain ⟨before, after, coins2, hsplit, hbefore, hvetted⟩ := hadmits.vetting.vets.vetted hws
  obtain ⟨k, e, he, hetx, hfee, hsigopCost, hcoinbase, hlockPoints, hunique⟩ :=
    entry_of_admits hp' hadmits hws
  have hview : ∀ {o coin}, o ∈ ws.tx.spends → Finds m.client coins2 o coin →
      viewWith chain env p (othersOf env txs ws.tx) o = some coin :=
    hadmits.vetting.view_eq hadmits.complete hserves hsound hsplit hbefore
  have hout : sumOutputs build ws.tx.output = (.ok ws.tx.outputValue : Outcome MempoolError Nat) :=
    sumOutputs_of_checked hvetted.transaction
  rcases hvetted.prechecks with hpasses | hforgiven
  · obtain ⟨found, hcoins, hrules, hcheck, hcost, hspends, hpoints⟩ :=
      hpasses.rules hview hvetted.standard hvetted.mandatory
    obtain ⟨out, minFee, hout', hle, hbase, hmin, hpays⟩ := checkFee_eq_ok hcheck
    obtain rfl : ws.tx.outputValue = out := Outcome.ok.inj (hout.symm.trans hout')
    refine iff_of_true ⟨found, k, e, hcoins, he, hetx, hrules, ?_⟩
      ⟨found, minFee, hcoins, hvetted.vsize ▸ hmin, by omega⟩
    exact ⟨by omega, hsigopCost.trans hcost, hcoinbase.trans hspends, hlockPoints ▸ hpoints⟩
  · refine iff_of_false ?_ ?_
    · -- the lock points of the entry are still those of a blank workspace
      rintro ⟨_, k', e', _, he', hetx', _, hrecords⟩
      obtain rfl := hunique he' hetx'
      obtain ⟨conflicts, hblank⟩ := hforgiven.blank
      refine height_ne_zero_of_lockPointsOf hrecords.lockPoints ?_
      rw [hlockPoints, hblank]
      rfl
    · rintro ⟨found, minFee, hcoins, hmin, hpays⟩
      have hlow := hforgiven.not_pays hview hout hcoins (hvetted.vsize ▸ hmin)
      omega

/-! ## Samples -/

namespace Reference

/-- `PaysMinimum`, evaluated for a member of a package that comes first. -/
def paysMinimum (txs : List Transaction) (tx : Transaction) : Bool :=
  (coinsOf (viewWith Reference.states Reference.env (.new client)
      (othersOf Reference.env txs tx)) tx).any fun found =>
    match (MemPoolOptions.default.minRelayFeeRate.getFee
      (toSigned 64 (toVbytesCeil (Reference.env.txWeight tx))) : Outcome MempoolError Nat) with
    | .ok minFee => decide (minFee + tx.outputValue ≤ (found.map fun q => q.2.output.value).sum)
    | _ => false

theorem paysMinimum_of_eq_true (h : paysMinimum txs tx = true) :
    PaysMinimum Reference.states Reference.env .default (.new client)
      (othersOf Reference.env txs tx) tx := by
  rw [paysMinimum, Option.any_eq_true] at h
  obtain ⟨found, hfound, h⟩ := h
  split at h
  · rename_i minFee hmin
    exact ⟨found, minFee, hfound, hmin, of_decide_eq_true h⟩
  · cases h

/-- A parent and its child that both pay. -/
theorem rules_of_paying_package :
    ∃ result p', MemPool.acceptPackage Reference.env .checked .default moment [child, parent]
        (.new client) = .ok (result, p') ∧
      RulesHold Reference.states Reference.env moment (.new client)
        (othersOf Reference.env [child, parent] parent) parent p' := by
  have hok : (MemPool.acceptPackage Reference.env .checked .default moment [child, parent]
      (.new client)).isOk = true := by decide +kernel
  obtain ⟨⟨result, p'⟩, hok⟩ := isOk_eq_true.mp hok
  have hpays : paysMinimum [child, parent] parent = true := by decide +kernel
  refine ⟨result, p', hok, ?_⟩
  exact (rules_iff_paysMinimum (.new client) serves_client hok (by simp)).mpr
    (paysMinimum_of_eq_true hpays)

/-- A transaction that waits for a height, and pays no fee. -/
def lockedParent : Transaction :=
  { spendOf (coinAt 0) 100000 with
    lockTime := .blocks 1000 (by decide)
    input := [{ Subcoin.Reference.input (coinAt 0) unlockScript with sequence := 0xfffffffe }] }

/-- A child that pays for both. -/
def payingChild : Transaction := spendOf (outputOf lockedParent) 50000

/-- A package gets the parent in a thousand blocks too early. -/
theorem not_rules_of_locked_package :
    ∃ result p', MemPool.acceptPackage Reference.env .checked .default moment
        [lockedParent, payingChild] (.new client) = .ok (result, p') ∧
      ¬ RulesHold Reference.states Reference.env moment (.new client)
        (othersOf Reference.env [lockedParent, payingChild] lockedParent) lockedParent p' := by
  have hok : (MemPool.acceptPackage Reference.env .checked .default moment
      [lockedParent, payingChild] (.new client)).isOk = true := by decide +kernel
  obtain ⟨⟨result, p'⟩, hok⟩ := isOk_eq_true.mp hok
  have hlocked : isFinalTx lockedParent moment.client.bestNumber (moment.now % 2 ^ 32) = false := by
    decide +kernel
  refine ⟨result, p', hok, ?_⟩
  rintro ⟨_, _, _, _, _, _, hrules, _⟩
  rw [hrules.final] at hlocked
  cases hlocked

end Reference

end Subcoin.Mempool
