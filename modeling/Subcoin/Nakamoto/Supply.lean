import Subcoin.Nakamoto.Ledger
import Subcoin.Nakamoto.Reference

/-!
# Subcoin — no inflation

A chain is built block by block: each block is fully verified against the state its predecessor
left and then executed. The account of a block (`Nakamoto/Ledger`) shows that a block adds at most
its subsidy to the supply, so over the whole chain the supply stays below the sum of the subsidies,
which stays below 21 million coins whatever the length of the chain.
-/

namespace Subcoin

open Pallet (State executeBlock coinAfter)

variable {SE : Type}

/-! ## One block -/

theorem supply_eq_sum {S : State} {l : List OutPoint} (h : l.Nodup)
    (hall : ∀ o, (S.coin o).isSome = true → o ∈ l) :
    supply S = (l.map fun o => amountOf (S.coin o)).sum := by
  have hkeys : S.coins.keys ⊆
      l.toFinset.map ⟨Runtime.OutPoint.ofBitcoin, Runtime.OutPoint.ofBitcoin_injective⟩ := by
    intro k hk
    refine Finset.mem_map.mpr ⟨k.toBitcoin, ?_, Runtime.OutPoint.ofBitcoin_toBitcoin k⟩
    refine List.mem_toFinset.mpr (hall _ ?_)
    rw [State.coin, Runtime.OutPoint.ofBitcoin_toBitcoin, Finmap.lookup_isSome]
    exact Finmap.mem_keys.mp hk
  rw [supply, Finmap.total_eq_sum hkeys, Finset.sum_map, List.sum_toFinset _ h]
  rfl

/-- When everything left is a state of its own, its supply and the charges are covered by the old
supply and the outputs. -/
theorem Ledger.settle {env : Env SE} {S S' : State} {txs : List Transaction}
    {spent : List OutPoint} {paid : Nat} (h : Ledger env S txs spent paid S'.coin) :
    supply S' + paid ≤ supply S + outputTotal txs := by
  obtain ⟨hnodup, charge, _, rfl, hcover⟩ := h
  -- all outpoints that hold a coin or were charged
  let l := (S'.coins.keys.image Runtime.OutPoint.toBitcoin ∪ spent.toFinset).toList
  have hl : l.Nodup := Finset.nodup_toList _
  have hall : ∀ o, (S'.coin o).isSome = true → o ∈ l := by
    intro o ho
    rw [State.coin, Finmap.lookup_isSome] at ho
    refine Finset.mem_toList.mpr (Finset.mem_union_left _ (Finset.mem_image.mpr ?_))
    exact ⟨_, Finmap.mem_keys.mpr ho, Runtime.OutPoint.toBitcoin_ofBitcoin o⟩
  have hcharge : (spent.map charge).sum ≤ (l.map charge).sum := by
    rw [← List.sum_toFinset _ hnodup, ← List.sum_toFinset _ hl, Finset.toList_toFinset]
    exact Finset.sum_le_sum_of_subset Finset.subset_union_right
  have hsum : (l.map fun o => amountOf (S'.coin o) + charge o).sum =
      (l.map fun o => amountOf (S'.coin o)).sum + (l.map charge).sum := List.sum_map_add
  have hle : (l.map fun o => amountOf (S'.coin o) + charge o).sum ≤
      supply S + outputTotal txs := sum_charge_le hl hcover
  rw [supply_eq_sum hl hall]
  omega

/-! ## Chains -/

/-- `Chain nenv n S`: some chain of `n` blocks, each fully verified against the state left by the
one before and executed, ends in the state `S`. The verifiers may differ in script engine, network
and build, and their clocks and clients are arbitrary. -/
inductive Chain (nenv : NodeEnv SE) : Nat → State → Prop
  | genesis : Chain nenv 0 State.empty
  | block {n : Nat} {S S' : State} (v : BlockVerifier) (build : Build) (c : Client) (now : Nat)
      (block : Block) (hchain : Chain nenv n S) (hfull : v.blockVerification = .full)
      (hview : utxoView build c (n + 1) = S.coin)
      (hok : verifyBlock nenv v build c now (n + 1) block = .ok ())
      (hrun : executeBlock nenv.toEnv (n + 1) block.txdata S = .ok S') : Chain nenv (n + 1) S'

/-- The invariant of a chain: its coins are from its own blocks, and the supply is within the
subsidies. -/
structure ChainInvariant (n : Nat) (S : State) : Prop where
  height_le : ∀ {o c}, S.coin o = some c → c.height ≤ n
  supply_le : supply S ≤ ∑ h ∈ Finset.Icc 1 n, bitcoinBlockSubsidy h

theorem chainInvariant_genesis : ChainInvariant 0 State.empty :=
  ⟨by simp [State.coin, State.empty], by simp [supply, State.empty]⟩

variable {nenv : NodeEnv SE} {v : BlockVerifier} {build : Build} {c : Client} {now n : Nat}
  {block : Block} {S S' : State}

theorem solvent_of_chainInvariant (hinv : ChainInvariant n S)
    (hview : utxoView build c (n + 1) = S.coin) (hsane : SaneBlock nenv.toEnv block)
    (cutoff : Nat) :
    TxsContext.Solvent nenv.toEnv (txsContext nenv v build c (n + 1) block cutoff) S where
  txids := rfl
  sane := hsane
  view := hview
  height_le h := Nat.le_succ_of_le (hinv.height_le h)
  supply_le := hinv.supply_le.trans (sum_subsidy_le n)

theorem chainInvariant_block (hsize : ∀ tx, tx.output.length ≤ nenv.baseSize tx)
    (hinv : ChainInvariant n S) (hfull : v.blockVerification = .full)
    (hview : utxoView build c (n + 1) = S.coin)
    (hok : verifyBlock nenv v build c now (n + 1) block = .ok ())
    (hrun : executeBlock nenv.toEnv (n + 1) block.txdata S = .ok S') :
    ChainInvariant (n + 1) S' := by
  obtain ⟨hsane, cutoff, _, htxs⟩ := verifyBlock_full hfull hok
  have hcoin := Pallet.coin_executePrefix (hsane.output_length_le hsize) hrun
  constructor
  · intro o coin ho
    rw [hcoin, Pallet.coinAfter_eq_some] at ho
    rcases ho with ⟨hold, _⟩ | ⟨_, tx, _, _, hins, _⟩
    · exact Nat.le_succ_of_le (hinv.height_le hold)
    · exact (Pallet.height_of_insertedCoin hins).le
  · obtain ⟨_, s, cb, rest, hrest, hledger, hreward⟩ :=
      (solvent_of_chainInvariant (v := v) hinv hview hsane cutoff).verifyTransactions htxs
    have hleft : (fun o => coinAfter nenv.toEnv (n + 1) block.txdata o (S.coin o)) = S'.coin :=
      funext fun o => (hcoin o).symm
    have hfinal : Ledger nenv.toEnv S block.txdata s.spentCoinsInBlock
        (s.blockFee + outputTotal block.txdata.tail) S'.coin := by
      rw [← hleft]
      exact hledger
    -- the fees cancel: what the inputs overpay is what the coinbase may claim over the subsidy
    have hsettle := hfinal.settle
    have hblock : block.txdata = cb :: rest := hrest
    have hreward' : cb.outputValue ≤ s.blockFee + bitcoinBlockSubsidy (n + 1) := hreward
    rw [hblock] at hsettle
    simp only [outputTotal, List.tail_cons, List.map_cons, List.sum_cons] at hsettle
    have hsupply := hinv.supply_le
    rw [Finset.sum_Icc_succ_top (by omega)]
    omega

theorem chainInvariant_of_chain (hsize : ∀ tx, tx.output.length ≤ nenv.baseSize tx)
    (h : Chain nenv n S) : ChainInvariant n S := by
  induction h with
  | genesis => exact chainInvariant_genesis
  | block v build c now block _ hfull hview hok hrun ih =>
    exact chainInvariant_block hsize ih hfull hview hok hrun

theorem verifyTransactions_checked (hinv : ChainInvariant n S) (hfull : v.blockVerification = .full)
    (hview : utxoView build c (n + 1) = S.coin)
    (hok : verifyBlock nenv v build c now (n + 1) block = .ok ()) {txids : List Txid} {cutoff : Nat}
    (htxids : checkBlockSanity nenv.toEnv (n + 1) block =
      (.ok txids : Outcome (VerifyError SE) (List Txid)))
    (hcutoff : verifyHeader nenv build c v.chainParams now block.header = .ok cutoff) :
    verifyTransactions nenv v Build.checked c (n + 1) block txids cutoff = .ok () := by
  obtain ⟨hsanity, cutoff', hheader, _, _, ⟨parentNumber, hsub, hparent⟩, htxs⟩ :=
    (verifyBlock_full_iff hfull).mp hok
  rw [hcutoff, Outcome.ok.injEq] at hheader
  subst hheader
  have hsane := (checkBlockSanity_eq_ok hsanity).1
  rw [hsanity, Outcome.ok.injEq] at htxids
  subst htxids
  have hone : 1 ≤ n + 1 := Nat.le_add_left 1 n
  rw [Build.sub_of_le hone, Outcome.ok.injEq] at hsub
  rw [← hsub, Nat.add_sub_cancel] at hparent
  obtain ⟨parentHash, hparent⟩ := Option.isSome_iff_exists.mp hparent
  have hchecked := ((solvent_of_chainInvariant hinv hview hsane cutoff).verifyTransactions htxs).1
  rw [TxsContext.checked, txsContext, utxoView_succ, hparent] at hchecked
  unfold verifyTransactions
  rw [Build.sub_of_le hone, Outcome.ok_bind, Nat.add_sub_cancel, hparent, Outcome.okOr_some,
    Outcome.ok_bind]
  exact hchecked

/-- **No inflation.** After any chain of `n` blocks the amounts in `Coins` add up to at most the
subsidies of its blocks, which add up to at most 2,099,999,997,690,000 satoshi; and for no block
that passes full verification on top of the chain does an operation of `verify_transactions`
overflow, since the build that panics on overflow accepts its transactions too. -/
theorem chain_supply_le (nenv : NodeEnv SE) (hsize : ∀ tx, tx.output.length ≤ nenv.baseSize tx)
    (n : Nat) (S : State) (hchain : Chain nenv n S) :
    supply S ≤ ∑ h ∈ Finset.Icc 1 n, bitcoinBlockSubsidy h ∧
      ∑ h ∈ Finset.Icc 1 n, bitcoinBlockSubsidy h ≤ 2099999997690000 ∧
      ∀ v build c now block txids cutoff, v.blockVerification = .full →
        utxoView build c (n + 1) = S.coin →
        verifyBlock nenv v build c now (n + 1) block = .ok () →
        checkBlockSanity nenv.toEnv (n + 1) block =
          (.ok txids : Outcome (VerifyError SE) (List Txid)) →
        verifyHeader nenv build c v.chainParams now block.header = .ok cutoff →
        verifyTransactions nenv v Build.checked c (n + 1) block txids cutoff = .ok () := by
  have hinv := chainInvariant_of_chain hsize hchain
  refine ⟨hinv.supply_le, sum_subsidy_le n, ?_⟩
  intro v build c now block txids cutoff hfull hview hok htxids hcutoff
  exact verifyTransactions_checked hinv hfull hview hok htxids hcutoff

/-! ## A chain with a spend -/

theorem Chain.acceptsAll {nenv : NodeEnv SE} {v : BlockVerifier} {now n : Nat} {prev : Block}
    {S S' : State} {blocks : List Block} (hchain : Chain nenv n S)
    (hfull : v.blockVerification = .full) (h : acceptsAll nenv v now prev n S blocks = some S') :
    Chain nenv (n + blocks.length) S' := by
  induction blocks generalizing prev n S with
  | nil =>
    cases h
    exact hchain
  | cons block blocks ih =>
    obtain ⟨c, S1, hview, hok, hrun, hrest⟩ := acceptsAll_cons h
    have hnext := ih (hchain.block v .checked c now block hfull hview hok hrun) hrest
    rwa [List.length_cons, ← Nat.add_assoc, Nat.add_right_comm]

open Reference ChainSample in
/-- The bound for a chain of 101 blocks, the last of which claims the fee of a spend. -/
theorem chain_supply_spending :
    ∃ S, chainState = some S ∧ Chain sampleEnv 101 S ∧
      supply S ≤ ∑ h ∈ Finset.Icc 1 101, bitcoinBlockSubsidy h := by
  obtain ⟨S, hS⟩ := exists_chainState
  have hchain : Chain sampleEnv (0 + chain.length) S := Chain.genesis.acceptsAll rfl hS
  exact ⟨S, hS, hchain, (chain_supply_le sampleEnv output_length_le_baseSize 101 S hchain).1⟩

end Subcoin
