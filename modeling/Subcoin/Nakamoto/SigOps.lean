import Subcoin.Nakamoto.Accepted
import Subcoin.Reference

/-!
# Subcoin — signature operations of accepted blocks

The limit on signature operations is a limit on the whole block. Verification adds up the legacy
count over the block, and compares the full cost, with the P2SH and witness operations, one
transaction at a time: the variable it adds to is set to zero for each transaction.

The two tests together keep a block within the limit when only one transaction costs anything, or
when there are no P2SH and witness operations at all. Two transactions and one such operation can
make a block that is over the limit.

* **`sigops_le_of_lone`** — what the two tests are enough for.
* **`accepted_sigops_le_iff`** — that they are enough for nothing more, and when the other blocks
  are within the limit.
-/

namespace Subcoin

variable {SE : Type}

/-- How `Transaction::total_sigop_cost` is made up: the legacy count and the P2SH count at the
witness scale factor, plus the witness count. A coinbase spends nothing, so only its legacy count
matters. -/
structure SigopCounts (env : Env SE) where
  p2sh : Transaction → (OutPoint → Option TxOut) → Nat
  witness : Transaction → (OutPoint → Option TxOut) → Nat
  total_eq : ∀ tx spent, env.totalSigopCost tx spent =
    getLegacySigOpCount env tx * witnessScaleFactor + p2sh tx spent * witnessScaleFactor +
      witness tx spent
  coinbase : ∀ tx spent, tx.isCoinbase = true → p2sh tx spent = 0 ∧ witness tx spent = 0

/-- The sum of `f pre tx` over the transactions of a list, `pre` being those before `tx`. -/
def sumTxs (f : List Transaction → Transaction → Nat) : List Transaction → List Transaction → Nat
  | _, [] => 0
  | pre, tx :: txs => f pre tx + sumTxs f (pre ++ [tx]) txs

theorem sumTxs_add (f g : List Transaction → Transaction → Nat) (pre txs : List Transaction) :
    sumTxs (fun pre tx => f pre tx + g pre tx) pre txs = sumTxs f pre txs + sumTxs g pre txs := by
  induction txs generalizing pre with
  | nil => rfl
  | cons tx txs ih =>
    simp only [sumTxs, ih]
    omega

theorem sumTxs_const (f : Transaction → Nat) (pre txs : List Transaction) :
    sumTxs (fun _ tx => f tx) pre txs = (txs.map f).sum := by
  induction txs generalizing pre with
  | nil => rfl
  | cons tx txs ih => simp [sumTxs, ih]

/-- How many transactions have a value other than zero. -/
def countTxs (f : List Transaction → Transaction → Nat) :
    List Transaction → List Transaction → Nat :=
  sumTxs fun pre tx => if f pre tx = 0 then 0 else 1

theorem sumTxs_eq_zero {f : List Transaction → Transaction → Nat} {pre txs : List Transaction}
    (h : countTxs f pre txs = 0) : sumTxs f pre txs = 0 := by
  induction txs generalizing pre with
  | nil => rfl
  | cons tx txs ih =>
    rw [countTxs, sumTxs, Nat.add_eq_zero_iff] at h
    have hzero : f pre tx = 0 := by
      by_contra hne
      rw [if_neg hne] at h
      exact absurd h.1 Nat.one_ne_zero
    rw [sumTxs, hzero, ih h.2]

/-- A sum with at most one term is that term. -/
theorem sumTxs_of_countTxs_le_one {f : List Transaction → Transaction → Nat}
    {pre txs : List Transaction} (h : countTxs f pre txs ≤ 1) :
    sumTxs f pre txs = 0 ∨
      ∃ l tx r, txs = l ++ tx :: r ∧ sumTxs f pre txs = f (pre ++ l) tx := by
  induction txs generalizing pre with
  | nil => exact .inl rfl
  | cons tx txs ih =>
    rw [countTxs, sumTxs] at h
    by_cases hzero : f pre tx = 0
    · -- the term is one of the rest
      rw [if_pos hzero, Nat.zero_add] at h
      rcases ih h with hsum | ⟨l, tx', r, rfl, hsum⟩
      · exact .inl (by rw [sumTxs, hzero, hsum])
      · refine .inr ⟨tx :: l, tx', r, rfl, ?_⟩
        rw [sumTxs, hzero, hsum, Nat.zero_add, List.append_assoc, List.singleton_append]
    · -- it is the first one, and nothing is left for the rest
      rw [if_neg hzero] at h
      have hrest : countTxs f (pre ++ [tx]) txs = 0 := by
        rw [countTxs]
        omega
      refine .inr ⟨[], tx, txs, rfl, ?_⟩
      rw [sumTxs, sumTxs_eq_zero hrest, Nat.add_zero, List.append_nil]

def spentOutput (nenv : NodeEnv SE) (build : Build) (c : Client) (blockNumber : Nat)
    (pre : List Transaction) (o : OutPoint) : Option TxOut :=
  (coinBefore nenv.toEnv (utxoView build c blockNumber) blockNumber pre o).map Prod.fst

/-- The cost of a transaction that stands after others in a block. -/
def txSigopCost (nenv : NodeEnv SE) (build : Build) (c : Client) (blockNumber : Nat)
    (pre : List Transaction) (tx : Transaction) : Nat :=
  nenv.totalSigopCost tx (spentOutput nenv build c blockNumber pre)

/-- The signature operation cost of a block, the coinbase included. -/
def blockSigopCost (nenv : NodeEnv SE) (build : Build) (c : Client) (blockNumber : Nat)
    (block : Block) : Nat :=
  sumTxs (txSigopCost nenv build c blockNumber) [] block.txdata

/-- The number of transactions of a block that cost anything. -/
def costlyTxs (nenv : NodeEnv SE) (build : Build) (c : Client) (blockNumber : Nat)
    (block : Block) : Nat :=
  countTxs (txSigopCost nenv build c blockNumber) [] block.txdata

/-- The part of the cost that is never added up: the P2SH and witness operations of the
transactions other than the coinbase. -/
def blockSpendCost (nenv : NodeEnv SE) (counts : SigopCounts nenv.toEnv) (build : Build)
    (c : Client) (blockNumber : Nat) (block : Block) : Nat :=
  sumTxs
    (fun pre tx =>
      if tx.isCoinbase then 0
      else
        counts.p2sh tx (spentOutput nenv build c blockNumber pre) * witnessScaleFactor +
          counts.witness tx (spentOutput nenv build c blockNumber pre)) []
    block.txdata

theorem blockSigopCost_eq (nenv : NodeEnv SE) (counts : SigopCounts nenv.toEnv) (build : Build)
    (c : Client) (blockNumber : Nat) (block : Block) :
    blockSigopCost nenv build c blockNumber block =
      (block.txdata.map (getLegacySigOpCount nenv.toEnv)).sum * witnessScaleFactor +
        blockSpendCost nenv counts build c blockNumber block := by
  have hlegacy := sumTxs_const (fun tx => getLegacySigOpCount nenv.toEnv tx * witnessScaleFactor)
    [] block.txdata
  rw [List.sum_map_mul_right] at hlegacy
  rw [blockSigopCost, blockSpendCost, ← hlegacy, ← sumTxs_add]
  congr 1
  funext pre tx
  cases hcb : tx.isCoinbase with
  | true =>
    obtain ⟨hp2sh, hwitness⟩ :=
      counts.coinbase tx (spentOutput nenv build c blockNumber pre) hcb
    rw [txSigopCost, counts.total_eq, hp2sh, hwitness, if_pos rfl, Nat.zero_mul]
  | false => rw [txSigopCost, counts.total_eq, Nat.add_assoc, if_neg Bool.false_ne_true]

/-- Full verification accepts the block. -/
def FullyVerified (nenv : NodeEnv SE) (build : Build) (c : Client) (blockNumber : Nat)
    (block : Block) : Prop :=
  ∃ v now, v.blockVerification = .full ∧ verifyBlock nenv v build c now blockNumber block = .ok ()

section

variable {nenv : NodeEnv SE} (counts : SigopCounts nenv.toEnv) {build : Build} {c : Client}
  {blockNumber : Nat} {block : Block} (h : FullyVerified nenv build c blockNumber block)

include h in
/-- The test on the legacy operations of the block. -/
theorem FullyVerified.legacy_le :
    (block.txdata.map (getLegacySigOpCount nenv.toEnv)).sum * witnessScaleFactor ≤
      maxBlockSigopsCost := by
  obtain ⟨v, now, hfull, hok⟩ := h
  exact (verifyBlock_full hfull hok).1.legacy_sig_ops_le

include counts h

/-- Each transaction of an accepted block is within the limit by itself: the test on the legacy
operations sees to the coinbase, that in the loop to the others. -/
theorem txSigopCost_le {pre post : List Transaction} {tx : Transaction}
    (hsplit : block.txdata = pre ++ tx :: post) :
    txSigopCost nenv build c blockNumber pre tx ≤ maxBlockSigopsCost := by
  have hlegacy := h.legacy_le
  obtain ⟨v, now, hfull, hok⟩ := h
  obtain ⟨hsane, cutoff, -, htxs⟩ := verifyBlock_full hfull hok
  cases pre with
  | nil =>
    obtain ⟨cb, rest, hcb, hcoinbase⟩ := hsane.coinbase
    rw [hsplit, List.nil_append, List.cons.injEq] at hcb
    obtain ⟨rfl, rfl⟩ := hcb
    obtain ⟨hp2sh, hwitness⟩ :=
      counts.coinbase tx (spentOutput nenv build c blockNumber []) hcoinbase
    rw [hsplit, List.nil_append, List.map_cons, List.sum_cons, Nat.add_mul] at hlegacy
    rw [txSigopCost, counts.total_eq, hp2sh, hwitness, Nat.zero_mul]
    exact (Nat.le_add_right _ _).trans hlegacy
  | cons first pre =>
    have hspec := TxsContext.verifyTransactions_spec
      (txidsComplete_txsContext nenv v build c blockNumber block cutoff) htxs
    exact (hspec.1 hsplit (List.cons_ne_nil _ _)).sig_ops_le

/-- The tests are enough for a block in which one transaction costs all there is. -/
theorem sigops_le_of_lone (hlone : costlyTxs nenv build c blockNumber block ≤ 1) :
    blockSigopCost nenv build c blockNumber block ≤ maxBlockSigopsCost := by
  rcases sumTxs_of_countTxs_le_one hlone with hzero | ⟨pre, tx, post, hsplit, hsum⟩
  · exact hzero.trans_le (Nat.zero_le _)
  · rw [blockSigopCost, hsum]
    exact txSigopCost_le counts h hsplit

end

/-! ## A block over the limit -/

namespace SigopSample

open Reference

def verifier : BlockVerifier := ⟨ChainParams.new paramsOf .bitcoin, .full, .none⟩

def coinAt (vout : Nat) : OutPoint := ⟨⟨Hash256.ofNat 77⟩, vout⟩

def p2shScript : List UInt8 := [0xa9, 0x14] ++ List.replicate 20 7 ++ [0x87]

/-- A redeem script of the largest size a script can push: 520 times `OP_CHECKMULTISIG`. -/
def redeemScript : List UInt8 := List.replicate 520 0xae

def p2wpkhScript : List UInt8 := [0, 0x14] ++ List.replicate 20 7

def state : Pallet.State :=
  { coins :=
      [p2shScript, p2shScript, p2wpkhScript].zipIdx.foldl
        (fun coins p => coins.insert (Runtime.OutPoint.ofBitcoin (coinAt p.2))
          ⟨false, 1000, 0, p.1⟩) ∅
    coinsCount := 3 }

def client : Client := Client.genesis env genesisBlock state

/-- Spends one of the coins with the redeem script: 41,600 units of cost. -/
def spend (vout : Nat) : Transaction :=
  transaction [input (coinAt vout) ([0x4d, 0x08, 0x02] ++ redeemScript)] [⟨900, [0x51]⟩]

def spendingBlock (vouts : List Nat) : Block :=
  block (env.hashOf genesisBlock) 1231006600 0x1d00ffff 7
    (coinbase [1, 1] 5000000000 :: vouts.map spend)

/-- The coinbase has 20,000 legacy operations, which are all that the limit allows; a key hash is
spent on top of them. -/
def fullBlock : Block :=
  block (env.hashOf genesisBlock) 1231006600 0x1d00ffff 7
    [{ coinbase [1, 1] 5000000000 with output := [⟨5000000000, List.replicate 1000 0xae⟩] },
      transaction [input (coinAt 2) []] [⟨900, [0x51]⟩]]

def counts : SigopCounts env.toEnv where
  p2sh := countP2shSigops
  witness := countWitnessSigops
  total_eq _ _ := rfl
  coinbase tx _ h := by simp [countP2shSigops, countWitnessSigops, h]

end SigopSample

open Reference SigopSample in
/-- Two transactions and a single operation that is not added up make an accepted block that is over
the limit. -/
theorem SigopSample.over_limit :
    verifyBlock env verifier ⟨false⟩ client 1231006700 1 fullBlock = .ok () ∧
      costlyTxs env ⟨false⟩ client 1 fullBlock = 2 ∧
      blockSpendCost env counts ⟨false⟩ client 1 fullBlock = 1 ∧
      ¬ blockSigopCost env ⟨false⟩ client 1 fullBlock ≤ maxBlockSigopsCost := by
  decide +kernel

/-- **Signature operation limit.** The tests of full verification keep all blocks in which at most
`n` transactions cost anything, and in which P2SH and witness operations cost at most `k`, within
the limit if and only if `n` is at most one or `k` is zero. Another accepted block is within it if
and only if these operations, which are never added up, fit in what the legacy operations leave. -/
theorem accepted_sigops_le_iff :
    (∀ n k, (∀ {nenv : NodeEnv Unit} (counts : SigopCounts nenv.toEnv)
        {build c blockNumber block}, FullyVerified nenv build c blockNumber block →
        costlyTxs nenv build c blockNumber block ≤ n →
        blockSpendCost nenv counts build c blockNumber block ≤ k →
        blockSigopCost nenv build c blockNumber block ≤ maxBlockSigopsCost) ↔ n ≤ 1 ∨ k = 0) ∧
    ∀ {nenv : NodeEnv SE} (counts : SigopCounts nenv.toEnv) {build c blockNumber block},
      FullyVerified nenv build c blockNumber block →
      (blockSigopCost nenv build c blockNumber block ≤ maxBlockSigopsCost ↔
        (1 < costlyTxs nenv build c blockNumber block →
          blockSpendCost nenv counts build c blockNumber block ≤ maxBlockSigopsCost -
            (block.txdata.map (getLegacySigOpCount nenv.toEnv)).sum * witnessScaleFactor)) := by
  refine ⟨fun n k => ⟨fun hall => ?_, fun hnk => ?_⟩, ?_⟩
  · -- two transactions are too many, and so is one operation
    by_contra hnk
    obtain ⟨hok, hcount, hspend, hover⟩ := SigopSample.over_limit
    exact hover (hall SigopSample.counts ⟨_, _, rfl, hok⟩ (by omega) (by omega))
  · intro nenv counts build c blockNumber block h hcount hspend
    rcases hnk with hn | rfl
    · exact sigops_le_of_lone counts h (hcount.trans hn)
    · rw [blockSigopCost_eq nenv counts, Nat.le_zero.mp hspend]
      exact h.legacy_le
  · intro nenv counts build c blockNumber block h
    have hlegacy := h.legacy_le
    have hcost := blockSigopCost_eq nenv counts build c blockNumber block
    constructor
    · intro hle _
      omega
    · intro hfits
      by_cases hlone : costlyTxs nenv build c blockNumber block ≤ 1
      · exact sigops_le_of_lone counts h hlone
      · have hspend := hfits (Nat.not_le.mp hlone)
        omega

open Reference SigopSample in
/-- A block with one transaction that costs half of the limit, and a coinbase that costs nothing. -/
theorem sigops_le_one_spend :
    blockSigopCost env ⟨false⟩ client 1 (spendingBlock [0]) ≤ maxBlockSigopsCost :=
  (accepted_sigops_le_iff.2 counts ⟨verifier, 1231006700, rfl, by decide +kernel⟩).mpr
    fun hseveral => absurd hseveral (by decide +kernel)

open Reference SigopSample in
/-- Two transactions, each below the limit, make an accepted block that costs 83,200. -/
theorem sigops_over_limit_accepted :
    verifyBlock env verifier ⟨false⟩ client 1231006700 1 (spendingBlock [0, 1]) = .ok () ∧
      ¬ blockSigopCost env ⟨false⟩ client 1 (spendingBlock [0, 1]) ≤ maxBlockSigopsCost := by
  decide +kernel

end Subcoin
