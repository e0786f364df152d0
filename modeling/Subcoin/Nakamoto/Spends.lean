import Subcoin.Nakamoto.Agreement
import Subcoin.Nakamoto.UpdateCoins

/-!
# Subcoin — what a chain spends

Verification looks for the coin of an input in the state of the parent, then among the earlier
transactions of the block. Over a run both are outputs of the chain that nothing has spent since.
-/

namespace Subcoin

open Pallet (State insertedCoin takenOutPoints)
open Subcoin.Core (history)

variable {SE : Type} {env : Env SE} {o : OutPoint} {coin : Coin}

/-- The transaction `tx` stands in the log at `height` and has an output at `o`, which no later
transaction of the log spends. -/
def UnspentSince (env : Env SE) (log : List (Nat × Transaction)) (o : OutPoint) (height : Nat)
    (tx : Transaction) : Prop :=
  ∃ earlier later, log = earlier ++ (height, tx) :: later ∧ env.computeTxid tx = o.txid ∧
    (tx.output[o.vout]?).isSome = true ∧ ∀ e ∈ later, o ∉ takenOutPoints e.2

/-- Each input, coinbases aside, spends an output that is unspent in the log of the chain up to its
transaction, and that of a coinbase only once it is mature. -/
def SpendsUnspent (env : Env SE) (blocks : List Block) : Prop :=
  ∀ pre block post, blocks = pre ++ block :: post →
    ∀ l tx l', block.txdata = l ++ tx :: l' → l ≠ [] → ∀ o ∈ tx.spends,
      ∃ height t, UnspentSince env (history pre ++ l.map (pre.length + 1, ·)) o height t ∧
        (t.isCoinbase = true → height + coinbaseMaturity ≤ pre.length + 1)

theorem unspentSince_of_replay {blocks : List Block} {S : State}
    (hsmall : ∀ block ∈ blocks, SmallBlock block) (hrun : replay env blocks = .ok S)
    (hcoin : S.coin o = some coin) :
    coin.height ≤ blocks.length ∧
      ∃ t, UnspentSince env (history blocks) o coin.height t ∧ coin.isCoinbase = t.isCoinbase := by
  rw [coin_replay hsmall hrun, LastWrite.after_eq_some] at hcoin
  rcases hcoin with ⟨hnone, _⟩ | ⟨earlier, ⟨h, t⟩, later, hlog, hwrite, hlater⟩
  · cases hnone
  · simp only [insertedCoin, Pallet.createdCoin, Option.ite_none_left_eq_some,
      Option.ite_none_right_eq_some, Option.bind_eq_some_iff, Option.some.injEq] at hwrite
    obtain ⟨_, htxid, txout, hout, _, rfl⟩ := hwrite
    obtain ⟨pre, block, post, rfl, rfl, _⟩ :=
      Core.mem_history (show (h, t) ∈ history blocks by simp [hlog])
    exact ⟨by simp [Pallet.coinOf], t,
      ⟨earlier, later, hlog, htxid.symm, by simp [hout], fun e he => (hlater e he).1⟩, rfl⟩

theorem TxsContext.Matured.le {ctx : TxsContext} {height : Nat} (h : ctx.Matured height)
    (hle : height ≤ ctx.blockNumber) : height + coinbaseMaturity ≤ ctx.blockNumber := by
  obtain ⟨age, hsub, hage⟩ := h
  rw [Build.sub_of_le hle, Outcome.ok.injEq] at hsub
  omega

/-- **No double spend.** In every run of accepted blocks from the empty state, an input spends an
output of the chain before it that no transaction in between spent, and one of a coinbase only
after 100 blocks. No transaction has more outputs than bytes. -/
theorem spendsUnspent_of_accepted (nenv : NodeEnv SE)
    (hsize : ∀ tx, tx.output.length ≤ nenv.baseSize tx) (blocks : List Block)
    (hacc : AcceptedRun nenv blocks) : SpendsUnspent nenv.toEnv blocks := by
  intro pre block post hsplit l tx l' htx hne o ho
  obtain ⟨v, build, c, now, S, hfull, hrun, hview, hok⟩ := hacc pre block post hsplit
  have hblock := executableBlock_of_accepted hsize hfull hview hok
  have htaken := hblock.not_taken_before htx hne ho
  cases hcoin : S.coin o with
  | none =>
    -- an output of the block itself, but not of its first transaction
    obtain ⟨l1, t, l2, txout, rfl, hfirst, htxid, hout⟩ := hblock.resolves htx hne ho hcoin
    rw [List.append_assoc, List.cons_append] at htx
    refine ⟨pre.length + 1, t, ⟨history pre ++ l1.map (pre.length + 1, ·),
      l2.map (pre.length + 1, ·), by simp, htxid, by simp [hout], ?_⟩,
      by simp [hblock.sane.regular htx hfirst]⟩
    simp only [List.forall_mem_map]
    exact fun t' ht' => htaken t' (by simp [ht'])
  | some coin =>
    have hsmall := hacc.smallBlock hsize
    obtain ⟨hle, t, ⟨earlier, later, hlog, htxid, hout, hlater⟩, hcb⟩ :=
      unspentSince_of_replay (fun b hb => hsmall b (by simp [hsplit, hb])) hrun hcoin
    refine ⟨coin.height, t, ⟨earlier, later ++ l.map (pre.length + 1, ·), by simp [hlog], htxid,
      hout, List.forall_mem_append.mpr ⟨hlater, by simpa using htaken⟩⟩, ?_⟩
    intro hcoinbase
    -- verification found the same coin, and checked its age
    obtain ⟨_, cutoff, _, htxs⟩ := verifyBlock_full hfull hok
    obtain ⟨hinputs, _⟩ := TxsContext.verifyTransactions_spec (txidsComplete_txsContext ..) htxs
    obtain ⟨input, hinput, rfl⟩ := List.mem_map.mp ho
    obtain ⟨ins, ins', hins⟩ := List.append_of_mem hinput
    obtain ⟨txout, ⟨cb, height, hspent, hmature⟩, _⟩ := (hinputs htx hne).inputs hins
    rw [← hview] at hcoin
    obtain ⟨_, rfl, rfl⟩ : _ ∧ coin.isCoinbase = cb ∧ coin.height = height := by
      simpa using (coinBefore_of_some hcoin).symm.trans hspent
    exact (hmature (hcb.trans hcoinbase)).le (Nat.le_succ_of_le hle)

open Reference ChainSample in
/-- The last of 101 blocks spends the coinbase of the first. -/
theorem spendsUnspent_chain : SpendsUnspent sampleEnv.toEnv chain ∧
    chain = chain.take 100 ++ [blockAt 101 5100000000 [spending]] ∧
    spending.spends = [⟨sampleEnv.computeTxid (coinbaseAt 1 5000000000), 0⟩] :=
  ⟨spendsUnspent_of_accepted sampleEnv output_length_le_baseSize chain
    acceptedOn_chain.acceptedRun, rfl, rfl⟩

end Subcoin
