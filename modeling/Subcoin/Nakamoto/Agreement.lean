import Subcoin.Nakamoto.Accepted
import Subcoin.Pallet.Execution
import Subcoin.Reference

/-!
# Subcoin — verifier and runtime

Block verification and the runtime are two passes over the same block: the first looks each coin up
in the parent state or among the earlier outputs of the block, the second takes it out of `Coins`.
They differ in one place. The verifier finds every earlier output, the runtime never stores an
`OP_RETURN` output; so an accepted block executes, with the result the block prescribes, exactly
when it does not spend such an output of its own.
-/

namespace Subcoin

open Pallet (State executeBlock createdCoin insertedCoin takenOutPoints coinAfter
  bip30ExceptionHeights)

variable {SE : Type}

/-- The outpoints the transactions of a block spend, the coinbase aside. -/
def blockSpends (block : Block) : List OutPoint := block.txdata.tail.flatMap Transaction.spends

/-- `S'` is `S` without the outpoints the block spends, and with the outputs it creates, `OP_RETURN`
outputs aside, that no later transaction of it spends. -/
def BlockResult (env : Env SE) (height : Nat) (block : Block) (S S' : State) : Prop :=
  ∀ o coin, S'.coin o = some coin ↔
    (S.coin o = some coin ∧ o ∉ blockSpends block ∧
        ∀ tx ∈ block.txdata, createdCoin env height tx o = none) ∨
      ∃ pre tx post, block.txdata = pre ++ tx :: post ∧ createdCoin env height tx o = some coin ∧
        ∀ t ∈ post, o ∉ t.spends

/-- Some input of the block spends an `OP_RETURN` output of an earlier transaction of the block, at
an outpoint that is not in the parent state. -/
def SpendsOwnOpReturn (env : Env SE) (block : Block) (S : State) : Prop :=
  ∃ pre tx post o, block.txdata = pre ++ tx :: post ∧ pre ≠ [] ∧ o ∈ tx.spends ∧
    S.coin o = none ∧ ∃ t ∈ pre, env.computeTxid t = o.txid ∧
      ∃ txout, t.output[o.vout]? = some txout ∧ txout.isOpReturn = true

/-! ## What both passes know of an accepted block -/

/-- The facts about an accepted block that the comparison uses. `coinBefore` resolves the coins of
every input, and no coin of a coinbase of the block itself is spent. -/
structure ExecutableBlock (env : Env SE) (height : Nat) (block : Block) (S : State) : Prop where
  sane : SaneBlock env block
  output_length_le : ∀ tx ∈ block.txdata, tx.output.length ≤ 2 ^ 32
  nodup_spends : (blockSpends block).Nodup
  resolves : ∀ {pre tx post o}, block.txdata = pre ++ tx :: post → pre ≠ [] → o ∈ tx.spends →
    S.coin o = none → ∃ l₁ t l₂ txout, pre = l₁ ++ t :: l₂ ∧ l₁ ≠ [] ∧
      env.computeTxid t = o.txid ∧ t.output[o.vout]? = some txout

theorem executableBlock_of_accepted {nenv : NodeEnv SE} {v : BlockVerifier} {build : Build}
    {c : Client} {now blockNumber : Nat} {block : Block} {S : State}
    (hsize : ∀ tx, tx.output.length ≤ nenv.baseSize tx) (hfull : v.blockVerification = .full)
    (hview : utxoView build c blockNumber = S.coin)
    (hok : verifyBlock nenv v build c now blockNumber block = .ok ()) :
    ExecutableBlock nenv.toEnv blockNumber block S := by
  obtain ⟨hsane, cutoff, _, htxs⟩ := verifyBlock_full hfull hok
  have hctx := txidsComplete_txsContext nenv v build c blockNumber block cutoff
  obtain ⟨hacc, hnodup⟩ := TxsContext.verifyTransactions_spec hctx htxs
  refine ⟨hsane, hsane.output_length_le hsize, hnodup, ?_⟩
  · intro pre tx post o hsplit hne ho hnone
    obtain ⟨input, hinput, rfl⟩ := List.mem_map.mp ho
    obtain ⟨l, l', hl⟩ := List.append_of_mem hinput
    obtain ⟨txout, ⟨cb, height, hcoin, hmature⟩, _⟩ := (hacc hsplit hne).inputs hl
    have hstate : utxoView build c blockNumber input.previousOutput = none := by rw [hview, hnone]
    obtain ⟨l₁, t, l₂, hpre, htxid, hout, rfl, rfl⟩ := coinBefore_of_none hstate hcoin
    refine ⟨l₁, t, l₂, txout, hpre, ?_, htxid, hout⟩
    rintro rfl
    exact TxsContext.not_matured_self (hmature rfl)

namespace ExecutableBlock

variable {env : Env SE} {height : Nat} {block : Block} {S : State}

variable {post pre : List Transaction} {tx : Transaction} {o : OutPoint}

section

variable (h : ExecutableBlock env height block S)

include h

theorem taken_of_ne_nil (hsplit : block.txdata = pre ++ tx :: post) (hne : pre ≠ []) :
    takenOutPoints tx = tx.spends := by
  simp [takenOutPoints, h.sane.regular hsplit hne]

theorem eq_of_txid_eq {t t' : Transaction} (ht : t ∈ block.txdata) (ht' : t' ∈ block.txdata)
    (heq : env.computeTxid t = env.computeTxid t') : t = t' :=
  List.inj_on_of_nodup_map h.sane.nodup_txids ht ht' heq

theorem not_taken_before (hsplit : block.txdata = pre ++ tx :: post) (hne : pre ≠ [])
    (ho : o ∈ tx.spends) : ∀ t ∈ pre, o ∉ takenOutPoints t := by
  intro t ht htaken
  obtain ⟨cb, rest, hcb, hcoinbase⟩ := h.sane.coinbase
  obtain ⟨pre', rfl⟩ : ∃ pre', pre = cb :: pre' := by
    cases pre with
    | nil => exact absurd rfl hne
    | cons a pre' =>
      rw [hcb, List.cons_append, List.cons.injEq] at hsplit
      exact ⟨pre', by rw [hsplit.1]⟩
  -- the coinbase takes nothing; any other earlier transaction would spend the coin twice
  rcases List.mem_cons.mp ht with rfl | ht
  · simp [takenOutPoints, hcoinbase] at htaken
  · have hspent : o ∈ t.spends := by
      unfold takenOutPoints at htaken
      split at htaken
      · cases htaken
      · exact htaken
    have hnodup := h.nodup_spends
    rw [blockSpends, hsplit, List.cons_append, List.tail_cons, List.flatMap_append,
      List.flatMap_cons] at hnodup
    exact (List.nodup_append.mp hnodup).2.2 o (List.mem_flatMap.mpr ⟨t, ht, hspent⟩) o
      (List.mem_append_left _ ho) rfl

/-- The runtime finds the coin of an input, unless the input spends an `OP_RETURN` output of the
block itself. -/
theorem isSome_coinAfter_iff (hsplit : block.txdata = pre ++ tx :: post) (hne : pre ≠ [])
    (ho : o ∈ tx.spends) :
    (coinAfter env height pre o (S.coin o)).isSome = true ↔
      ¬ (S.coin o = none ∧ ∃ t ∈ pre, env.computeTxid t = o.txid ∧
        ∃ txout, t.output[o.vout]? = some txout ∧ txout.isOpReturn = true) := by
  rw [Pallet.isSome_coinAfter_of_not_taken (h.not_taken_before hsplit hne ho)]
  cases hS : S.coin o with
  | some coin => simp
  | none =>
    obtain ⟨l₁, t, l₂, txout, hpre, hl1, htxid, hout⟩ := h.resolves hsplit hne ho hS
    have ht : t ∈ pre := by simp [hpre]
    have hmem : ∀ t' ∈ pre, t' ∈ block.txdata := fun t' ht' => by simp [hsplit, ht']
    -- The creating transaction is not the coinbase, so the runtime inserts what it creates.
    have hregular : t.isCoinbase = false :=
      h.sane.regular (show block.txdata = l₁ ++ t :: (l₂ ++ tx :: post) by simp [hsplit, hpre]) hl1
    have hinserted : insertedCoin env height t o =
        if txout.isOpReturn then none else some (Pallet.coinOf height t txout) := by
      simp [insertedCoin, createdCoin, hregular, htxid, hout]
    have hunique : ∀ t' ∈ pre, env.computeTxid t' = o.txid → t' = t := fun t' ht' htxid' =>
      h.eq_of_txid_eq (hmem t' ht') (hmem t ht) (htxid'.trans htxid.symm)
    simp only [Option.isSome_none, Bool.false_eq_true, false_or, true_and]
    constructor
    · rintro ⟨t', ht', hins⟩ ⟨t'', ht'', htxid'', txout'', hout'', hop⟩
      have htxid' : env.computeTxid t' = o.txid := by
        by_contra hne'
        have : insertedCoin env height t' o = none := by
          simp [insertedCoin, createdCoin, Ne.symm hne']
        simp [this] at hins
      rw [hunique t' ht' htxid', hinserted] at hins
      rw [hunique t'' ht'' htxid'', hout, Option.some.injEq] at hout''
      simp [hout'', hop] at hins
    · intro hnot
      refine ⟨t, ht, ?_⟩
      have hop : txout.isOpReturn = false := by
        by_contra hop
        exact hnot ⟨t, ht, htxid, txout, hout, by simpa using hop⟩
      simp [hinserted, hop]

theorem executes_iff :
    (∃ S', executeBlock env height block.txdata S = .ok S') ↔ ¬ SpendsOwnOpReturn env block S := by
  rw [Pallet.executeBlock_total h.output_length_le]
  constructor
  · rintro hall ⟨pre, tx, post, o, hsplit, hne, ho, hbad⟩
    have htaken := h.taken_of_ne_nil hsplit hne
    exact (h.isSome_coinAfter_iff hsplit hne ho).mp
      ((hall pre tx post hsplit).2 o (htaken ▸ ho)) hbad
  · intro hnot pre tx post hsplit
    by_cases hne : pre = []
    · -- The coinbase takes nothing.
      subst hne
      obtain ⟨cb, rest, hcb, hcoinbase⟩ := h.sane.coinbase
      rw [hcb, List.nil_append, List.cons.injEq] at hsplit
      simp [takenOutPoints, ← hsplit.1, hcoinbase]
    · rw [h.taken_of_ne_nil hsplit hne]
      refine ⟨(h.sane.sane tx (by simp [hsplit])).nodup_spends, fun o ho => ?_⟩
      refine (h.isSome_coinAfter_iff hsplit hne ho).mpr fun hbad => ?_
      exact hnot ⟨pre, tx, post, o, hsplit, hne, ho, hbad⟩

theorem mem_blockSpends : o ∈ blockSpends block ↔ ∃ tx ∈ block.txdata, o ∈ takenOutPoints tx := by
  obtain ⟨cb, rest, hcb, hcoinbase⟩ := h.sane.coinbase
  have hrest : ∀ tx ∈ rest, takenOutPoints tx = tx.spends := by
    intro tx htx
    obtain ⟨l, l', hl⟩ := List.append_of_mem htx
    exact h.taken_of_ne_nil (show block.txdata = (cb :: l) ++ tx :: l' by rw [hcb, hl]; rfl)
      (List.cons_ne_nil cb l)
  simp only [blockSpends, hcb, List.tail_cons, List.mem_flatMap, List.exists_mem_cons_iff]
  constructor
  · rintro ⟨tx, htx, ho⟩
    exact Or.inr ⟨tx, htx, hrest tx htx ▸ ho⟩
  · rintro (ho | ⟨tx, htx, ho⟩)
    · simp [takenOutPoints, hcoinbase] at ho
    · exact ⟨tx, htx, hrest tx htx ▸ ho⟩

theorem not_created_after (hsplit : block.txdata = pre ++ tx :: post) {coin : Coin}
    (hcreated : createdCoin env height tx o = some coin) :
    ∀ t ∈ post, createdCoin env height t o = none := by
  intro t ht
  have htxid : o.txid = env.computeTxid tx := by
    by_contra hne
    simp [createdCoin, hne] at hcreated
  have hnodup := h.sane.nodup_txids
  rw [hsplit, List.map_append, List.map_cons] at hnodup
  have hfresh := (List.nodup_cons.mp (List.nodup_append.mp hnodup).2.1).1
  have hne : ¬ o.txid = env.computeTxid t := fun heq =>
    hfresh (List.mem_map.mpr ⟨t, ht, by rw [← heq, htxid]⟩)
  simp [createdCoin, hne]

/-- Outside the exception heights, execution leaves the coins the block prescribes. -/
theorem blockResult {S' : State} (hheight : height ∉ bip30ExceptionHeights)
    (hrun : executeBlock env height block.txdata S = .ok S') :
    BlockResult env height block S S' := by
  intro o coin
  have hins : ∀ tx, insertedCoin env height tx o = createdCoin env height tx o := by
    intro tx
    simp [insertedCoin, hheight]
  have huntouched : (∀ tx ∈ block.txdata, o ∉ takenOutPoints tx ∧
        createdCoin env height tx o = none) ↔
      o ∉ blockSpends block ∧ ∀ tx ∈ block.txdata, createdCoin env height tx o = none := by
    rw [h.mem_blockSpends]
    simp only [not_exists, not_and]
    exact forall₂_and
  -- after the transaction that created the coin only a spend can change it, as txids are distinct
  have hlast : ∀ {pre tx post}, block.txdata = pre ++ tx :: post →
      createdCoin env height tx o = some coin →
      ((∀ t ∈ post, o ∉ takenOutPoints t ∧ createdCoin env height t o = none) ↔
        ∀ t ∈ post, o ∉ t.spends) := by
    intro pre tx post hsplit hcreated
    refine forall₂_congr fun t ht => ?_
    obtain ⟨l, l', rfl⟩ := List.append_of_mem ht
    have htaken := h.taken_of_ne_nil
      (show block.txdata = (pre ++ tx :: l) ++ t :: l' by simp [hsplit]) (by simp)
    rw [htaken]
    exact ⟨fun hboth => hboth.1, fun hs => ⟨hs, h.not_created_after hsplit hcreated t ht⟩⟩
  rw [Pallet.coin_executePrefix h.output_length_le hrun, Pallet.coinAfter_eq_some]
  simp only [hins, huntouched]
  refine or_congr Iff.rfl ⟨?_, ?_⟩
  · rintro ⟨pre, tx, post, hsplit, hcreated, hpost⟩
    exact ⟨pre, tx, post, hsplit, hcreated, (hlast hsplit hcreated).mp hpost⟩
  · rintro ⟨pre, tx, post, hsplit, hcreated, hpost⟩
    exact ⟨pre, tx, post, hsplit, hcreated, (hlast hsplit hcreated).mpr hpost⟩

end

end ExecutableBlock

/-- **Verifier and runtime agree.** Executing a block that full verification accepted against the
state `S`, with any script engine, returns, and outside the exception heights leaves the coins the
block prescribes, if and only if the block spends none of its own `OP_RETURN` outputs. -/
theorem accepted_block_executes_iff (nenv : NodeEnv SE)
    (hsize : ∀ tx, tx.output.length ≤ nenv.baseSize tx) (v : BlockVerifier) (build : Build)
    (c : Client) (now blockNumber : Nat) (block : Block) (S : State)
    (hfull : v.blockVerification = .full) (hview : utxoView build c blockNumber = S.coin)
    (hok : verifyBlock nenv v build c now blockNumber block = .ok ()) :
    (∃ S', executeBlock nenv.toEnv blockNumber block.txdata S = .ok S' ∧
        (blockNumber ∉ bip30ExceptionHeights →
          BlockResult nenv.toEnv blockNumber block S S')) ↔
      ¬ SpendsOwnOpReturn nenv.toEnv block S := by
  have hexec := executableBlock_of_accepted hsize hfull hview hok
  rw [← hexec.executes_iff]
  constructor
  · rintro ⟨S', hrun, _⟩
    exact ⟨S', hrun⟩
  · rintro ⟨S', hrun⟩
    exact ⟨S', hrun, fun hheight => hexec.blockResult hheight hrun⟩

/-! ## A block that spends its own `OP_RETURN` output -/

namespace AgreementSample

open Reference

def verifier : BlockVerifier := ⟨ChainParams.new paramsOf .bitcoin, .full, .none⟩

def coinAt : OutPoint := ⟨⟨Hash256.ofNat 77⟩, 0⟩

def state : State :=
  { coins := (∅ : Pallet.Coins).insert (Runtime.OutPoint.ofBitcoin coinAt) ⟨false, 1000, 0, [0x51]⟩
    coinsCount := 1 }

def client : Client := Client.genesis env genesisBlock state

def first (script : List UInt8) : Transaction := transaction [input coinAt []] [⟨900, script⟩]

def second (script : List UInt8) : Transaction :=
  transaction [input ⟨env.computeTxid (first script), 0⟩ []] [⟨800, [0x51]⟩]

def chainedBlock (script : List UInt8) : Block :=
  block (env.hashOf genesisBlock) 1231006600 0x1d00ffff 7
    [coinbase [1, 1] 5000000000, first script, second script]

end AgreementSample

open Reference AgreementSample in
/-- A block whose second transaction spends an `OP_RETURN` output of its first is accepted, and the
runtime panics on it. -/
theorem op_return_spend_panics :
    utxoView ⟨false⟩ client 1 = state.coin ∧
      verifyBlock env verifier ⟨false⟩ client 1231006700 1 (chainedBlock [0x6a]) = .ok () ∧
      (executeBlock env.toEnv 1 (chainedBlock [0x6a]).txdata state).isPanic = true :=
  ⟨utxoView_genesis env ⟨false⟩ genesisBlock state, by decide +kernel, by decide +kernel⟩

open Reference AgreementSample in
/-- With a script that can be spent, the same block executes as prescribed. -/
theorem chained_spend_executes :
    ∃ S', executeBlock env.toEnv 1 (chainedBlock [0x51]).txdata state = .ok S' ∧
      (1 ∉ bip30ExceptionHeights → BlockResult env.toEnv 1 (chainedBlock [0x51]) state S') := by
  have hsize : ∀ tx, tx.output.length ≤ env.baseSize tx := output_length_le_baseSize
  have hview := utxoView_genesis env ⟨false⟩ genesisBlock state
  have hok : verifyBlock env verifier ⟨false⟩ client 1231006700 1 (chainedBlock [0x51]) =
      .ok () := by
    decide +kernel
  refine (accepted_block_executes_iff env hsize verifier ⟨false⟩ client 1231006700 1
    (chainedBlock [0x51]) state rfl hview hok).mpr ?_
  -- No output of the block is an `OP_RETURN` output.
  rintro ⟨pre, tx, post, o, hsplit, _, _, _, t, ht, _, txout, hout, hop⟩
  have hmem : t ∈ (chainedBlock [0x51]).txdata := by simp [hsplit, ht]
  have hnone : ∀ t ∈ (chainedBlock [0x51]).txdata, ∀ out ∈ t.output, out.isOpReturn = false := by
    decide +kernel
  have := hnone t hmem txout (List.mem_of_getElem? hout)
  simp [this] at hop

end Subcoin
