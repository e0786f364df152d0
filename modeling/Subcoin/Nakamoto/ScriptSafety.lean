import Subcoin.Nakamoto.Accepted
import Subcoin.Reference

/-!
# Subcoin — scripts of accepted blocks

What full verification with the `bitcoinconsensus` engine says about the scripts of a block. Each
input of an accepted block went through one library call, and `verifyInputScript` lets a call pass
that reported a failed evaluation; so the calls all succeeded exactly when none reported one.
-/

namespace Subcoin

variable {SE : Type}

/-- `input` is the input at `inputIndex` of the transaction `tx`, which follows the transactions
`pre` in the block and is not its first. -/
def BlockInput (block : Block) (pre : List Transaction) (tx : Transaction) (inputIndex : Nat)
    (input : TxIn) : Prop :=
  (∃ post, block.txdata = pre ++ tx :: post) ∧ pre ≠ [] ∧
    ∃ l l', tx.input = l ++ input :: l' ∧ l.length = inputIndex

variable {inputIndex : Nat} {pre : List Transaction} {tx : Transaction}

theorem BlockInput.of_pair {block : Block} {cb tx1 : Transaction} {txin : TxIn}
    (htxs : block.txdata = [cb, tx1]) (hin : tx1.input = [txin]) {input : TxIn}
    (h : BlockInput block pre tx inputIndex input) :
    pre = [cb] ∧ tx = tx1 ∧ inputIndex = 0 ∧ input = txin := by
  obtain ⟨⟨post, hsplit⟩, hne, l, l', hl, rfl⟩ := h
  rw [htxs] at hsplit
  match pre, hne with
  | [a], _ =>
    simp only [List.cons_append, List.nil_append, List.cons.injEq] at hsplit
    obtain ⟨rfl, rfl, rfl⟩ := hsplit
    rw [hin] at hl
    cases l with
    | nil => simp_all
    | cons b l => simp at hl
  | a :: b :: pre, _ => simp at hsplit

/-- The `bitcoinconsensus` call for an input of a block, on the coin it spends, returned `r`. -/
def ConsensusCallReturned (nenv : NodeEnv SE) (v : BlockVerifier) (build : Build) (c : Client)
    (blockNumber : Nat) (block : Block) (pre : List Transaction) (tx : Transaction)
    (inputIndex : Nat) (input : TxIn) (r : Except ConsensusError Unit) : Prop :=
  ∃ txout cb height,
    coinBefore nenv.toEnv (utxoView build c blockNumber) blockNumber pre input.previousOutput =
        some (txout, cb, height) ∧
      consensusCall nenv.toEnv txout tx inputIndex
        (getBlockScriptFlags blockNumber (nenv.hashOf block) v.chainParams) = r

theorem ConsensusCallReturned.unique {nenv : NodeEnv SE} {v : BlockVerifier} {build : Build}
    {c : Client} {blockNumber : Nat} {block : Block} {input : TxIn}
    {r r' : Except ConsensusError Unit}
    (h : ConsensusCallReturned nenv v build c blockNumber block pre tx inputIndex input r)
    (h' : ConsensusCallReturned nenv v build c blockNumber block pre tx inputIndex input r') :
    r = r' := by
  obtain ⟨txout, cb, height, hcoin, rfl⟩ := h
  obtain ⟨txout', cb', height', hcoin', rfl⟩ := h'
  rw [hcoin, Option.some.injEq, Prod.mk.injEq] at hcoin'
  rw [hcoin'.1]

/-- With the `bitcoinconsensus` engine, every input of an accepted block went through a call that
either succeeded or reported a failed script. -/
theorem consensusCall_of_accepted {nenv : NodeEnv SE} {v : BlockVerifier} {build : Build}
    {c : Client} {now blockNumber : Nat} {block : Block} (hfull : v.blockVerification = .full)
    (hcore : v.scriptEngine = .core)
    (hok : verifyBlock nenv v build c now blockNumber block = .ok ()) {input : TxIn}
    (hinput : BlockInput block pre tx inputIndex input) :
    ConsensusCallReturned nenv v build c blockNumber block pre tx inputIndex input (.ok ()) ∨
      ConsensusCallReturned nenv v build c blockNumber block pre tx inputIndex input
        (.error .errScript) := by
  obtain ⟨_, cutoff, _, htxs⟩ := verifyBlock_full hfull hok
  obtain ⟨⟨post, hsplit⟩, hne, l, l', hl, rfl⟩ := hinput
  have hctx := txidsComplete_txsContext nenv v build c blockNumber block cutoff
  obtain ⟨txout, ⟨cb, height, hcoin, _⟩, hscript⟩ :=
    ((TxsContext.verifyTransactions_spec hctx htxs).1 hsplit hne).inputs hl
  have hengine : (txsContext nenv v build c blockNumber block cutoff).verifier.scriptEngine =
      .core := hcore
  simp only [TxsContext.verifyScript, hengine, Outcome.mapErr_eq_ok,
    verifyInputScript_eq_ok] at hscript
  rcases hscript with hcall | hcall
  · exact Or.inl ⟨txout, cb, height, hcoin, hcall⟩
  · exact Or.inr ⟨txout, cb, height, hcoin, hcall⟩

/-- **Scripts of an accepted block.** The library calls for the inputs of a block accepted with the
`bitcoinconsensus` engine all returned `Ok` if and only if none returned `ERR_SCRIPT`. -/
theorem accepted_scripts_ok_iff (nenv : NodeEnv SE) (v : BlockVerifier) (build : Build) (c : Client)
    (now blockNumber : Nat) (block : Block) (hfull : v.blockVerification = .full)
    (hcore : v.scriptEngine = .core)
    (hok : verifyBlock nenv v build c now blockNumber block = .ok ()) :
    (∀ pre tx inputIndex input, BlockInput block pre tx inputIndex input →
        ConsensusCallReturned nenv v build c blockNumber block pre tx inputIndex input (.ok ())) ↔
      ∀ pre tx inputIndex input, BlockInput block pre tx inputIndex input →
        ¬ ConsensusCallReturned nenv v build c blockNumber block pre tx inputIndex input
          (.error .errScript) := by
  constructor
  · intro hall pre tx inputIndex input hinput hfail
    have := (hall pre tx inputIndex input hinput).unique hfail
    cases this
  · intro hnone pre tx inputIndex input hinput
    rcases consensusCall_of_accepted hfull hcore hok hinput with hcall | hcall
    · exact hcall
    · exact absurd hcall (hnone pre tx inputIndex input hinput)

/-! ## A block with a failing script -/

namespace ScriptSample

open Reference

def verifier : BlockVerifier :=
  ⟨ChainParams.new paramsOf .bitcoin, .full, .core⟩

/-- Two coins: the script of the first evaluates to false, that of the second to true. -/
def coinAt (vout : Nat) : OutPoint := ⟨⟨Hash256.ofNat 77⟩, vout⟩

def state : Pallet.State :=
  { coins :=
      ((∅ : Pallet.Coins).insert (Runtime.OutPoint.ofBitcoin (coinAt 0)) ⟨false, 1000, 0, [0x00]⟩
        ).insert (Runtime.OutPoint.ofBitcoin (coinAt 1)) ⟨false, 1000, 0, [0x51]⟩
    coinsCount := 2 }

def client : Client := Client.genesis env genesisBlock state

def spend (vout : Nat) : Transaction := transaction [input (coinAt vout) []] [⟨900, [0x51]⟩]

def spendingBlock (vout : Nat) : Block :=
  block (env.hashOf genesisBlock) 1231006600 0x1d00ffff 7
    [coinbase [1, 1] 5000000100, spend vout]

end ScriptSample

open Reference ScriptSample in
/-- The block that spends the first coin is accepted although the call for its input failed. -/
theorem failing_script_accepted :
    verifyBlock env verifier ⟨false⟩ client 1231006700 1 (spendingBlock 0) = .ok () ∧
      ¬ ∀ pre tx inputIndex txin, BlockInput (spendingBlock 0) pre tx inputIndex txin →
        ConsensusCallReturned env verifier ⟨false⟩ client 1 (spendingBlock 0) pre tx inputIndex
          txin (.ok ()) := by
  refine ⟨by decide +kernel, fun hall => ?_⟩
  have hinput : BlockInput (spendingBlock 0) [coinbase [1, 1] 5000000100] (spend 0) 0
      (input (coinAt 0) []) :=
    ⟨⟨[], rfl⟩, by simp, [], [], rfl, rfl⟩
  have hfail : ConsensusCallReturned env verifier ⟨false⟩ client 1 (spendingBlock 0)
      [coinbase [1, 1] 5000000100] (spend 0) 0 (input (coinAt 0) []) (.error .errScript) :=
    ⟨⟨1000, [0x00]⟩, false, 0, by decide +kernel, rfl⟩
  have := (hall _ _ _ _ hinput).unique hfail
  cases this

open Reference ScriptSample in
/-- The block that spends the second coin is accepted, and its call did not fail. -/
theorem accepted_scripts_ok_second_coin :
    verifyBlock env verifier ⟨false⟩ client 1231006700 1 (spendingBlock 1) = .ok () ∧
      ∀ pre tx inputIndex txin, BlockInput (spendingBlock 1) pre tx inputIndex txin →
        ConsensusCallReturned env verifier ⟨false⟩ client 1 (spendingBlock 1) pre tx inputIndex
          txin (.ok ()) := by
  have hok : verifyBlock env verifier ⟨false⟩ client 1231006700 1 (spendingBlock 1) = .ok () := by
    decide +kernel
  refine ⟨hok, (accepted_scripts_ok_iff env verifier ⟨false⟩ client 1231006700 1 (spendingBlock 1)
    rfl rfl hok).mpr ?_⟩
  intro pre tx inputIndex txin hinput hfail
  obtain ⟨rfl, rfl, rfl, rfl⟩ := hinput.of_pair rfl rfl
  have hcall : ConsensusCallReturned env verifier ⟨false⟩ client 1 (spendingBlock 1)
      [coinbase [1, 1] 5000000100] (spend 1) 0 (input (coinAt 1) []) (.ok ()) :=
    ⟨⟨1000, [0x51]⟩, false, 0, by decide +kernel, rfl⟩
  have := hcall.unique hfail
  cases this

end Subcoin
