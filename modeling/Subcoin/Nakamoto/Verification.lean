import Subcoin.Nakamoto.HeaderVerify
import Subcoin.Nakamoto.TxVerify
import Subcoin.Primitives.Consensus

/-!
# Subcoin — block verification

`BlockVerifier` as the node runs it: `checkBlockSanity`, then according to the verification level
the header and the transactions. The two loops of `verify_transactions` are `Loop.forEnum` loops
over the transactions of the block and over the inputs of a transaction; each body is a function of
its own.
-/

namespace Subcoin

/-- Who verifies scripts: Bitcoin Core, nobody, or the interpreter here. -/
inductive ScriptEngine where
  | core
  | none
  | subcoin
deriving DecidableEq, Repr

/-- How much of a block is verified. -/
inductive BlockVerification where
  | none
  | full
  | headerOnly
deriving DecidableEq, Repr

/-- The place of a transaction, for error texts. -/
structure TransactionContext where
  blockNumber : Nat
  txIndex : Nat
  txid : Txid
deriving DecidableEq

/-- `verification::Error`. Encoding a transaction into a byte vector does not fail, so the codec
variant is left out. -/
inductive VerifyError (SE : Type) where
  | badMerkleRoot (blockHash : BlockHash)
  | emptyTransactionList (blockHash : BlockHash)
  | blockTooLarge (blockHash : BlockHash)
  | firstTransactionIsNotCoinbase (blockHash : BlockHash)
  | multipleCoinbase (blockHash : BlockHash)
  | badCoinbaseBlockHeight (blockHash : BlockHash) (got expected : Nat)
  | prematureSpendOfCoinbase (blockHash : BlockHash)
  | duplicateTransaction (blockHash : BlockHash) (index : Nat)
  | transactionNotFinal (blockHash : BlockHash)
  | tooManySigOps (blockHash : BlockHash) (blockNumber : Nat)
  | badWitnessCommitment (blockHash : BlockHash)
  | missingUtxoInState (blockHash : BlockHash) (context : TransactionContext)
      (missingUtxo : OutPoint)
  | alreadySpentInCurrentBlock (blockHash : BlockHash) (blockNumber : Nat) (txid : Txid)
      (utxo : OutPoint)
  | insufficientFunds (blockHash : BlockHash) (valueIn valueOut : Nat)
  | invalidBlockReward (blockHash : BlockHash)
  | invalidScript (blockHash : BlockHash) (context : TransactionContext) (inputIndex : Nat)
      (error : SE)
  | bip34 (blockHash : BlockHash) (err : Bip34Error)
  | bitcoinConsensus (err : ConsensusError)
  | client (err : ClientError)
  | transaction (err : TxError)
  | header (err : HeaderError)
deriving DecidableEq

/-- The settings of a verifier. -/
structure BlockVerifier where
  chainParams : ChainParams
  blockVerification : BlockVerification
  scriptEngine : ScriptEngine

variable {SE : Type} (env : Env SE)

/-! ## Preliminary checks -/

/-- The size without witnesses. -/
def blockBaseSize (block : Block) : Nat :=
  headerSize + varIntSize block.txdata.length + (block.txdata.map env.baseSize).sum

/-- What the loop of `check_block_sanity` accumulates. The set of seen txids and the map from index
to txid hold the same txids. -/
structure SanityState where
  txids : List Txid
  sigOps : Nat
deriving DecidableEq

/-- One transaction of the loop. -/
def checkTxSanity (block : Block) (s : SanityState) (index : Nat) (tx : Transaction) :
    Outcome (VerifyError SE) SanityState := do
  Outcome.errIf (0 < index && tx.isCoinbase) (.multipleCoinbase (env.hashOf block))
  let txid := env.computeTxid tx
  Outcome.errIf (txid ∈ s.txids) (.duplicateTransaction (env.hashOf block) index)
  (checkTransactionSanity env tx).mapErr .transaction
  pure ⟨s.txids ++ [txid], s.sigOps + getLegacySigOpCount env tx⟩

/-- What can be checked without a state; returns the txids. -/
def checkBlockSanity (blockNumber : Nat) (block : Block) :
    Outcome (VerifyError SE) (List Txid) := do
  let blockHash := env.hashOf block
  Outcome.errIf block.txdata.isEmpty (.emptyTransactionList blockHash)
  -- Size limits, without tx witness data.
  Outcome.errIf
    (maxBlockWeight < block.txdata.length * witnessScaleFactor ||
      maxBlockWeight < blockBaseSize env block * witnessScaleFactor)
    (.blockTooLarge blockHash)
  Outcome.errIf (!(block.txdata.head?.map Transaction.isCoinbase).getD false)
    (.firstTransactionIsNotCoinbase blockHash)
  let s ← Loop.forEnum (checkTxSanity env block) block.txdata ⟨[], 0⟩
  Outcome.errIf (maxBlockSigopsCost < s.sigOps * witnessScaleFactor)
    (.tooManySigOps blockHash blockNumber)
  Outcome.errIf (env.calculateRoot s.txids ≠ some block.header.merkleRoot)
    (.badMerkleRoot blockHash)
  pure s.txids

/-! ## Transactions -/

/-- What is fixed while the transactions of a block are verified: the verifier, the build it was
compiled with, the state of the parent block and the results of the earlier checks. -/
structure TxsContext where
  verifier : BlockVerifier
  build : Build
  /-- `find_utxo_in_state` at the hash the parent number resolves to. -/
  findUtxoInState : OutPoint → Option Coin
  blockNumber : Nat
  block : Block
  txids : List Txid
  lockTimeCutoff : Nat

namespace TxsContext

variable (ctx : TxsContext)

def getTxid (txIndex : Nat) : Outcome (VerifyError SE) Txid :=
  Outcome.expect ctx.txids[txIndex]?
    "Txid must exist as initialized in `check_block_sanity()`; qed"

def txContext (txIndex : Nat) : Outcome (VerifyError SE) TransactionContext := do
  let txid ← ctx.getTxid txIndex
  pure ⟨ctx.blockNumber, txIndex, txid⟩

/-- The script flags of the block's height. -/
def flags : Nat :=
  getBlockScriptFlags ctx.blockNumber (env.hashOf ctx.block) ctx.verifier.chainParams

/-- The search of `find_utxo_in_current_block`, from index `index` on. -/
def findTransaction (txid : Txid) :
    Nat → List Transaction → Outcome (VerifyError SE) (Option (Transaction × Bool))
  | _, [] => pure none
  | index, tx :: txs => do
    let id ← ctx.getTxid index
    if id = txid then pure (some (tx, index = 0)) else findTransaction txid (index + 1) txs

/-- An output of a transaction before this one. -/
def findUtxoInCurrentBlock (outPoint : OutPoint) (txIndex : Nat) :
    Outcome (VerifyError SE) (Option (TxOut × Bool)) := do
  let found ← ctx.findTransaction outPoint.txid 0 (ctx.block.txdata.take txIndex)
  pure (found.bind fun (tx, isCoinbase) =>
    (tx.output[outPoint.vout]?).map fun txout => (txout, isCoinbase))

/-- The `access_coin` closure: the output, whether it is a coinbase's, and its height. -/
def accessCoin (txIndex : Nat) (outPoint : OutPoint) :
    Outcome (VerifyError SE) (TxOut × Bool × Nat) := do
  let maybeCoin ←
    match ctx.findUtxoInState outPoint with
    | some coin => pure (some (⟨coin.amount, coin.scriptPubkey⟩, coin.isCoinbase, coin.height))
    | none => do
      let found ← ctx.findUtxoInCurrentBlock outPoint txIndex
      pure (found.map fun (txout, isCoinbase) => (txout, isCoinbase, ctx.blockNumber))
  match maybeCoin with
  | some coin => pure coin
  | none => do
    let context ← ctx.txContext txIndex
    Outcome.err (.missingUtxoInState (env.hashOf ctx.block) context outPoint)

/-- `VerifyFlags::from_bits`: the bits up to `2 ^ 20` are flags, any other bit is refused. -/
def verifyFlagsFromBits (bits : Nat) : Option Nat := if bits < 2 ^ 21 then some bits else none

/-- The script check of an input, by the configured engine. -/
def verifyScript (txIndex : Nat) (tx : Transaction) (inputIndex : Nat) (input : TxIn)
    (spentOutput : TxOut) : Outcome (VerifyError SE) Unit :=
  match ctx.verifier.scriptEngine with
  | .core =>
    (verifyInputScript env spentOutput tx inputIndex (ctx.flags env)).mapErr .bitcoinConsensus
  | .none => pure ()
  | .subcoin => do
    let verifyFlags ← Outcome.expect (verifyFlagsFromBits (ctx.flags env)) "Invalid flags"
    match env.verifyScript input.scriptSig spentOutput.scriptPubkey input.witness verifyFlags
      tx inputIndex spentOutput.value with
    | .ok () => pure ()
    | .err error => do
      let context ← ctx.txContext txIndex
      Outcome.err (.invalidScript (env.hashOf ctx.block) context inputIndex error)
    | .panic msg => .panic msg

/-- What the loop over the inputs carries along. -/
structure InputState where
  spentCoinsInBlock : List OutPoint
  valueIn : Nat
deriving DecidableEq

/-- The age of a coinbase output; the subtraction can underflow. -/
def checkMaturity (isCoinbase : Bool) (coinHeight : Nat) : Outcome (VerifyError SE) Unit :=
  if isCoinbase then do
    let age ← ctx.build.sub 32 ctx.blockNumber coinHeight
    Outcome.errIf (age < coinbaseMaturity) (.prematureSpendOfCoinbase (env.hashOf ctx.block))
  else pure ()

/-- One input: where its coin is, whether it may be spent, and the script. -/
def checkInput (txIndex : Nat) (tx : Transaction) (s : InputState) (inputIndex : Nat)
    (input : TxIn) : Outcome (VerifyError SE) InputState := do
  let coin := input.previousOutput
  if coin ∈ s.spentCoinsInBlock then do
    let txid ← ctx.getTxid txIndex
    Outcome.err
      (.alreadySpentInCurrentBlock (env.hashOf ctx.block) ctx.blockNumber txid coin)
  else do
    -- Access coin.
    let (spentOutput, isCoinbase, coinHeight) ← ctx.accessCoin env txIndex coin
    -- If coin is coinbase, check that it's matured.
    ctx.checkMaturity env isCoinbase coinHeight
    ctx.verifyScript env txIndex tx inputIndex input spentOutput
    let valueIn ← ctx.build.add 64 s.valueIn spentOutput.value
    pure ⟨coin :: s.spentCoinsInBlock, valueIn⟩

/-- `iter().sum::<u64>()` over the values of outputs. -/
def sumValues (build : Build) (outs : List TxOut) : Outcome (VerifyError SE) Nat :=
  Loop.forEnum (fun acc _ (txout : TxOut) => build.add 64 acc txout.value) outs 0

/-- The lookup passed to `total_sigop_cost`. -/
def spentOutputOf (txIndex : Nat) (outPoint : OutPoint) : Option TxOut :=
  match ctx.accessCoin env txIndex outPoint with
  | .ok (txout, _, _) => some txout
  | _ => none

/-- What the loop over the transactions carries along. -/
structure BlockState where
  blockFee : Nat
  spentCoinsInBlock : List OutPoint
deriving DecidableEq

/-- The first transaction: the coinbase starts with the serialized block height (BIP 34). -/
def checkCoinbaseHeight : Outcome (VerifyError SE) Unit :=
  if ctx.verifier.chainParams.params.bip34Height ≤ ctx.blockNumber then
    match env.bip34BlockHeight ctx.block with
    | .error err => .err (.bip34 (env.hashOf ctx.block) err)
    | .ok height =>
      let got := height % 2 ^ 32
      Outcome.errIf (got ≠ ctx.blockNumber)
        (.badCoinbaseBlockHeight (env.hashOf ctx.block) got ctx.blockNumber)
  else pure ()

/-- What goes in and does not come out. -/
def txFee (valueIn valueOut : Nat) : Outcome (VerifyError SE) Nat :=
  if valueOut ≤ valueIn then .ok (valueIn - valueOut)
  else .err (.insufficientFunds (env.hashOf ctx.block) valueIn valueOut)

/-- A transaction other than the first one; its cost alone is compared with the limit. -/
def checkTransaction (s : BlockState) (txIndex : Nat) (tx : Transaction) :
    Outcome (VerifyError SE) BlockState := do
  Outcome.errIf (!isFinalTx tx ctx.blockNumber ctx.lockTimeCutoff)
    (.transactionNotFinal (env.hashOf ctx.block))
  -- CheckTxInputs.
  let inputs ←
    Loop.forEnum (ctx.checkInput env txIndex tx) tx.input ⟨s.spentCoinsInBlock, 0⟩
  let sigOpsCost := env.totalSigopCost tx (ctx.spentOutputOf env txIndex)
  Outcome.errIf (maxBlockSigopsCost < sigOpsCost)
    (.tooManySigOps (env.hashOf ctx.block) ctx.blockNumber)
  let valueOut ← sumValues ctx.build tx.output
  -- Total input value must be no less than total output value.
  let fee ← ctx.txFee env inputs.valueIn valueOut
  let blockFee ← ctx.build.add 64 s.blockFee fee
  pure ⟨blockFee, inputs.spentCoinsInBlock⟩

/-- The first transaction is the coinbase. -/
def checkBlockTransaction (s : BlockState) (txIndex : Nat) (tx : Transaction) :
    Outcome (VerifyError SE) BlockState :=
  if txIndex = 0 then do
    ctx.checkCoinbaseHeight env
    pure s
  else ctx.checkTransaction env s txIndex tx

/-- The loop over the transactions and the check of the block reward. -/
def verifyTransactions : Outcome (VerifyError SE) Unit := do
  let s ← Loop.forEnum (ctx.checkBlockTransaction env) ctx.block.txdata ⟨0, []⟩
  let coinbase ←
    Outcome.expect ctx.block.txdata.head? "index out of bounds: the len is 0 but the index is 0"
  let coinbaseValue ← sumValues ctx.build coinbase.output
  let subsidy := bitcoinBlockSubsidy ctx.blockNumber
  -- Ensures no inflation.
  let allowed ← ctx.build.add 64 s.blockFee subsidy
  Outcome.errIf (allowed < coinbaseValue) (.invalidBlockReward (env.hashOf ctx.block))

end TxsContext

/-! ## The block -/

variable (nenv : NodeEnv SE)

/-- `verify_transactions`: the parent state is looked up by number, then the transactions are
checked against it. -/
def verifyTransactions (v : BlockVerifier) (build : Build) (c : Client) (blockNumber : Nat)
    (block : Block) (txids : List Txid) (lockTimeCutoff : Nat) :
    Outcome (VerifyError SE) Unit := do
  let parentNumber ← build.sub 32 blockNumber 1
  let parentHash ←
    Outcome.okOr (c.hash parentNumber)
      (.client (.backend s!"Parent block #{parentNumber} not found"))
  TxsContext.verifyTransactions nenv.toEnv
    { verifier := v
      build := build
      findUtxoInState := c.coinAt parentHash
      blockNumber := blockNumber
      block := block
      txids := txids
      lockTimeCutoff := lockTimeCutoff }

/-- What needs the chain, by the level of verification. -/
def contextualCheckBlock (v : BlockVerifier) (build : Build) (c : Client) (now blockNumber : Nat)
    (block : Block) (txids : List Txid) : Outcome (VerifyError SE) Unit :=
  match v.blockVerification with
  | .full => do
    let lockTimeCutoff ← (verifyHeader nenv build c v.chainParams now block.header).mapErr .header
    Outcome.errIf
      (v.chainParams.segwitHeight ≤ blockNumber && !nenv.checkWitnessCommitment block)
      (.badWitnessCommitment (nenv.hashOf block))
    -- Check the block weight with witness data.
    Outcome.errIf (maxBlockWeight < nenv.weight block) (.blockTooLarge (nenv.hashOf block))
    verifyTransactions nenv v build c blockNumber block txids lockTimeCutoff
  | .headerOnly => do
    let _ ← (verifyHeader nenv build c v.chainParams now block.header).mapErr .header
    pure ()
  | .none => pure ()

/-- Sanity first, then the rules that need the chain. -/
def verifyBlock (v : BlockVerifier) (build : Build) (c : Client) (now blockNumber : Nat)
    (block : Block) : Outcome (VerifyError SE) Unit := do
  let txids ← checkBlockSanity nenv.toEnv blockNumber block
  contextualCheckBlock nenv v build c now blockNumber block txids

end Subcoin
