import Subcoin.Bitcoin.Env
import Subcoin.Nakamoto.ChainParams

/-!
# Subcoin — transaction and script checks

The leaf functions of block verification: finality and legacy signature operation counting of a
transaction (`tx_verify`), and the script flags and the `bitcoinconsensus` call of an input
(`script_verify`). `verifyInputScript` lets two results of the library through, a success and
`ERR_SCRIPT`; `verifyInputScript_eq_ok` records that.
-/

namespace Subcoin

/-! ## Transactions -/

def isFinalTx (tx : Transaction) (height blockTime : Nat) : Bool :=
  if tx.lockTime = LockTime.zero then true
  else
    let lockTime :=
      if tx.lockTime.toConsensusU32 < lockTimeThreshold then height else blockTime
    if tx.lockTime.toConsensusU32 < lockTime then true
    else tx.input.all TxIn.isFinal

def getLegacySigOpCount {SE : Type} (env : Env SE) (tx : Transaction) : Nat :=
  (tx.input.map fun txin => env.countSigopsLegacy txin.scriptSig).sum +
    (tx.output.map fun txout => env.countSigopsLegacy txout.scriptPubkey).sum

/-! ## Scripts -/

def getBlockScriptFlags (height : Nat) (blockHash : BlockHash) (chainParams : ChainParams) : Nat :=
  match chainParams.scriptFlagExceptions.lookup blockHash with
  | some flag => flag
  | none =>
    let flags := verifyP2sh ||| verifyWitness
    -- Enforce the DERSIG (BIP66) rule
    let flags := if chainParams.params.bip66Height ≤ height then flags ||| verifyDersig else flags
    -- Enforce CHECKLOCKTIMEVERIFY (BIP65)
    let flags :=
      if chainParams.params.bip65Height ≤ height then flags ||| verifyChecklocktimeverify
      else flags
    -- Enforce CHECKSEQUENCEVERIFY (BIP112)
    let flags :=
      if chainParams.csvHeight ≤ height then flags ||| verifyChecksequenceverify else flags
    -- Enforce BIP147 NULLDUMMY (activated simultaneously with segwit)
    if chainParams.segwitHeight ≤ height then flags ||| verifyNulldummy else flags

def consensusCall {SE : Type} (env : Env SE) (spentOutput : TxOut) (tx : Transaction)
    (inputIndex flags : Nat) : Except ConsensusError Unit :=
  env.verifyWithFlags spentOutput.scriptPubkey spentOutput.value (env.consensusEncode tx)
    inputIndex flags

/-- `verify_input_script`, on the serialized spending transaction. -/
def verifyInputScript {SE : Type} (env : Env SE) (spentOutput : TxOut) (tx : Transaction)
    (inputIndex flags : Nat) : Outcome ConsensusError Unit :=
  match consensusCall env spentOutput tx inputIndex flags with
  | .ok () | .error .errScript => .ok ()
  | .error scriptError => .err scriptError

theorem verifyInputScript_eq_ok {SE : Type} {env : Env SE} {spentOutput : TxOut}
    {tx : Transaction} {inputIndex flags : Nat} :
    verifyInputScript env spentOutput tx inputIndex flags = .ok () ↔
      consensusCall env spentOutput tx inputIndex flags = .ok () ∨
        consensusCall env spentOutput tx inputIndex flags = .error .errScript := by
  unfold verifyInputScript
  cases hcall : consensusCall env spentOutput tx inputIndex flags with
  | ok u => simp
  | error e =>
    cases e with
    | errScript => simp
    | other code => simp

end Subcoin
