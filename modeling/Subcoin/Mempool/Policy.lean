import Subcoin.Mempool.Types
import Subcoin.Script.Solver

/-!
# Subcoin — the standardness policy

`isStandardTx` with its checks in the order of the source. Dust is judged by an estimate of the
size of the input that would spend the output.
-/

namespace Subcoin.Mempool

open Script

/-- Why a transaction is not standard. -/
inductive StandardTxError where
  | version
  | txSizeTooLarge
  | txSizeTooSmall
  | scriptsigSize
  | dust
  | multiOpReturn
  | bareMultisig
  | scriptsigNotPushonly
  | scriptPubkey
deriving DecidableEq, Repr

def StandardTxError.debug : StandardTxError → String
  | .version => "Version"
  | .txSizeTooLarge => "TxSizeTooLarge"
  | .txSizeTooSmall => "TxSizeTooSmall"
  | .scriptsigSize => "ScriptsigSize"
  | .dust => "Dust"
  | .multiOpReturn => "MultiOpReturn"
  | .bareMultisig => "BareMultisig"
  | .scriptsigNotPushonly => "ScriptsigNotPushonly"
  | .scriptPubkey => "ScriptPubkey"

def txMaxStandardVersion : Int := 3

def maxStandardTxWeight : Nat := 400000

def maxStandardScriptsigSize : Nat := 1650

def minStandardTxNonwitnessSize : Nat := 65

/-- By the type of the output script. -/
def isStandard (whichType : TxoutType) (scriptPubkey : List UInt8) (maxDatacarrierBytes : Nat) :
    Bool :=
  match whichType with
  | .nonStandard => false
  | .multisig m n _ => !(n < 1 || 3 < n) && !(m < 1 || n < m)
  | .nullData => !(0 < maxDatacarrierBytes && maxDatacarrierBytes < scriptPubkey.length)
  | _ => true

/-- The size of an input that spends an output of the type. -/
def spendVbytes : TxoutType → Int
  | .witnessV0KeyHash _ => 68
  | .witnessV0ScriptHash _ => 104
  | .scriptHash _ => 91
  | .witnessV1Taproot _ => 58
  | _ => 148

variable {SE : Type} (env : PoolEnv SE)

/-- What it costs to spend the output, at the dust rate. -/
def getDustThreshold {ε : Type} (txout : TxOut) (dustRelayFeerate : FeeRate) : Outcome ε Nat := do
  let whichType ← solve env.p2pkPublicKey txout.scriptPubkey
  dustRelayFeerate.getFee (spendVbytes whichType)

/-- Less than its spending costs. -/
def isDust {ε : Type} (output : TxOut) (dustRelayFeerate : FeeRate) : Outcome ε Bool := do
  let dustThreshold ← getDustThreshold env output dustRelayFeerate
  pure (output.value < dustThreshold)

/-- A small script that only pushes. -/
def checkStandardInput (_ : Unit) (_ : Nat) (txin : TxIn) : Outcome StandardTxError Unit := do
  Outcome.errIf (maxStandardScriptsigSize < txin.scriptSig.length) .scriptsigSize
  Outcome.errIf (!isPushOnly txin.scriptSig) .scriptsigNotPushonly

/-- The number of data outputs with this one, at most one of which is permitted. -/
def countDataOut (permitBareMultisig : Bool) (dataOut : Nat) :
    TxoutType → Outcome StandardTxError Nat
  | .nullData => do
    Outcome.errIf (1 < dataOut + 1) .multiOpReturn
    pure (dataOut + 1)
  | .multisig _ _ _ => do
    Outcome.errIf (!permitBareMultisig) .bareMultisig
    pure dataOut
  | _ => pure dataOut

/-- A standard script and no dust; data outputs are counted. -/
def checkStandardOutput (maxDatacarrierBytes : Nat) (permitBareMultisig : Bool)
    (dustRelayFeerate : FeeRate) (dataOut : Nat) (_ : Nat) (output : TxOut) :
    Outcome StandardTxError Nat := do
  let whichType ← solve env.p2pkPublicKey output.scriptPubkey
  Outcome.errIf (!isStandard whichType output.scriptPubkey maxDatacarrierBytes) .scriptPubkey
  let dataOut ← countDataOut permitBareMultisig dataOut whichType
  let dust ← isDust env output dustRelayFeerate
  Outcome.errIf dust .dust
  pure dataOut

/-- Core's `IsStandardTx`. -/
def isStandardTx (tx : Transaction) (maxDatacarrierBytes : Nat) (permitBareMultisig : Bool)
    (dustRelayFeerate : FeeRate) : Outcome StandardTxError Unit := do
  Outcome.errIf (tx.version < 1 || txMaxStandardVersion < tx.version) .version
  Outcome.errIf (maxStandardTxWeight < env.txWeight tx) .txSizeTooLarge
  Outcome.errIf (env.baseSize tx < minStandardTxNonwitnessSize) .txSizeTooSmall
  Loop.forEnum checkStandardInput tx.input ()
  let _ ← Loop.forEnum
    (checkStandardOutput env maxDatacarrierBytes permitBareMultisig dustRelayFeerate) tx.output 0
  pure ()

end Subcoin.Mempool
