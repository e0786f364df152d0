import Subcoin.Mempool.Runs
import Subcoin.Reference

/-!
# Subcoin — a reference instance of the mempool's libraries

An instance of `PoolEnv` that can be evaluated, with a node whose best block has coins to spend. An
output is locked by the P2SH script of `OP_TRUE`, which is standard, and unlocked by the push of
that script. `spendOf` builds a transaction with one input and one output.
-/

namespace Subcoin.Mempool.Reference

/-- The P2SH script of `OP_TRUE`. -/
def lockScript : List UInt8 :=
  [0xa9, 0x14, 0xda, 0x17, 0x45, 0xe9, 0xb5, 0x49, 0xbd, 0x0b, 0xfa, 0x1a, 0x56, 0x99, 0x71, 0xc7,
    0x7e, 0xba, 0x30, 0xcd, 0x5a, 0x4b, 0x87]

def unlockScript : List UInt8 := [0x01, 0x51]

def witnessBytes (tx : Transaction) : List UInt8 :=
  tx.input.flatMap fun txin => txin.witness.flatMap Subcoin.Reference.varBytes

def env : PoolEnv Unit :=
  { Subcoin.Reference.env with
    verifyScript := fun scriptSig scriptPubkey _ _ _ _ _ =>
      if scriptPubkey = lockScript ∧ scriptSig = unlockScript then .ok () else .err ()
    computeWtxid := fun tx =>
      ⟨Subcoin.Reference.hash (Subcoin.Reference.transactionBytes tx ++ witnessBytes tx)⟩
    txWeight := fun tx => 4 * Subcoin.Reference.baseSize tx
    p2pkPublicKey := fun _ => none
    displayAmount := fun n => toString n
    displayScriptError := fun _ => "script"
    debugApiError := fun _ => "unknown block" }

/-- The instance for transactions without witnesses, whose wtxid is their txid. -/
def baseEnv : PoolEnv Unit := { env with computeWtxid := fun tx => ⟨(env.computeTxid tx).hash⟩ }

/-! ## A node with coins -/

def coinAt (n : Nat) : OutPoint := ⟨⟨Hash256.ofNat (1000 + n)⟩, 0⟩

/-- A state with coins of the given amounts, confirmed at height one. -/
def stateOf (amounts : List Nat) : Pallet.State :=
  amounts.zipIdx.foldl
    (fun state p =>
      { state with
        coins := state.coins.insert (Runtime.OutPoint.ofBitcoin (coinAt p.2))
          ⟨false, p.1, 1, lockScript⟩ })
    Pallet.State.empty

def clientOf (amounts : List Nat) : Client :=
  Client.genesis Subcoin.Reference.env Subcoin.Reference.genesisBlock (stateOf amounts)

def client : Client := clientOf [100000, 100000, 100000, 100000]

/-- A moment after the genesis block. -/
def momentAt (now : Nat) : Moment := ⟨client, now, .insertion⟩

def moment : Moment := momentAt 1231006700

/-! ## Transactions -/

def spendOf (outpoint : OutPoint) (value : Nat) : Transaction :=
  Subcoin.Reference.transaction [Subcoin.Reference.input outpoint unlockScript]
    [⟨value, lockScript⟩]

/-- The first output of a transaction. -/
def outputOf (tx : Transaction) : OutPoint := ⟨env.computeTxid tx, 0⟩

/-- A chain of three: each spends the one before it. -/
def parent : Transaction := spendOf (coinAt 0) 90000

def child : Transaction := spendOf (outputOf parent) 80000

def grandchild : Transaction := spendOf (outputOf child) 70000

end Subcoin.Mempool.Reference
