import Subcoin.Lib.Outcome
import Subcoin.Bitcoin.Types

/-!
# Subcoin — the libraries the node calls

Everything the node computes with code that is not its own is a field of `Env`: the hashing,
encoding, proof-of-work and counting functions of the `bitcoin` crate, the `bitcoinconsensus`
bindings and the script interpreter. A theorem that needs to know how one of them behaves takes
that as a hypothesis.
-/

namespace Subcoin

inductive ValidationError where
  | badProofOfWork
  | badTarget
deriving DecidableEq, Repr

inductive Bip34Error where
  | unsupported
  | notPresent
  | unexpectedPush (bytes : List UInt8)
  | negativeHeight
deriving DecidableEq, Repr

/-- `bitcoinconsensus::Error`: the code of a script that evaluated to failure, and the codes for
arguments the library could not use. -/
inductive ConsensusError where
  | errScript
  | other (code : Nat)
deriving DecidableEq, Repr

/-- The library functions the node calls. `SE` is the error type of the script interpreter. -/
structure Env (SE : Type) where
  /-- The double hash behind `Transaction::compute_txid`, on a transaction without witness. -/
  txidHash : Transaction → Txid
  blockHash : Header → BlockHash
  targetFromCompact : Nat → Nat
  /-- `Target::to_compact_lossy`, as its consensus integer. -/
  toCompactLossy : Nat → Nat
  toWork : Nat → BitVec 256
  validatePow : Header → Nat → Except ValidationError BlockHash
  calculateRoot : List Txid → Option TxMerkleNode
  checkWitnessCommitment : Block → Bool
  weight : Block → Nat
  baseSize : Transaction → Nat
  bip34BlockHeight : Block → Except Bip34Error Nat
  countSigopsLegacy : List UInt8 → Nat
  /-- `Transaction::total_sigop_cost`, with the lookup of spent outputs it is given. -/
  totalSigopCost : Transaction → (OutPoint → Option TxOut) → Nat
  /-- `Transaction::consensus_encode` into a byte vector. -/
  consensusEncode : Transaction → List UInt8
  /-- `bitcoinconsensus::verify_with_flags`: spent script, amount, spending transaction, input
  index, flags. -/
  verifyWithFlags : List UInt8 → Nat → List UInt8 → Nat → Nat → Except ConsensusError Unit
  /-- `subcoin_script::verify_script` with a `TransactionSignatureChecker`: script sig, script
  pubkey, witness, flags; transaction, input index and amount of the checker. -/
  verifyScript : List UInt8 → List UInt8 → List (List UInt8) → Nat →
    Transaction → Nat → Nat → Outcome SE Unit

namespace Env

variable {SE : Type} (env : Env SE)

/-- `Transaction::compute_txid`: the witness does not enter the hash. -/
def computeTxid (tx : Transaction) : Txid := env.txidHash tx.withoutWitness

def target (header : Header) : Nat := env.targetFromCompact header.bits.toNat

def work (header : Header) : BitVec 256 := env.toWork (env.target header)

/-- `Block::block_hash`. -/
def hashOf (block : Block) : BlockHash := env.blockHash block.header

end Env

/-! ## Constants of the `bitcoin` crate -/

def maxMoney : Nat := 21000000 * 100000000

/-- `MAX_BLOCK_WEIGHT`, that is `Weight::MAX_BLOCK`. -/
def maxBlockWeight : Nat := 4000000

def witnessScaleFactor : Nat := 4

def maxBlockSigopsCost : Nat := 80000

def coinbaseMaturity : Nat := 100

def headerSize : Nat := 80

def varIntSize (n : Nat) : Nat :=
  if n < 0xfd then 1 else if n < 2 ^ 16 then 3 else if n < 2 ^ 32 then 5 else 9

end Subcoin
