import Subcoin.Lib.Bytes

/-!
# Subcoin — Bitcoin data types

The types of the `bitcoin` crate that the node reads and writes, with their fields in the crate's
order. A header has a fixed-width encoding and fixed-width fields; the unsigned integers of a
transaction are `Nat`, and an operation on them that can leave its width says so where it stands.
Scripts are byte strings and a witness is a list of byte strings.
-/

namespace Subcoin

structure Txid where
  hash : Hash256
deriving DecidableEq, Inhabited

structure BlockHash where
  hash : Hash256
deriving DecidableEq, Inhabited

namespace BlockHash

/-- `BlockHash::all_zeros`, the `prev_blockhash` of the genesis block. -/
def allZeros : BlockHash := ⟨Hash256.allZeros⟩

/-- `Display`: a block hash is written in reversed byte order. -/
def display (h : BlockHash) : String := h.hash.reverse.toHex

end BlockHash

structure TxMerkleNode where
  hash : Hash256
deriving DecidableEq, Inhabited

structure OutPoint where
  txid : Txid
  vout : Nat
deriving DecidableEq

namespace OutPoint

/-- `OutPoint::null`: the all-zeros txid with the largest index. -/
def null : OutPoint := ⟨⟨Hash256.allZeros⟩, 2 ^ 32 - 1⟩

def isNull (o : OutPoint) : Bool := o = null

theorem isNull_eq_true {o : OutPoint} : o.isNull = true ↔ o = null := decide_eq_true_iff

end OutPoint

structure TxIn where
  previousOutput : OutPoint
  scriptSig : List UInt8
  sequence : Nat
  witness : List (List UInt8)
deriving DecidableEq

namespace TxIn

/-- `Sequence::is_final`: the sequence number is `0xffffffff`. -/
def isFinal (txin : TxIn) : Bool := txin.sequence = 2 ^ 32 - 1

end TxIn

/-- `bitcoin::TxOut`; the value is in satoshi. -/
structure TxOut where
  value : Nat
  scriptPubkey : List UInt8
deriving DecidableEq

namespace TxOut

/-- `Script::is_op_return`: the script starts with `OP_RETURN`. -/
def isOpReturn (txout : TxOut) : Bool := txout.scriptPubkey.head? = some 0x6a

end TxOut

/-- `LOCK_TIME_THRESHOLD`: lock times below it are heights, the others are timestamps. -/
def lockTimeThreshold : Nat := 500000000

/-- `bitcoin::absolute::LockTime`. Each variant only holds values of its own range. -/
inductive LockTime where
  | blocks (n : Nat) (h : n < lockTimeThreshold)
  | seconds (n : Nat) (h : lockTimeThreshold ≤ n)
deriving DecidableEq

namespace LockTime

def zero : LockTime := .blocks 0 (by decide)

def toConsensusU32 : LockTime → Nat
  | .blocks n _ => n
  | .seconds n _ => n

end LockTime

/-- `bitcoin::relative::LockTime`: a number of blocks, or of units of 512 seconds. -/
inductive RelativeLockTime where
  | blocks (n : Nat)
  | time (n : Nat)
deriving DecidableEq, Repr

/-- `Sequence::to_relative_lock_time`, the BIP 68 reading of a sequence number: bit 31 disables the
lock, bit 22 selects its unit, and the low 16 bits are its value. -/
def toRelativeLockTime (sequence : Nat) : Option RelativeLockTime :=
  if sequence.testBit 31 then none
  else if sequence.testBit 22 then some (.time (sequence % 2 ^ 16))
  else some (.blocks (sequence % 2 ^ 16))

structure Transaction where
  version : Int
  lockTime : LockTime
  input : List TxIn
  output : List TxOut
deriving DecidableEq

namespace Transaction

/-- `Transaction::is_coinbase`: one input, and it spends the null outpoint. -/
def isCoinbase (tx : Transaction) : Bool :=
  match tx.input with
  | [txin] => txin.previousOutput.isNull
  | _ => false

/-- The transaction with the witness of every input removed: what a txid commits to. -/
def withoutWitness (tx : Transaction) : Transaction :=
  { tx with input := tx.input.map fun txin => { txin with witness := [] } }

def spends (tx : Transaction) : List OutPoint := tx.input.map TxIn.previousOutput

def outputValue (tx : Transaction) : Nat := (tx.output.map TxOut.value).sum

end Transaction

structure Header where
  version : Int32
  prevBlockhash : BlockHash
  merkleRoot : TxMerkleNode
  time : UInt32
  bits : UInt32
  nonce : UInt32
deriving DecidableEq

structure Block where
  header : Header
  txdata : List Transaction
deriving DecidableEq

end Subcoin
