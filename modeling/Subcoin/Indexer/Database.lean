import Subcoin.Bitcoin.Env
import Subcoin.Lib.Amounts
import Subcoin.Lib.SignedInt

/-!
# Subcoin — the database of the indexer

The four tables of the index, what `index_blocks_batch` and `revert_to_height` write to them, and
the query that reads balances.

A table is a map from its primary key. A batch is one database transaction, so it is a function on
the tables. The three columns that say who spent an output are always written together, so they are
one optional value. Rows are bound to statements in chunks, which has no effect on the tables, and
the entries of the address map, which are inserted in an arbitrary order, have different keys. Sums
of amounts do not leave the range of `i64` and are taken in `ℤ`; the casts between `u64` and `i64`
are those of the source. A transaction has fewer than `2 ^ 32` outputs.
-/

namespace Subcoin.Indexer

/-- What the bitcoin crate knows about addresses on the network of the node. -/
structure IndexerEnv (SE : Type) extends Env SE where
  /-- `Address::from_script`, as text. -/
  fromScript : List UInt8 → Option String
  /-- `CompressedPublicKey::from_slice`, and the hash of the key. -/
  compressedPubkeyHash : List UInt8 → Option (List UInt8)
  hash160 : List UInt8 → List UInt8
  /-- `Address::p2pkh`, as text. -/
  p2pkh : List UInt8 → String

variable {SE : Type} (env : IndexerEnv SE)

/-! ## Addresses -/

/-- Compressed P2PK: a push of 33 bytes and `OP_CHECKSIG`. -/
def compressedP2pk (script : List UInt8) : Option String :=
  if script.length = 35 ∧ script[0]? = some 0x21 ∧ script[34]? = some 0xac then
    (env.compressedPubkeyHash ((script.take 34).drop 1)).map env.p2pkh
  else none

/-- Uncompressed P2PK: a push of 65 bytes and `OP_CHECKSIG`. -/
def uncompressedP2pk (script : List UInt8) : Option String :=
  if script.length = 67 ∧ script[0]? = some 0x41 ∧ script[66]? = some 0xac then
    some (env.p2pkh (env.hash160 ((script.take 66).drop 1)))
  else none

def scriptToAddress (script : List UInt8) : Option String :=
  -- Try standard address types first.
  (env.fromScript script).or ((compressedP2pk env script).or (uncompressedP2pk env script))

/-! ## Tables -/

structure BlockRow where
  hash : BlockHash
  timestamp : Nat
deriving DecidableEq

structure TransactionRow where
  blockHeight : Nat
  txIndex : Nat
deriving DecidableEq

/-- The columns `spent_txid`, `spent_vout` and `spent_block_height`. -/
structure Spent where
  spentTxid : Txid
  spentVout : Nat
  spentBlockHeight : Nat
deriving DecidableEq

structure OutputRow where
  address : Option String
  value : Int
  scriptPubkey : List UInt8
  blockHeight : Nat
  spent : Option Spent
deriving DecidableEq

/-- The primary key of `address_history`. -/
structure HistoryKey where
  address : String
  blockHeight : Nat
  txid : Txid
deriving DecidableEq

structure Tables where
  blocks : IndexMap Nat BlockRow
  transactions : IndexMap Txid TransactionRow
  outputs : IndexMap OutPoint OutputRow
  addressHistory : IndexMap HistoryKey Int

namespace Tables

def empty : Tables := ⟨.empty, .empty, .empty, .empty⟩

/-- Two states of the database have the same rows in all four tables. -/
structure Same (t t' : Tables) : Prop where
  blocks : ∀ k, t.blocks.get k = t'.blocks.get k
  transactions : ∀ k, t.transactions.get k = t'.transactions.get k
  outputs : ∀ k, t.outputs.get k = t'.outputs.get k
  addressHistory : ∀ k, t.addressHistory.get k = t'.addressHistory.get k

/-- `INSERT OR REPLACE INTO blocks`. The hash is unique too: a row with the same hash at another
height goes. -/
def insertBlock (blocks : IndexMap Nat BlockRow) (row : Nat × BlockRow) : IndexMap Nat BlockRow :=
  (blocks.retain fun _ old => if old.hash = row.2.hash then none else some old).insert row.1 row.2

end Tables

/-! ## Batches -/

/-- The outputs whose rows are needed for the blocks. -/
def outpointsToFetch (blocks : List (Nat × Block)) : List OutPoint :=
  blocks.flatMap fun b => b.2.txdata.flatMap fun tx => tx.spends.filter fun o => !o.isNull

/-- The output cache: only outputs with an address are fetched. -/
def fetchOutputs (t : Tables) (outpoints : List OutPoint) (o : OutPoint) : Option (String × Nat) :=
  if o ∈ outpoints then
    (t.outputs.get o).bind fun row => row.address.map fun address =>
      (address, toUnsigned 64 row.value)
  else none

/-- The buffers that a batch collects before it writes. -/
structure Buffers where
  blocksData : List (Nat × BlockRow)
  transactionsData : List (Txid × TransactionRow)
  outputsData : List (OutPoint × OutputRow)
  spentUpdates : List (OutPoint × Spent)
  addressHistoryMap : IndexMap HistoryKey Int
  /-- Outputs created within this batch, for spending within the batch. -/
  batchOutputs : OutPoint → Option (Option String × Nat)

namespace Buffers

def empty : Buffers := ⟨[], [], [], [], .empty, fun _ => none⟩

variable (b : Buffers)

/-- Address and value of an output: from the database cache first, then from the batch. -/
def outputInfo (cache : OutPoint → Option (String × Nat)) (o : OutPoint) : Option (String × Nat) :=
  (cache o).or ((b.batchOutputs o).bind fun info => info.1.map fun address => (address, info.2))

def processInput (cache : OutPoint → Option (String × Nat)) (height : Nat) (txid : Txid)
    (b : Buffers) (input : TxIn × Nat) : Buffers :=
  let o := input.1.previousOutput
  if o.isNull then b
  else
    match b.outputInfo cache o with
    | none => b
    | some (address, value) =>
      { b with
        spentUpdates := b.spentUpdates ++ [(o, ⟨txid, input.2, height⟩)]
        addressHistoryMap := b.addressHistoryMap.add (⟨address, height, txid⟩, -toSigned 64 value) }

def processOutput (height : Nat) (txid : Txid) (b : Buffers) (output : TxOut × Nat) : Buffers :=
  let script := output.1.scriptPubkey
  let value := output.1.value
  let address := scriptToAddress env script
  { b with
    outputsData := b.outputsData ++
      [(⟨txid, output.2⟩, ⟨address, toSigned 64 value, script, height, none⟩)]
    batchOutputs := Function.update b.batchOutputs ⟨txid, output.2⟩ (some (address, value))
    addressHistoryMap :=
      match address with
      | none => b.addressHistoryMap
      | some address => b.addressHistoryMap.add (⟨address, height, txid⟩, toSigned 64 value) }

def processTx (cache : OutPoint → Option (String × Nat)) (height : Nat) (b : Buffers)
    (tx : Transaction × Nat) : Buffers :=
  let txid := env.computeTxid tx.1
  let b := { b with transactionsData := b.transactionsData ++ [(txid, ⟨height, tx.2⟩)] }
  let b := tx.1.input.zipIdx.foldl (processInput cache height txid) b
  tx.1.output.zipIdx.foldl (processOutput env height txid) b

def processBlock (cache : OutPoint → Option (String × Nat)) (b : Buffers) (block : Nat × Block) :
    Buffers :=
  let row : BlockRow := ⟨env.hashOf block.2, block.2.header.time.toNat⟩
  let b := { b with blocksData := b.blocksData ++ [(block.1, row)] }
  block.2.txdata.zipIdx.foldl (processTx env cache block.1) b

/-- The bulk inserts and updates. -/
def write (t : Tables) : Tables where
  blocks := b.blocksData.foldl Tables.insertBlock t.blocks
  transactions := t.transactions.upsert b.transactionsData
  outputs := (t.outputs.upsert b.outputsData).amend
    (fun spent row => { row with spent := some spent }) b.spentUpdates
  addressHistory := t.addressHistory.upsert b.addressHistoryMap.entries

end Buffers

def indexBlocksBatch (blocks : List (Nat × Block)) (t : Tables) : Tables :=
  if blocks.isEmpty then t
  else
    let cache := fetchOutputs t (outpointsToFetch blocks)
    (blocks.foldl (Buffers.processBlock env cache) .empty).write t

/-- Index a single block, for live sync. -/
def indexBlock (height : Nat) (block : Block) (t : Tables) : Tables :=
  indexBlocksBatch env [(height, block)] t

/-! ## Reverts -/

/-- Revert all data above the given block height. -/
def revertToHeight (height : Nat) (t : Tables) : Tables where
  blocks := t.blocks.retain fun h row => if height < h then none else some row
  transactions := t.transactions.retain fun _ row =>
    if height < row.blockHeight then none else some row
  outputs :=
    -- Unspend outputs that were spent in reverted blocks, then delete those created there.
    let unspent := t.outputs.retain fun _ row =>
      if row.spent.any fun spent => height < spent.spentBlockHeight then
        some { row with spent := none }
      else some row
    unspent.retain fun _ row => if height < row.blockHeight then none else some row
  addressHistory := t.addressHistory.retain fun key delta =>
    if height < key.blockHeight then none else some delta

/-! ## Queries -/

structure AddressBalance where
  confirmed : Int
  totalReceived : Int
  totalSent : Int
deriving DecidableEq

/-- `get_address_balance`; the numbers of transactions and of outputs are left out. -/
def getAddressBalance (t : Tables) (address : String) : AddressBalance where
  confirmed := t.outputs.total fun _ row =>
    if row.address = some address ∧ row.spent.isNone then row.value else 0
  totalReceived := t.outputs.total fun _ row => if row.address = some address then row.value else 0
  totalSent := t.outputs.total fun _ row =>
    if row.address = some address ∧ row.spent.isSome then row.value else 0

end Subcoin.Indexer
