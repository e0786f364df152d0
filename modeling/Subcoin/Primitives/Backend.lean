import Subcoin.Substrate.Client

/-!
# Subcoin — Bitcoin blocks in the Substrate client

How a Bitcoin block lives in the client: its hash and header are two digest items of the Substrate
header, its transactions are extrinsics, and the auxiliary store maps its hash to the Substrate
hash. `BackendExt` and `ClientExt` of the primitives crate read this back.
-/

namespace Subcoin

variable {SE : Type} (env : NodeEnv SE)

/-! ## Digests -/

/-- `NAKAMOTO_HASH_ENGINE_ID`, the bytes of `hash`. -/
def nakamotoHashEngineId : List UInt8 := [104, 97, 115, 104]

/-- `NAKAMOTO_HEADER_ENGINE_ID`, the bytes of `hedr`. -/
def nakamotoHeaderEngineId : List UInt8 := [104, 101, 100, 114]

/-- `substrate_header_digest`. The hash is stored in reversed byte order. -/
def substrateHeaderDigest (header : Header) : List DigestItem :=
  [.preRuntime nakamotoHashEngineId (env.blockHash header).hash.bytes.reverse,
    .preRuntime nakamotoHeaderEngineId (env.encodeHeader header)]

/-- `HeaderError` of the primitives crate. -/
inductive DigestError where
  | multiplePreRuntimeDigests
  | missingBitcoinBlockHashDigest
  | invalidBitcoinBlockHashDigest
  | missingBitcoinBlockHeader
  | invalidBitcoinBlockHeader (err : String)
deriving DecidableEq, Repr

/-- The loop of both extraction functions: the payload of the only pre-runtime item of an engine. -/
def findPreRuntime (engine : List UInt8) :
    Option (List UInt8) → List DigestItem → Except DigestError (Option (List UInt8))
  | found, [] => .ok found
  | found, .preRuntime id v :: logs =>
    if id = engine then
      if found.isSome then .error .multiplePreRuntimeDigests
      else findPreRuntime engine (some v) logs
    else findPreRuntime engine found logs
  | found, _ :: logs => findPreRuntime engine found logs

/-- The hash that the digest states. -/
def extractBitcoinBlockHash (header : SubstrateHeader) : Except DigestError BlockHash := do
  match ← findPreRuntime nakamotoHashEngineId none header.digest with
  | none => .error .missingBitcoinBlockHashDigest
  | some v =>
    match Hash256.fromSlice v.reverse with
    | some h => .ok ⟨h⟩
    | none => .error .invalidBitcoinBlockHashDigest

/-- The header that the digest embeds. -/
def extractBitcoinBlockHeader (header : SubstrateHeader) : Except DigestError Header := do
  match ← findPreRuntime nakamotoHeaderEngineId none header.digest with
  | none => .error .missingBitcoinBlockHeader
  | some v => (env.decodeHeader v).mapError .invalidBitcoinBlockHeader

/-! ## Extrinsics -/

/-- A transaction as a call of the pallet. -/
def bitcoinTransactionIntoExtrinsic (btcTx : Transaction) : OpaqueExtrinsic :=
  env.encodeExtrinsic (.transact (Pallet.Transaction.ofBitcoin btcTx))

def extrinsicToBitcoinTransaction (extrinsic : OpaqueExtrinsic) :
    Outcome DigestError Transaction :=
  match env.decodeExtrinsic extrinsic with
  | none => .panic "called `Result::unwrap()` on an `Err` value"
  | some (.transact btcTx) =>
    match btcTx.toBitcoin with
    | .ok tx => .ok tx
    | .panic msg => .panic msg
  | some .other => .panic "Transactions only exist in pallet-bitcoin; qed"

def extrinsicsToBitcoinTransactions :
    List OpaqueExtrinsic → Outcome DigestError (List Transaction)
  | [] => pure []
  | ext :: exts => do
    let tx ← extrinsicToBitcoinTransaction env ext
    let txs ← extrinsicsToBitcoinTransactions exts
    pure (tx :: txs)

/-- The header from the digest, the transactions from the body. -/
def convertToBitcoinBlock (substrateBlock : SubstrateBlock) : Outcome DigestError Block := do
  let header ←
    match extractBitcoinBlockHeader env substrateBlock.header with
    | .ok header => pure header
    | .error e => Outcome.err e
  let txdata ← extrinsicsToBitcoinTransactions env substrateBlock.extrinsics
  pure ⟨header, txdata⟩

/-! ## The genesis block -/

/-- The header of `substrate_genesis_block`. -/
def substrateGenesisHeader (block : Block) (state : Pallet.State) : SubstrateHeader :=
  { parentHash := default
    number := 0
    stateRoot := env.storageRoot state
    extrinsicsRoot :=
      env.orderedTrieRoot
        (block.txdata.map fun tx => (bitcoinTransactionIntoExtrinsic env tx).bytes)
    digest := substrateHeaderDigest env block.header }

/-- The client of a new node: the Substrate genesis block built from the Bitcoin genesis block, and
the entry `initialize_genesis_block_hash_mapping` writes. -/
def Client.genesis (block : Block) (state : Pallet.State) : Client :=
  let header := substrateGenesisHeader env block state
  let hash := env.headerHash header
  let body := block.txdata.map (bitcoinTransactionIntoExtrinsic env)
  { blocks := Function.update (fun _ => none) hash (some ⟨header, some body, some state⟩)
    aux := Function.update (fun _ => none) (env.hashOf block).hash.bytes (some hash.bytes)
    genesisHash := hash
    bestHash := hash }

/-! ## Reading the client -/

namespace Client

variable (c : Client)

/-- `substrate_block_hash_for`. Decoding reads the first 32 bytes of the value. -/
def substrateBlockHashFor (bitcoinBlockHash : BlockHash) : Option H256 :=
  (c.getAux bitcoinBlockHash.hash.bytes).bind fun v => Hash256.fromSlice (v.take 32)

/-- From a Substrate hash, through the digest. -/
def bitcoinBlockHashFor (substrateBlockHash : H256) : Option BlockHash :=
  (c.header substrateBlockHash).bind fun hd => (extractBitcoinBlockHash hd).toOption

def blockNumber (bitcoinBlockHash : BlockHash) : Option Nat :=
  (c.substrateBlockHashFor bitcoinBlockHash).bind c.number

/-- The block of the best chain at a height. -/
def blockHash (number : Nat) : Option BlockHash := (c.hash number).bind c.bitcoinBlockHashFor

variable {SE : Type} (env : NodeEnv SE)

def blockHeader (bitcoinBlockHash : BlockHash) : Option Header :=
  ((c.substrateBlockHashFor bitcoinBlockHash).bind c.header).bind fun hd =>
    (extractBitcoinBlockHeader env hd).toOption

def medianTimeSpan : Nat := 11

/-- The loop of `calculate_median_time_past`: up to `k` more timestamps from `prevHash` down. -/
def collectTimestamps : Nat → BlockHash → Option (List Nat)
  | 0, _ => some []
  | k + 1, prevHash =>
    if prevHash = BlockHash.allZeros then some []
    else do
      let header ← c.blockHeader env prevHash
      let rest ← collectTimestamps k header.prevBlockhash
      pure (header.time.toNat :: rest)

def medianOf (timestamps : List Nat) : Option Nat :=
  (timestamps.mergeSort (· ≤ ·))[timestamps.length / 2]?

/-- The block and up to ten before it, by the hashes of the parents. -/
def calculateMedianTimePast (blockHash : BlockHash) : Option Nat := do
  let header ← c.blockHeader env blockHash
  let rest ← c.collectTimestamps env (medianTimeSpan - 1) header.prevBlockhash
  medianOf (header.time.toNat :: rest)

structure BlockMetadata where
  height : Nat
  medianTimePast : Nat
deriving DecidableEq, Repr

def getBlockMetadata (blockHash : BlockHash) : Option BlockMetadata := do
  let height ← c.blockNumber blockHash
  let medianTimePast ← c.calculateMedianTimePast env blockHash
  pure ⟨height, medianTimePast⟩

/-- The best chain has it at its own height. -/
def isBlockOnActiveChain (blockHash : BlockHash) : Bool :=
  (c.blockNumber blockHash).bind c.blockHash = some blockHash

end Client

end Subcoin
