import Subcoin.Nakamoto.Verification

/-!
# Subcoin — block import

`BitcoinBlockImporter::import_block` with everything it does to the client: the parent lookup,
verification, execution, the Substrate header, the chain work and fork choice, and the auxiliary
entries. The schema of those entries comes first; a block hash is a key of 32 bytes and a chain
work key is longer, so the two kinds of entries never meet.
-/

namespace Subcoin

variable {SE : Type} (env : NodeEnv SE)

/-! ## The auxiliary schema -/

/-- Chain work wraps around at 256 bits. -/
abbrev Work := BitVec 256

/-- `chain_work_key`: the SCALE encoding of `b"chain_work"` and the bytes of the hash. -/
def chainWorkKey (bitcoinBlockHash : BlockHash) : List UInt8 :=
  [99, 104, 97, 105, 110, 95, 119, 111, 114, 107] ++ 0x80 :: bitcoinBlockHash.hash.bytes

/-- Work is stored in little endian. -/
def workBytes (work : Work) : List UInt8 := leBytes 32 work.toNat

/-- The work of a known block; it is an error that there is none. -/
def loadChainWork (c : Client) (bitcoinBlockHash : BlockHash) : Outcome ClientError Work :=
  match c.getAux (chainWorkKey bitcoinBlockHash) with
  | none =>
    let hash := bitcoinBlockHash.display
    .err (.backend s!"Cumulative chain work for #{hash} not found")
  | some v =>
    if 32 ≤ v.length then .ok (BitVec.ofNat 256 (ofLeBytes (v.take 32)))
    else .err (.backend "Subcoin DB is corrupted. Decode error: Not enough data to fill buffer")

/-- `write_aux_storage`: the entries for a block. -/
def auxStorage (bitcoinBlockHash : BlockHash) (substrateBlockHash : H256) (chainWork : Work) :
    List (List UInt8 × Option (List UInt8)) :=
  [(bitcoinBlockHash.hash.bytes, some substrateBlockHash.bytes),
    (chainWorkKey bitcoinBlockHash, some (workBytes chainWork))]

/-! ## Chain work and fork choice -/

/-- The work of the parent. The genesis block's work is hardcoded. -/
def parentWork (c : Client) (prevBlockhash : BlockHash) (blockNumber : Nat) :
    Outcome ClientError Work :=
  if blockNumber = 1 then do
    let header ← Outcome.expect (c.blockHeader env prevBlockhash) "Genesis header must exist; qed"
    pure (env.work header)
  else loadChainWork c prevBlockhash

/-- The work of the best block so far. -/
def lastBestWork (c : Client) (parentHash : H256) (parentWork : Work) : Outcome ClientError Work :=
  if c.bestHash = parentHash then pure parentWork
  else do
    let bitcoinBlockHash ←
      Outcome.expect (c.bitcoinBlockHashFor c.bestHash) "Best bitcoin hash must exist; qed"
    loadChainWork c bitcoinBlockHash

/-- `calculate_chain_work_and_fork_choice`: the total work, and whether the block becomes best. The
sum of two `Work`s is a 256-bit one. -/
def calculateChainWorkAndForkChoice (c : Client) (header : Header) (blockNumber : Nat) :
    Outcome ClientError (Work × Bool) := do
  let prevBlockhash := header.prevBlockhash
  let parentWork ← parentWork env c prevBlockhash blockNumber
  let totalWork := parentWork + env.work header
  let hash := prevBlockhash.display
  let parentHash ←
    Outcome.okOr (c.substrateBlockHashFor prevBlockhash)
      (.backend s!"Missing substrate block hash for #{hash}")
  let lastBestWork ← lastBestWork c parentHash parentWork
  pure (totalWork, lastBestWork < totalWork)

/-! ## Execution -/

/-- The runtime applies one extrinsic (`apply_extrinsics` of the executive): it decodes it and
dispatches its call. The calls of the other pallet leave the coins alone. -/
def applyExtrinsic (height : Nat) (st : Pallet.State) (_ : Nat) (ext : OpaqueExtrinsic) :
    Outcome Empty Pallet.State :=
  match env.decodeExtrinsic ext with
  | none => .panic "The extrinsic could not be decoded correctly"
  | some (.transact btcTx) => Pallet.transact env.toEnv height st btcTx
  | some .other => .ok st

/-- `execute_block_at`: the state root and the state after the block. A panic of the runtime is an
error of the call. -/
def executeBlockAt (c : Client) (blockNumber : Nat) (parentHash : H256)
    (extrinsics : List OpaqueExtrinsic) : Outcome ClientError (H256 × Pallet.State) :=
  match (c.blocks parentHash).bind StoredBlock.state with
  | none => .err (.unknownBlock parentHash)
  | some st =>
    match Loop.forEnum (applyExtrinsic env blockNumber) extrinsics st with
    | .ok st' => .ok (env.storageRoot st', st')
    | .panic msg => .err (.runtimeApi msg)

/-! ## Import -/

/-- `BitcoinBlockImporter`: its verifier, built from the configuration, and whether it executes the
blocks it imports. -/
structure BitcoinBlockImporter where
  verifier : BlockVerifier
  executeBlock : Bool

structure HashAndNumber where
  hash : H256
  number : Nat

/-- `sp_consensus::Error::ClientImport`, with the error it was made from. -/
inductive ImportError (SE : Type) where
  | verify (err : VerifyError SE)
  | client (err : ClientError)
deriving DecidableEq

/-- What the importer answers. -/
inductive ImportStatus where
  | imported (blockNumber : Nat) (blockHash : BlockHash) (isNewBest : Bool)
  | alreadyInChain (blockNumber : Nat)
  | unknownParent
  | missingState
  | knownBad
deriving DecidableEq

/-- The block that a Bitcoin hash is mapped to. -/
def fetchSubstrateBlockInfo (c : Client) (bitcoinBlockHash : BlockHash) :
    Outcome ClientError (Option HashAndNumber) :=
  match c.substrateBlockHashFor bitcoinBlockHash with
  | none => .ok none
  | some substrateBlockHash => do
    let number ←
      Outcome.okOr (c.number substrateBlockHash) (ClientError.unknownBlock substrateBlockHash)
    pure (some ⟨substrateBlockHash, number⟩)

/-- The header around a Bitcoin block; its state root comes later. -/
def substrateHeader (block : Block) (parent : HashAndNumber) : SubstrateHeader :=
  { parentHash := parent.hash
    number := parent.number + 1
    stateRoot := default
    extrinsicsRoot :=
      env.orderedTrieRoot
        (block.txdata.map fun tx => (bitcoinTransactionIntoExtrinsic env tx).bytes)
    digest := substrateHeaderDigest env block.header }

/-- The header and the state after execution, or the header as it is when the importer does not
execute. -/
def executedHeader (importer : BitcoinBlockImporter) (c : Client) (block : Block)
    (parent : HashAndNumber) : Outcome ClientError (SubstrateHeader × Option Pallet.State) :=
  let header := substrateHeader env block parent
  if importer.executeBlock then do
    let (stateRoot, st) ←
      executeBlockAt env c (parent.number + 1) parent.hash
        (block.txdata.map (bitcoinTransactionIntoExtrinsic env))
    pure ({ header with stateRoot := stateRoot }, some st)
  else pure (header, none)

/-- Header, state, work and the entries for the auxiliary store. -/
def prepareSubstrateBlockImport (importer : BitcoinBlockImporter) (c : Client) (block : Block)
    (parent : HashAndNumber) : Outcome ClientError BlockImportParams := do
  let (header, state) ← executedHeader env importer c block parent
  let substrateBlockHash := env.headerHash header
  let (totalWork, forkChoice) ←
    calculateChainWorkAndForkChoice env c block.header (parent.number + 1)
  pure
    { header := header
      body := some (block.txdata.map (bitcoinTransactionIntoExtrinsic env))
      state := state
      forkChoice := forkChoice
      auxiliary := auxStorage (env.hashOf block) substrateBlockHash totalWork }

/-- Without the state of the parent a block cannot be executed. -/
def checkParentStatus (importer : BitcoinBlockImporter) (c : Client) (parent : HashAndNumber) :
    Option ImportStatus :=
  if importer.executeBlock then
    match c.blockStatus parent.hash with
    | .inChainWithState => none
    | .queued => none
    | .unknown => some .unknownParent
    | .inChainPruned => some .missingState
    | .knownBad => some .knownBad
  else none

def ImportStatus.ofResult (blockNumber : Nat) (blockHash : BlockHash) :
    ImportResult → ImportStatus
  | .imported isNewBest => .imported blockNumber blockHash isNewBest
  | .alreadyInChain => .alreadyInChain blockNumber
  | .knownBad => .knownBad
  | .unknownParent => .unknownParent
  | .missingState => .missingState

/-- The part of `import_block` after the parent is known: verification, preparation and the import
into the client. -/
def importOn (importer : BitcoinBlockImporter) (build : Build) (now : Nat) (c : Client)
    (block : Block) (parent : HashAndNumber) :
    Outcome (ImportError SE) (ImportStatus × Client) := do
  let blockNumber := parent.number + 1
  -- Consensus-level Bitcoin block verification.
  (verifyBlock env importer.verifier build c now blockNumber block).mapErr .verify
  let params ← (prepareSubstrateBlockImport env importer c block parent).mapErr .client
  let (result, c') := c.importBlock env params
  pure (.ofResult blockNumber (env.hashOf block) result, c')

/-- A known hash is answered before anything is verified. -/
def importBlock (importer : BitcoinBlockImporter) (build : Build) (now : Nat) (c : Client)
    (block : Block) : Outcome (ImportError SE) (ImportStatus × Client) :=
  match c.blockNumber (env.hashOf block) with
  | some blockNumber => pure (.alreadyInChain blockNumber, c)
  | none => do
    let parent ←
      (fetchSubstrateBlockInfo c block.header.prevBlockhash).mapErr ImportError.client
    match parent with
    -- The parent block must exist to proceed, otherwise it's an orphan block.
    | none => pure (.unknownParent, c)
    | some parent =>
      match checkParentStatus importer c parent with
      | some status => pure (status, c)
      | none => importOn env importer build now c block parent

end Subcoin
