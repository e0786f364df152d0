import Subcoin.Nakamoto.ChainWork

/-!
# Subcoin — Bitcoin blocks read back from the client

`convert_to_bitcoin_block` rebuilds a Bitcoin block from the Substrate block the importer stored for
it. The header comes back from its digest and the transactions from the extrinsics, each through the
pallet's own types.

* **`convertToBitcoinBlock_stored`** — what comes back: the block without the witnesses of the
  inputs that spend the null outpoint.
* **`imported_block_converts_iff`** — so the block itself comes back exactly when there is no such
  witness.
-/

namespace Subcoin

variable {SE : Type} {env : NodeEnv SE}

/-- SCALE encoding of extrinsics round-trips. -/
def ExtrinsicRoundTrip (env : NodeEnv SE) : Prop :=
  ∀ call, env.decodeExtrinsic (env.encodeExtrinsic call) = some call

/-- A block as the client remembers it. -/
def storedBlock (block : Block) : Block :=
  { block with txdata := block.txdata.map Pallet.storedTransaction }

theorem extrinsicToBitcoinTransaction_stored (hext : ExtrinsicRoundTrip env) (tx : Transaction) :
    extrinsicToBitcoinTransaction env (bitcoinTransactionIntoExtrinsic env tx) =
      .ok (Pallet.storedTransaction tx) := by
  unfold extrinsicToBitcoinTransaction bitcoinTransactionIntoExtrinsic
  rw [hext]
  dsimp only
  rw [Pallet.Transaction.toBitcoin_ofBitcoin]

theorem extrinsicsToBitcoinTransactions_stored (hext : ExtrinsicRoundTrip env)
    (txs : List Transaction) :
    extrinsicsToBitcoinTransactions env (txs.map (bitcoinTransactionIntoExtrinsic env)) =
      .ok (txs.map Pallet.storedTransaction) := by
  induction txs with
  | nil => rfl
  | cons tx txs ih =>
    rw [List.map_cons, List.map_cons, extrinsicsToBitcoinTransactions,
      extrinsicToBitcoinTransaction_stored hext, Outcome.ok_bind, ih, Outcome.ok_bind]
    rfl

theorem convertToBitcoinBlock_stored (hround : HeaderRoundTrip env) (hext : ExtrinsicRoundTrip env)
    {hd : SubstrateHeader} {block : Block}
    (hdigest : hd.digest = substrateHeaderDigest env block.header) :
    convertToBitcoinBlock env ⟨hd, block.txdata.map (bitcoinTransactionIntoExtrinsic env)⟩ =
      .ok (storedBlock block) := by
  unfold convertToBitcoinBlock
  rw [extractBitcoinBlockHeader_of_digest hround hdigest,
    extrinsicsToBitcoinTransactions_stored hext]
  rfl

theorem storedBlock_eq_self {block : Block} :
    storedBlock block = block ↔ ∀ tx ∈ block.txdata, ∀ txin ∈ tx.input,
      txin.previousOutput.isNull = true → txin.witness = [] := by
  constructor
  · intro h tx htx
    have hmap : block.txdata.map Pallet.storedTransaction = block.txdata.map id := by
      rw [List.map_id]
      exact congrArg Block.txdata h
    exact Pallet.storedTransaction_eq_self.mp (List.map_inj_left.mp hmap tx htx)
  · intro h
    have hmap : block.txdata.map Pallet.storedTransaction = block.txdata.map id :=
      List.map_inj_left.mpr fun tx htx => Pallet.storedTransaction_eq_self.mpr (h tx htx)
    rw [storedBlock, hmap, List.map_id]

/-! ## Reading an imported block -/

def Client.block (c : Client) (s : H256) : Option SubstrateBlock :=
  (c.blocks s).bind fun b => b.body.map fun body => ⟨b.header, body⟩

/-- The Bitcoin block behind a hash, as the RPC servers read it. -/
def Client.bitcoinBlock (env : NodeEnv SE) (c : Client) (h : BlockHash) :
    Option (Outcome DigestError Block) :=
  ((c.substrateBlockHashFor h).bind c.block).map (convertToBitcoinBlock env)

/-- **What the importer stores.** Whatever client an importer adds a block to, the Substrate block
then stored under the block's hash converts back to that block exactly when no input that spends the
null outpoint carries a witness. -/
theorem imported_block_converts_iff (env : NodeEnv SE) (hround : HeaderRoundTrip env)
    (hext : ExtrinsicRoundTrip env) (importer : BitcoinBlockImporter) (build : Build) (now : Nat)
    (c c' : Client) (block : Block) (n : Nat) (h : BlockHash) (best : Bool)
    (hcall : importBlock env importer build now c block = .ok (.imported n h best, c')) :
    c'.bitcoinBlock env (env.hashOf block) = some (.ok block) ↔
      ∀ tx ∈ block.txdata, ∀ txin ∈ tx.input,
        txin.previousOutput.isNull = true → txin.witness = [] := by
  rcases importBlock_cases hcall with ⟨hadded, _⟩ | ⟨a, hv, _, rfl, _⟩
  · cases hadded
  · have hread : (a.apply env c block).bitcoinBlock env (env.hashOf block) =
        some (.ok (storedBlock block)) := by
      unfold Client.bitcoinBlock Client.block
      rw [Addition.maps_new, Option.bind_some, Addition.blocks_new, Option.bind_some,
        Option.map_some, Option.map_some, convertToBitcoinBlock_stored hround hext hv.header_digest]
    rw [hread, Option.some.injEq, Outcome.ok.injEq]
    exact storedBlock_eq_self

/-! ## A segwit coinbase -/

namespace CoinbaseSample

open Reference

/-- A regtest node that executes blocks without verifying them. -/
def importer : BitcoinBlockImporter := ⟨⟨ChainParams.new paramsOf .regtest, .none, .core⟩, true⟩

/-- A coinbase whose witness is the reserved value of 32 zero bytes. -/
def segwitCoinbase : Transaction :=
  { version := 1
    lockTime := LockTime.zero
    input := [⟨OutPoint.null, [1, 1], 0xffffffff, [List.replicate 32 0]⟩]
    output := [⟨5000000000, [0x51]⟩] }

def segwitBlock : Block :=
  Reference.block (Reference.env.hashOf genesisBlock) 1231006600 0x207fffff 7 [segwitCoinbase]

def call (block : Block) : Outcome (ImportError Unit) (ImportStatus × Client) :=
  importBlock Reference.env importer Build.checked 1231006800 BranchSample.client block

def statusOf (result : Outcome (ImportError Unit) (ImportStatus × Client)) : Option ImportStatus :=
  match result with
  | .ok (status, _) => some status
  | _ => none

theorem eq_ok_of_statusOf {result : Outcome (ImportError Unit) (ImportStatus × Client)}
    {status : ImportStatus} (h : statusOf result = some status) :
    ∃ c', result = .ok (status, c') := by
  cases result with
  | ok r =>
    cases h
    exact ⟨r.2, rfl⟩
  | err e => cases h
  | panic msg => cases h

def readBack (block : Block) : Option (Outcome DigestError Block) :=
  match call block with
  | .ok (.imported _ _ _, c') => c'.bitcoinBlock Reference.env (Reference.env.hashOf block)
  | _ => none

end CoinbaseSample

open Reference CoinbaseSample in
/-- The importer takes the block, and what is read back has lost the witness of the coinbase. -/
theorem coinbase_witness_lost :
    readBack segwitBlock = some (.ok (storedBlock segwitBlock)) ∧
      storedBlock segwitBlock ≠ segwitBlock := by
  decide +kernel

open Reference BranchSample CoinbaseSample in
/-- A block whose coinbase has no witness comes back as it was. -/
theorem imported_block_converts_first :
    ∃ c', importBlock Reference.env CoinbaseSample.importer Build.checked 1231006800 client first =
        .ok (.imported 1 (Reference.env.hashOf first) true, c') ∧
      c'.bitcoinBlock Reference.env (Reference.env.hashOf first) = some (.ok first) := by
  have hstatus : statusOf (CoinbaseSample.call first) =
      some (.imported 1 (Reference.env.hashOf first) true) := by decide +kernel
  obtain ⟨c', hcall⟩ := eq_ok_of_statusOf hstatus
  refine ⟨c', hcall, ?_⟩
  apply (imported_block_converts_iff Reference.env decodeHeader_encodeHeader
    decodeExtrinsic_encodeExtrinsic _ _ _ _ _ _ _ _ _ hcall).mpr
  decide +kernel

end Subcoin
