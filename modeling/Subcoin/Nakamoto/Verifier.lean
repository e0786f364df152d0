import Subcoin.Nakamoto.ChainWork
import Mathlib.Logic.Relation

/-!
# Subcoin — the import queue and its peers

`SubstrateImportQueueVerifier.verify` prepares blocks that Substrate peers send. It checks the
Bitcoin header a block embeds and takes the rest from the peer: the Bitcoin hash to enter the block
under, the Substrate parent and the number. This module runs it together with the importer
(`NodeStep`) and says what the mapping between Bitcoin and Substrate blocks is worth.

* **`mapping_integrity`** — in every run whose peers send only such blocks, the mapping is sound in
  every state and no entry ever changes the header it leads to.
* **`genesis_entry_redirected`** — one block from a peer redirects the entry of the genesis block.
-/

namespace Subcoin

/-- The errors of `verify`; the source formats each into a message of its own. -/
inductive QueueError where
  | extractHeader (err : DigestError)
  | invalidHeader (err : HeaderError)
  | chainWork (err : ClientError)
  | extractHash (err : DigestError)
deriving DecidableEq

section Queue

variable {SE : Type} (env : NodeEnv SE)

def queuedHeader (hd : SubstrateHeader) : Outcome QueueError Header :=
  match extractBitcoinBlockHeader env hd with
  | .ok header => .ok header
  | .error e => .err (.extractHeader e)

def queuedHash (hd : SubstrateHeader) : Outcome QueueError BlockHash :=
  match extractBitcoinBlockHash hd with
  | .ok h => .ok h
  | .error e => .err (.extractHash e)

/-- `SubstrateImportQueueVerifier::verify`. -/
def verifyQueued (build : Build) (chainParams : ChainParams) (now : Nat) (c : Client)
    (blockImportParams : BlockImportParams) : Outcome QueueError BlockImportParams := do
  let substrateHeader := blockImportParams.header
  let btcHeader ← queuedHeader env substrateHeader
  let _ ← (verifyHeader env build c chainParams now btcHeader).mapErr .invalidHeader
  let (chainWork, forkChoice) ←
    (calculateChainWorkAndForkChoice env c btcHeader substrateHeader.number).mapErr .chainWork
  let bitcoinBlockHash ← queuedHash substrateHeader
  pure
    { blockImportParams with
      forkChoice := forkChoice
      auxiliary := blockImportParams.auxiliary ++
        auxStorage bitcoinBlockHash (env.headerHash substrateHeader) chainWork }

end Queue

variable {SE : Type} {env : NodeEnv SE} {c c' : Client}

/-! ## Steps and runs -/

/-- One step of a node: a successful call of the importer, or a block of a peer that the import
queue verifies and hands to the client. A block from the queue starts without auxiliary entries, and
`Q` restricts what peers send. -/
inductive NodeStep (env : NodeEnv SE) (Q : Client → SubstrateHeader → Prop) :
    Client → Client → Prop
  | importer {c c' : Client} {status : ImportStatus} (importer : BitcoinBlockImporter)
      (build : Build) (now : Nat) (block : Block)
      (hcall : importBlock env importer build now c block = .ok (status, c')) : NodeStep env Q c c'
  | queue {c : Client} {verified : BlockImportParams} (build : Build) (chainParams : ChainParams)
      (now : Nat) (params : BlockImportParams) (haux : params.auxiliary = [])
      (hverify : verifyQueued env build chainParams now c params = .ok verified)
      (hpeer : Q c params.header) : NodeStep env Q c (c.importBlock env verified).2

abbrev NodeRun (env : NodeEnv SE) (Q : Client → SubstrateHeader → Prop) :
    Client → Client → Prop :=
  Relation.ReflTransGen (NodeStep env Q)

/-- Every hash that is mapped keeps the header it leads to. -/
def KeepsHeaders (env : NodeEnv SE) (c c' : Client) : Prop :=
  ∀ h header, c.blockHeader env h = some header → c'.blockHeader env h = some header

/-- In every state reached the mapping is sound, and no later state redirects an entry to a block
that embeds another header. -/
def MappingIntegrity (env : NodeEnv SE) (Q : Client → SubstrateHeader → Prop) (c₀ : Client) :
    Prop :=
  ∀ c, NodeRun env Q c₀ c →
    MapsSoundly env c ∧ ∀ c', NodeRun env Q c c' → KeepsHeaders env c c'

/-- What a block of a peer must satisfy: it is linked, and its hash is not mapped to another
header. -/
def PeerLinked (env : NodeEnv SE) (c : Client) (hd : SubstrateHeader) : Prop :=
  ∀ header h, extractBitcoinBlockHeader env hd = .ok header → extractBitcoinBlockHash hd = .ok h →
    Linked env c hd h header ∧ ∀ old, c.blockHeader env h = some old → old = header

theorem queuedHeader_eq_ok {hd : SubstrateHeader} {header : Header}
    (h : queuedHeader env hd = .ok header) : extractBitcoinBlockHeader env hd = .ok header := by
  unfold queuedHeader at h
  cases hx : extractBitcoinBlockHeader env hd with
  | error e =>
    rw [hx] at h
    cases h
  | ok header' =>
    rw [hx] at h
    cases h
    rfl

theorem queuedHash_eq_ok {hd : SubstrateHeader} {bitcoinHash : BlockHash}
    (h : queuedHash hd = .ok bitcoinHash) : extractBitcoinBlockHash hd = .ok bitcoinHash := by
  unfold queuedHash at h
  cases hx : extractBitcoinBlockHash hd with
  | error e =>
    rw [hx] at h
    cases h
  | ok h' =>
    rw [hx] at h
    cases h
    rfl

variable {build : Build} {now : Nat}

theorem verifyQueued_eq_ok {chainParams : ChainParams} {params verified : BlockImportParams}
    (h : verifyQueued env build chainParams now c params = .ok verified) :
    ∃ header bitcoinHash work, extractBitcoinBlockHeader env params.header = .ok header ∧
      extractBitcoinBlockHash params.header = .ok bitcoinHash ∧
      verified.header = params.header ∧
      verified.auxiliary =
        params.auxiliary ++ auxStorage bitcoinHash (env.headerHash params.header) work := by
  obtain ⟨header, hheader, h⟩ := Outcome.bind_eq_ok.mp h
  obtain ⟨_, _, h⟩ := Outcome.bind_eq_ok.mp h
  obtain ⟨⟨work, fc⟩, _, h⟩ := Outcome.bind_eq_ok.mp h
  obtain ⟨bitcoinHash, hhash, h⟩ := Outcome.bind_eq_ok.mp h
  cases h
  exact ⟨header, bitcoinHash, work, queuedHeader_eq_ok hheader, queuedHash_eq_ok hhash, rfl, rfl⟩

/-! ## One insertion -/

section Insert

variable {params : BlockImportParams} {bitcoinHash : BlockHash} {header : Header} {work : Work}
  {x : H256}

theorem Client.blockHeader_of_blocks {h : BlockHash} {s : H256} {b : StoredBlock}
    (hmap : c.substrateBlockHashFor h = some s) (hb : c.blocks s = some b)
    (he : extractBitcoinBlockHeader env b.header = .ok header) :
    c.blockHeader env h = some header := by
  unfold Client.blockHeader Client.header
  rw [hmap, Option.bind_some, hb, Option.map_some, Option.bind_some, he]
  rfl

section

variable (hm : MapsSoundly env c) (hnew : c.blocks x = none)
  (hembedded : extractBitcoinBlockHeader env params.header = .ok header)
  (haux : params.auxiliary = auxStorage bitcoinHash x work)

include hm hnew hembedded haux

theorem MapsSoundly.blockHeader_insert (h : BlockHash) :
    (c.insertBlock x params).blockHeader env h =
      if h = bitcoinHash then some header else c.blockHeader env h := by
  have hmap' := Client.substrateBlockHashFor_insertBlock (c := c) haux h
  by_cases hh : h = bitcoinHash
  · rw [if_pos hh] at hmap' ⊢
    have hb : (c.insertBlock x params).blocks x =
        some ⟨params.header, params.body, params.state⟩ := by
      rw [Client.blocks_insertBlock, if_pos rfl]
    exact Client.blockHeader_of_blocks hmap' hb hembedded
  · rw [if_neg hh] at hmap' ⊢
    cases hmap : c.substrateBlockHashFor h with
    | none =>
      rw [hmap] at hmap'
      rw [Client.blockHeader, Client.blockHeader, hmap', hmap]
      rfl
    | some s =>
      -- an older entry leads to a stored block, which the new one cannot replace
      obtain ⟨b, hd, he⟩ := hm hmap
      rw [hmap] at hmap'
      rw [Client.blockHeader_of_blocks hmap he.stored he.embedded]
      exact Client.blockHeader_of_blocks hmap'
        (Client.blocks_insertBlock_of_some hnew he.stored) he.embedded

theorem MapsSoundly.keepsHeaders_insert_iff :
    KeepsHeaders env c (c.insertBlock x params) ↔
      ∀ old, c.blockHeader env bitcoinHash = some old → old = header := by
  constructor
  · intro hk old hold
    have hnow := hk bitcoinHash old hold
    rw [hm.blockHeader_insert hnew hembedded haux, if_pos rfl, Option.some.injEq] at hnow
    exact hnow.symm
  · intro hsame h old hold
    rw [hm.blockHeader_insert hnew hembedded haux]
    by_cases hh : h = bitcoinHash
    · rw [if_pos hh, hsame old (hh ▸ hold)]
    · rw [if_neg hh, hold]

end

end Insert

/-! ## Steps and runs -/

theorem KeepsHeaders.refl (c : Client) : KeepsHeaders env c c := fun _ _ h => h

theorem KeepsHeaders.trans {c'' : Client} (h : KeepsHeaders env c c')
    (h' : KeepsHeaders env c' c'') : KeepsHeaders env c c'' :=
  fun x header hx => h' x header (h x header hx)

theorem MapsSoundly.importer (hround : HeaderRoundTrip env) (hm : MapsSoundly env c)
    {importer : BitcoinBlockImporter} {block : Block} {status : ImportStatus}
    (hcall : importBlock env importer build now c block = .ok (status, c')) :
    MapsSoundly env c' ∧ KeepsHeaders env c c' := by
  rcases importBlock_cases hcall with ⟨_, rfl⟩ | ⟨a, hv, _, rfl, _⟩
  · exact ⟨hm, .refl c'⟩
  · refine ⟨hv.mapsSoundly hround hm, ?_⟩
    have hun := hm.substrateBlockHashFor_eq_none.mp hv.unmapped
    have hembedded : extractBitcoinBlockHeader env (a.params env block).header =
        .ok block.header := extractBitcoinBlockHeader_of_digest hround hv.header_digest
    apply (hm.keepsHeaders_insert_iff hv.new hembedded rfl).mpr
    intro old hold
    rw [Client.blockHeader, hun] at hold
    cases hold

theorem MapsSoundly.queue (hm : MapsSoundly env c) {chainParams : ChainParams}
    {params verified : BlockImportParams} (haux : params.auxiliary = [])
    (hverify : verifyQueued env build chainParams now c params = .ok verified)
    (hpeer : PeerLinked env c params.header) :
    MapsSoundly env (c.importBlock env verified).2 ∧
      KeepsHeaders env c (c.importBlock env verified).2 := by
  obtain ⟨header, bitcoinHash, work, hheader, hhash, hsub, hvaux⟩ := verifyQueued_eq_ok hverify
  obtain ⟨hl, hsame⟩ := hpeer header bitcoinHash hheader hhash
  rw [← hsub] at hl hheader
  rw [haux, List.nil_append, ← hsub] at hvaux
  unfold Client.importBlock
  dsimp only
  split
  · exact ⟨hm, .refl c⟩
  · rename_i hknown
    have hnew : c.blocks (env.headerHash verified.header) = none := by simpa using hknown
    split
    · exact ⟨hm, .refl c⟩
    · exact ⟨hm.insert hl hnew hheader hvaux,
        (hm.keepsHeaders_insert_iff hnew hheader hvaux).mpr hsame⟩

theorem NodeStep.sound (hround : HeaderRoundTrip env) (hm : MapsSoundly env c)
    (hstep : NodeStep env (PeerLinked env) c c') :
    MapsSoundly env c' ∧ KeepsHeaders env c c' := by
  cases hstep with
  | importer importer build now block hcall => exact hm.importer hround hcall
  | queue build chainParams now params haux hverify hpeer => exact hm.queue haux hverify hpeer

theorem NodeRun.sound (hround : HeaderRoundTrip env) (hm : MapsSoundly env c)
    (hrun : NodeRun env (PeerLinked env) c c') :
    MapsSoundly env c' ∧ KeepsHeaders env c c' := by
  induction hrun with
  | refl => exact ⟨hm, .refl c⟩
  | tail _ hstep ih =>
    obtain ⟨hm', hk'⟩ := hstep.sound hround ih.1
    exact ⟨hm', ih.2.trans hk'⟩

/-- **Integrity of the mapping.** In every run of importer calls and blocks from peers in which each
block of a peer is linked and not entered under the hash of another mapped header, every entry leads
to a block that embeds a header with that hash and sits, numbered one higher, on the block its
parent is mapped to; and no step redirects an entry to another header. -/
theorem mapping_integrity (env : NodeEnv SE) (hround : HeaderRoundTrip env) (genesis : Block)
    (st : Pallet.State) :
    MappingIntegrity env (PeerLinked env) (Client.genesis env genesis st) := by
  intro c hrun
  have hstart : MapsSoundly env (Client.genesis env genesis st) :=
    (Integrity.genesis hround genesis st).maps
  obtain ⟨hm, _⟩ := NodeRun.sound hround hstart hrun
  exact ⟨hm, fun c' hlater => (NodeRun.sound hround hm hlater).2⟩

/-! ## Peers -/

namespace PeerSample

open Reference BranchSample

def chainParams : ChainParams := ChainParams.new paramsOf .bitcoin

/-- The import parameters of a Substrate block on the genesis block that embeds the header of
`first` and states the Bitcoin hash `h`. -/
def params (h : BlockHash) : BlockImportParams :=
  { header :=
      { parentHash := client.genesisHash
        number := 1
        stateRoot := default
        extrinsicsRoot := default
        digest :=
          [.preRuntime nakamotoHashEngineId h.hash.bytes.reverse,
            .preRuntime nakamotoHeaderEngineId (Reference.env.encodeHeader first.header)] }
    body := none
    state := none
    forkChoice := false
    auxiliary := [] }

def taken (h : BlockHash) : Option Client :=
  match verifyQueued Reference.env Build.checked chainParams 1231006800 client (params h) with
  | .ok verified => some (client.importBlock Reference.env verified).2
  | _ => none

theorem nodeStep_of_taken {Q : Client → SubstrateHeader → Prop} {h : BlockHash} {c : Client}
    (htaken : taken h = some c) (hpeer : Q client (params h).header) :
    NodeStep Reference.env Q client c := by
  unfold taken at htaken
  cases hverify : verifyQueued Reference.env Build.checked chainParams 1231006800 client
      (params h) with
  | ok verified =>
    rw [hverify] at htaken
    cases htaken
    exact .queue Build.checked chainParams 1231006800 (params h) rfl hverify hpeer
  | err e =>
    rw [hverify] at htaken
    cases htaken
  | panic msg =>
    rw [hverify] at htaken
    cases htaken

theorem peerLinked_first :
    PeerLinked Reference.env client (params (Reference.env.hashOf first)).header := by
  intro header h hheader hhash
  have hdigest : (params (Reference.env.hashOf first)).header.digest =
      substrateHeaderDigest Reference.env first.header := rfl
  rw [extractBitcoinBlockHeader_of_digest decodeHeader_encodeHeader hdigest,
    Except.ok.injEq] at hheader
  rw [extractBitcoinBlockHash_of_digest hdigest, Except.ok.injEq] at hhash
  subst hheader hhash
  have hun : client.substrateBlockHashFor (Reference.env.blockHash first.header) = none := by
    decide +kernel
  have hparent : client.substrateBlockHashFor first.header.prevBlockhash =
      some client.genesisHash := by decide +kernel
  have hroot : client.blocks client.genesisHash =
      some ⟨substrateGenesisHeader Reference.env genesisBlock Pallet.State.empty,
        some (genesisBlock.txdata.map (bitcoinTransactionIntoExtrinsic Reference.env)),
        some Pallet.State.empty⟩ := by
    unfold client
    rw [Client.blocks_genesis, if_pos rfl]
  refine ⟨.of_unmapped rfl ⟨_, hroot, hparent, rfl⟩ hun, ?_⟩
  intro old hold
  rw [Client.blockHeader, hun] at hold
  cases hold

end PeerSample

open Reference BranchSample PeerSample in
/-- A block of a peer that states the hash of its own header is taken and mapped. -/
theorem mapping_integrity_first :
    ∃ c, NodeRun Reference.env (PeerLinked Reference.env) client c ∧
      c.blockHeader Reference.env (Reference.env.hashOf first) = some first.header ∧
      MapsSoundly Reference.env c := by
  have hafter : (taken (Reference.env.hashOf first)).any (fun c =>
      c.blockHeader Reference.env (Reference.env.hashOf first) = some first.header) = true := by
    decide +kernel
  obtain ⟨c, hc, hfirst⟩ := (Option.any_eq_true _ _).mp hafter
  have hrun : NodeRun Reference.env (PeerLinked Reference.env) client c :=
    .single (nodeStep_of_taken hc peerLinked_first)
  have hint := mapping_integrity Reference.env decodeHeader_encodeHeader genesisBlock
    Pallet.State.empty
  exact ⟨c, hrun, of_decide_eq_true hfirst, (hint c hrun).1⟩

open Reference BranchSample PeerSample in
/-- A peer sends a block that embeds the header of `first` and states the hash of the genesis block.
The queue takes it, and the entry of the genesis block then leads to the header of `first`. -/
theorem genesis_entry_redirected :
    ¬ MappingIntegrity Reference.env (fun _ _ => True) client := by
  intro hint
  have hbefore : client.blockHeader Reference.env (Reference.env.hashOf genesisBlock) =
      some genesisBlock.header := by decide +kernel
  have hafter : (taken (Reference.env.hashOf genesisBlock)).any (fun c =>
      c.blockHeader Reference.env (Reference.env.hashOf genesisBlock) = some first.header) =
      true := by decide +kernel
  have hne : first.header ≠ genesisBlock.header := by decide +kernel
  obtain ⟨c, hc, hfirst⟩ := (Option.any_eq_true _ _).mp hafter
  have hrun : NodeRun Reference.env (fun _ _ => True) client c :=
    .single (nodeStep_of_taken hc trivial)
  have hkeep := (hint client .refl).2 c hrun _ _ hbefore
  rw [of_decide_eq_true hfirst, Option.some.injEq] at hkeep
  exact hne hkeep

end Subcoin
