import Subcoin.Nakamoto.Mapping

/-!
# Subcoin — what importing keeps true

`importBlock_cases` says everything a successful `import_block` can do: nothing, or adding one block
whose parent is mapped (`Addition`). From it follows the invariant of every client an importer
builds, `Integrity`: the blocks form a tree, and the Bitcoin hashes the auxiliary store maps are
exactly those of the stored blocks.

* **`Integrity.genesis`**, **`Integrity.addition`** — the invariant at the start and after a step.
* **`ImportRun.records`** — the invariant along every run of imports, with the blocks it imported.
-/

namespace Subcoin

open Outcome

variable {SE : Type} {env : NodeEnv SE} {c : Client}

/-! ## The importer

`importBlock_cases` inverts `import_block` once; nothing below unfolds it again. -/

/-- The choices the importer makes for a block it adds. -/
structure Addition where
  parent : HashAndNumber
  header : SubstrateHeader
  state : Option Pallet.State
  totalWork : Work
  forkChoice : Bool

variable (env) in
def Addition.params (a : Addition) (block : Block) : BlockImportParams :=
  { header := a.header
    body := some (block.txdata.map (bitcoinTransactionIntoExtrinsic env))
    state := a.state
    forkChoice := a.forkChoice
    auxiliary := auxStorage (env.hashOf block) (env.headerHash a.header) a.totalWork }

variable (env) in
def Addition.apply (a : Addition) (c : Client) (block : Block) : Client :=
  c.insertBlock (env.headerHash a.header) (a.params env block)

variable (env) in
/-- What the importer has checked or computed when it adds a block. -/
structure Addition.Valid (a : Addition) (c : Client) (block : Block) : Prop where
  unmapped : c.blockNumber (env.hashOf block) = none
  parent_mapped : c.substrateBlockHashFor block.header.prevBlockhash = some a.parent.hash
  parent_number : c.number a.parent.hash = some a.parent.number
  header_parent : a.header.parentHash = a.parent.hash
  header_number : a.header.number = a.parent.number + 1
  header_digest : a.header.digest = substrateHeaderDigest env block.header
  work : calculateChainWorkAndForkChoice env c block.header (a.parent.number + 1) =
    .ok (a.totalWork, a.forkChoice)
  new : c.blocks (env.headerHash a.header) = none

def ImportStatus.added : ImportStatus → Block → List Block
  | .imported _ _ _, block => [block]
  | _, _ => []

section Importer

variable {importer : BitcoinBlockImporter} {build : Build} {now : Nat} {c' : Client}
  {block : Block} {status : ImportStatus}

variable {parent : HashAndNumber}

theorem fetchSubstrateBlockInfo_eq_some {h : BlockHash}
    (hf : fetchSubstrateBlockInfo c h = .ok (some parent)) :
    c.substrateBlockHashFor h = some parent.hash ∧ c.number parent.hash = some parent.number := by
  unfold fetchSubstrateBlockInfo at hf
  cases hmap : c.substrateBlockHashFor h with
  | none =>
    rw [hmap] at hf
    cases hf
  | some s =>
    rw [hmap] at hf
    obtain ⟨n, hn, hpair⟩ := bind_eq_ok.mp hf
    rw [okOr_eq_ok] at hn
    cases hpair
    exact ⟨rfl, hn⟩

theorem executedHeader_eq_ok {hd : SubstrateHeader} {st : Option Pallet.State}
    (h : executedHeader env importer c block parent = .ok (hd, st)) :
    hd.parentHash = parent.hash ∧ hd.number = parent.number + 1 ∧
      hd.digest = substrateHeaderDigest env block.header := by
  unfold executedHeader at h
  cases hexec : importer.executeBlock with
  | true =>
    simp only [hexec, if_true] at h
    obtain ⟨⟨root, st'⟩, _, hpair⟩ := bind_eq_ok.mp h
    cases hpair
    exact ⟨rfl, rfl, rfl⟩
  | false =>
    simp only [hexec, Bool.false_eq_true, if_false, pure_eq_ok] at h
    cases h
    exact ⟨rfl, rfl, rfl⟩

theorem prepareSubstrateBlockImport_eq_ok {params : BlockImportParams}
    (h : prepareSubstrateBlockImport env importer c block parent = .ok params) :
    ∃ a : Addition, a.parent = parent ∧ params = a.params env block ∧
      executedHeader env importer c block parent = .ok (a.header, a.state) ∧
      calculateChainWorkAndForkChoice env c block.header (parent.number + 1) =
        .ok (a.totalWork, a.forkChoice) := by
  obtain ⟨⟨hd, st⟩, hexec, h⟩ := bind_eq_ok.mp h
  obtain ⟨⟨work, fc⟩, hwork, hpure⟩ := bind_eq_ok.mp h
  cases hpure
  exact ⟨⟨parent, hd, st, work, fc⟩, rfl, rfl, hexec, hwork⟩

/-- Everything a successful `import_block` can do. -/
theorem importBlock_cases
    (h : importBlock env importer build now c block = .ok (status, c')) :
    (status.added block = [] ∧ c' = c) ∨
      ∃ a : Addition, a.Valid env c block ∧ status.added block = [block] ∧
        c' = a.apply env c block ∧
        verifyBlock env importer.verifier build c now (a.parent.number + 1) block = .ok () ∧
        executedHeader env importer c block a.parent = .ok (a.header, a.state) := by
  unfold importBlock at h
  cases hnum : c.blockNumber (env.hashOf block) with
  | some n =>
    rw [hnum] at h
    cases h
    exact Or.inl ⟨rfl, rfl⟩
  | none =>
    rw [hnum] at h
    obtain ⟨parent, hfetch, h⟩ := bind_eq_ok.mp h
    rw [mapErr_eq_ok] at hfetch
    cases parent with
    | none =>
      cases h
      exact Or.inl ⟨rfl, rfl⟩
    | some parent =>
      obtain ⟨hmap, hparent⟩ := fetchSubstrateBlockInfo_eq_some hfetch
      cases hstatus : checkParentStatus importer c parent with
      | some st =>
        -- the parent's status is never `imported`, so nothing is reported as added
        simp only [hstatus, pure_eq_ok, Outcome.ok.injEq, Prod.mk.injEq] at h
        obtain ⟨rfl, rfl⟩ := h
        refine Or.inl ⟨?_, rfl⟩
        unfold checkParentStatus at hstatus
        split at hstatus
        · split at hstatus <;> cases hstatus <;> rfl
        · cases hstatus
      | none =>
        simp only [hstatus] at h
        obtain ⟨u, hverify, h⟩ := bind_eq_ok.mp h
        obtain ⟨params, hprep, h⟩ := bind_eq_ok.mp h
        rw [mapErr_eq_ok] at hverify hprep
        obtain ⟨a, rfl, rfl, hexec, hwork⟩ := prepareSubstrateBlockImport_eq_ok hprep
        obtain ⟨hpar, hno, hdig⟩ := executedHeader_eq_ok hexec
        unfold Client.importBlock at h
        have hheader : (a.params env block).header = a.header := rfl
        rw [hheader] at h
        by_cases hknown : (c.blocks (env.headerHash a.header)).isSome = true
        · simp only [if_pos hknown] at h
          cases h
          exact Or.inl ⟨rfl, rfl⟩
        · rw [hpar] at h
          obtain ⟨p, hp, _⟩ := Client.number_eq_some.mp hparent
          simp only [if_neg hknown, hp, Option.isNone_some, Bool.false_eq_true, if_false] at h
          cases h
          exact Or.inr ⟨a, ⟨hnum, hmap, hparent, hpar, hno, hdig, hwork, by simpa using hknown⟩,
            rfl, rfl, hverify, hexec⟩

def Addition.unexecuted (env : NodeEnv SE) (block : Block) (parent : HashAndNumber)
    (totalWork : Work) (forkChoice : Bool) : Addition :=
  ⟨parent, substrateHeader env block parent, none, totalWork, forkChoice⟩

/-- An importer that neither verifies nor executes takes every sane block with a new hash on a
mapped parent. -/
theorem importBlock_unverified (hnone : importer.verifier.blockVerification = .none)
    (hexec : importer.executeBlock = false) {txids : List Txid} {total : Work} {fc : Bool}
    (hsane : checkBlockSanity env.toEnv (parent.number + 1) block = (.ok txids : Outcome
      (VerifyError SE) (List Txid))) (hun : c.substrateBlockHashFor (env.hashOf block) = none)
    (hparent : c.substrateBlockHashFor block.header.prevBlockhash = some parent.hash)
    (hnum : c.number parent.hash = some parent.number)
    (hwork : calculateChainWorkAndForkChoice env c block.header (parent.number + 1) = .ok (total,
      fc)) (hnew : c.blocks (env.headerHash (substrateHeader env block parent)) = none) :
    importBlock env importer build now c block =
      .ok (.imported (parent.number + 1) (env.hashOf block) fc,
        (Addition.unexecuted env block parent total fc).apply env c block) := by
  have hnumber : c.blockNumber (env.hashOf block) = none := by
    rw [Client.blockNumber, hun, Option.bind_none]
  have hfetch : fetchSubstrateBlockInfo c block.header.prevBlockhash = .ok (some parent) := by
    unfold fetchSubstrateBlockInfo
    rw [hparent]
    dsimp only
    rw [hnum, okOr_some, ok_bind]
    rfl
  have hverify : verifyBlock env importer.verifier build c now (parent.number + 1) block =
      .ok () := by
    unfold verifyBlock contextualCheckBlock
    rw [hsane, ok_bind, hnone]
    rfl
  have hprepare : prepareSubstrateBlockImport env importer c block parent =
      .ok ((Addition.unexecuted env block parent total fc).params env block) := by
    unfold prepareSubstrateBlockImport executedHeader
    simp only [hexec, Bool.false_eq_true, if_false, pure_eq_ok, ok_bind, hwork]
    rfl
  obtain ⟨p, hp, _⟩ := Client.number_eq_some.mp hnum
  have himport :
      c.importBlock env ((Addition.unexecuted env block parent total fc).params env block) =
      (.imported fc, (Addition.unexecuted env block parent total fc).apply env c block) := by
    unfold Client.importBlock
    have hhash : env.headerHash
        ((Addition.unexecuted env block parent total fc).params env block).header =
        env.headerHash (substrateHeader env block parent) := rfl
    have hpar :
        ((Addition.unexecuted env block parent total fc).params env block).header.parentHash =
        parent.hash := rfl
    rw [hhash, hpar]
    simp only [hnew, hp, Option.isSome_none, Option.isNone_some, Bool.false_eq_true, if_false]
    rfl
  unfold importBlock checkParentStatus importOn
  simp only [hnumber, hfetch, hexec, mapErr, ok_bind, Bool.false_eq_true, if_false,
    hverify, hprepare, himport]
  rfl

end Importer

/-! ## The invariant of a client that an importer built -/

structure Integrity (env : NodeEnv SE) (c : Client) : Prop where
  wellFormed : c.WellFormed
  maps : MapsSoundly env c
  digest : ∀ {h s}, c.substrateBlockHashFor h = some s → c.bitcoinBlockHashFor s = some h
  complete : ∀ {s b}, c.blocks s = some b → ∃ h, c.substrateBlockHashFor h = some s

variable {st : Pallet.State}

theorem Client.blocks_genesis {genesis : Block} (x : H256) :
    (Client.genesis env genesis st).blocks x =
      if x = (Client.genesis env genesis st).genesisHash then
        some ⟨substrateGenesisHeader env genesis st,
          some (genesis.txdata.map (bitcoinTransactionIntoExtrinsic env)), some st⟩
      else none := by
  show Function.update (fun _ => none) _ _ x = _
  rw [Function.update_apply]
  rfl

theorem Client.substrateBlockHashFor_genesis {genesis : Block} (h : BlockHash) :
    (Client.genesis env genesis st).substrateBlockHashFor h =
      if h = env.hashOf genesis then some (Client.genesis env genesis st).genesisHash
      else none := by
  have htake : ∀ s : H256, s.bytes.take 32 = s.bytes :=
    fun s => List.take_of_length_le s.length_eq.le
  show (Function.update (fun _ => none) (env.hashOf genesis).hash.bytes
    (some (Client.genesis env genesis st).genesisHash.bytes) h.hash.bytes).bind _ = _
  rw [Function.update_apply]
  by_cases hh : h = env.hashOf genesis
  · rw [if_pos hh, if_pos (by rw [hh]), Option.bind_some, htake, Hash256.fromSlice_bytes]
  · have hbytes : h.hash.bytes ≠ (env.hashOf genesis).hash.bytes :=
      fun heq => hh (BlockHash.bytes_inj heq)
    rw [if_neg hh, if_neg hbytes]
    rfl

theorem Client.bitcoinBlockHashFor_of_blocks {s : H256} {b : StoredBlock} {header : Header}
    (hb : c.blocks s = some b) (hdigest : b.header.digest = substrateHeaderDigest env header) :
    c.bitcoinBlockHashFor s = some (env.blockHash header) := by
  unfold bitcoinBlockHashFor Client.header
  rw [hb, Option.map_some, Option.bind_some, extractBitcoinBlockHash_of_digest hdigest]
  rfl

theorem Integrity.genesis (hround : HeaderRoundTrip env) (genesis : Block) (st : Pallet.State) :
    Integrity env (Client.genesis env genesis st) := by
  have hroot : (Client.genesis env genesis st).blocks (Client.genesis env genesis st).genesisHash =
      some ⟨substrateGenesisHeader env genesis st,
        some (genesis.txdata.map (bitcoinTransactionIntoExtrinsic env)), some st⟩ := by
    rw [Client.blocks_genesis, if_pos rfl]
  have hdigest : (substrateGenesisHeader env genesis st).digest =
      substrateHeaderDigest env genesis.header := rfl
  -- the only entry is the one of the genesis block, and it is the only block
  have honly : ∀ {h s}, (Client.genesis env genesis st).substrateBlockHashFor h = some s →
      h = env.hashOf genesis ∧ s = (Client.genesis env genesis st).genesisHash := by
    intro h s hmap
    rw [Client.substrateBlockHashFor_genesis] at hmap
    split at hmap
    · rename_i hh
      cases hmap
      exact ⟨hh, rfl⟩
    · cases hmap
  have hblock : ∀ {s b}, (Client.genesis env genesis st).blocks s = some b →
      s = (Client.genesis env genesis st).genesisHash := by
    intro s b hb
    rw [Client.blocks_genesis] at hb
    by_contra hne
    rw [if_neg hne] at hb
    cases hb
  refine ⟨⟨?_, ?_, ?_⟩, ?_, ?_, ?_⟩
  · rw [Client.number_of_blocks hroot]
    rfl
  · intro h b hb hne
    exact absurd (hblock hb) hne
  · show ((Client.genesis env genesis st).blocks
      (Client.genesis env genesis st).genesisHash).isSome = true
    rw [hroot]
    rfl
  · intro h s hmap
    obtain ⟨rfl, rfl⟩ := honly hmap
    exact ⟨_, genesis.header, hroot, extractBitcoinBlockHeader_of_digest hround hdigest, rfl,
      fun hne => absurd rfl hne⟩
  · intro h s hmap
    obtain ⟨rfl, rfl⟩ := honly hmap
    exact Client.bitcoinBlockHashFor_of_blocks hroot hdigest
  · intro s b hb
    refine ⟨env.hashOf genesis, ?_⟩
    rw [Client.substrateBlockHashFor_genesis, if_pos rfl, hblock hb]

/-! ## One step -/

section Step

variable {a : Addition} {block : Block}

theorem Addition.blocks_apply (x : H256) :
    (a.apply env c block).blocks x =
      if x = env.headerHash a.header then
        some ⟨a.header, some (block.txdata.map (bitcoinTransactionIntoExtrinsic env)), a.state⟩
      else c.blocks x :=
  Client.blocks_insertBlock x

theorem Addition.Valid.blocks_of_some (hv : a.Valid env c block) {x : H256} {b : StoredBlock}
    (hb : c.blocks x = some b) : (a.apply env c block).blocks x = some b :=
  Client.blocks_insertBlock_of_some hv.new hb

theorem Addition.substrateBlockHashFor_apply (h : BlockHash) :
    (a.apply env c block).substrateBlockHashFor h =
      if h = env.hashOf block then some (env.headerHash a.header)
      else c.substrateBlockHashFor h :=
  Client.substrateBlockHashFor_insertBlock rfl h

theorem Addition.blocks_new :
    (a.apply env c block).blocks (env.headerHash a.header) =
      some ⟨a.header, some (block.txdata.map (bitcoinTransactionIntoExtrinsic env)), a.state⟩ := by
  rw [Addition.blocks_apply, if_pos rfl]

theorem Addition.maps_new :
    (a.apply env c block).substrateBlockHashFor (env.hashOf block) =
      some (env.headerHash a.header) := by
  rw [Addition.substrateBlockHashFor_apply, if_pos rfl]

/-- An addition leaves the entries of the client as they were. -/
theorem Addition.Valid.maps_of_some (hv : a.Valid env c block) (hm : MapsSoundly env c)
    {h : BlockHash} {s : H256} (hmap : c.substrateBlockHashFor h = some s) :
    h ≠ env.hashOf block ∧ (a.apply env c block).substrateBlockHashFor h = some s := by
  have hne : h ≠ env.hashOf block := by
    rintro rfl
    rw [hm.substrateBlockHashFor_eq_none.mp hv.unmapped] at hmap
    cases hmap
  exact ⟨hne, by rw [Addition.substrateBlockHashFor_apply, if_neg hne, hmap]⟩

theorem Addition.bestHash_apply :
    (a.apply env c block).bestHash = if a.forkChoice then env.headerHash a.header else c.bestHash :=
  rfl

theorem Addition.Valid.linked (hm : MapsSoundly env c) (hv : a.Valid env c block) :
    Linked env c a.header (env.hashOf block) block.header := by
  obtain ⟨p, hp, hnum⟩ := Client.number_eq_some.mp hv.parent_number
  refine .of_unmapped rfl ⟨p, ?_, ?_, ?_⟩ (hm.substrateBlockHashFor_eq_none.mp hv.unmapped)
  · rw [hv.header_parent, hp]
  · rw [hv.header_parent, hv.parent_mapped]
  · rw [hv.header_number, hnum]

theorem Addition.Valid.mapsSoundly (hround : HeaderRoundTrip env) (hm : MapsSoundly env c)
    (hv : a.Valid env c block) : MapsSoundly env (a.apply env c block) :=
  hm.insert (show Linked env c (a.params env block).header _ _ from hv.linked hm) hv.new
    (extractBitcoinBlockHeader_of_digest hround hv.header_digest) rfl

theorem Addition.Valid.wellFormed (hv : a.Valid env c block) (wf : c.WellFormed) :
    (a.apply env c block).WellFormed := by
  refine ⟨?_, ?_, ?_⟩
  · obtain ⟨b, hb, hnum⟩ := Client.number_eq_some.mp wf.genesis
    exact Client.number_eq_some.mpr ⟨b, hv.blocks_of_some hb, hnum⟩
  · -- every block but the first has its parent: the new one by validity, the old ones as before
    intro h b hb hne
    rw [Addition.blocks_apply] at hb
    by_cases hh : h = env.headerHash a.header
    · rw [if_pos hh, Option.some.injEq] at hb
      subst hb
      obtain ⟨p, hp, hnum⟩ := Client.number_eq_some.mp hv.parent_number
      refine ⟨p, ?_, ?_⟩
      · show (a.apply env c block).blocks a.header.parentHash = some p
        rw [hv.header_parent]
        exact hv.blocks_of_some hp
      · show a.header.number = p.header.number + 1
        rw [hv.header_number, hnum]
    · rw [if_neg hh] at hb
      obtain ⟨p, hp, hnum⟩ := wf.parent hb hne
      exact ⟨p, hv.blocks_of_some hp, hnum⟩
  · rw [Addition.bestHash_apply]
    split
    · rw [Addition.blocks_new]
      rfl
    · obtain ⟨b, hb⟩ := Option.isSome_iff_exists.mp wf.best
      rw [hv.blocks_of_some hb]
      rfl

theorem Integrity.addition (hround : HeaderRoundTrip env) (hi : Integrity env c)
    (hv : a.Valid env c block) : Integrity env (a.apply env c block) := by
  refine ⟨hv.wellFormed hi.wellFormed, hv.mapsSoundly hround hi.maps, ?_, ?_⟩
  · -- an entry, new or old, leads to a block whose digest names the hash it is stored under
    intro h s hmap
    rw [Addition.substrateBlockHashFor_apply] at hmap
    by_cases hh : h = env.hashOf block
    · rw [if_pos hh, Option.some.injEq] at hmap
      subst hmap
      rw [hh]
      exact Client.bitcoinBlockHashFor_of_blocks Addition.blocks_new hv.header_digest
    · rw [if_neg hh] at hmap
      obtain ⟨b, hd, he⟩ := hi.maps hmap
      have hold := hi.digest hmap
      unfold Client.bitcoinBlockHashFor Client.header at hold ⊢
      rw [hv.blocks_of_some he.stored]
      rwa [he.stored] at hold
  · -- and every stored block has an entry
    intro s b hb
    rw [Addition.blocks_apply] at hb
    by_cases hs : s = env.headerHash a.header
    · exact ⟨env.hashOf block, by rw [Addition.maps_new, hs]⟩
    · rw [if_neg hs] at hb
      obtain ⟨h, hmap⟩ := hi.complete hb
      exact ⟨h, (hv.maps_of_some hi.maps hmap).2⟩

end Step

/-! ## Runs -/

/-- The clients that successful calls of `import_block` build from `c₀`, with the blocks they
imported in order. Importers, builds and clocks may change from call to call. -/
inductive ImportRun (env : NodeEnv SE) (c₀ : Client) : List Block → Client → Prop
  | start : ImportRun env c₀ [] c₀
  | call {imported : List Block} {c c' : Client} {status : ImportStatus}
      (importer : BitcoinBlockImporter) (build : Build) (now : Nat) (block : Block)
      (hrun : ImportRun env c₀ imported c)
      (hcall : importBlock env importer build now c block = .ok (status, c')) :
      ImportRun env c₀ (imported ++ status.added block) c'

variable {imported : List Block}

/-- Induction over a run in which the calls that add nothing are skipped. -/
theorem ImportRun.induct {c₀ : Client} {P : List Block → Client → Prop} (hstart : P [] c₀)
    (hadd : ∀ {imported c} (a : Addition) (block : Block), P imported c → a.Valid env c block → P
      (imported ++ [block]) (a.apply env c block)) {c : Client}
    (hrun : ImportRun env c₀ imported c) : P imported c := by
  induction hrun with
  | start => exact hstart
  | call importer build now block _ hcall ih =>
    rcases importBlock_cases hcall with ⟨hadded, rfl⟩ | ⟨a, hv, hadded, rfl, _⟩
    · rw [hadded, List.append_nil]
      exact ih
    · rw [hadded]
      exact hadd a block ih hv

def importBlocks (env : NodeEnv SE) (importer : BitcoinBlockImporter) (build : Build) (now : Nat) :
    Client → List Block → Option Client
  | c, [] => some c
  | c, block :: blocks =>
    match importBlock env importer build now c block with
    | .ok (.imported _ _ _, c') => importBlocks env importer build now c' blocks
    | _ => none

theorem ImportRun.importBlocks {c₀ : Client} {importer : BitcoinBlockImporter} {build : Build}
    {now : Nat} {blocks : List Block} {c c' : Client} (hrun : ImportRun env c₀ imported c)
    (h : importBlocks env importer build now c blocks = some c') :
    ImportRun env c₀ (imported ++ blocks) c' := by
  induction blocks generalizing imported c with
  | nil =>
    cases h
    rwa [List.append_nil]
  | cons block blocks ih =>
    unfold Subcoin.importBlocks at h
    split at h
    · rename_i hcall
      have hnext := ih (hrun.call importer build now block hcall) h
      rwa [ImportStatus.added, List.append_assoc] at hnext
    · cases h

/-! ## The record of a run

The run lists the Bitcoin blocks it imported. Each of them, and the genesis block, is stored with
its header in the digest and its transactions in the body, and every mapped hash is one of theirs.
-/

structure Records (env : NodeEnv SE) (genesis : Block) (imported : List Block) (c : Client) :
    Prop where
  stored : ∀ b ∈ genesis :: imported, ∃ s sb, c.substrateBlockHashFor (env.hashOf b) = some s ∧
    c.blocks s = some sb ∧ sb.header.digest = substrateHeaderDigest env b.header ∧
    sb.body = some (b.txdata.map (bitcoinTransactionIntoExtrinsic env))
  mapped : ∀ {h s}, c.substrateBlockHashFor h = some s → ∃ b ∈ genesis :: imported, env.hashOf b = h
  nodup : ((genesis :: imported).map env.hashOf).Nodup
  root : c.substrateBlockHashFor (env.hashOf genesis) = some c.genesisHash

theorem Records.start (genesis : Block) (st : Pallet.State) :
    Records env genesis [] (Client.genesis env genesis st) := by
  have hmap : ∀ h, (Client.genesis env genesis st).substrateBlockHashFor h =
      if h = env.hashOf genesis then some (Client.genesis env genesis st).genesisHash else none :=
    Client.substrateBlockHashFor_genesis
  refine ⟨?_, ?_, List.nodup_singleton _, ?_⟩
  · intro b hb
    rw [List.mem_singleton] at hb
    subst hb
    exact ⟨_, _, by rw [hmap, if_pos rfl], by rw [Client.blocks_genesis, if_pos rfl], rfl, rfl⟩
  · intro h s hs
    rw [hmap] at hs
    split at hs
    · rename_i hh
      exact ⟨genesis, List.mem_singleton_self _, hh.symm⟩
    · cases hs
  · rw [hmap, if_pos rfl]

theorem Records.hashOf_ne {genesis : Block} {a : Addition} {block b : Block}
    (hr : Records env genesis imported c) (hm : MapsSoundly env c) (hv : a.Valid env c block)
    (hb : b ∈ genesis :: imported) : env.hashOf b ≠ env.hashOf block := by
  obtain ⟨s, _, hmap, _⟩ := hr.stored b hb
  exact (hv.maps_of_some hm hmap).1

theorem Records.addition {genesis : Block} {a : Addition} {block : Block}
    (hr : Records env genesis imported c) (hm : MapsSoundly env c) (hv : a.Valid env c block) :
    Records env genesis (imported ++ [block]) (a.apply env c block) := by
  have hmem : ∀ {b},
      b ∈ genesis :: (imported ++ [block]) ↔ b ∈ genesis :: imported ∨ b = block := by
    intro b
    rw [← List.cons_append, List.mem_append, List.mem_singleton]
  refine ⟨?_, ?_, ?_, ?_⟩
  · intro b hb
    rcases hmem.mp hb with hold | rfl
    · obtain ⟨s, sb, hmap, hsb, hrest⟩ := hr.stored b hold
      exact ⟨s, sb, (hv.maps_of_some hm hmap).2, hv.blocks_of_some hsb, hrest⟩
    · exact ⟨_, _, Addition.maps_new, Addition.blocks_new, hv.header_digest, rfl⟩
  · intro h s hs
    rw [Addition.substrateBlockHashFor_apply] at hs
    by_cases hh : h = env.hashOf block
    · exact ⟨block, hmem.mpr (Or.inr rfl), hh.symm⟩
    · rw [if_neg hh] at hs
      obtain ⟨b, hb, hbh⟩ := hr.mapped hs
      exact ⟨b, hmem.mpr (Or.inl hb), hbh⟩
  · rw [← List.cons_append, List.map_append, List.map_singleton]
    refine List.nodup_append.mpr ⟨hr.nodup, List.nodup_singleton _, ?_⟩
    intro h hh h' hh' heq
    obtain ⟨b, hb, rfl⟩ := List.mem_map.mp hh
    rw [List.mem_singleton] at hh'
    exact hr.hashOf_ne hm hv hb (heq.trans hh')
  · exact (hv.maps_of_some hm hr.root).2

theorem ImportRun.records (hround : HeaderRoundTrip env) {genesis : Block}
    (hrun : ImportRun env (Client.genesis env genesis st) imported c) :
    Integrity env c ∧ Records env genesis imported c := by
  refine ImportRun.induct (P := fun imported c => Integrity env c ∧ Records env genesis imported c)
    ?_ ?_ hrun
  · exact ⟨.genesis hround genesis st, .start genesis st⟩
  · rintro _ _ a block ⟨hi, hr⟩ hv
    exact ⟨hi.addition hround hv, hr.addition hi.maps hv⟩

theorem Records.eq_of_hashOf_eq {genesis : Block} {b b' : Block}
    (hr : Records env genesis imported c) (hb : b ∈ genesis :: imported)
    (hb' : b' ∈ genesis :: imported) (h : env.hashOf b = env.hashOf b') : b = b' :=
  List.inj_on_of_nodup_map hr.nodup hb hb' h

end Subcoin
