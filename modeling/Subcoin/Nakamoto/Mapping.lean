import Subcoin.Nakamoto.BlockImport

/-!
# Subcoin — the mapping between Bitcoin and Substrate blocks

The auxiliary store maps the hash of a Bitcoin block to the Substrate block that embeds it. This
module reads the digests and the entries back, and says when inserting a block keeps every entry
sound (`MapsSoundly`): the block behind it embeds a header with that hash and sits on the block its
parent is mapped to. It holds for both ways into the client, the importer and the import queue.

* **`Client.substrateBlockHashFor_insertBlock`**, **`loadChainWork_insertBlock`** — what the store
  says after an insertion.
* **`MapsSoundly.insert`** — inserting a block that is `Linked` keeps the mapping sound.
-/

namespace Subcoin

open Client

variable {SE : Type} {env : NodeEnv SE} {c : Client}

/-! ## Reading the digests back -/

variable {hd : SubstrateHeader}

theorem extractBitcoinBlockHash_of_digest {header : Header}
    (h : hd.digest = substrateHeaderDigest env header) :
    extractBitcoinBlockHash hd = .ok (env.blockHash header) := by
  have hne : nakamotoHeaderEngineId ≠ nakamotoHashEngineId := by decide
  have hfind : findPreRuntime nakamotoHashEngineId none hd.digest =
      .ok (some (env.blockHash header).hash.bytes.reverse) := by
    rw [h, substrateHeaderDigest]
    simp [findPreRuntime, hne]
  rw [extractBitcoinBlockHash, hfind]
  simp only [bind, Except.bind, List.reverse_reverse, Hash256.fromSlice_bytes]

/-- Bitcoin consensus encoding of headers round-trips. -/
def HeaderRoundTrip (env : NodeEnv SE) : Prop :=
  ∀ header, env.decodeHeader (env.encodeHeader header) = .ok header

theorem extractBitcoinBlockHeader_of_digest (hround : HeaderRoundTrip env) {header : Header}
    (h : hd.digest = substrateHeaderDigest env header) :
    extractBitcoinBlockHeader env hd = .ok header := by
  have hne : nakamotoHashEngineId ≠ nakamotoHeaderEngineId := by decide
  have hfind : findPreRuntime nakamotoHeaderEngineId none hd.digest =
      .ok (some (env.encodeHeader header)) := by
    rw [h, substrateHeaderDigest]
    simp [findPreRuntime, hne]
  rw [extractBitcoinBlockHeader, hfind]
  show (env.decodeHeader (env.encodeHeader header)).mapError
    DigestError.invalidBitcoinBlockHeader = _
  rw [hround]
  rfl

/-! ## The auxiliary store -/

theorem BlockHash.bytes_inj {a b : BlockHash} (h : a.hash.bytes = b.hash.bytes) : a = b := by
  cases a
  cases b
  exact congrArg BlockHash.mk (Hash256.ext h)

theorem chainWorkKey_injective {a b : BlockHash} (h : chainWorkKey a = chainWorkKey b) : a = b :=
  BlockHash.bytes_inj (by simpa [chainWorkKey] using h)

theorem bytes_ne_chainWorkKey (a b : BlockHash) : a.hash.bytes ≠ chainWorkKey b := by
  intro h
  have hlen := congrArg List.length h
  simp [chainWorkKey, a.hash.length_eq, b.hash.length_eq] at hlen

theorem ofLeBytes_workBytes (w : Work) :
    BitVec.ofNat 256 (ofLeBytes ((workBytes w).take 32)) = w := by
  have htake : (workBytes w).take 32 = workBytes w := by
    rw [List.take_of_length_le]
    simp [workBytes]
  have hpow : (256 : Nat) ^ 32 = 2 ^ 256 := by norm_num
  rw [htake, workBytes, ofLeBytes_leBytes, hpow, Nat.mod_eq_of_lt w.isLt, BitVec.ofNat_toNat,
    BitVec.setWidth_eq]

/-! ## Inserting a block with its entries

Both ways into the client insert a block together with the entries of `auxStorage` for it, under a
Bitcoin hash `bitcoinHash` that the importer computes and a peer states. -/

section Insert

variable {h : H256} {params : BlockImportParams} {bitcoinHash : BlockHash} {work : Work}

theorem Client.blocks_insertBlock (x : H256) :
    (c.insertBlock h params).blocks x =
      if x = h then some ⟨params.header, params.body, params.state⟩ else c.blocks x := by
  show Function.update c.blocks h (some ⟨params.header, params.body, params.state⟩) x = _
  rw [Function.update_apply]

theorem Client.blocks_insertBlock_of_some (hnew : c.blocks h = none) {x : H256} {b : StoredBlock}
    (hb : c.blocks x = some b) : (c.insertBlock h params).blocks x = some b := by
  have hne : x ≠ h := by
    rintro rfl
    rw [hnew] at hb
    cases hb
  rw [blocks_insertBlock, if_neg hne, hb]

section

variable (haux : params.auxiliary = auxStorage bitcoinHash h work)

include haux

theorem Client.aux_insertBlock (key : List UInt8) :
    (c.insertBlock h params).getAux key =
      if key = chainWorkKey bitcoinHash then some (workBytes work)
      else if key = bitcoinHash.hash.bytes then some h.bytes else c.getAux key := by
  show writeAux c.aux params.auxiliary key = _
  rw [haux]
  show Function.update (Function.update c.aux bitcoinHash.hash.bytes (some h.bytes))
    (chainWorkKey bitcoinHash) (some (workBytes work)) key = _
  rw [Function.update_apply, Function.update_apply]
  rfl

theorem Client.substrateBlockHashFor_insertBlock (x : BlockHash) :
    (c.insertBlock h params).substrateBlockHashFor x =
      if x = bitcoinHash then some h else c.substrateBlockHashFor x := by
  have htake : h.bytes.take 32 = h.bytes := List.take_of_length_le h.length_eq.le
  rw [substrateBlockHashFor, aux_insertBlock haux, if_neg (bytes_ne_chainWorkKey x bitcoinHash)]
  by_cases hx : x = bitcoinHash
  · rw [if_pos hx, if_pos (by rw [hx]), Option.bind_some, htake, Hash256.fromSlice_bytes]
  · have hbytes : x.hash.bytes ≠ bitcoinHash.hash.bytes := fun heq => hx (BlockHash.bytes_inj heq)
    rw [if_neg hx, if_neg hbytes]
    rfl

theorem loadChainWork_insertBlock (x : BlockHash) :
    loadChainWork (c.insertBlock h params) x =
      if x = bitcoinHash then .ok work else loadChainWork c x := by
  have hkey : chainWorkKey x ≠ bitcoinHash.hash.bytes := (bytes_ne_chainWorkKey bitcoinHash x).symm
  have hlen : 32 ≤ (workBytes work).length := by simp [workBytes]
  unfold loadChainWork
  rw [aux_insertBlock haux]
  by_cases hx : x = bitcoinHash
  · rw [if_pos hx, if_pos (by rw [hx])]
    show (if 32 ≤ (workBytes work).length then _ else _) = _
    rw [if_pos hlen, ofLeBytes_workBytes]
  · have hne : chainWorkKey x ≠ chainWorkKey bitcoinHash :=
      fun heq => hx (chainWorkKey_injective heq)
    rw [if_neg hx, if_neg hne, if_neg hkey]

end

end Insert

/-! ## Sound mappings

An entry of the store is sound when the block it leads to embeds a header with that hash and sits
on the block its parent is mapped to. -/

/-- The stored block `b` behind the entry from `h` to `s`, with the header it embeds. -/
structure EmbedsAt (env : NodeEnv SE) (c : Client) (h : BlockHash) (s : H256) (b : StoredBlock)
    (header : Header) : Prop where
  stored : c.blocks s = some b
  embedded : extractBitcoinBlockHeader env b.header = .ok header
  hash_eq : env.blockHash header = h
  linked : s ≠ c.genesisHash → ∃ p, c.blocks b.header.parentHash = some p ∧
    c.substrateBlockHashFor header.prevBlockhash = some b.header.parentHash ∧
    b.header.number = p.header.number + 1

def MapsSoundly (env : NodeEnv SE) (c : Client) : Prop :=
  ∀ ⦃h s⦄, c.substrateBlockHashFor h = some s → ∃ b header, EmbedsAt env c h s b header

/-- A Substrate header that belongs where it is put: the Bitcoin header it embeds has the hash it is
entered under, it sits on the block the Bitcoin parent is mapped to, and no mapped block has it as
its Bitcoin parent yet. -/
structure Linked (env : NodeEnv SE) (c : Client) (hd : SubstrateHeader) (bitcoinHash : BlockHash)
    (header : Header) : Prop where
  hash_eq : env.blockHash header = bitcoinHash
  parent : ∃ p, c.blocks hd.parentHash = some p ∧
    c.substrateBlockHashFor header.prevBlockhash = some hd.parentHash ∧
    hd.number = p.header.number + 1
  prev_ne : header.prevBlockhash ≠ bitcoinHash
  childless : ∀ {h s b hd'}, c.substrateBlockHashFor h = some s → EmbedsAt env c h s b hd' →
    s ≠ c.genesisHash → hd'.prevBlockhash ≠ bitcoinHash

section Sound

variable {params : BlockImportParams} {bitcoinHash : BlockHash} {header : Header} {work : Work}
  {x : H256}

/-- An entry under a hash that is not the new one stays sound when the new hash is no parent. -/
theorem EmbedsAt.insert {h : BlockHash} {s : H256} {b : StoredBlock} {hd : Header}
    (he : EmbedsAt env c h s b hd) (hnew : c.blocks x = none)
    (hprev : s ≠ c.genesisHash → hd.prevBlockhash ≠ bitcoinHash)
    (haux : params.auxiliary = auxStorage bitcoinHash x work) :
    EmbedsAt env (c.insertBlock x params) h s b hd where
  stored := blocks_insertBlock_of_some hnew he.stored
  embedded := he.embedded
  hash_eq := he.hash_eq
  linked hs := by
    obtain ⟨p, hp, hmap, hnum⟩ := he.linked hs
    refine ⟨p, blocks_insertBlock_of_some hnew hp, ?_, hnum⟩
    rw [substrateBlockHashFor_insertBlock haux, if_neg (hprev hs), hmap]

theorem Linked.embedsAt (hl : Linked env c params.header bitcoinHash header)
    (hnew : c.blocks x = none)
    (hembedded : extractBitcoinBlockHeader env params.header = .ok header)
    (haux : params.auxiliary = auxStorage bitcoinHash x work) :
    EmbedsAt env (c.insertBlock x params) bitcoinHash x
      ⟨params.header, params.body, params.state⟩ header where
  stored := by rw [blocks_insertBlock, if_pos rfl]
  embedded := hembedded
  hash_eq := hl.hash_eq
  linked _ := by
    obtain ⟨p, hp, hmap, hnum⟩ := hl.parent
    refine ⟨p, blocks_insertBlock_of_some hnew hp, ?_, hnum⟩
    rw [substrateBlockHashFor_insertBlock haux, if_neg hl.prev_ne, hmap]

theorem MapsSoundly.insert (hm : MapsSoundly env c)
    (hl : Linked env c params.header bitcoinHash header) (hnew : c.blocks x = none)
    (hembedded : extractBitcoinBlockHeader env params.header = .ok header)
    (haux : params.auxiliary = auxStorage bitcoinHash x work) :
    MapsSoundly env (c.insertBlock x params) := by
  intro h s hmap
  rw [substrateBlockHashFor_insertBlock haux] at hmap
  by_cases hh : h = bitcoinHash
  · rw [if_pos hh, Option.some.injEq] at hmap
    subst hh hmap
    exact ⟨_, header, hl.embedsAt hnew hembedded haux⟩
  · rw [if_neg hh] at hmap
    obtain ⟨b, hd, he⟩ := hm hmap
    exact ⟨b, hd, he.insert hnew (hl.childless hmap he) haux⟩

/-- Under a hash that is not mapped yet no mapped block can have the new one as its parent. -/
theorem Linked.of_unmapped (hhash : env.blockHash header = bitcoinHash)
    (hparent : ∃ p, c.blocks hd.parentHash = some p ∧ c.substrateBlockHashFor header.prevBlockhash
      = some hd.parentHash ∧ hd.number = p.header.number + 1)
    (hun : c.substrateBlockHashFor bitcoinHash = none) :
    Linked env c hd bitcoinHash header where
  hash_eq := hhash
  parent := hparent
  prev_ne heq := by
    obtain ⟨p, _, hmap, _⟩ := hparent
    rw [heq, hun] at hmap
    cases hmap
  childless hmap he hs heq := by
    obtain ⟨p, _, hprev, _⟩ := he.linked hs
    rw [heq, hun] at hprev
    cases hprev

theorem MapsSoundly.substrateBlockHashFor_eq_none (hm : MapsSoundly env c) {h : BlockHash} :
    c.blockNumber h = none ↔ c.substrateBlockHashFor h = none := by
  constructor
  · intro hnum
    cases hmap : c.substrateBlockHashFor h with
    | none => rfl
    | some s =>
      obtain ⟨b, hd, he⟩ := hm hmap
      rw [blockNumber, hmap, Option.bind_some, number_of_blocks he.stored] at hnum
      cases hnum
  · intro hmap
    rw [blockNumber, hmap, Option.bind_none]

end Sound

end Subcoin
