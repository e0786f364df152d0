import Subcoin.Lib.Merkle
import Subcoin.Nakamoto.Accepted
import Subcoin.Reference

/-!
# Subcoin — the header binds the transactions

`check_block_sanity` compares the Merkle root of the txids with the one in the header and refuses a
block with two equal txids. Together the two checks make the header bind the list of txids
(`sane_blocks_txids_eq`): without the second one, a block could be given the last transactions of
its odd levels once more under the same root.
-/

namespace Subcoin

variable {SE : Type} {env : Env SE} {pair : Hash256 → Hash256 → Hash256}

/-- `bitcoin::merkle_tree::calculate_root` is the Merkle root over `pair`. -/
def StandardRoot (env : Env SE) (pair : Hash256 → Hash256 → Hash256) : Prop :=
  ∀ txids, env.calculateRoot txids =
    (Merkle.root pair (txids.map Txid.hash)).map TxMerkleNode.mk

/-- The leaves of the Merkle tree of a block. -/
def leaves (env : Env SE) (block : Block) : List Hash256 :=
  block.txdata.map fun tx => (env.computeTxid tx).hash

/-- The pair hash is injective where the roots of the two lists of leaves use it, and no leaf is
one of its values there. -/
structure CollisionFree (pair : Hash256 → Hash256 → Hash256) (l l' : List Hash256) : Prop where
  injective : ∀ p ∈ Merkle.hashed pair l ++ Merkle.hashed pair l',
    ∀ q ∈ Merkle.hashed pair l ++ Merkle.hashed pair l',
      Merkle.node pair p = Merkle.node pair q → p = q
  leaf_ne : ∀ a ∈ l ++ l', ∀ p ∈ Merkle.hashed pair l ++ Merkle.hashed pair l',
    Merkle.node pair p ≠ a

instance (pair : Hash256 → Hash256 → Hash256) (l l' : List Hash256) :
    Decidable (CollisionFree pair l l') :=
  decidable_of_iff (_ ∧ _) ⟨fun h => ⟨h.1, h.2⟩, fun h => ⟨h.injective, h.leaf_ne⟩⟩

theorem CollisionFree.eq_of_root_eq {l l' : List Hash256} (h : CollisionFree pair l l')
    (hl : l.Nodup) (hl' : l'.Nodup) {r : Hash256} (hr : Merkle.root pair l = some r)
    (hr' : Merkle.root pair l' = some r) : l = l' := by
  refine Merkle.eq_of_root_eq
    (P := {p | p ∈ Merkle.hashed pair l ++ Merkle.hashed pair l'}) ?_ ?_ ?_ ?_ hl hl' hr hr'
  · exact fun p hp => List.mem_append_left _ hp
  · exact fun p hp => List.mem_append_right _ hp
  · exact fun p hp q hq heq => h.injective p hp q hq heq
  · exact fun a ha p hp => h.leaf_ne a ha p hp

/-- The root over the leaves of a sane block is the one in its header, and its leaves differ. -/
theorem root_leaves (hroot : StandardRoot env pair) {blockNumber : Nat} {block : Block}
    {txids : List Txid} (h : checkBlockSanity env blockNumber block = .ok txids) :
    Merkle.root pair (leaves env block) = some block.header.merkleRoot.hash ∧
      (leaves env block).Nodup := by
  have hleaves : leaves env block = (block.txdata.map env.computeTxid).map Txid.hash := by
    rw [List.map_map]
    rfl
  constructor
  · have hcalc := (size_and_root_of_checkBlockSanity h).2
    rw [(checkBlockSanity_eq_ok h).2, hroot, ← hleaves, Option.map_eq_some_iff] at hcalc
    obtain ⟨r, hr, hmk⟩ := hcalc
    rw [hr, ← hmk]
  · rw [hleaves]
    refine (checkBlockSanity_eq_ok h).1.nodup_txids.map ?_
    intro a b hab
    cases a
    cases b
    cases hab
    rfl

/-- **The header binds the txids.** Two blocks with one header that both pass the sanity check have
the same txids, and no transactions can be appended to one of them, unless the pair hash collides
on the way to the root. -/
theorem sane_blocks_txids_eq (env : Env SE) (pair : Hash256 → Hash256 → Hash256)
    (hroot : StandardRoot env pair) (blockNumber blockNumber' : Nat) (block block' : Block)
    (txids txids' : List Txid) (hheader : block.header = block'.header)
    (hok : checkBlockSanity env blockNumber block = .ok txids)
    (hok' : checkBlockSanity env blockNumber' block' = .ok txids')
    (hfree : CollisionFree pair (leaves env block) (leaves env block')) :
    block.txdata.map env.computeTxid = block'.txdata.map env.computeTxid ∧
      ∀ tail, block'.txdata = block.txdata ++ tail → tail = [] := by
  obtain ⟨hr, hnodup⟩ := root_leaves hroot hok
  obtain ⟨hr', hnodup'⟩ := root_leaves hroot hok'
  rw [← hheader] at hr'
  have hleaves := hfree.eq_of_root_eq hnodup hnodup' hr hr'
  have htxids : block.txdata.map env.computeTxid = block'.txdata.map env.computeTxid := by
    have hmk := congrArg (List.map Txid.mk) hleaves
    simpa only [leaves, List.map_map, Function.comp_def] using hmk
  refine ⟨htxids, ?_⟩
  intro tail htail
  have hlen := congrArg List.length htxids
  simpa [htail] using hlen

namespace MerkleSample

open Reference

def pairHash (a b : Hash256) : Hash256 := hash (a.bytes ++ b.bytes)

def merkleEnv : Env Unit :=
  { Reference.env.toEnv with
    calculateRoot := fun txids =>
      (Merkle.root pairHash (txids.map Txid.hash)).map TxMerkleNode.mk }

/-- Three transactions under one header; the coinbase has the given witness. -/
def block (witness : List (List UInt8)) : Block :=
  let txs := fun w =>
    [{ coinbase [1, 1] 5000000000 with input := [⟨OutPoint.null, [1, 1], 0xffffffff, w⟩] },
      transaction [input ⟨⟨Hash256.ofNat 7⟩, 0⟩ []] [⟨100, [0x51]⟩],
      transaction [input ⟨⟨Hash256.ofNat 8⟩, 0⟩ []] [⟨200, [0x51]⟩]]
  { header :=
      { genesisBlock.header with
        merkleRoot :=
          (merkleEnv.calculateRoot ((txs []).map merkleEnv.computeTxid)).getD ⟨default⟩ }
    txdata := txs witness }

def txids : List Txid := (block []).txdata.map merkleEnv.computeTxid

end MerkleSample

open MerkleSample in
/-- Two blocks that differ in the witness of their coinbase only have the same header and txids. -/
theorem txids_eq_witness :
    block [] ≠ block [[1]] ∧
      (block []).txdata.map merkleEnv.computeTxid =
        (block [[1]]).txdata.map merkleEnv.computeTxid := by
  refine ⟨by decide +kernel, ?_⟩
  exact (sane_blocks_txids_eq merkleEnv pairHash (fun _ => rfl) 1 1 (block []) (block [[1]]) txids
    txids rfl (by decide +kernel) (by decide +kernel) (by decide +kernel)).1

end Subcoin
