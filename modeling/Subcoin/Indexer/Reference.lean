import Subcoin.Indexer.Ledger
import Subcoin.Reference

/-!
# Subcoin — a chain for examples of indexing

Addresses over the reference instance of the libraries: an address is written as its type and its
payload. The chain is long enough for the coinbase of its first block to be spent in its last one.
-/

namespace Subcoin.Indexer.Reference

open Subcoin.Reference (transaction input genesisBlock)

/-- The text of an address: a character for its type, and the payload. -/
def addressText (kind : Char) (payload : List UInt8) : String :=
  String.ofList (kind :: payload.flatMap fun b =>
    [(b.toNat / 16).digitChar, (b.toNat % 16).digitChar])

def isP2pkh (script : List UInt8) : Bool :=
  script.length = 25 && script.take 3 = [0x76, 0xa9, 0x14] && script.drop 23 = [0x88, 0xac]

/-- A version opcode and one push of 2 to 40 bytes. -/
def isWitnessProgram : List UInt8 → Bool
  | version :: len :: program =>
    (version = 0 || (0x51 ≤ version && version ≤ 0x60)) && len.toNat = program.length &&
      2 ≤ program.length && program.length ≤ 40
  | _ => false

def fromScript (script : List UInt8) : Option String :=
  if isP2pkh script then some (addressText '1' ((script.drop 3).take 20))
  else if Subcoin.Reference.isP2sh script then some (addressText '3' ((script.drop 2).take 20))
  else if isWitnessProgram script then some (addressText 'b' script)
  else none

/-- The number that the script of the first input carries. -/
def numberOf (tx : Transaction) : Nat :=
  (tx.input.head?.map fun txin => ofLeBytes txin.scriptSig).getD 0

def hash160 (l : List UInt8) : List UInt8 := (Subcoin.Reference.hash l).bytes.take 20

/-- Hashes are given by numbers: a block is hashed to its nonce, and a transaction to the number
that it carries. -/
def env : IndexerEnv Unit :=
  { Subcoin.Reference.env with
    txidHash := fun tx => ⟨Hash256.ofNat (numberOf tx + 1)⟩
    blockHash := fun header => ⟨Hash256.ofNat (header.nonce.toNat + 1)⟩
    fromScript := fromScript
    compressedPubkeyHash := fun key =>
      if key.length = 33 ∧ (key.head? = some 2 ∨ key.head? = some 3) then some (hash160 key)
      else none
    hash160 := hash160
    p2pkh := addressText '1' }

/-- The script that pays to the hash of a key. -/
def payTo (owner : UInt8) : List UInt8 :=
  [0x76, 0xa9, 0x14] ++ List.replicate 20 owner ++ [0x88, 0xac]

/-- The coinbase of the block at a height. The first block pays to a key and to a script without an
address. -/
def coinbaseAt (height : Nat) : Transaction :=
  transaction [input OutPoint.null (leBytes 4 height)]
    (if height = 1 then [⟨3000000000, payTo 1⟩, ⟨2000000000, [0x51]⟩] else [⟨5000000000, payTo 2⟩])

def blockAt (height : Nat) (txs : List Transaction) : Block :=
  let txs := coinbaseAt height :: txs
  { header :=
      { version := 1
        prevBlockhash := ⟨Hash256.ofNat height⟩
        merkleRoot := (env.calculateRoot (txs.map env.computeTxid)).getD ⟨default⟩
        time := 1231006505 + 600 * UInt32.ofNat height
        bits := 0x1d00ffff
        nonce := UInt32.ofNat height }
    txdata := txs }

/-- A spend of an output of the first block. -/
def spending (vout : Nat) : Transaction :=
  transaction [input ⟨env.computeTxid (coinbaseAt 1), vout⟩ (leBytes 4 1000)]
    [⟨1000000000, payTo 3⟩]

/-- The block at height 101 is the first one that may spend the coinbase of the first block. -/
def chainSpending (vout : Nat) : List Block :=
  (List.range 101).map (blockAt · []) ++ [blockAt 101 [spending vout]]

/-- Different numbers are hashed to different values. -/
theorem nodup_hashes {numbers : List Nat} (h : numbers.Nodup) (hlt : ∀ n ∈ numbers, n < 2 ^ 32) :
    (numbers.map fun n => Hash256.ofNat (n + 1)).Nodup := by
  refine List.Nodup.map_on (fun m hm n hn heq => ?_) h
  have hm := hlt m hm
  have hn := hlt n hn
  have hsucc := (Hash256.ofNat_inj (by omega) (by omega)).mp heq
  omega

theorem validChain_chainSpending {vout : Nat} (h : vout < 2) :
    ValidChain env (chainSpending vout) := by
  have hnonces : ∀ vout < 2, (chainSpending vout).map (fun b => b.header.nonce.toNat) =
      List.range 102 := by decide +kernel
  have hnumbers : ∀ vout < 2,
      (entries (chainSpending vout)).map (fun x => numberOf x.tx.withoutWitness) =
        List.range 102 ++ [1000] := by decide +kernel
  have hchecked : ∀ vout < 2,
      (∀ i < (entries (chainSpending vout)).length, ∀ x ∈ (entries (chainSpending vout))[i]?,
        ∀ spend ∈ spends env [x], spend.1 ∈
          (((entries (chainSpending vout)).take i).flatMap (created env)).map Prod.fst) ∧
      ((spends env (entries (chainSpending vout))).map Prod.fst).Nodup ∧
      ∀ x ∈ entries (chainSpending vout), ∀ out ∈ x.tx.output, out.value ≤ maxMoney := by
    decide +kernel
  obtain ⟨hearlier, honce, hmoney⟩ := hchecked vout h
  refine ⟨?_, ?_, ValidChain.earlier_of_take hearlier, honce, hmoney⟩
  · have hnodup : ((List.range 102).map fun n => Hash256.ofNat (n + 1)).Nodup :=
      nodup_hashes List.nodup_range fun n hn => (List.mem_range.mp hn).trans (by decide)
    rw [← hnonces vout h, List.map_map] at hnodup
    exact hnodup.map (f := BlockHash.mk) fun _ _ heq => BlockHash.mk.inj heq
  · have hnodup : ((List.range 102 ++ [1000]).map fun n => Hash256.ofNat (n + 1)).Nodup :=
      nodup_hashes (by decide +kernel) (by decide +kernel)
    rw [← hnumbers vout h, List.map_map] at hnodup
    exact hnodup.map (f := Txid.mk) fun _ _ heq => Txid.mk.inj heq

end Subcoin.Indexer.Reference
