import Subcoin.Nakamoto.Accepted
import Subcoin.Pallet.Execution
import Subcoin.Reference

/-!
# Subcoin — a reference chain

A chain that a node accepts block by block, in which the coinbase of the first block is spent as
soon as it is mature, with a fee that the last coinbase claims. Block hashes are counters, so the
chain can be evaluated; `acceptsAll` verifies and executes a list of blocks, each on a node that has
kept nothing but the block before it and the state there.

* **`acceptsAll_cons`**, **`acceptsAll_append`** — what that says of the blocks of the list.
-/

namespace Subcoin

open Pallet (State executeBlock)

section

variable {SE : Type} (nenv : NodeEnv SE)

/-- A node that has its best block only. -/
def prunedClient (block : Block) (number : Nat) (state : State) : Client :=
  let header := { substrateGenesisHeader nenv block state with number := number }
  let hash := nenv.headerHash header
  { blocks := Function.update (fun _ => none) hash (some ⟨header, none, some state⟩)
    aux := Function.update (fun _ => none) (nenv.hashOf block).hash.bytes (some hash.bytes)
    genesisHash := hash
    bestHash := hash }

theorem utxoView_prunedClient (build : Build) (block : Block) (number : Nat) (state : State) :
    utxoView build (prunedClient nenv block number state) (number + 1) = state.coin := by
  rw [utxoView_succ]
  funext o
  simp [Client.hash, Client.findNumber, Client.coinAt, Client.header, prunedClient]

/-- The state after blocks on the block `prev` numbered `n`, if each of them is accepted. -/
def acceptsAll (v : BlockVerifier) (now : Nat) : Block → Nat → State → List Block → Option State
  | _, _, S, [] => some S
  | prev, n, S, block :: blocks =>
    match verifyBlock nenv v .checked (prunedClient nenv prev n S) now (n + 1) block,
      executeBlock nenv.toEnv (n + 1) block.txdata S with
    | .ok _, .ok S' => acceptsAll v now block (n + 1) S' blocks
    | _, _ => none

variable {nenv} {v : BlockVerifier} {now n : Nat} {prev block : Block} {S S' : State}
  {blocks : List Block}

theorem acceptsAll_cons (h : acceptsAll nenv v now prev n S (block :: blocks) = some S') :
    ∃ c S1, utxoView .checked c (n + 1) = S.coin ∧
      verifyBlock nenv v .checked c now (n + 1) block = .ok () ∧
      executeBlock nenv.toEnv (n + 1) block.txdata S = .ok S1 ∧
      acceptsAll nenv v now block (n + 1) S1 blocks = some S' := by
  rw [acceptsAll] at h
  split at h
  · rename_i S1 hok hrun
    exact ⟨_, S1, utxoView_prunedClient nenv _ prev n S, hok, hrun, h⟩
  · cases h

theorem acceptsAll_append {post : List Block}
    (h : acceptsAll nenv v now prev n S (blocks ++ post) = some S') :
    ∃ prev1 S1, acceptsAll nenv v now prev n S blocks = some S1 ∧
      acceptsAll nenv v now prev1 (n + blocks.length) S1 post = some S' := by
  induction blocks generalizing prev n S with
  | nil => exact ⟨prev, S, rfl, h⟩
  | cons block blocks ih =>
    rw [List.cons_append, acceptsAll] at h
    split at h
    · rename_i S1 hok hrun
      obtain ⟨prev2, S2, hblocks, hpost⟩ := ih h
      refine ⟨prev2, S2, ?_, ?_⟩
      · rw [acceptsAll, hok, hrun]
        exact hblocks
      · rw [List.length_cons, ← Nat.add_assoc, Nat.add_right_comm]
        exact hpost
    · cases h

theorem forEnumFrom_of_acceptsAll (h : acceptsAll nenv v now prev n S blocks = some S') :
    Loop.forEnumFrom (fun S i block => executeBlock nenv.toEnv (i + 1) block.txdata S) n blocks S =
      .ok S' := by
  induction blocks generalizing prev n S with
  | nil =>
    cases h
    rfl
  | cons block blocks ih =>
    obtain ⟨_, S1, _, _, hrun, hrest⟩ := acceptsAll_cons h
    rw [Loop.forEnumFrom_cons, hrun, Outcome.ok_bind, ih hrest]

end

namespace ChainSample

open Reference

/-- The reference library with counters for the hashes of blocks. The root of a tree of one leaf is
the leaf; that of a larger one is its first leaf here. -/
def sampleEnv : NodeEnv Unit :=
  { Reference.env with
    blockHash := fun header => ⟨Hash256.ofNat (header.nonce.toNat + 1)⟩
    calculateRoot := fun txids => txids.head?.map fun txid => ⟨txid.hash⟩
    headerHash := fun header => Hash256.ofNat (header.number + 1) }

def verifier : BlockVerifier := ⟨ChainParams.new paramsOf .bitcoin, .full, .none⟩

/-- A coinbase that burns its reward, the one at height one aside. -/
def coinbaseAt (height value : Nat) : Transaction :=
  { coinbase (leBytes 2 height) 0 with
    output := [⟨value, if height = 1 then [0x51] else [0x6a]⟩] }

def blockAt (height value : Nat) (txs : List Transaction) : Block :=
  let txs := coinbaseAt height value :: txs
  { header :=
      { version := 1
        prevBlockhash := ⟨Hash256.ofNat height⟩
        merkleRoot := (sampleEnv.calculateRoot (txs.map sampleEnv.computeTxid)).getD ⟨default⟩
        time := 1231006505 + 600 * UInt32.ofNat height
        bits := 0x1d00ffff
        nonce := UInt32.ofNat height }
    txdata := txs }

/-- Spends the coinbase of the first block, with a fee of one bitcoin. -/
def spending : Transaction :=
  transaction [input ⟨sampleEnv.computeTxid (coinbaseAt 1 5000000000), 0⟩ []]
    [⟨4000000000, [0x51]⟩, ⟨900000000, [0x51]⟩]

def chain : List Block :=
  (List.range' 1 100).map (blockAt · 5000000000 []) ++ [blockAt 101 5100000000 [spending]]

/-- The state that the chain leaves. -/
def chainState : Option State :=
  acceptsAll sampleEnv verifier 1231100000 (blockAt 0 5000000000 []) 0 State.empty chain

theorem exists_chainState : ∃ S, chainState = some S := by
  refine Option.isSome_iff_exists.mp ?_
  decide +kernel

end ChainSample

end Subcoin
