import Subcoin.Nakamoto.BlockImport
import Subcoin.Reference
import Subcoin.Sync.BlockDownloader

/-!
# Subcoin — a node for examples of block sync

A node that has the genesis block only, and some peers.
-/

namespace Subcoin.Sync

namespace Reference

open Subcoin.Reference (env genesisBlock)

def client : Client := Client.genesis env genesisBlock Pallet.State.empty

def genesisHash : BlockHash := env.hashOf genesisBlock

/-- A block on another one. -/
def blockOn (prev : BlockHash) (nonce : UInt32) : Block :=
  Subcoin.Reference.block prev 1231006505 0x1d00ffff nonce
    [Subcoin.Reference.coinbase [1, 1] 5000000000]

def block₁ : Block := blockOn genesisHash 1

def block₂ : Block := blockOn (env.hashOf block₁) 2

def block₃ : Block := blockOn (env.hashOf block₂) 3

/-- The node at a time given in milliseconds. -/
def moment (now : Nat) : Moment := ⟨client, now, .insertion⟩

/-- A peer that is not a local one. -/
def peer (n : UInt8) : PeerId := ⟨.v4 1 2 3 n, 8333⟩

end Reference

end Subcoin.Sync
