import Subcoin.Lib.IndexMap
import Subcoin.Nakamoto.HeaderVerify

/-!
# Subcoin — the vocabulary of block sync

Peers, inventories, requests and the actions that the sync strategies ask for. Heights and counters
are natural numbers. What the handlers read from outside is a `Moment`: the client, whose imports go
on in another task, the clock, and the order in which hash maps are iterated; every event has its
own.

A handler cannot fail, it can only panic: its result is an `Outcome Empty`.
-/

namespace Subcoin.Sync

inductive IpAddr where
  | v4 (a b c d : UInt8)
  | v6 (segments : List UInt16)
deriving DecidableEq

/-- `PeerId`, a socket address. -/
structure PeerId where
  ip : IpAddr
  port : UInt16
deriving DecidableEq

inductive Inventory where
  | error
  | transaction (txid : Txid)
  | block (hash : BlockHash)
  | compactBlock (hash : BlockHash)
  | wtx (hash : Hash256)
  | witnessTransaction (txid : Txid)
  | witnessBlock (hash : BlockHash)
  | unknown (invType : Nat) (hash : Hash256)
deriving DecidableEq

/-- `Error` of the network crate, the variants that block sync builds. -/
inductive Error where
  | badProofOfWork (hash : BlockHash)
  | invHasTooManyBlockItems
  | tooManyHeaders
  | headersNotInAscendingOrder
  | tooManyInventoryItems
  | missingFirstHeaderParent
  | connectionNotFound (peer : PeerId)
deriving DecidableEq

structure LocatorRequest where
  locatorHashes : List BlockHash
  stopHash : BlockHash
  dest : PeerId
deriving DecidableEq

inductive SyncRequest where
  | header (request : LocatorRequest)
  | inventory (request : LocatorRequest)
  | data (invs : List Inventory) (dest : PeerId)
deriving DecidableEq

inductive SyncAction where
  | request (request : SyncRequest)
  | switchToBlocksFirstSync
  | disconnectPeer (peer : PeerId) (reason : Error)
  | restartSyncWithStalledPeer (peer : PeerId)
  | setIdle
  | none
deriving DecidableEq

namespace SyncAction

def getData (invs : List Inventory) (dest : PeerId) : SyncAction := .request (.data invs dest)

end SyncAction

structure MemoryConfig where
  maxDownloadedBlocksMemory : Nat
  maxBlocksInMemory : Nat
  enableAdaptiveBatchSizing : Bool
deriving DecidableEq

/-- `MemoryConfig::default`. -/
def MemoryConfig.default : MemoryConfig := ⟨256 * 1024 * 1024, 1000, true⟩

/-- What a handler reads from outside; `now` counts milliseconds. -/
structure Moment where
  client : Client
  now : Nat
  order : HashOrder

/-! ## Results of the import queue -/

/-- `sc_consensus::BlockImportError`, the variants the import queue builds. -/
inductive BlockImportError where
  | badBlock
  | missingState
  | unknownParent
  | cancelled
  | other (err : String)
deriving DecidableEq

/-- `Debug` of an import error. -/
def BlockImportError.debug : BlockImportError → String
  | badBlock => "BadBlock(None)"
  | missingState => "MissingState"
  | unknownParent => "UnknownParent"
  | cancelled => "Cancelled"
  | other err => "Other(" ++ err ++ ")"

/-- `BlockImportStatus`. -/
inductive BlockImportStatus where
  | importedKnown (number : Nat)
  | importedUnknown (number : Nat)
deriving DecidableEq

/-- The results in an `ImportManyBlocksResult`, one for each block of the batch. -/
abbrev ImportResults := List (Except BlockImportError BlockImportStatus × BlockHash)

end Subcoin.Sync
