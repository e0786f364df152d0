import Subcoin.Sync.Types

/-!
# Subcoin — the relay of transactions

`TxRelay` decides which announced transactions are requested, and which transactions of the pool are
announced to whom. It remembers the requests that are open, and what it has announced to each peer.

The pool is shared with the rest of the node, so what it answers is part of each event, as are the
clock and the order in which hash maps are iterated. Of a rejection only its kind is read.
-/

namespace Subcoin.Relay

open Sync (PeerId Inventory)

/-- `TX_REQUEST_TIMEOUT`, in nanoseconds. -/
def txRequestTimeout : Nat := 60 * 10 ^ 9

def maxTxRequestBatch : Nat := 100

/-- Who has been asked, and when. -/
structure RequestInfo where
  fromPeer : PeerId
  requestedAt : Nat
deriving DecidableEq

/-- What the node is told to do. -/
inductive TxAction where
  | none
  | sendGetData (inv : List Inventory) (peer : PeerId)
  | announceToPeers (peerTxids : List (PeerId × List Txid))
  | serveTxs (txs : List (Txid × PeerId))
  | penalizePeer (peer : PeerId)
deriving DecidableEq

/-- Only a hard one is held against the peer. -/
inductive RejectionReason where
  | soft
  | hard
deriving DecidableEq

def RejectionReason.shouldPenalizePeer : RejectionReason → Bool
  | hard => true
  | soft => false

/-- What the mempool says of a transaction. -/
inductive TxValidationResult where
  | accepted (txid : Txid) (feeRate : Nat)
  | rejected (txid : Txid) (reason : RejectionReason)
deriving DecidableEq

def TxValidationResult.txid : TxValidationResult → Txid
  | accepted txid _ => txid
  | rejected txid _ => txid

/-- What the pool answers during one event. It has a set of the transactions to be broadcast, so
each is listed once, with its fee rate. -/
structure TxPool where
  contains : Txid → Bool
  pendingBroadcast : List (Txid × Nat)
  once : (pendingBroadcast.map Prod.fst).Nodup

/-- `PeerTxRelayInfo`. -/
structure PeerTxRelayInfo where
  peerWantsTxRelay : PeerId → Bool
  getFeeFilter : PeerId → Option Nat

/-- What an event finds. -/
structure Context where
  now : Nat
  pool : TxPool
  order : HashOrder

/-- What peers know, and what has been asked for. -/
structure TxRelay where
  peerAnnouncements : PeerId → Option (HashSet Txid)
  requestedTxs : Txid → Option RequestInfo

namespace TxRelay

def new : TxRelay := ⟨fun _ => none, fun _ => none⟩

variable (ctx : Context) (r : TxRelay)

/-! ## Requests -/

/-- A request is entered. -/
def track (txid : Txid) (info : RequestInfo) : TxRelay :=
  { r with requestedTxs := Function.update r.requestedTxs txid (some info) }

/-- The loop of `on_inv`, with the items to be requested so far. -/
def request (ctx : Context) (sender : PeerId) :
    List Inventory → List Inventory → TxRelay → List Inventory × TxRelay
  | [], toRequest, r => (toRequest, r)
  | .transaction txid :: inv, toRequest, r =>
    if ctx.pool.contains txid then request ctx sender inv toRequest r
    else if (r.requestedTxs txid).isSome then request ctx sender inv toRequest r
    else
      let toRequest := toRequest ++ [.transaction txid]
      let r := r.track txid ⟨sender, ctx.now⟩
      -- Limit batch size.
      if maxTxRequestBatch ≤ toRequest.length then (toRequest, r)
      else request ctx sender inv toRequest r
  | _ :: inv, toRequest, r => request ctx sender inv toRequest r

/-- What is new to the node is asked for. -/
def onInv (inv : List Inventory) (sender : PeerId) : TxAction × TxRelay :=
  let (toRequest, r) := request ctx sender inv [] r
  if toRequest.isEmpty then (.none, r) else (.sendGetData toRequest sender, r)

/-- Removes timed-out transaction requests. -/
def cleanupTimeouts : TxRelay :=
  { r with
    requestedTxs := fun txid => (r.requestedTxs txid).filter fun info =>
      !decide (txRequestTimeout < ctx.now - info.requestedAt) }

/-! ## Announcements -/

/-- What has been announced to a peer. -/
def announced (peerId : PeerId) : HashSet Txid := (r.peerAnnouncements peerId).getD .empty

/-- The peer knows the transaction now. -/
def announce (peerId : PeerId) (txid : Txid) : TxRelay :=
  { r with
    peerAnnouncements :=
      Function.update r.peerAnnouncements peerId (some ((r.announced peerId).insert txid)) }

/-- The transactions to announce to each peer, and the relay. -/
abbrev Batches : Type := IndexMap PeerId (List Txid) × TxRelay

/-- The inner loop of `on_tick`: one transaction and one peer. -/
def announceTo (peerInfo : PeerTxRelayInfo) (tx : Txid × Nat) (acc : Batches) (peerId : PeerId) :
    Batches :=
  if !peerInfo.peerWantsTxRelay peerId then acc
  else if (acc.2.peerAnnouncements peerId).any fun announced => tx.1 ∈ announced then acc
  else if (peerInfo.getFeeFilter peerId).any fun peerMinFee => tx.2 < peerMinFee then acc
  else
    (acc.1.insert peerId ((acc.1.get peerId).getD [] ++ [tx.1]), acc.2.announce peerId tx.1)

def announceToAll (peerInfo : PeerTxRelayInfo) (connectedPeers : List PeerId) (acc : Batches)
    (tx : Txid × Nat) : Batches := connectedPeers.foldl (announceTo peerInfo tx) acc

/-- Requests time out, and what is pending is announced. -/
def onTick (peerInfo : PeerTxRelayInfo) (connectedPeers : List PeerId) : TxAction × TxRelay :=
  let r := r.cleanupTimeouts ctx
  let pendingBroadcast := ctx.pool.pendingBroadcast
  if pendingBroadcast.isEmpty then (.none, r)
  else
    let (peerTxids, r) := pendingBroadcast.foldl (announceToAll peerInfo connectedPeers) (.empty, r)
    if peerTxids.entries.isEmpty then (.none, r)
    else (.announceToPeers (ctx.order.arrange peerTxids.entries), r)

/-! ## The other events -/

/-- `on_get_data`: only transactions that the pool has are served. -/
def onGetData (inv : List Inventory) (sender : PeerId) : TxAction :=
  let txids := inv.filterMap fun item =>
    match item with
    | .transaction txid => if ctx.pool.contains txid then some (txid, sender) else none
    | _ => none
  if txids.isEmpty then .none else .serveTxs txids

/-- The request is settled. -/
def forget (txid : Txid) : TxRelay :=
  { r with requestedTxs := Function.update r.requestedTxs txid none }

/-- The request is settled either way. -/
def onValidatedTx (result : TxValidationResult) (receivedFrom : PeerId) : TxAction × TxRelay :=
  match result with
  | .accepted txid _ => (.none, r.forget txid)
  | .rejected txid reason =>
    if reason.shouldPenalizePeer then (.penalizePeer receivedFrom, r.forget txid)
    else (.none, r.forget txid)

/-- Its announcements and requests go. -/
def onPeerDisconnected (peerId : PeerId) : TxRelay where
  peerAnnouncements := Function.update r.peerAnnouncements peerId none
  requestedTxs txid := (r.requestedTxs txid).filter fun info => info.fromPeer ≠ peerId

/-! ## Events -/

/-- What the relay is told. -/
inductive Event where
  | inv (inv : List Inventory) (sender : PeerId)
  | tick (peerInfo : PeerTxRelayInfo) (connectedPeers : List PeerId)
  | getData (inv : List Inventory) (sender : PeerId)
  | validatedTx (result : TxValidationResult) (receivedFrom : PeerId)
  | peerDisconnected (peerId : PeerId)

/-- One event. -/
def handle : Event × Context → TxRelay → TxAction × TxRelay
  | (.inv inv sender, ctx), r => r.onInv ctx inv sender
  | (.tick peerInfo connectedPeers, ctx), r => r.onTick ctx peerInfo connectedPeers
  | (.getData inv sender, ctx), r => (onGetData ctx inv sender, r)
  | (.validatedTx result receivedFrom, _), r => r.onValidatedTx result receivedFrom
  | (.peerDisconnected peerId, _), r => (.none, r.onPeerDisconnected peerId)

end TxRelay

end Subcoin.Relay
