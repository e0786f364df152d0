import Subcoin.Lib.Traces
import Subcoin.Relay.TxRelay

/-!
# Subcoin — the discipline of the relay

A request stays open until the transaction is validated, the request times out or the peer goes, and
while it is open the transaction is not requested. What has been announced to a peer is remembered
until the peer goes, and is not announced to it again. So along every sequence of events a second
request, and a second announcement, is separated from the first by one that allows it.
-/

namespace Subcoin.Relay

open Sync (PeerId Inventory)

namespace TxRelay

variable {ctx : Context} {r : TxRelay} {txid : Txid} {peerId : PeerId}

/-! ## Open requests -/

/-- What a batch of requests is: at most 100 transactions, each once and none of them pooled. -/
structure Batch (pool : TxPool) (inv : List Inventory) : Prop where
  short : inv.length ≤ maxTxRequestBatch
  nodup : inv.Nodup
  missing : ∀ item ∈ inv, ∃ txid, item = .transaction txid ∧ pool.contains txid = false

/-- The loop of `on_inv`: the batch so far is open, and so is everything that was open before. -/
structure Requesting (ctx : Context) (sender : PeerId) (r₀ : TxRelay) (toRequest : List Inventory)
    (r : TxRelay) : Prop where
  nodup : toRequest.Nodup
  missing : ∀ item ∈ toRequest, ∃ txid, item = .transaction txid ∧
    ctx.pool.contains txid = false ∧ r₀.requestedTxs txid = none ∧
    r.requestedTxs txid = some ⟨sender, ctx.now⟩
  kept : ∀ txid info, r₀.requestedTxs txid = some info → r.requestedTxs txid = some info
  announcements : r.peerAnnouncements = r₀.peerAnnouncements

theorem Requesting.track {sender : PeerId} {r₀ : TxRelay} {toRequest : List Inventory}
    (h : Requesting ctx sender r₀ toRequest r) (hpool : ctx.pool.contains txid = false)
    (hclosed : r.requestedTxs txid = none) :
    Requesting ctx sender r₀ (toRequest ++ [.transaction txid])
      (r.track txid ⟨sender, ctx.now⟩) := by
  have hother {txid' : Txid} {info : RequestInfo} (hopen : r.requestedTxs txid' = some info) :
      (r.track txid ⟨sender, ctx.now⟩).requestedTxs txid' = some info := by
    have hne : txid' ≠ txid := by
      rintro rfl
      rw [hclosed] at hopen
      cases hopen
    exact (Function.update_of_ne hne ..).trans hopen
  refine ⟨?_, ?_, fun txid' info hopen => hother (h.kept txid' info hopen), h.announcements⟩
  · rw [← List.concat_eq_append]
    refine h.nodup.concat fun hmem => ?_
    obtain ⟨txid', heq, -, -, hopen⟩ := h.missing _ hmem
    cases heq
    rw [hclosed] at hopen
    cases hopen
  · intro item hitem
    rcases List.mem_append.mp hitem with hold | hnew
    · obtain ⟨txid', heq, hmissing, hbefore, hopen⟩ := h.missing item hold
      exact ⟨txid', heq, hmissing, hbefore, hother hopen⟩
    · refine ⟨txid, List.mem_singleton.mp hnew, hpool, ?_, Function.update_self ..⟩
      by_contra hbefore
      obtain ⟨info, hinfo⟩ := Option.ne_none_iff_exists'.mp hbefore
      rw [h.kept txid info hinfo] at hclosed
      cases hclosed

theorem Requesting.request {sender : PeerId} {r₀ : TxRelay} {inv toRequest : List Inventory}
    (h : Requesting ctx sender r₀ toRequest r) (hshort : toRequest.length < maxTxRequestBatch) :
    Requesting ctx sender r₀ (request ctx sender inv toRequest r).1
        (request ctx sender inv toRequest r).2 ∧
      (request ctx sender inv toRequest r).1.length ≤ maxTxRequestBatch := by
  fun_induction TxRelay.request ctx sender inv toRequest r with
  | case1 toRequest r => exact ⟨h, Nat.le_of_lt hshort⟩
  | case2 txid inv toRequest r hpool ih => exact ih h hshort
  | case3 txid inv toRequest r hpool hopen ih => exact ih h hshort
  | case4 txid inv toRequest r hpool hopen toRequest' r' hfull =>
    refine ⟨h.track (Bool.eq_false_of_not_eq_true hpool) (by simpa using hopen), ?_⟩
    show (toRequest ++ [Inventory.transaction txid]).length ≤ maxTxRequestBatch
    rw [List.length_append]
    exact hshort
  | case5 txid inv toRequest r hpool hopen toRequest' r' hfull ih =>
    exact ih (h.track (Bool.eq_false_of_not_eq_true hpool) (by simpa using hopen))
      (Nat.lt_of_not_le hfull)
  | case6 item inv toRequest r hitem ih => exact ih h hshort

theorem requesting_onInv (ctx : Context) (r : TxRelay) (inv : List Inventory) (sender : PeerId) :
    Requesting ctx sender r (request ctx sender inv [] r).1 (request ctx sender inv [] r).2 ∧
      (request ctx sender inv [] r).1.length ≤ maxTxRequestBatch := by
  refine Requesting.request ⟨List.nodup_nil, nofun, fun _ _ h => h, rfl⟩ ?_
  decide

end TxRelay

/-! ## Requests and announcements -/

/-- A transaction is requested from a peer. -/
def TxAction.Requests (action : TxAction) (txid : Txid) (peer : PeerId) : Prop :=
  ∃ inv, action = .sendGetData inv peer ∧ .transaction txid ∈ inv

/-- A transaction is announced to a peer. -/
def TxAction.Announces (action : TxAction) (txid : Txid) (peer : PeerId) : Prop :=
  ∃ batches txids, action = .announceToPeers batches ∧ (peer, txids) ∈ batches ∧ txid ∈ txids

/-- The events that close a request: the transaction is validated, the request times out, or the
peer goes. -/
def Closes (txid : Txid) (peer : PeerId) (requestedAt : Nat) : TxRelay.Event × Context → Prop
  | (.validatedTx result _, _) => result.txid = txid
  | (.tick _ _, ctx) => txRequestTimeout < ctx.now - requestedAt
  | (.peerDisconnected peer', _) => peer' = peer
  | _ => False

namespace TxRelay

variable {ctx : Context} {r : TxRelay} {txid : Txid} {peerId : PeerId}

/-! ## Announcements -/

variable {peer : PeerId}

theorem announced_announce {t : Txid} :
    t ∈ (r.announce peerId txid).announced peer ↔
      peer = peerId ∧ t = txid ∨ t ∈ r.announced peer := by
  unfold announced announce
  dsimp only
  by_cases hpeer : peer = peerId
  · subst hpeer
    rw [Function.update_self, Option.getD_some, HashSet.mem_insert]
    simp
    rfl
  · rw [Function.update_of_ne hpeer]
    simp [hpeer]

/-- The test whether a transaction has been announced. -/
theorem any_peerAnnouncements :
    (r.peerAnnouncements peerId).any (fun announced => txid ∈ announced) = true ↔
      txid ∈ r.announced peerId := by
  unfold announced
  cases r.peerAnnouncements peerId with
  | none => simp
  | some txids => simp

/-- A transaction may be announced to a peer. -/
structure Allowed (peerInfo : PeerTxRelayInfo) (connectedPeers : List PeerId)
    (pending : List (Txid × Nat)) (txid : Txid) (peer : PeerId) : Prop where
  connected : peer ∈ connectedPeers
  wants : peerInfo.peerWantsTxRelay peer = true
  fee : ∃ feeRate, (txid, feeRate) ∈ pending ∧
    ∀ peerMinFee, peerInfo.getFeeFilter peer = some peerMinFee → peerMinFee ≤ feeRate

/-- The loops of `on_tick`: what is in the batches may be announced, was not announced before and is
now; nothing is forgotten. -/
structure Announcing (peerInfo : PeerTxRelayInfo) (connectedPeers : List PeerId)
    (pending : List (Txid × Nat)) (r₀ : TxRelay) (acc : Batches) : Prop where
  nodup : ∀ peer txids, acc.1.get peer = some txids → txids.Nodup
  new : ∀ peer txids, acc.1.get peer = some txids → ∀ txid ∈ txids,
    txid ∉ r₀.announced peer ∧ txid ∈ acc.2.announced peer ∧
      Allowed peerInfo connectedPeers pending txid peer
  kept : ∀ peer txid, txid ∈ r₀.announced peer → txid ∈ acc.2.announced peer
  requested : acc.2.requestedTxs = r₀.requestedTxs

variable {peerInfo : PeerTxRelayInfo} {connectedPeers : List PeerId} {pending : List (Txid × Nat)}
  {r₀ : TxRelay} {acc : Batches}

theorem Announcing.announceTo (h : Announcing peerInfo connectedPeers pending r₀ acc)
    {tx : Txid × Nat} (htx : tx ∈ pending) (hpeer : peerId ∈ connectedPeers) :
    Announcing peerInfo connectedPeers pending r₀ (announceTo peerInfo tx acc peerId) := by
  unfold TxRelay.announceTo
  split
  · exact h
  rename_i hwants
  split
  · exact h
  rename_i hnew
  split
  · exact h
  rename_i hfee
  rw [any_peerAnnouncements] at hnew
  have hallowed : Allowed peerInfo connectedPeers pending tx.1 peerId := by
    refine ⟨hpeer, by simpa using hwants, tx.2, htx, fun peerMinFee hfilter => ?_⟩
    rw [hfilter] at hfee
    simpa using hfee
  have hbefore (txid : Txid) (hmem : txid ∈ (acc.1.get peerId).getD []) :
      ∃ txids, acc.1.get peerId = some txids ∧ txid ∈ txids := by
    cases hget : acc.1.get peerId with
    | none =>
      rw [hget] at hmem
      cases hmem
    | some txids =>
      rw [hget] at hmem
      exact ⟨txids, rfl, hmem⟩
  refine ⟨fun peer txids hget => ?_, fun peer txids hget txid hmem => ?_, fun peer txid hold => ?_,
    h.requested⟩
  · rw [IndexMap.get_insert] at hget
    split at hget
    · cases hget
      rw [← List.concat_eq_append]
      refine List.Nodup.concat ?_ ?_
      · intro hmem
        obtain ⟨txids, hget, hmem⟩ := hbefore tx.1 hmem
        exact hnew (h.new peerId txids hget tx.1 hmem).2.1
      · cases hget : acc.1.get peerId with
        | none => exact List.nodup_nil
        | some txids => exact h.nodup peerId txids hget
    · exact h.nodup peer txids hget
  · rw [IndexMap.get_insert] at hget
    rw [announced_announce]
    split at hget
    · rename_i heq
      subst heq
      cases hget
      rcases List.mem_append.mp hmem with hold | hlast
      · obtain ⟨txids, hget, hmem⟩ := hbefore txid hold
        obtain ⟨hfresh, hannounced, hallowed'⟩ := h.new peer txids hget txid hmem
        exact ⟨hfresh, .inr hannounced, hallowed'⟩
      · obtain rfl := List.mem_singleton.mp hlast
        exact ⟨fun hold => hnew (h.kept peer tx.1 hold), .inl ⟨rfl, rfl⟩, hallowed⟩
    · obtain ⟨hfresh, hannounced, hallowed'⟩ := h.new peer txids hget txid hmem
      exact ⟨hfresh, .inr hannounced, hallowed'⟩
  · rw [announced_announce]
    exact .inr (h.kept peer txid hold)

theorem Announcing.announceToAll (h : Announcing peerInfo connectedPeers pending r₀ acc)
    {tx : Txid × Nat} (htx : tx ∈ pending) :
    Announcing peerInfo connectedPeers pending r₀ (announceToAll peerInfo connectedPeers acc tx) :=
  List.foldlRecOn connectedPeers _ h fun _ h _ hpeer => h.announceTo htx hpeer

theorem announcing_foldl (r : TxRelay) :
    Announcing peerInfo connectedPeers pending r
      (pending.foldl (TxRelay.announceToAll peerInfo connectedPeers) (.empty, r)) := by
  refine List.foldlRecOn pending _ ?_ fun _ h _ htx => h.announceToAll htx
  exact ⟨nofun, nofun, fun _ _ h => h, rfl⟩

/-- What a tick does: either nothing is announced, or the batches are those of the loops. -/
theorem onTick_cases (ctx : Context) (r : TxRelay) (peerInfo : PeerTxRelayInfo)
    (connectedPeers : List PeerId) :
    ∃ acc,
      Announcing peerInfo connectedPeers ctx.pool.pendingBroadcast (r.cleanupTimeouts ctx) acc ∧
      (r.onTick ctx peerInfo connectedPeers).2 = acc.2 ∧
      ((r.onTick ctx peerInfo connectedPeers).1 = .none ∨
        (r.onTick ctx peerInfo connectedPeers).1 =
          .announceToPeers (ctx.order.arrange acc.1.entries)) := by
  unfold onTick
  dsimp only
  split
  · exact ⟨(.empty, r.cleanupTimeouts ctx), ⟨nofun, nofun, fun _ _ h => h, rfl⟩, rfl, .inl rfl⟩
  · refine ⟨_, announcing_foldl (r.cleanupTimeouts ctx), ?_, ?_⟩
    · split
      · rfl
      · rfl
    · split
      · exact .inl rfl
      · exact .inr rfl

/-! ## One event -/

variable {e : Event × Context} {info : RequestInfo}

/-- Only an inventory makes requests. -/
theorem inv_of_sendGetData {inv : List Inventory} (h : (handle e r).1 = .sendGetData inv peer) :
    ∃ inv', e.1 = .inv inv' peer ∧ inv = (request e.2 peer inv' [] r).1 := by
  obtain ⟨e, ctx⟩ := e
  cases e with
  | inv inv' sender =>
    unfold handle onInv at h
    dsimp only at h
    split at h
    · cases h
    · cases h
      exact ⟨inv', rfl, rfl⟩
  | tick peerInfo connectedPeers =>
    obtain ⟨acc, -, -, hnone | hannounce⟩ :=
      onTick_cases ctx r peerInfo connectedPeers
    · cases hnone.symm.trans h
    · cases hannounce.symm.trans h
  | getData inv' sender =>
    unfold handle onGetData at h
    dsimp only at h
    split at h
    · cases h
    · cases h
  | validatedTx result receivedFrom =>
    unfold handle onValidatedTx at h
    dsimp only at h
    split at h
    · cases h
    · split at h
      · cases h
      · cases h
  | peerDisconnected peerId => cases h

/-- Only a tick makes announcements. -/
theorem tick_of_announceToPeers {batches : List (PeerId × List Txid)}
    (h : (handle e r).1 = .announceToPeers batches) :
    ∃ peerInfo connectedPeers acc, e.1 = .tick peerInfo connectedPeers ∧
      Announcing peerInfo connectedPeers e.2.pool.pendingBroadcast (r.cleanupTimeouts e.2) acc ∧
      (handle e r).2 = acc.2 ∧ batches = e.2.order.arrange acc.1.entries := by
  obtain ⟨e, ctx⟩ := e
  cases e with
  | inv inv sender =>
    unfold handle onInv at h
    dsimp only at h
    split at h
    · cases h
    · cases h
  | tick peerInfo connectedPeers =>
    obtain ⟨acc, hannouncing, hafter, hnone | hannounce⟩ :=
      onTick_cases ctx r peerInfo connectedPeers
    · cases hnone.symm.trans h
    · cases hannounce.symm.trans h
      exact ⟨peerInfo, connectedPeers, acc, rfl, hannouncing, hafter, rfl⟩
  | getData inv sender =>
    unfold handle onGetData at h
    dsimp only at h
    split at h
    · cases h
    · cases h
  | validatedTx result receivedFrom =>
    unfold handle onValidatedTx at h
    dsimp only at h
    split at h
    · cases h
    · split at h
      · cases h
      · cases h
  | peerDisconnected peerId => cases h

@[simp] theorem onInv_snd (inv : List Inventory) (sender : PeerId) :
    (r.onInv ctx inv sender).2 = (request ctx sender inv [] r).2 := by
  unfold onInv
  dsimp only
  split
  · rfl
  · rfl

@[simp] theorem onValidatedTx_snd (result : TxValidationResult) (receivedFrom : PeerId) :
    (r.onValidatedTx result receivedFrom).2 = r.forget result.txid := by
  cases result with
  | accepted txid feeRate => rfl
  | rejected txid reason =>
    unfold onValidatedTx
    dsimp only
    split
    · rfl
    · rfl

/-- A transaction that is requested was not open, and is now. -/
theorem requested_of_requests (h : (handle e r).1.Requests txid peer) :
    r.requestedTxs txid = none ∧ (handle e r).2.requestedTxs txid = some ⟨peer, e.2.now⟩ := by
  obtain ⟨inv, haction, hmem⟩ := h
  obtain ⟨inv', he, rfl⟩ := inv_of_sendGetData haction
  obtain ⟨txid', heq, -, hbefore, hafter⟩ := (requesting_onInv e.2 r inv' peer).1.missing _ hmem
  obtain ⟨e, ctx⟩ := e
  cases he
  cases heq
  refine ⟨hbefore, ?_⟩
  show (r.onInv ctx inv' peer).2.requestedTxs txid = _
  rw [onInv_snd]
  exact hafter

/-- An open request stays open, unless the event closes it. -/
theorem requestedTxs_handle (h : r.requestedTxs txid = some info)
    (hcloses : ¬ Closes txid info.fromPeer info.requestedAt e) :
    (handle e r).2.requestedTxs txid = some info := by
  obtain ⟨e, ctx⟩ := e
  cases e with
  | inv inv sender =>
    show (r.onInv ctx inv sender).2.requestedTxs txid = some info
    rw [onInv_snd]
    exact (requesting_onInv ctx r inv sender).1.kept txid info h
  | tick peerInfo connectedPeers =>
    obtain ⟨acc, hannouncing, hafter, -⟩ :=
      onTick_cases ctx r peerInfo connectedPeers
    show (r.onTick ctx peerInfo connectedPeers).2.requestedTxs txid = some info
    rw [hafter, hannouncing.requested]
    unfold cleanupTimeouts
    dsimp only
    rw [h, Option.filter_some, if_pos]
    simpa [Closes] using hcloses
  | getData inv sender => exact h
  | validatedTx result receivedFrom =>
    show (r.onValidatedTx result receivedFrom).2.requestedTxs txid = some info
    rw [onValidatedTx_snd]
    exact (Function.update_of_ne (Ne.symm hcloses) ..).trans h
  | peerDisconnected peer =>
    show (r.requestedTxs txid).filter _ = some info
    rw [h, Option.filter_some, if_pos]
    exact decide_eq_true (Ne.symm hcloses)

/-- A transaction that is announced may be announced; it was not before, and is remembered. -/
theorem announced_of_announces (h : (handle e r).1.Announces txid peer) :
    txid ∉ r.announced peer ∧ txid ∈ (handle e r).2.announced peer ∧
      ∃ peerInfo connectedPeers, e.1 = .tick peerInfo connectedPeers ∧
        Allowed peerInfo connectedPeers e.2.pool.pendingBroadcast txid peer := by
  obtain ⟨batches, txids, haction, hbatch, hmem⟩ := h
  obtain ⟨peerInfo, connectedPeers, acc, he, hannouncing, hafter, rfl⟩ :=
    tick_of_announceToPeers haction
  have hget : acc.1.get peer = some txids :=
    IndexMap.get_eq_some.mpr (e.2.order.mem_arrange.mp hbatch)
  obtain ⟨hfresh, hannounced, hallowed⟩ := hannouncing.new peer txids hget txid hmem
  exact ⟨hfresh, hafter ▸ hannounced, peerInfo, connectedPeers, he, hallowed⟩

/-- What has been announced to a peer is remembered until the peer goes. -/
theorem announced_handle (h : txid ∈ r.announced peer) (hstays : e.1 ≠ .peerDisconnected peer) :
    txid ∈ (handle e r).2.announced peer := by
  obtain ⟨e, ctx⟩ := e
  cases e with
  | inv inv sender =>
    show txid ∈ (r.onInv ctx inv sender).2.announced peer
    unfold announced at h ⊢
    rwa [onInv_snd, (requesting_onInv ctx r inv sender).1.announcements]
  | tick peerInfo connectedPeers =>
    obtain ⟨acc, hannouncing, hafter, -⟩ :=
      onTick_cases ctx r peerInfo connectedPeers
    show txid ∈ (r.onTick ctx peerInfo connectedPeers).2.announced peer
    rw [hafter]
    exact hannouncing.kept peer txid h
  | getData inv sender => exact h
  | validatedTx result receivedFrom =>
    show txid ∈ (r.onValidatedTx result receivedFrom).2.announced peer
    rw [onValidatedTx_snd]
    exact h
  | peerDisconnected peer' =>
    have hne : peer ≠ peer' := fun heq => hstays (congrArg Event.peerDisconnected heq.symm)
    show txid ∈ (Function.update r.peerAnnouncements peer' none peer).getD .empty
    rw [Function.update_of_ne hne]
    exact h

end TxRelay

/-! ## Sequences of events -/

/-- The discipline of the relay, as a property of events and actions. -/
structure Disciplined (trace : List ((TxRelay.Event × Context) × TxAction)) : Prop where
  /-- Between two requests of a transaction there is an event that closes the first one. -/
  requests : ∀ pre mid post x y txid peer peer', trace = pre ++ x :: (mid ++ y :: post) →
    x.2.Requests txid peer → y.2.Requests txid peer' →
    ∃ z ∈ mid, Closes txid peer x.1.2.now z.1
  batches : ∀ x ∈ trace, ∀ inv peer, x.2 = .sendGetData inv peer → TxRelay.Batch x.1.2.pool inv
  /-- Between two announcements of a transaction to a peer the peer goes. -/
  announcements : ∀ pre mid post x y txid peer, trace = pre ++ x :: (mid ++ y :: post) →
    x.2.Announces txid peer → y.2.Announces txid peer →
    ∃ z ∈ mid, z.1.1 = .peerDisconnected peer
  /-- Within one tick every peer has one batch, with every transaction once. -/
  once : ∀ x ∈ trace, ∀ batches, x.2 = .announceToPeers batches →
    (batches.map Prod.fst).Nodup ∧ ∀ batch ∈ batches, batch.2.Nodup
  /-- The peer wants transactions, and the fee rate is not below its filter. -/
  allowed : ∀ x ∈ trace, ∀ txid peer, x.2.Announces txid peer →
    ∃ peerInfo connectedPeers, x.1.1 = .tick peerInfo connectedPeers ∧
      peerInfo.peerWantsTxRelay peer = true ∧
      ∀ feeRate, (txid, feeRate) ∈ x.1.2.pool.pendingBroadcast →
        ∀ peerMinFee, peerInfo.getFeeFilter peer = some peerMinFee → peerMinFee ≤ feeRate

/-- The pool lists a transaction with one fee rate. -/
theorem TxPool.feeRate_unique (pool : TxPool) {txid : Txid} {feeRate feeRate' : Nat}
    (h : (txid, feeRate) ∈ pool.pendingBroadcast) (h' : (txid, feeRate') ∈ pool.pendingBroadcast) :
    feeRate = feeRate' := by
  have heq : (txid, feeRate) = (txid, feeRate') := List.inj_on_of_nodup_map pool.once h h' rfl
  exact congrArg Prod.snd heq

/-- Along every sequence of events the relay keeps its discipline. -/
theorem disciplined_of_events (events : List (TxRelay.Event × Context)) :
    Disciplined (Trace.trace TxRelay.handle .new events) where
  requests pre mid post x y txid peer peer' htrace hx hy := by
    refine Trace.exists_between (fun r => r.requestedTxs txid = some ⟨peer, x.1.2.now⟩)
      (Closes txid peer x.1.2.now) (fun y => ∃ peer', y.2.Requests txid peer') htrace ?_ ?_ ?_
      ⟨peer', hy⟩
    · intro r hanswer
      rw [hanswer] at hx
      exact (TxRelay.requested_of_requests hx).2
    · exact fun e r h hcloses => TxRelay.requestedTxs_handle h hcloses
    · rintro e r h ⟨peer'', hrequests⟩
      rw [(TxRelay.requested_of_requests hrequests).1] at h
      cases h
  batches := by
    refine Trace.forall_mem fun e r inv peer haction => ?_
    obtain ⟨inv', -, rfl⟩ := TxRelay.inv_of_sendGetData haction
    obtain ⟨hrequesting, hshort⟩ := TxRelay.requesting_onInv e.2 r inv' peer
    refine ⟨hshort, hrequesting.nodup, fun item hitem => ?_⟩
    obtain ⟨txid, heq, hmissing, -⟩ := hrequesting.missing item hitem
    exact ⟨txid, heq, hmissing⟩
  announcements pre mid post x y txid peer htrace hx hy := by
    refine Trace.exists_between (fun r => txid ∈ r.announced peer)
      (fun e => e.1 = .peerDisconnected peer) (fun y => y.2.Announces txid peer) htrace ?_ ?_ ?_ hy
    · intro r hanswer
      rw [hanswer] at hx
      exact (TxRelay.announced_of_announces hx).2.1
    · exact fun e r h hstays => TxRelay.announced_handle h hstays
    · exact fun e r h hannounces => (TxRelay.announced_of_announces hannounces).1 h
  once := by
    refine Trace.forall_mem fun e r batches haction => ?_
    obtain ⟨_, _, acc, -, hannouncing, -, rfl⟩ := TxRelay.tick_of_announceToPeers haction
    constructor
    · exact ((e.2.order.perm acc.1.entries).map Prod.fst).nodup_iff.mpr acc.1.nodup
    · intro batch hbatch
      exact hannouncing.nodup batch.1 batch.2
        (IndexMap.get_eq_some.mpr (e.2.order.mem_arrange.mp hbatch))
  allowed := by
    refine Trace.forall_mem fun e r txid peer hannounces => ?_
    obtain ⟨-, -, peerInfo, connectedPeers, he, hallowed⟩ :=
      TxRelay.announced_of_announces hannounces
    refine ⟨peerInfo, connectedPeers, he, hallowed.wants, fun feeRate hpending => ?_⟩
    obtain ⟨feeRate', hpending', hfee⟩ := hallowed.fee
    rw [e.2.pool.feeRate_unique hpending hpending']
    exact hfee

/-- A transaction that two peers have is requested from the first one, and from the second one when
it announces the transaction again after the first one has gone. -/
example :
    let ctx : Context := ⟨0, ⟨fun _ => false, [], List.nodup_nil⟩, .insertion⟩
    let inv : List Inventory := [.transaction default, .transaction default]
    let peer (n : UInt8) : PeerId := ⟨.v4 1 2 3 n, 8333⟩
    (Trace.trace TxRelay.handle .new [(.inv inv (peer 1), ctx), (.inv inv (peer 2), ctx),
      (.peerDisconnected (peer 1), ctx), (.inv inv (peer 2), ctx)]).map Prod.snd =
        [.sendGetData [.transaction default] (peer 1), .none, .none,
          .sendGetData [.transaction default] (peer 2)] := by
  decide +kernel

end Subcoin.Relay
