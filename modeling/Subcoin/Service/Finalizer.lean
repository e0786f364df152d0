import Subcoin.Lib.Runs

/-!
# Subcoin — the finalizer

The finalizer reads the import notifications and finalizes the block `confirmation_depth` below the
imported one. The height comes from the imported block and the hash from the best chain when the
notification is read; the call comes later, from a worker, which may take its block from a cache. A
block is given by the path from the genesis block to it.

An event is an import, a step of the main loop (before or behind the point where it waits for the
status of the sync), or a step of the worker. `calls` records what `finalize_block` is called with,
and the best chain at that time.

* **`Settled`** — a block on the best chain with enough blocks above it stays one along imports that
  meet `Tame`.
* **`settled_of_runs`** — along every run of such imports every call is for such a block, and
  nothing panics.
-/

namespace Subcoin.Service

variable {B : Type}

/-! ## The client -/

structure Client (B : Type) where
  known : List (List B)
  best : List B
  finalized : List B
deriving DecidableEq

/-- A block on a known one; the client decides whether it becomes the best one. -/
structure Import (B : Type) where
  parent : List B
  block : B
  isNewBest : Bool

namespace Import

def path (i : Import B) : List B := i.parent ++ [i.block]

end Import

namespace Client

variable [DecidableEq B]

def number (hash : List B) (client : Client B) : Option Nat :=
  if hash ∈ client.known then some (hash.length - 1) else none

/-- The block of the best chain with a number. -/
def hash (number : Nat) (client : Client B) : Option (List B) :=
  if number < client.best.length then some (client.best.take (number + 1)) else none

def finalizedNumber (client : Client B) : Nat := client.finalized.length - 1

def importBlock (i : Import B) (client : Client B) : Client B :=
  { client with
    known := i.path :: client.known
    best := if i.isNewBest then i.path else client.best }

/-- `finalize_block`: only descendants of the last finalized block can be finalized, and a block
that is not on the best chain becomes the best one. Nothing changes on an error. -/
def finalizeBlock (hash : List B) (client : Client B) : Client B :=
  if client.finalized <+: hash then
    { client with
      best := if hash <+: client.best then client.best else hash
      finalized := hash }
  else client

end Client

/-! ## The finalizer -/

/-- The worker, by what it does next. -/
inductive Worker (B : Type) where
  | idle
  | finalizeConfirmed (number : Nat) (hash : List B)
  | takeCached
  | finalizeCached (number : Nat) (hash : List B)
  | release
deriving DecidableEq

structure Finalizer (B : Type) where
  client : Client B
  /-- The stream of import notifications. -/
  notifications : List (List B)
  /-- The confirmed block, while the main loop waits for the status of the sync. -/
  confirmed : Option (Nat × List B)
  cachedBlockToFinalize : Option (Nat × List B)
  worker : Worker B
  calls : List (List B × List B)
deriving DecidableEq

inductive Event (B : Type) where
  | importBlock (i : Import B)
  | receive
  /-- Whether the sync still has queued blocks. -/
  | dispatch (queued : Bool)
  | work

namespace Finalizer

variable [DecidableEq B]

/-- The client imports a block, whose parent it has to know, and notifies. -/
def importBlock (i : Import B) (s : Finalizer B) : Finalizer B :=
  if i.parent ∈ s.client.known then
    { s with
      client := s.client.importBlock i
      notifications := s.notifications ++ [i.path] }
  else s

/-- The main loop takes a notification. -/
def receive (confirmationDepth : Nat) (s : Finalizer B) : Outcome Empty (Finalizer B) :=
  match s.confirmed, s.notifications with
  | none, notification :: notifications => do
    let s := { s with notifications }
    let blockNumber ← Outcome.expect (s.client.number notification)
      "Imported block must be available; qed"
    if blockNumber < confirmationDepth then pure s
    else if blockNumber - confirmationDepth ≤ s.client.finalizedNumber then pure s
    else
      let hash ← Outcome.expect (s.client.hash (blockNumber - confirmationDepth))
        "Confirmed block must be available; qed"
      pure { s with confirmed := some (blockNumber - confirmationDepth, hash) }
  | _, _ => .ok s

/-- `try_update_cached_block_to_finalize`. -/
def updateCached (number : Nat) (hash : List B) (s : Finalizer B) : Finalizer B :=
  match s.cachedBlockToFinalize with
  | some (cached, _) =>
    if cached < number then { s with cachedBlockToFinalize := some (number, hash) } else s
  | none => { s with cachedBlockToFinalize := some (number, hash) }

/-- The main loop spawns the worker, or caches the block. -/
def dispatch (queued : Bool) (s : Finalizer B) : Finalizer B :=
  match s.confirmed with
  | none => s
  | some (number, hash) =>
    let s := { s with confirmed := none }
    if queued ∨ s.worker ≠ .idle then s.updateCached number hash
    else { s with worker := .finalizeConfirmed number hash }

/-- `do_finalize_block`. Imports do not change the number that it reads first, so nothing is lost in
taking it and the call as one step. -/
def doFinalizeBlock (number : Nat) (hash : List B) (s : Finalizer B) : Finalizer B :=
  if number ≤ s.client.finalizedNumber then s
  else
    { s with
      client := s.client.finalizeBlock hash
      calls := s.calls ++ [(hash, s.client.best)] }

def work (s : Finalizer B) : Finalizer B :=
  match s.worker with
  | .idle => s
  | .finalizeConfirmed number hash =>
    { s.doFinalizeBlock number hash with worker := .takeCached }
  | .takeCached =>
    match s.cachedBlockToFinalize with
    | some (number, hash) =>
      { s with cachedBlockToFinalize := none, worker := .finalizeCached number hash }
    | none => { s with worker := .release }
  | .finalizeCached number hash => { s.doFinalizeBlock number hash with worker := .release }
  | .release => { s with worker := .idle }

def apply (confirmationDepth : Nat) (event : Event B) (s : Finalizer B) :
    Outcome Empty (Unit × Finalizer B) :=
  match event with
  | .importBlock i => .ok ((), s.importBlock i)
  | .receive => do
    let s ← s.receive confirmationDepth
    pure ((), s)
  | .dispatch queued => .ok ((), s.dispatch queued)
  | .work => .ok ((), s.work)

end Finalizer

/-! ## Settled blocks -/

/-- A block of a chain with at least `depth` blocks above it. -/
structure Settled (depth : Nat) (best : List B) (hash : List B) : Prop where
  onBest : hash <+: best
  deep : hash.length + depth ≤ best.length

/-- An import of a block that is not higher than the best one afterwards. If it becomes the best
one, the chain does not get shorter, and the blocks with enough blocks above them stay. -/
def Tame (depth : Nat) (i : Import B) (best : List B) : Prop :=
  if i.isNewBest then best.length ≤ i.path.length ∧ best.take (best.length - depth) <+: i.path
  else i.path.length ≤ best.length

instance [DecidableEq B] (depth : Nat) (i : Import B) (best : List B) :
    Decidable (Tame depth i best) :=
  inferInstanceAs (Decidable (if i.isNewBest then
    best.length ≤ i.path.length ∧ best.take (best.length - depth) <+: i.path
    else i.path.length ≤ best.length))

theorem settled_take {depth n : Nat} {best : List B} (h : n + depth ≤ best.length) :
    Settled depth best (best.take n) := by
  have honBest : best.take n <+: best := List.take_prefix _ _
  refine ⟨honBest, ?_⟩
  rw [List.length_take]
  omega

section

variable {depth : Nat} {i : Import B} {client : Client B} {hash : List B}

theorem Tame.length_le (h : Tame depth i client.best) :
    client.best.length ≤ (client.importBlock i).best.length ∧
      i.path.length ≤ (client.importBlock i).best.length := by
  unfold Tame at h
  unfold Client.importBlock
  cases hnew : i.isNewBest with
  | true =>
    rw [hnew, if_pos rfl] at h
    rw [if_pos rfl]
    exact ⟨h.1, Nat.le_refl _⟩
  | false =>
    rw [hnew, if_neg Bool.false_ne_true] at h
    rw [if_neg Bool.false_ne_true]
    exact ⟨Nat.le_refl _, h⟩

theorem Settled.importBlock (h : Settled depth client.best hash)
    (htame : Tame depth i client.best) :
    Settled depth (client.importBlock i).best hash := by
  refine ⟨?_, h.deep.trans htame.length_le.1⟩
  unfold Tame at htame
  unfold Client.importBlock
  cases hnew : i.isNewBest with
  | true =>
    rw [hnew, if_pos rfl] at htame
    rw [if_pos rfl]
    -- the block is below the cut
    have htake : hash <+: client.best.take (client.best.length - depth) := by
      rw [List.prefix_take_iff]
      have := h.deep
      exact ⟨h.onBest, by omega⟩
    exact htake.trans htame.2
  | false =>
    rw [if_neg Bool.false_ne_true]
    exact h.onBest

end

/-! ## What the finalizer keeps -/

namespace Worker

/-- The block that the worker is about to finalize. -/
def block : Worker B → Option (Nat × List B)
  | .finalizeConfirmed number hash => some (number, hash)
  | .finalizeCached number hash => some (number, hash)
  | _ => none

end Worker

/-- Notified blocks are known and not higher than the best one, the blocks on their way to a call
are settled, and the calls were for settled blocks. -/
structure Kept (depth : Nat) (s : Finalizer B) : Prop where
  notified : ∀ hash ∈ s.notifications,
    hash ∈ s.client.known ∧ hash.length ≤ s.client.best.length
  confirmed : ∀ block, s.confirmed = some block → Settled depth s.client.best block.2
  cached : ∀ block, s.cachedBlockToFinalize = some block → Settled depth s.client.best block.2
  worker : ∀ block, s.worker.block = some block → Settled depth s.client.best block.2
  calls : ∀ call ∈ s.calls, Settled depth call.2 call.1

namespace Kept

variable {depth : Nat} {s : Finalizer B} {number : Nat} {hash : List B}

section

variable (h : Kept depth s)

include h

theorem setCached (hsettled : Settled depth s.client.best hash) :
    Kept depth { s with cachedBlockToFinalize := some (number, hash) } := by
  refine ⟨h.notified, h.confirmed, fun block hb => ?_, h.worker, h.calls⟩
  cases hb
  exact hsettled

theorem updateCached (hsettled : Settled depth s.client.best hash) :
    Kept depth (s.updateCached number hash) := by
  unfold Finalizer.updateCached
  split
  · split
    · exact h.setCached hsettled
    · exact h
  · exact h.setCached hsettled

/-- The worker goes on to a step without a block. -/
theorem setWorker {worker : Worker B} (hnone : worker.block = none) :
    Kept depth { s with worker } := by
  refine ⟨h.notified, h.confirmed, h.cached, fun block hb => ?_, h.calls⟩
  cases hnone.symm.trans hb

variable [DecidableEq B]

theorem importBlock {i : Import B} (htame : Tame depth i s.client.best) :
    Kept depth (s.importBlock i) := by
  have hlength := htame.length_le
  unfold Finalizer.importBlock
  split
  · refine ⟨fun hash hh => ?_, fun block hb => (h.confirmed block hb).importBlock htame,
      fun block hb => (h.cached block hb).importBlock htame,
      fun block hb => (h.worker block hb).importBlock htame, h.calls⟩
    obtain hh | hh := List.mem_append.mp hh
    · obtain ⟨hknown, hle⟩ := h.notified hash hh
      exact ⟨List.mem_cons_of_mem _ hknown, hle.trans hlength.1⟩
    · cases List.mem_singleton.mp hh
      exact ⟨List.mem_cons_self, hlength.2⟩
  · exact h

theorem receive : ∃ s', s.receive depth = .ok s' ∧ Kept depth s' := by
  unfold Finalizer.receive
  split
  · rename_i notification notifications hconfirmed hnotifications
    have hnotified : ∀ hash ∈ notification :: notifications,
        hash ∈ s.client.known ∧ hash.length ≤ s.client.best.length :=
      fun hash hh => h.notified hash (hnotifications ▸ hh)
    obtain ⟨⟨hknown, hle⟩, hrest⟩ := List.forall_mem_cons.mp hnotified
    have hskip : Kept depth { s with notifications } :=
      ⟨hrest, h.confirmed, h.cached, h.worker, h.calls⟩
    dsimp only
    rw [Client.number, if_pos hknown, Outcome.expect_some, Outcome.ok_bind]
    split
    · exact ⟨_, rfl, hskip⟩
    · rename_i hdepth
      split
      · exact ⟨_, rfl, hskip⟩
      · rename_i hfinalized
        -- the block is below an imported one, and the best chain is at least as high
        have hheight : notification.length - 1 - depth + 1 + depth ≤ s.client.best.length := by
          omega
        have hhash : s.client.hash (notification.length - 1 - depth) =
            some (s.client.best.take (notification.length - 1 - depth + 1)) := by
          rw [Client.hash, if_pos (by omega)]
        rw [hhash, Outcome.expect_some, Outcome.ok_bind]
        refine ⟨_, rfl, hrest, fun block hb => ?_, h.cached, h.worker, h.calls⟩
        cases hb
        exact settled_take hheight
  · exact ⟨s, rfl, h⟩

theorem dispatch (queued : Bool) : Kept depth (s.dispatch queued) := by
  unfold Finalizer.dispatch
  split
  · exact h
  · rename_i number hash hconfirmed
    have hsettled : Settled depth s.client.best hash := h.confirmed _ hconfirmed
    have htaken : Kept depth { s with confirmed := none } :=
      ⟨h.notified, nofun, h.cached, h.worker, h.calls⟩
    dsimp only
    split
    · exact htaken.updateCached hsettled
    · refine ⟨h.notified, nofun, h.cached, fun block hb => ?_, h.calls⟩
      cases hb
      exact hsettled

/-- A settled block is on the best chain, so the call leaves the best chain as it is. -/
theorem doFinalizeBlock (hsettled : Settled depth s.client.best hash) :
    Kept depth (s.doFinalizeBlock number hash) := by
  have hclient : (s.client.finalizeBlock hash).best = s.client.best ∧
      (s.client.finalizeBlock hash).known = s.client.known := by
    unfold Client.finalizeBlock
    split
    · exact ⟨if_pos hsettled.onBest, rfl⟩
    · exact ⟨rfl, rfl⟩
  unfold Finalizer.doFinalizeBlock
  split
  · exact h
  · refine ⟨?_, ?_, ?_, ?_, fun call hc => ?_⟩
    · rw [hclient.1, hclient.2]
      exact h.notified
    · rw [hclient.1]
      exact h.confirmed
    · rw [hclient.1]
      exact h.cached
    · rw [hclient.1]
      exact h.worker
    · obtain hc | hc := List.mem_append.mp hc
      · exact h.calls call hc
      · cases List.mem_singleton.mp hc
        exact hsettled

theorem work : Kept depth s.work := by
  unfold Finalizer.work
  cases hworker : s.worker with
  | idle => exact h
  | finalizeConfirmed number hash =>
    have hsettled : Settled depth s.client.best hash := h.worker (number, hash) (hworker ▸ rfl)
    exact (h.doFinalizeBlock hsettled).setWorker rfl
  | takeCached =>
    cases hcached : s.cachedBlockToFinalize with
    | some block =>
      have hsettled := h.cached block hcached
      refine ⟨h.notified, h.confirmed, nofun, fun block' hb => ?_, h.calls⟩
      cases hb
      exact hsettled
    | none =>
      have hrelease : Kept depth { s with worker := .release } := h.setWorker rfl
      rwa [hcached] at hrelease
  | finalizeCached number hash =>
    have hsettled : Settled depth s.client.best hash := h.worker (number, hash) (hworker ▸ rfl)
    exact (h.doFinalizeBlock hsettled).setWorker rfl
  | release => exact h.setWorker rfl

end

end Kept

/-! ## Runs -/

section Runs

variable {depth : Nat} {s : Finalizer B}

/-- A finalizer that starts on a client, with nothing to do yet. -/
structure Initial (s : Finalizer B) : Prop where
  notifications : s.notifications = []
  confirmed : s.confirmed = none
  cached : s.cachedBlockToFinalize = none
  worker : s.worker = .idle
  calls : s.calls = []

/-- The imports are tame; every other event is free. -/
def TameEvent (depth : Nat) (event : Event B) (s : Finalizer B) : Prop :=
  match event with
  | .importBlock i => Tame depth i s.client.best
  | _ => True

theorem kept_of_initial (h : Initial s) : Kept depth s := by
  refine ⟨?_, ?_, ?_, ?_, ?_⟩
  · rw [h.notifications]
    nofun
  · rw [h.confirmed]
    nofun
  · rw [h.cached]
    nofun
  · rw [h.worker]
    nofun
  · rw [h.calls]
    nofun

variable [DecidableEq B]

theorem apply_eq_ok {event : Event B} (h : Kept depth s) (htame : TameEvent depth event s) :
    ∃ s', s.apply depth event = .ok ((), s') ∧ Kept depth s' := by
  cases event with
  | importBlock i => exact ⟨_, rfl, h.importBlock htame⟩
  | receive =>
    obtain ⟨s', hreceive, hkept⟩ := h.receive
    refine ⟨s', ?_, hkept⟩
    rw [Finalizer.apply, hreceive]
    rfl
  | dispatch queued => exact ⟨_, rfl, h.dispatch queued⟩
  | work => exact ⟨_, rfl, h.work⟩

/-- **Finality depth, along every run of tame imports.** Whatever the order in which imports, the
main loop and the worker take their steps, every block passed to `finalize_block` was on the best
chain at that time with at least `depth` blocks above it, and no further step panics. -/
theorem settled_of_runs (depth : Nat) (s : Finalizer B)
    (h : Runs Initial (fun event s => s.apply depth event) (TameEvent depth) s) :
    (∀ call ∈ s.calls, Settled depth call.2 call.1) ∧
      ∀ event, TameEvent depth event s → ∃ s', s.apply depth event = .ok ((), s') := by
  have hkept : Kept depth s := by
    refine Runs.invariant kept_of_initial ?_ h
    intro event s _ s' _ htame hkept happly
    obtain ⟨_, happly', hkept'⟩ := apply_eq_ok hkept htame
    cases happly.symm.trans happly'
    exact hkept'
  refine ⟨hkept.calls, fun event htame => ?_⟩
  obtain ⟨s', happly, -⟩ := apply_eq_ok hkept htame
  exact ⟨s', happly⟩

end Runs

namespace Sample

/-- A client with the genesis block. -/
def start : Finalizer Nat := ⟨⟨[[0]], [0], [0]⟩, [], none, none, .idle, []⟩

theorem initial_start : Initial start := ⟨rfl, rfl, rfl, rfl, rfl⟩

def extend (parent : List Nat) (block : Nat) : Event Nat := .importBlock ⟨parent, block, true⟩

def fork (parent : List Nat) (block : Nat) : Event Nat := .importBlock ⟨parent, block, false⟩

end Sample

open Sample in
/-- Two blocks on the genesis block: the lower one is finalized. -/
theorem settled_sample :
    ∃ s : Finalizer Nat, s.calls = [([0, 1], [0, 1, 2])] ∧
      ∀ call ∈ s.calls, Settled 1 call.2 call.1 := by
  have hinit : Runs Initial (fun event s => Finalizer.apply 1 event s) (TameEvent 1) start :=
    Runs.init initial_start
  have hone := hinit.step (extend [0] 1) (show Tame _ _ _ by decide) rfl
  have htwo := hone.step (extend [0, 1] 2) (show Tame _ _ _ by decide) rfl
  have hreceive := (htwo.step Event.receive trivial rfl).step Event.receive trivial rfl
  have hdispatch := hreceive.step (Event.dispatch false) trivial rfl
  have hrun := hdispatch.step Event.work trivial rfl
  exact ⟨_, rfl, (settled_of_runs 1 _ hrun).1⟩

open Sample in
/-- A side branch that is longer than the best chain: the block below its tip is not there. -/
theorem panics_on_longer_branch :
    ∃ s : Finalizer Nat, Runs Initial (fun event s => s.apply 1 event) (fun _ _ => True) s ∧
      s.apply 1 .receive = .panic "Confirmed block must be available; qed" := by
  have hexec : (Runs.exec (fun event s => Finalizer.apply 1 event s)
      [extend [0] 1, fork [0] 11, fork [0, 11] 12, fork [0, 11, 12] 13, .receive, .receive,
        .receive, .dispatch true] start).any (fun s => s.apply 1 .receive =
          .panic "Confirmed block must be available; qed") = true := by decide +kernel
  obtain ⟨s, hs, hpanic⟩ := (Option.any_eq_true _ _).mp hexec
  exact ⟨s, (Runs.init initial_start).of_exec (fun _ _ _ => trivial) hs,
    of_decide_eq_true hpanic⟩

end Subcoin.Service
