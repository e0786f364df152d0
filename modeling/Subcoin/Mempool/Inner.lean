import Subcoin.Lib.Visit
import Subcoin.Mempool.Arena

/-!
# Subcoin — the state of the mempool

`MemPoolInner` with the closures over its graph, the removal of a set of entries and the two
clean-ups that use it. `order` is the iteration order of hash sets, `build` decides about
overflows. The recursion of a closure is bounded by the number of entries, and so is the number of
rounds of `trimToSize`, each of which removes an entry.
-/

namespace Subcoin.Mempool

/-- `MemPoolInner`, without the fields that nothing reads. -/
structure MemPoolInner where
  arena : MemPoolArena
  /-- The transaction that spends an outpoint. -/
  mapNextTx : OutPoint → Option Txid
  txnsRandomized : List (Wtxid × EntryId)
  unbroadcast : HashSet Txid
  totalTxSize : Nat
  totalFee : Nat

namespace MemPoolArena

variable (order : HashOrder) (arena : MemPoolArena)

/-- The recorded children, in hash order. -/
def childrenOf (id : EntryId) : List EntryId :=
  match arena.get id with
  | some entry => entry.children.iter order
  | none => []

/-- The recorded parents, in hash order. -/
def parentsOf (id : EntryId) : List EntryId :=
  match arena.get id with
  | some entry => entry.parents.iter order
  | none => []

/-- `calculate_descendants`: the entry and what descends from it, added to a set. -/
def calculateDescendants (descendants : HashSet EntryId) (id : EntryId) : HashSet EntryId :=
  Visit.visit (arena.childrenOf order) (arena.entries.len + 1) descendants id

/-- `calculate_ancestors`. -/
def calculateAncestors (ancestors : HashSet EntryId) (id : EntryId) : HashSet EntryId :=
  Visit.visit (arena.parentsOf order) (arena.entries.len + 1) ancestors id

/-- The entries whose txid an input of a transaction names, one for each such input. -/
def parentIds (tx : Transaction) : List EntryId :=
  tx.spends.filterMap fun outpoint => arena.getByTxid outpoint.txid

/-- The entries a transaction descends from. -/
def ancestorsOf (tx : Transaction) : HashSet EntryId :=
  (arena.parentIds tx).foldl (arena.calculateAncestors order) .empty

end MemPoolArena

/-! ## Children that outlive their ancestors -/

/-- What the ancestors of an entry add up to. -/
structure AncestorStats where
  count : Int
  size : Int
  fees : Int
  sigops : Int
deriving DecidableEq, Repr

/-- A child that stays, and what it loses. -/
structure SurvivingChildMetadata where
  childId : EntryId
  removedAncestorStats : AncestorStats

section

variable {ε SE : Type} (env : PoolEnv SE) (build : Build) (order : HashOrder)

/-- One ancestor is added. -/
def addStats (stats : AncestorStats) (entry : TxMemPoolEntry) : Outcome ε AncestorStats := do
  let count ← build.addSigned stats.count 1
  let size ← build.addSigned stats.size entry.vsize
  let fees ← build.addSigned stats.fees (toSigned 64 entry.modifiedFee)
  let sigops ← build.addSigned stats.sigops entry.sigopCost
  pure ⟨count, size, fees, sigops⟩

/-- The ancestors of a child that are removed and not reached through a surviving parent. -/
def trulyRemovedAncestors (arena : MemPoolArena) (childId : EntryId)
    (toRemove : HashSet EntryId) : List EntryId :=
  let allAncestors := (arena.calculateAncestors order .empty childId).erase childId
  let reachableThroughSurvivors :=
    ((arena.parentsOf order childId).filter fun parentId => parentId ∉ toRemove).foldl
      (arena.calculateAncestors order) .empty
  (allAncestors.iter order).filter fun id =>
    id ∈ toRemove && id ∉ reachableThroughSurvivors

/-- The statistics of the ancestors that go, each counted once. -/
def calculateTrulyRemovedAncestors (arena : MemPoolArena) (childId : EntryId)
    (toRemove : HashSet EntryId) : Outcome ε AncestorStats :=
  ((trulyRemovedAncestors order arena childId toRemove).filterMap arena.get).foldlM
    (addStats build) ⟨0, 0, 0, 0⟩

/-- Before anything is removed: who stays, and what it loses. -/
def collectSurvivingChildrenMetadata (arena : MemPoolArena) (toRemove : HashSet EntryId) :
    Outcome ε (List SurvivingChildMetadata) :=
  let children := (toRemove.iter order).flatMap (arena.childrenOf order)
  let potentialSurvivors := HashSet.empty.extend (children.filter fun id => id ∉ toRemove)
  (potentialSurvivors.iter order).mapM fun childId => do
    let stats ← calculateTrulyRemovedAncestors build order arena childId toRemove
    pure ⟨childId, stats⟩

/-- The statistics are taken off the child and its descendants. -/
def updateChildForRemovedAncestors (arena : MemPoolArena) (metadata : SurvivingChildMetadata) :
    Outcome ε MemPoolArena := do
  let stats := metadata.removedAncestorStats
  let size ← build.negSigned stats.size
  let fees ← build.negSigned stats.fees
  let count ← build.negSigned stats.count
  let sigops ← build.negSigned stats.sigops
  let arena ← arena.updateAncestorState env build metadata.childId size fees count sigops
  -- The descendants of the child lose the same ancestors.
  let descendants :=
    (arena.childrenOf order metadata.childId).foldl (arena.calculateDescendants order) .empty
  (descendants.iter order).foldlM
    (fun arena id => arena.updateAncestorState env build id size fees count sigops) arena

end

/-! ## The inner state -/

namespace MemPoolInner

def new : MemPoolInner where
  arena := .new
  mapNextTx := fun _ => none
  txnsRandomized := []
  unbroadcast := .empty
  totalTxSize := 0
  totalFee := 0

section

variable (inner : MemPoolInner)

def get (id : EntryId) : Option TxMemPoolEntry := inner.arena.get id

/-- By the map, without a look at the entry. -/
def containsTxid (txid : Txid) : Bool := (inner.arena.getByTxid txid).isSome

def containsWtxid (wtxid : Wtxid) : Bool := (inner.arena.getByWtxid wtxid).isSome

/-- The transaction of the mempool that spends the outpoint. -/
def getConflictTx (outpoint : OutPoint) : Option Txid := inner.mapNextTx outpoint

end

variable {ε SE : Type} (env : PoolEnv SE) (build : Build) (order : HashOrder)

/-- `map_next_tx` without the outpoints that a transaction spends. -/
def unspend (mapNextTx : OutPoint → Option Txid) (tx : Transaction) : OutPoint → Option Txid :=
  tx.spends.foldl (fun m outpoint => Function.update m outpoint none) mapNextTx

/-- The removal of an entry, if it is there. -/
def removeEntry (inner : MemPoolInner) (id : EntryId) : Outcome ε MemPoolInner :=
  match inner.arena.remove env id with
  | none => pure inner
  | some (entry, arena) => do
    let totalTxSize ← build.sub 64 inner.totalTxSize entry.txWeight
    pure { inner with
      arena := arena
      mapNextTx := unspend inner.mapNextTx entry.tx
      unbroadcast := inner.unbroadcast.erase (env.computeTxid entry.tx)
      totalTxSize := totalTxSize
      totalFee := inner.totalFee - entry.fee }

/-- The list is rebuilt in the order of the mining scores. -/
def rebuildRandomizedList (inner : MemPoolInner) : Outcome ε MemPoolInner := do
  let entries ← inner.arena.iterByAncestorScore
  pure { inner with
    txnsRandomized := entries.map fun (id, entry) => (env.computeWtxid entry.tx, id) }

/-- The children that stay, one after the other. -/
def updateSurvivors (inner : MemPoolInner) (metadata : List SurvivingChildMetadata) :
    Outcome ε MemPoolInner := do
  let arena ← metadata.foldlM (updateChildForRemovedAncestors env build order) inner.arena
  pure { inner with arena := arena }

/-- `remove_staged`; the reason of the removal is not used. -/
def removeStaged (inner : MemPoolInner) (toRemove : HashSet EntryId) (updateDescendants : Bool) :
    Outcome ε MemPoolInner := do
  -- The metadata of surviving children is collected before anything is removed.
  let metadata ←
    if updateDescendants then collectSurvivingChildrenMetadata build order inner.arena toRemove
    else pure []
  let inner ← (toRemove.iter order).foldlM (removeEntry env build) inner
  let inner ← updateSurvivors env build order inner metadata
  inner.rebuildRandomizedList env

/-- The rounds of `trim_to_size`. -/
def trimRounds (maxSize : Nat) : Nat → MemPoolInner → Outcome ε MemPoolInner
  | 0, _ => .panic "no progress"
  | rounds + 1, inner =>
    if maxSize < inner.totalTxSize then
      match inner.arena.byDescendantScore.elems with
      | [] => pure inner
      | first :: _ => do
        let _ ← inner.arena.index first.id
        let toRemove := inner.arena.calculateDescendants order .empty first.id
        let inner ← inner.removeStaged env build order toRemove false
        trimRounds maxSize rounds inner
    else pure inner

/-- A round removes an entry, so one more round than entries is enough. -/
def trimToSize (inner : MemPoolInner) (maxSize : Nat) : Outcome ε MemPoolInner :=
  trimRounds env build order maxSize (inner.arena.entries.len + 1) inner

/-- The entries of the time index before the first one that is not older than the cutoff. -/
def expired (arena : MemPoolArena) (cutoffTime : Int) :
    List (Indexed Int) → Outcome ε (List EntryId)
  | [] => pure []
  | p :: l => do
    let entry ← arena.index p.id
    if entry.time < cutoffTime then do
      let rest ← expired arena cutoffTime l
      pure (p.id :: rest)
    else pure []

/-- Entries older than the maximal age go; their descendants stay. -/
def expire (inner : MemPoolInner) (currentTime maxAgeSeconds : Int) : Outcome ε MemPoolInner := do
  let cutoffTime ← build.subSigned currentTime maxAgeSeconds
  let ids ← expired inner.arena cutoffTime inner.arena.byEntryTime.elems
  let toRemove := HashSet.empty.extend ids
  if toRemove.isEmpty then pure inner else inner.removeStaged env build order toRemove false

end MemPoolInner

end Subcoin.Mempool
