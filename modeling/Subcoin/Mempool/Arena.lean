import Mathlib.Data.Int.Order.Basic
import Mathlib.Data.List.Lex
import Mathlib.Data.Prod.Lex
import Subcoin.Lib.SortedSet
import Subcoin.Mempool.Types

/-!
# Subcoin — the arena of the mempool

Entries live in a slot map; two maps and three ordered indexes refer to them. An entry caches the
keys under which the ordered indexes hold it, because an update has to remove the old key after
the data it was computed from has changed. Hash maps are functions to options.
-/

namespace Subcoin.Mempool

/-! ## Keys of the indexes -/

/-- `AncestorScoreKey`. The fee rate is negated, so that higher ones come first. -/
structure AncestorScoreKey where
  negFeerateFrac : Int × Int
  txid : Txid
deriving DecidableEq

/-- `DescendantScoreKey`. -/
structure DescendantScoreKey where
  negFeerateFrac : Int × Int
  time : Int
deriving DecidableEq

/-- An element of an ordered index: the key of an entry, and the entry. -/
structure Indexed (κ : Type) where
  key : κ
  id : EntryId
deriving DecidableEq

/-- The fields in the order in which they are compared. -/
def AncestorScoreKey.fields (k : AncestorScoreKey) : Int ×ₗ Int ×ₗ List Nat :=
  toLex (k.negFeerateFrac.1, toLex (k.negFeerateFrac.2, k.txid.hash.bytes.map UInt8.toNat))

def DescendantScoreKey.fields (k : DescendantScoreKey) : Int ×ₗ Int ×ₗ Int :=
  toLex (k.negFeerateFrac.1, toLex (k.negFeerateFrac.2, k.time))

def Indexed.fields {κ : Type} (p : Indexed κ) : κ ×ₗ Nat ×ₗ Nat :=
  toLex (p.key, toLex (p.id.idx, p.id.version))

theorem AncestorScoreKey.fields_injective : Function.Injective AncestorScoreKey.fields := by
  rintro ⟨⟨a, b⟩, ⟨⟨l, h⟩⟩⟩ ⟨⟨a', b'⟩, ⟨⟨l', h'⟩⟩⟩ heq
  have hbytes : Function.Injective (List.map UInt8.toNat) :=
    List.map_injective_iff.mpr fun _ _ => UInt8.toNat_inj.mp
  simp only [fields, EmbeddingLike.apply_eq_iff_eq, Prod.mk.injEq, hbytes.eq_iff] at heq
  obtain ⟨rfl, rfl, rfl⟩ := heq
  rfl

theorem DescendantScoreKey.fields_injective : Function.Injective DescendantScoreKey.fields := by
  rintro ⟨⟨a, b⟩, t⟩ ⟨⟨a', b'⟩, t'⟩ heq
  simp only [fields, EmbeddingLike.apply_eq_iff_eq, Prod.mk.injEq] at heq
  obtain ⟨rfl, rfl, rfl⟩ := heq
  rfl

theorem Indexed.fields_injective {κ : Type} : Function.Injective (Indexed.fields (κ := κ)) := by
  rintro ⟨k, ⟨i, v⟩⟩ ⟨k', ⟨i', v'⟩⟩ heq
  simp only [fields, EmbeddingLike.apply_eq_iff_eq, Prod.mk.injEq] at heq
  obtain ⟨rfl, rfl, rfl⟩ := heq
  rfl

instance : LinearOrder AncestorScoreKey := LinearOrder.lift' _ AncestorScoreKey.fields_injective

instance : LinearOrder DescendantScoreKey :=
  LinearOrder.lift' _ DescendantScoreKey.fields_injective

instance {κ : Type} [LinearOrder κ] : LinearOrder (Indexed κ) :=
  LinearOrder.lift' _ Indexed.fields_injective

/-! ## Entries -/

/-- `TxMemPoolEntry`. -/
structure TxMemPoolEntry where
  tx : Transaction
  fee : Nat
  modifiedFee : Nat
  txWeight : Nat
  time : Int
  entryHeight : Nat
  entryBlockMtp : Int
  entryBlockHash : BlockHash
  entrySequence : Nat
  spendsCoinbase : Bool
  sigopCost : Int
  lockPoints : LockPoints
  countWithAncestors : Nat
  sizeWithAncestors : Int
  feesWithAncestors : Nat
  sigopsWithAncestors : Int
  countWithDescendants : Nat
  sizeWithDescendants : Int
  feesWithDescendants : Nat
  parents : HashSet EntryId
  children : HashSet EntryId
  cachedAncestorKey : AncestorScoreKey
  cachedDescendantKey : DescendantScoreKey

namespace TxMemPoolEntry

variable {ε : Type} (build : Build) (entry : TxMemPoolEntry)

/-- `vsize`, rounded up from the weight. -/
def vsize : Int := toSigned 64 (toVbytesCeil entry.txWeight)

/-- The fee rate of an amount and a size, in millionths of a satoshi per virtual byte. -/
def feerateOf (fee : Nat) (size : Int) : Outcome ε Int := do
  let scaled ← build.mulSigned (toSigned 64 fee) 1000000
  divSigned scaled size

def feerate : Outcome ε Int := feerateOf build entry.modifiedFee entry.vsize

/-- The rate of the entry together with its ancestors. -/
def ancestorFeerate : Outcome ε Int :=
  feerateOf build entry.feesWithAncestors entry.sizeWithAncestors

/-- The rate of the entry together with its descendants. -/
def descendantFeerate : Outcome ε Int :=
  feerateOf build entry.feesWithDescendants entry.sizeWithDescendants

/-- `signals_rbf`, BIP 125: an input with a sequence number below `0xfffffffe`. -/
def signalsRbf : Bool := entry.tx.input.any fun txin => txin.sequence < 0xfffffffe

end TxMemPoolEntry

variable {ε : Type} {SE : Type} (env : PoolEnv SE) (build : Build)

/-- Rates are negated: the highest score comes first. -/
def computeAncestorKey (entry : TxMemPoolEntry) : Outcome ε AncestorScoreKey := do
  let entryFeerate ← entry.feerate build
  let ancestorFeerate ← entry.ancestorFeerate build
  let neg ← build.negSigned (min entryFeerate ancestorFeerate)
  pure ⟨(neg, entry.sizeWithAncestors), env.computeTxid entry.tx⟩

/-- The larger of the two rates, negated as well. -/
def computeDescendantKey (entry : TxMemPoolEntry) : Outcome ε DescendantScoreKey := do
  let entryFeerate ← entry.feerate build
  let descFeerate ← entry.descendantFeerate build
  let neg ← build.negSigned (max entryFeerate descFeerate)
  pure ⟨(neg, entry.sizeWithDescendants), entry.time⟩

/-! ## The arena -/

/-- The entries and five indexes over them. -/
structure MemPoolArena where
  entries : SlotMap TxMemPoolEntry
  byTxid : Txid → Option EntryId
  byWtxid : Wtxid → Option EntryId
  byAncestorScore : SortedSet (Indexed AncestorScoreKey)
  byDescendantScore : SortedSet (Indexed DescendantScoreKey)
  byEntryTime : SortedSet (Indexed Int)

namespace MemPoolArena

def new : MemPoolArena where
  entries := .empty
  byTxid := fun _ => none
  byWtxid := fun _ => none
  byAncestorScore := .empty
  byDescendantScore := .empty
  byEntryTime := .empty

variable (arena : MemPoolArena)

def get (id : EntryId) : Option TxMemPoolEntry := arena.entries.get id

def getByTxid (txid : Txid) : Option EntryId := arena.byTxid txid

def getByWtxid (wtxid : Wtxid) : Option EntryId := arena.byWtxid wtxid

/-- `self.entries[id.0]`. -/
def index (id : EntryId) : Outcome ε TxMemPoolEntry :=
  Outcome.expect (arena.get id) "invalid SlotMap key used"

/-- The entries that an ordered index refers to, in its order. -/
def indexAll {κ : Type} : List (Indexed κ) → Outcome ε (List (EntryId × TxMemPoolEntry))
  | [] => pure []
  | p :: l => do
    let entry ← arena.index p.id
    let rest ← indexAll l
    pure ((p.id, entry) :: rest)

/-- `insert`. A slot map holds less than `2 ^ 32 - 1` elements. -/
def insert (entry : TxMemPoolEntry) : Outcome ε (EntryId × MemPoolArena) := do
  let ancKey ← computeAncestorKey env build entry
  let descKey ← computeDescendantKey build entry
  let entry := { entry with cachedAncestorKey := ancKey, cachedDescendantKey := descKey }
  Outcome.assertTrue (arena.entries.len + 1 ≠ 2 ^ 32 - 1) "SlotMap number of elements overflow"
  let id := arena.entries.nextKey
  pure (id,
    { entries := arena.entries.insert entry
      byTxid := Function.update arena.byTxid (env.computeTxid entry.tx) (some id)
      byWtxid := Function.update arena.byWtxid (env.computeWtxid entry.tx) (some id)
      byAncestorScore := arena.byAncestorScore.insert ⟨ancKey, id⟩
      byDescendantScore := arena.byDescendantScore.insert ⟨descKey, id⟩
      byEntryTime := arena.byEntryTime.insert ⟨entry.time, id⟩ })

/-- Fees with a signed difference, which must stay an amount. -/
def addFees (fees : Nat) (feeDelta : Int) (msg : String) : Outcome ε Nat := do
  let sum ← Outcome.expect (checkedSigned 64 (toSigned 64 fees + feeDelta))
    "SignedAmount addition error"
  if sum < 0 then .panic msg else pure sum.toNat

/-- The entry after a change of its ancestors' statistics, without its keys. -/
def addAncestorState (entry : TxMemPoolEntry) (sizeDelta feeDelta countDelta sigopsDelta : Int) :
    Outcome ε TxMemPoolEntry := do
  let size ← build.addSigned entry.sizeWithAncestors sizeDelta
  let fees ← addFees entry.feesWithAncestors feeDelta "Ancestor fees cannot go negative"
  let count ← build.addSigned (toSigned 64 entry.countWithAncestors) countDelta
  let sigops ← build.addSigned entry.sigopsWithAncestors sigopsDelta
  pure { entry with
    sizeWithAncestors := size
    feesWithAncestors := fees
    countWithAncestors := toUnsigned 64 count
    sigopsWithAncestors := sigops }

/-- The entry after a change of its descendants' statistics, without its key. -/
def addDescendantState (entry : TxMemPoolEntry) (sizeDelta feeDelta countDelta : Int) :
    Outcome ε TxMemPoolEntry := do
  let size ← build.addSigned entry.sizeWithDescendants sizeDelta
  let fees ← addFees entry.feesWithDescendants feeDelta "Descendant fees cannot go negative"
  let count ← build.addSigned (toSigned 64 entry.countWithDescendants) countDelta
  pure { entry with
    sizeWithDescendants := size
    feesWithDescendants := fees
    countWithDescendants := toUnsigned 64 count }

/-- New statistics, and new keys in both score indexes. -/
def updateAncestorState (id : EntryId) (sizeDelta feeDelta countDelta sigopsDelta : Int) :
    Outcome ε MemPoolArena := do
  let old ← arena.index id
  let entry ← addAncestorState build old sizeDelta feeDelta countDelta sigopsDelta
  let ancKey ← computeAncestorKey env build entry
  let descKey ← computeDescendantKey build entry
  let entry := { entry with cachedAncestorKey := ancKey, cachedDescendantKey := descKey }
  -- The old keys are those the entry had cached.
  pure { arena with
    entries := arena.entries.modify id fun _ => entry
    byAncestorScore :=
      (arena.byAncestorScore.erase ⟨old.cachedAncestorKey, id⟩).insert ⟨ancKey, id⟩
    byDescendantScore :=
      (arena.byDescendantScore.erase ⟨old.cachedDescendantKey, id⟩).insert ⟨descKey, id⟩ }

/-- The same for the descendant statistics. -/
def updateDescendantState (id : EntryId) (sizeDelta feeDelta countDelta : Int) :
    Outcome ε MemPoolArena := do
  let old ← arena.index id
  let entry ← addDescendantState build old sizeDelta feeDelta countDelta
  let descKey ← computeDescendantKey build entry
  let entry := { entry with cachedDescendantKey := descKey }
  pure { arena with
    entries := arena.entries.modify id fun _ => entry
    byDescendantScore :=
      (arena.byDescendantScore.erase ⟨old.cachedDescendantKey, id⟩).insert ⟨descKey, id⟩ }

/-- `update_modified_fee`. The difference of the fees is cast back and forth. -/
def updateModifiedFee (id : EntryId) (newModifiedFee : Nat) : Outcome ε MemPoolArena := do
  let old ← arena.index id
  let difference ← build.subSigned (toSigned 64 newModifiedFee) (toSigned 64 old.modifiedFee)
  let feeDelta := toSigned 64 (toUnsigned 64 difference)
  let ancestorFees ← build.addSigned (toSigned 64 old.feesWithAncestors) feeDelta
  let descendantFees ← build.addSigned (toSigned 64 old.feesWithDescendants) feeDelta
  let entry := { old with
    modifiedFee := newModifiedFee
    feesWithAncestors := toUnsigned 64 ancestorFees
    feesWithDescendants := toUnsigned 64 descendantFees }
  let ancKey ← computeAncestorKey env build entry
  let descKey ← computeDescendantKey build entry
  let entry := { entry with cachedAncestorKey := ancKey, cachedDescendantKey := descKey }
  pure { arena with
    entries := arena.entries.modify id fun _ => entry
    byAncestorScore :=
      (arena.byAncestorScore.erase ⟨old.cachedAncestorKey, id⟩).insert ⟨ancKey, id⟩
    byDescendantScore :=
      (arena.byDescendantScore.erase ⟨old.cachedDescendantKey, id⟩).insert ⟨descKey, id⟩ }

/-- `get_mut(id)` followed by a change of the links. -/
def editLinks (id : EntryId) (edit : HashSet EntryId × HashSet EntryId →
    HashSet EntryId × HashSet EntryId) : MemPoolArena :=
  { arena with
    entries := arena.entries.modify id fun entry =>
      { entry with
        parents := (edit (entry.parents, entry.children)).1
        children := (edit (entry.parents, entry.children)).2 } }

/-- `get_mut(id)` followed by the insertion of a child. -/
def insertChild (id child : EntryId) : MemPoolArena :=
  { arena with
    entries := arena.entries.modify id fun entry =>
      { entry with children := entry.children.insert child } }

/-- `remove`, of an entry that is there. -/
def erase (id : EntryId) (entry : TxMemPoolEntry) : MemPoolArena where
  entries := arena.entries.remove id
  byTxid := Function.update arena.byTxid (env.computeTxid entry.tx) none
  byWtxid := Function.update arena.byWtxid (env.computeWtxid entry.tx) none
  byAncestorScore := arena.byAncestorScore.erase ⟨entry.cachedAncestorKey, id⟩
  byDescendantScore := arena.byDescendantScore.erase ⟨entry.cachedDescendantKey, id⟩
  byEntryTime := arena.byEntryTime.erase ⟨entry.time, id⟩

/-- An entry leaves the arena and all indexes. -/
def remove (id : EntryId) : Option (TxMemPoolEntry × MemPoolArena) :=
  (arena.get id).map fun entry => (entry, arena.erase env id entry)

/-- The mining order. -/
def iterByAncestorScore : Outcome ε (List (EntryId × TxMemPoolEntry)) :=
  arena.indexAll arena.byAncestorScore.elems

/-- The oldest entry first. -/
def iterByEntryTime : Outcome ε (List (EntryId × TxMemPoolEntry)) :=
  arena.indexAll arena.byEntryTime.elems

end MemPoolArena

end Subcoin.Mempool
