import Mathlib.Data.List.TakeWhile
import Subcoin.Primitives.Locator
import Subcoin.Reference
import Subcoin.Sync.Types

/-!
# Subcoin — checkpoints

Headers-first sync goes from checkpoint to checkpoint: it requests the headers up to the next one,
and may fetch those up to the one after it ahead. `next_checkpoint` is a binary search that takes a
hit for the end of the list, and both callers ask it for the number after theirs.

* **`nextCheckpoint_of_hit`**, **`nextCheckpoint_of_miss`** — what the search finds in an ascending
  list.
* **`selectsNextCheckpoint_iff`** — below the last checkpoint, both callers go by the next one
  exactly when it is not the very next block; on the block below a checkpoint the sync falls back to
  blocks-first.
-/

namespace Subcoin.Sync

/-- `IndexedBlock`: a block by its number and hash. -/
structure IndexedBlock where
  number : Nat
  hash : BlockHash
deriving DecidableEq

/-- `CHECKPOINTS`, in ascending order. -/
def checkpoints : List IndexedBlock :=
  [
   (11111, 0x0000000069e244f73d78e8fd29ba2fd2ed618bd6fa2ee92559f542fdb26e7c1d),
   (33333, 0x000000002dd5588a74784eaa7ab0507a18ad16a236e7b1ce69f00d7ddfb5d0a6),
   (74000, 0x0000000000573993a3c9e41ce34471c079dcf5f52a0e824a81e7f953b8661a20),
   (105000, 0x00000000000291ce28027faea320c8d2b054b2e0fe44a773f3eefb151d6bdc97),
   (134444, 0x00000000000005b12ffd4cd315cd34ffd4a594f430ac814c91184a0d42d2b0fe),
   (168000, 0x000000000000099e61ea72015e79632f216fe6cb33d7899acb35b75c8303b763),
   (193000, 0x000000000000059f452a5f7340de6682a977387c17010ff6e6c3bd83ca8b1317),
   (210000, 0x000000000000048b95347e83192f69cf0366076336c639f9b7228e9ba171342e),
   (216116, 0x00000000000001b4f4b433e81ee46494af945cf96014816a4e2370f11b23df4e),
   (225430, 0x00000000000001c108384350f74090433e7fcf79a606b8e797f065b130575932),
   (250000, 0x000000000000003887df1f29024b06fc2200b55f8af8f35453d7be294df2d214),
   (267300, 0x000000000000000a83fbd660e918f218bf37edd92b748ad940483c7c116179ac),
   (279000, 0x0000000000000001ae8c72a0b0c301f67e3afca10e819efa9041e458e9bd7e40),
   (300255, 0x0000000000000000162804527c6e9b9f0563a280525f9d08c12041def0a0f3b2),
   (319400, 0x000000000000000021c6052e9becade189495d1c539aa37c58917305fd15f13b),
   (343185, 0x0000000000000000072b8bf361d01a6ba7d445dd024203fafc78768ed4368554),
   (352940, 0x000000000000000010755df42dba556bb72be6a32f3ce0b6941ce4430152c9ff),
   (382320, 0x00000000000000000a8dc6ed5b133d0eb2fd6af56203e4159789b092defd8ab2),
   (400000, 0x000000000000000004ec466ce4732fe6f1ed1cddc2ed4b328fff5224276e3f6f),
   (430000, 0x000000000000000001868b2bb3a285f3cc6b33ea234eb70facf4dcdf22186b87),
   (460000, 0x000000000000000000ef751bbce8e744ad303c47ece06c8d863e4d417efc258c),
   (490000, 0x000000000000000000de069137b17b8d5a3dfbd5b145b2dcfb203f15d0c4de90),
   (520000, 0x0000000000000000000d26984c0229c9f6962dc74db0a6d525f2f1640396f69c),
   (550000, 0x000000000000000000223b7a2298fb1c6c75fb0efc28a4c56853ff4112ec6bc9),
   (560000, 0x0000000000000000002c7b276daf6efb2b6aa68e2ce3be67ef925b3264ae7122),
   (563378, 0x0000000000000000000f1c54590ee18d15ec70e68c8cd4cfbadb1b4f11697eee),
   (597379, 0x00000000000000000005f8920febd3925f8272a6a71237563d78c2edfdd09ddf),
   (623950, 0x0000000000000000000f2adce67e49b0b6bdeb9de8b7c3d7e93b21e7fc1e819d),
   (654683, 0x0000000000000000000b9d2ec5a352ecba0592946514a92f14319dc2b367fc72),
   (691719, 0x00000000000000000008a89e854d57e5667df88f1cdef6fde2fbca1de5b639ad),
   (724466, 0x000000000000000000052d314a259755ca65944e68df6b12a067ea8f1f5a7091),
   (751565, 0x00000000000000000009c97098b5295f7e5f183ac811fb5d1534040adb93cabd),
   (781565, 0x00000000000000000002b8c04999434c33b8e033f11a977b288f8411766ee61c),
   (800000, 0x00000000000000000002a7c4c1e48d76c5a37902165a270156b7a8d72728a054),
   (810000, 0x000000000000000000028028ca82b6aa81ce789e4eb9e0321b74c3cbaf405dd1)
  ].map fun entry => ⟨entry.1, ChainParams.blockHashOfHex entry.2⟩

/-- `slice::binary_search_by_key` on an ascending slice: the index of a hit, or the index where the
key belongs. -/
def binarySearchByKey {α : Type} (l : List α) (key : α → Nat) (n : Nat) : Except Nat Nat :=
  match l.findIdx? fun a => key a = n with
  | some index => .ok index
  | none => .error (l.takeWhile fun a => key a < n).length

def nextCheckpoint (blockNumber : Nat) : Option IndexedBlock :=
  match binarySearchByKey checkpoints IndexedBlock.number blockNumber with
  | .ok _ => none
  | .error index => checkpoints[index]?

def lastCheckpointHeight : Nat := (checkpoints.getLast?.map IndexedBlock.number).getD 0

/-! ## Requests -/

/-- `HeaderRequester`. The headers are kept with their numbers, in the order of arrival. -/
structure HeaderRequester where
  peerId : PeerId
  headers : IndexMap BlockHash Nat
  completedRange : Option (IndexedBlock × IndexedBlock)
  lastLocatorRequestStart : Nat

inductive HeaderRequestOutcome where
  | exhaustedCheckpoint
  | repeatedRequest
  | newGetHeaders (payload : LocatorRequest) (start stop : IndexedBlock)

namespace HeaderRequester

variable {SE : Type} (env : NodeEnv SE) (c : Client) (r : HeaderRequester)

def new (peerId : PeerId) : HeaderRequester := ⟨peerId, .empty, none, 0⟩

def nextHeaderRequestAt (blockNumber : Nat) (blockHash : BlockHash) :
    HeaderRequestOutcome × HeaderRequester :=
  match nextCheckpoint (blockNumber + 1) with
  | none => (.exhaustedCheckpoint, r)
  | some checkpoint =>
    -- Ignore the back-to-back duplicate locators.
    if 0 < blockNumber ∧ blockNumber = r.lastLocatorRequestStart then (.repeatedRequest, r)
    else
      let locatorHashes := (c.blockLocator env (some blockNumber) fun _ => none).locatorHashes
      (.newGetHeaders ⟨locatorHashes, checkpoint.hash, r.peerId⟩ ⟨blockNumber, blockHash⟩
          checkpoint,
        { r with
          lastLocatorRequestStart := blockNumber
          headers := .empty
          completedRange := none })

end HeaderRequester

inductive HeaderPrefetch where
  | none
  | initiated (checkpoint anchor : IndexedBlock) (requester : HeaderRequester)
  | fetching (checkpoint anchor : IndexedBlock) (requester : HeaderRequester)
  | ready (headers : IndexMap BlockHash Nat) (start stop : IndexedBlock)

/-- `State` of the strategy, as far as the header requests set it. -/
inductive HeadersFirstState where
  | idle
  | fetchingHeaders (start stop : IndexedBlock)
  | completed

/-- `HeadersFirstStrategy`, the fields of the header requests. -/
structure HeadersFirstStrategy where
  state : HeadersFirstState
  peerId : PeerId
  headerRequester : HeaderRequester
  headerPrefetch : HeaderPrefetch

namespace HeadersFirstStrategy

variable {SE : Type} (env : NodeEnv SE) (c : Client) (s : HeadersFirstStrategy)

def processHeaderRequestOutcome : HeaderRequestOutcome → SyncAction × HeadersFirstStrategy
  | .repeatedRequest => (.none, s)
  | .exhaustedCheckpoint => (.switchToBlocksFirstSync, { s with state := .completed })
  | .newGetHeaders payload start stop =>
    (.request (.header payload), { s with state := .fetchingHeaders start stop })

def headerRequestAction : Outcome Empty (SyncAction × HeadersFirstStrategy) := do
  let bestNumber := c.bestNumber
  let bestHash ← Outcome.expect (c.blockHash bestNumber) "Best hash must exist; qed"
  let (outcome, requester) := s.headerRequester.nextHeaderRequestAt env c bestNumber bestHash
  pure ({ s with headerRequester := requester }.processHeaderRequestOutcome outcome)

/-- `HeadersFirstStrategy::new`: the strategy and its first action. -/
def new (peerId : PeerId) : Outcome Empty (SyncAction × HeadersFirstStrategy) :=
  headerRequestAction env c ⟨.idle, peerId, .new peerId, .none⟩

def tryInitiateHeaderPrefetchForNextCheckpoint (blockNumber : Nat) (blockHash : BlockHash) :
    HeadersFirstStrategy :=
  match s.headerPrefetch with
  | .none =>
    match nextCheckpoint (blockNumber + 1) with
    | none => s
    | some checkpoint =>
      { s with headerPrefetch := .initiated checkpoint ⟨blockNumber, blockHash⟩ (.new s.peerId) }
  | _ => s

end HeadersFirstStrategy

/-! ## What the search finds -/

theorem getElem?_length_takeWhile {α : Type} (l : List α) (p : α → Bool) :
    l[(l.takeWhile p).length]? = l.find? fun a => !p a := by
  induction l with
  | nil => rfl
  | cons a l ih =>
    cases hp : p a with
    | true => simp [hp, ih]
    | false => simp [hp]

theorem checkpoints_ascending : checkpoints.Pairwise fun a b => a.number < b.number := by
  decide +kernel

/-- The checkpoint with the smallest number above `n`. -/
structure IsNextCheckpoint (n : Nat) (checkpoint : IndexedBlock) : Prop where
  mem : checkpoint ∈ checkpoints
  lt : n < checkpoint.number
  least : ∀ other ∈ checkpoints, n < other.number → checkpoint.number ≤ other.number

/-- The number is none of a checkpoint. -/
def NoCheckpointAt (n : Nat) : Prop := ∀ checkpoint ∈ checkpoints, checkpoint.number ≠ n

variable {n : Nat} {checkpoint : IndexedBlock}

theorem nextCheckpoint_of_hit (h : ¬ NoCheckpointAt n) : nextCheckpoint n = none := by
  have hhit : (checkpoints.findIdx? fun a => a.number = n).isSome = true := by
    simpa [NoCheckpointAt, List.findIdx?_isSome] using h
  obtain ⟨index, hindex⟩ := Option.isSome_iff_exists.mp hhit
  rw [nextCheckpoint, binarySearchByKey, hindex]

theorem nextCheckpoint_of_miss (h : NoCheckpointAt n) :
    nextCheckpoint n = checkpoints.find? fun checkpoint => n < checkpoint.number := by
  have hmiss : (checkpoints.findIdx? fun a => a.number = n) = none := by
    simpa [NoCheckpointAt, List.findIdx?_eq_none_iff] using h
  rw [nextCheckpoint, binarySearchByKey, hmiss]
  dsimp only
  rw [getElem?_length_takeWhile]
  refine List.find?_congr fun checkpoint hmem => ?_
  have hne := h checkpoint hmem
  rw [Bool.eq_iff_iff]
  simp only [Bool.not_eq_true', decide_eq_false_iff_not, decide_eq_true_eq]
  omega

/-- In the ascending list the first checkpoint above `n` is the next one. -/
theorem isNextCheckpoint_of_find
    (h : (checkpoints.find? fun checkpoint => n < checkpoint.number) = some checkpoint) :
    IsNextCheckpoint n checkpoint := by
  refine ⟨List.mem_of_find?_eq_some h, by simpa using List.find?_some h, ?_⟩
  intro other hmem hlt
  obtain ⟨-, before, after, hsplit, hbefore⟩ := List.find?_eq_some_iff_append.mp h
  have hsorted := checkpoints_ascending
  rw [hsplit, List.pairwise_append, List.pairwise_cons] at hsorted
  rw [hsplit, List.mem_append, List.mem_cons] at hmem
  rcases hmem with hmem | rfl | hmem
  · have hnot := hbefore other hmem
    simp only [Bool.not_eq_true', decide_eq_false_iff_not] at hnot
    omega
  · exact le_rfl
  · exact (hsorted.2.1.1 other hmem).le

/-- Unless the very next block is a checkpoint, the callers get the next one. -/
theorem nextCheckpoint_succ (hn : n < lastCheckpointHeight) (h : NoCheckpointAt (n + 1)) :
    ∃ checkpoint, nextCheckpoint (n + 1) = some checkpoint ∧ IsNextCheckpoint n checkpoint := by
  have hlast : ∃ last ∈ checkpoints, last.number = lastCheckpointHeight :=
    ⟨⟨810000, ChainParams.blockHashOfHex
      0x000000000000000000028028ca82b6aa81ce789e4eb9e0321b74c3cbaf405dd1⟩, by decide +kernel,
      by decide +kernel⟩
  obtain ⟨last, hmem, hnumber⟩ := hlast
  have hfind : (checkpoints.find? fun checkpoint => n < checkpoint.number).isSome = true := by
    rw [List.find?_isSome]
    exact ⟨last, hmem, by simpa [hnumber] using hn⟩
  obtain ⟨checkpoint, hcheckpoint⟩ := Option.isSome_iff_exists.mp hfind
  refine ⟨checkpoint, ?_, isNextCheckpoint_of_find hcheckpoint⟩
  rw [nextCheckpoint_of_miss h, ← hcheckpoint]
  refine List.find?_congr fun other hother => ?_
  have hne := h other hother
  rw [Bool.eq_iff_iff, decide_eq_true_eq, decide_eq_true_eq]
  omega

/-! ## The callers -/

theorem HeaderRequester.nextHeaderRequestAt_of_some {SE : Type} (env : NodeEnv SE) (c : Client)
    (r : HeaderRequester) (hnext : nextCheckpoint (n + 1) = some checkpoint) (hash : BlockHash) :
    (r.nextHeaderRequestAt env c n hash).1 =
      if 0 < n ∧ n = r.lastLocatorRequestStart then .repeatedRequest
      else .newGetHeaders ⟨(c.blockLocator env (some n) fun _ => none).locatorHashes,
        checkpoint.hash, r.peerId⟩ ⟨n, hash⟩ checkpoint := by
  rw [nextHeaderRequestAt, hnext]
  dsimp only
  split
  · rfl
  · rfl

/-- Header requests and prefetches at the block numbered `n` go by the next checkpoint, and a sync
that starts at it does not fall back to blocks-first. -/
structure SelectsNextCheckpoint {SE : Type} (env : NodeEnv SE) (c : Client) (n : Nat)
    (hash : BlockHash) : Prop where
  request : ∀ r : HeaderRequester, ∃ checkpoint, IsNextCheckpoint n checkpoint ∧
    ((0 < n ∧ n = r.lastLocatorRequestStart ∧
        (r.nextHeaderRequestAt env c n hash).1 = .repeatedRequest) ∨
      ∃ locatorHashes, (r.nextHeaderRequestAt env c n hash).1 =
        .newGetHeaders ⟨locatorHashes, checkpoint.hash, r.peerId⟩ ⟨n, hash⟩ checkpoint)
  prefetched : ∀ s : HeadersFirstStrategy, s.headerPrefetch = .none →
    ∃ checkpoint, IsNextCheckpoint n checkpoint ∧
      (s.tryInitiateHeaderPrefetchForNextCheckpoint n hash).headerPrefetch =
        .initiated checkpoint ⟨n, hash⟩ (.new s.peerId)
  started : c.bestNumber = n → c.blockHash n = some hash → ∀ peerId, ∃ action s,
    HeadersFirstStrategy.new env c peerId = .ok (action, s) ∧ action ≠ .switchToBlocksFirstSync

/-- **Checkpoint selection.** Below the last checkpoint, requests and prefetches go by the next one
exactly when it is not the very next block. -/
theorem selectsNextCheckpoint_iff {SE : Type} (env : NodeEnv SE) (c : Client) (n : Nat)
    (hn : n < lastCheckpointHeight) (hash : BlockHash) :
    SelectsNextCheckpoint env c n hash ↔ NoCheckpointAt (n + 1) := by
  constructor
  · intro h
    by_contra hhit
    obtain ⟨_, -, hrequest⟩ := h.request (.new ⟨.v4 0 0 0 0, 0⟩)
    simp [HeaderRequester.nextHeaderRequestAt, nextCheckpoint_of_hit hhit] at hrequest
  · intro hmiss
    obtain ⟨checkpoint, hnext, hspec⟩ := nextCheckpoint_succ hn hmiss
    refine ⟨fun r => ⟨checkpoint, hspec, ?_⟩, fun s hs => ⟨checkpoint, hspec, ?_⟩, ?_⟩
    · rw [r.nextHeaderRequestAt_of_some env c hnext]
      by_cases hrepeat : 0 < n ∧ n = r.lastLocatorRequestStart
      · exact .inl ⟨hrepeat.1, hrepeat.2, by rw [if_pos hrepeat]⟩
      · exact .inr ⟨_, by rw [if_neg hrepeat]⟩
    · rw [HeadersFirstStrategy.tryInitiateHeaderPrefetchForNextCheckpoint, hs, hnext]
    · rintro rfl hhash peerId
      -- a new requester has sent no locator yet, so that nothing is a repetition
      have hfirst : ¬ (0 < c.bestNumber ∧
          c.bestNumber = (HeaderRequester.new peerId).lastLocatorRequestStart) := by
        simp only [HeaderRequester.new]
        omega
      have hrequest := (HeaderRequester.new peerId).nextHeaderRequestAt_of_some env c hnext hash
      rw [if_neg hfirst] at hrequest
      rw [HeadersFirstStrategy.new, HeadersFirstStrategy.headerRequestAction, hhash,
        Outcome.expect_some, Outcome.ok_bind]
      dsimp only
      rw [hrequest]
      exact ⟨_, _, rfl, SyncAction.noConfusion⟩

/-- At the genesis block the next checkpoint is the first one. -/
theorem selectsNextCheckpoint_genesis :
    SelectsNextCheckpoint Reference.env
      (Client.genesis Reference.env Reference.genesisBlock Pallet.State.empty) 0
      (Reference.env.hashOf Reference.genesisBlock) :=
  (selectsNextCheckpoint_iff Reference.env _ 0 (by decide +kernel) _).mpr
    (show ∀ checkpoint ∈ checkpoints, _ by decide +kernel)

/-- On the block below the first checkpoint there seem to be no checkpoints left. -/
theorem not_selectsNextCheckpoint :
    11110 < lastCheckpointHeight ∧
      ∀ c hash, ¬ SelectsNextCheckpoint Reference.env c 11110 hash := by
  refine ⟨by decide +kernel, fun c hash h => ?_⟩
  obtain ⟨_, -, hrequest⟩ := h.request (.new ⟨.v4 0 0 0 0, 0⟩)
  have hnone : nextCheckpoint (11110 + 1) = none := by decide +kernel
  simp [HeaderRequester.nextHeaderRequestAt, hnone] at hrequest

end Subcoin.Sync
