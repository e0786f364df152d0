import Subcoin.Mempool.Links

/-!
# Subcoin — parents and children through a run

The part of the links that most runs keep. An insertion makes the new entry a child of each of its
parents, and the removals take along the children of what they remove. The exception is `expire`,
which goes by age: it leaves a child that came late with a parent that is gone.

* **`parentsLinked_reachable`** — where what expires, expires with its children, every parent of an
  entry is live and has it as a child.
* **`ParentsComplete`** — an entry has the ones it spends as parents; this is kept as long as
  nothing is inserted after an entry that spends it.
-/

namespace Subcoin.Mempool

variable {SE : Type} {env : PoolEnv SE} {build : Build} {options : MemPoolOptions} {m : Moment}
  {inner inner' u u' : MemPoolInner} {ws : ValidationWorkspace} {ctx : EntryContext}
  {a b : EntryId} {call : Call}

/-- The parents of every entry are live, and have it as a child. -/
def ParentsLinked (inner : MemPoolInner) : Prop :=
  ∀ a b, HasParent inner b a → HasChild inner a b

/-- An entry has the entries it spends as parents. -/
def ParentsComplete (env : PoolEnv SE) (inner : MemPoolInner) : Prop :=
  ∀ a b, Child env inner a b → HasParent inner b a

/-- What expires, expires with its children. -/
def ExpiresFamilies (build : Build) (m : Moment) (inner : MemPoolInner) : Call → Prop
  | .expire maxAge => ∀ cutoff, build.subSigned (MemPool.currentTime m) maxAge =
      (.ok cutoff : Outcome MempoolError Int) →
      ∀ a b ea eb, inner.get a = some ea → inner.get b = some eb → a ∈ eb.parents →
        ea.time < cutoff → eb.time < cutoff
  | _ => True

/-! ## Parents with their children -/

theorem mem_expand_of_hasChild {order : HashOrder} {ids : HashSet EntryId}
    (ha : a ∈ MemPool.expand order inner.arena ids) (hchild : HasChild inner a b) :
    b ∈ MemPool.expand order inner.arena ids := by
  obtain ⟨r, hr, hreach⟩ := mem_expand.mp ha
  exact mem_expand.mpr ⟨r, hr, hreach.tail (mem_childrenOf.mpr hchild)⟩

/-- What a call stages has its children staged as well. -/
theorem Stages.closed {ids : HashSet EntryId} (h : Stages env build m inner call u ids)
    (hindexes : Indexes env build inner.arena) (hexpires : ExpiresFamilies build m inner call)
    (hlinked : ParentsLinked u) (hparent : HasParent u b a) (ha : a ∈ ids) : b ∈ ids := by
  have hchild : HasChild u a b := hlinked a b hparent
  cases h with
  | trim _ _ _ =>
    have hreach := mem_calculateDescendants.mp ha
    exact mem_calculateDescendants.mpr (hreach.tail (mem_childrenOf.mpr hchild))
  | expire hcutoff hids =>
    rw [HashSet.mem_extend, or_iff_right HashSet.not_mem_empty, mem_expired hindexes hids] at ha ⊢
    obtain ⟨ea, hea, hold⟩ := ha
    obtain ⟨eb, heb, hmem⟩ := hparent
    exact ⟨eb, heb, hexpires _ hcutoff a b ea eb hea heb hmem hold⟩
  | block => exact mem_expand_of_hasChild ha hchild
  | conflicts => exact mem_expand_of_hasChild ha hchild
  | reorg _ => exact mem_expand_of_hasChild ha hchild

namespace ParentsLinked

theorem inserted (h : ParentsLinked inner) (hbyTxid : ByTxid env inner)
    (hinserted : Inserted env build m inner ws ctx inner') : ParentsLinked inner' := by
  obtain ⟨id, hnew⟩ := hinserted.insertedAt
  intro a b hparent
  refine (children_inserted hnew).mpr ?_
  rcases (parents_inserted hnew hbyTxid).mp hparent with hparent | ⟨rfl, hnamed⟩
  · exact Or.inl (h a b hparent)
  · exact Or.inr ⟨rfl, mem_ancestorsOf.mpr ⟨a, hbyTxid.mem_parentIds.mpr hnamed, .refl⟩⟩

theorem accepted {txs : List Transaction} {wss : List ValidationWorkspace}
    (h : ParentsLinked inner) (hbyTxid : ByTxid env inner)
    (haccepted : Accepted env build options m inner txs wss inner') : ParentsLinked inner' := by
  refine (haccepted.induction (I := fun u _ => ParentsLinked u ∧ ByTxid env u) ⟨h, hbyTxid⟩ ?_).1
  rintro u ws rest ctx u' ⟨hu, hbyTxid⟩ hfresh hinserted
  exact ⟨hu.inserted hbyTxid hinserted, hbyTxid.inserted hfresh hinserted⟩

theorem removed {ids : List EntryId} (h : ParentsLinked inner)
    (hclosed : ∀ {a b}, HasParent inner b a → a ∈ ids → b ∈ ids)
    (hremoved : Removed env inner ids inner') : ParentsLinked inner' := by
  intro a b hparent
  obtain ⟨hb, hparent⟩ := (parents_removed hremoved).mp hparent
  exact (children_removed hremoved).mpr ⟨fun ha => hb (hclosed hparent ha), h a b hparent⟩

/-- The removals of a call keep it. -/
theorem survives (hindexes : Indexes env build inner.arena)
    (hexpires : ExpiresFamilies build m inner call) :
    SurvivesStages env build m call inner ParentsLinked := by
  intro u ids u' hstages hu hremove
  refine hu.removed (fun hparent ha => ?_) (removeStaged_spec hremove)
  rw [HashSet.mem_iter] at ha ⊢
  exact hstages.closed hindexes hexpires hu hparent ha

end ParentsLinked

theorem parentsLinked_new : ParentsLinked .new := by
  rintro a b ⟨e, he, _⟩
  cases he

/-- In every state of a run in which what expires, expires with its children, the parents of every
entry are live and have it as a child. -/
theorem parentsLinked_reachable {cond : Moment → Call → MemPool → Prop} {p : MemPool}
    (hcond : ∀ {m call p}, cond m call p → ExpiresFamilies build m p.inner call)
    (h : Reachable env build options cond p) : ParentsLinked p.inner := by
  refine pool_invariant (I := fun p => ParentsLinked p.inner) (fun _ => parentsLinked_new) ?_ h
  intro m call p p' hp hc hI heffect
  have hindexes : Indexes env build p.inner.arena := indexes_of_built (built_reachable hp)
  refine inner_of_effect hI (fun haccepted => hI.accepted (byTxid_reachable hp) haccepted) ?_
    (fun hu => hu) heffect
  exact ParentsLinked.survives hindexes (hcond hc)

/-! ## All the parents -/

namespace ParentsComplete

theorem inserted (h : ParentsComplete env inner) (hbyTxid : ByTxid env inner)
    (hself : ¬ Spends env ws.tx ws.tx)
    (hunspent : ∀ {k e}, inner.get k = some e → ¬ Spends env e.tx ws.tx)
    (hinserted : Inserted env build m inner ws ctx inner') : ParentsComplete env inner' := by
  obtain ⟨id, hnew⟩ := hinserted.insertedAt
  rintro a b ⟨ea', eb', hea', heb', hspends⟩
  rw [parents_inserted hnew hbyTxid]
  rcases hnew.get_new heb' with ⟨rfl, hbtx, _⟩ | ⟨eb, heb, hbbare⟩
  · rw [hbtx] at hspends
    rcases hnew.get_new hea' with ⟨_, hatx, _⟩ | ⟨ea, hea, habare⟩
    · exact absurd (hatx ▸ hspends) hself
    · exact Or.inr ⟨rfl, ea, hea, (tx_eq_of_bare habare ▸ hspends).names⟩
  · rw [tx_eq_of_bare hbbare] at hspends
    rcases hnew.get_new hea' with ⟨_, hatx, _⟩ | ⟨ea, hea, habare⟩
    · exact absurd (hatx ▸ hspends) (hunspent heb)
    · exact Or.inl (h a b ⟨ea, eb, hea, heb, tx_eq_of_bare habare ▸ hspends⟩)

theorem removed {ids : List EntryId} (h : ParentsComplete env inner)
    (hremoved : Removed env inner ids inner') : ParentsComplete env inner' := by
  intro a b hchild
  obtain ⟨_, hb, hchild⟩ := (child_removed hremoved).mp hchild
  exact (parents_removed hremoved).mpr ⟨hb, h a b hchild⟩

end ParentsComplete

theorem parentsComplete_new : ParentsComplete env .new := by
  rintro a b ⟨ea, _, hea, _⟩
  cases hea

end Subcoin.Mempool
