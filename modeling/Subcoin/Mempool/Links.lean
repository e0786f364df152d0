import Subcoin.Mempool.Reference
import Subcoin.Mempool.Removals

/-!
# Subcoin — the links between entries

The sets of parents and children are exact when they hold the spending relation among live
entries. They stay exact as long as every ancestor of an accepted transaction is a parent of it, no
transaction comes after one that spends it, and families are removed as a whole: an insertion links
the new entry to all its ancestors, but not to descendants, and a removal leaves the links of the
entries that stay.

* **`child_inserted`**, **`parents_inserted`**, **`children_inserted`** — what an insertion does to
  the spending relation and to the links.
* **`links_of_tidy_run`** — the links of every state of a run that keeps to the conditions.
-/

namespace Subcoin.Mempool

open HashSet

variable {SE : Type} {env : PoolEnv SE} {build : Build} {options : MemPoolOptions} {m : Moment}
  {inner inner' : MemPoolInner} {ws : ValidationWorkspace} {ctx : EntryContext}
  {arena arena' : MemPoolArena} {id a b : EntryId} {S : EntryId → Prop} {txs : List Transaction}

/-- The links between the entries are those of their transactions. -/
structure Links (env : PoolEnv SE) (inner : MemPoolInner) : Prop where
  parents : ∀ {a b ea eb}, inner.get a = some ea → inner.get b = some eb →
    (b ∈ ea.parents ↔ Spends env ea.tx eb.tx)
  children : ∀ {a b ea eb}, inner.get a = some ea → inner.get b = some eb →
    (a ∈ eb.children ↔ b ∈ ea.parents)
  parents_live : ∀ {a b ea}, inner.get a = some ea → b ∈ ea.parents → ∃ eb, inner.get b = some eb
  children_live : ∀ {a b eb}, inner.get b = some eb → a ∈ eb.children →
    ∃ ea, inner.get a = some ea

/-! ## The links as relations -/

/-- `b` is in the parents of the live entry `a`. -/
def HasParent (inner : MemPoolInner) (a b : EntryId) : Prop :=
  ∃ e, inner.get a = some e ∧ b ∈ e.parents

/-- `b` is in the children of the live entry `a`. -/
def HasChild (inner : MemPoolInner) (a b : EntryId) : Prop :=
  ∃ e, inner.get a = some e ∧ b ∈ e.children

def ParentsExact (env : PoolEnv SE) (inner : MemPoolInner) : Prop :=
  ∀ a b, HasParent inner a b ↔ Child env inner b a

theorem links_of_exact (hparents : ParentsExact env inner) (hchildren : ChildrenExact env inner) :
    Links env inner where
  parents {a b ea eb} ha hb := by
    have hiff := hparents a b
    simpa [HasParent, Child, ha, hb] using hiff
  children {a b ea eb} ha hb := by
    have hiff := (hchildren b a).trans (hparents a b).symm
    simpa [HasParent, ha, hb] using hiff
  parents_live {a b ea} ha hb := by
    obtain ⟨eb, _, heb, _⟩ := (hparents a b).mp ⟨ea, ha, hb⟩
    exact ⟨eb, heb⟩
  children_live {a b eb} hb ha := by
    obtain ⟨_, ea, _, hea, _⟩ := (hchildren b a).mp ⟨eb, hb, ha⟩
    exact ⟨ea, hea⟩

/-! ## Insertion -/

section

variable (hnew : InsertedAt env build m inner.arena ws ctx id inner'.arena)
include hnew

theorem parents_inserted (hbyTxid : ByTxid env inner) :
    HasParent inner' a b ↔
      HasParent inner a b ∨ a = id ∧ ∃ e, inner.get b = some e ∧ Names env ws.tx e.tx := by
  have hids : ∀ k, k ∈ empty.extend (inner.arena.parentIds ws.tx) ↔
      ∃ e, inner.get k = some e ∧ Names env ws.tx e.tx := by
    intro k
    rw [mem_extend, or_iff_right not_mem_empty, hbyTxid.mem_parentIds]
  constructor
  · rintro ⟨e', he', hb⟩
    rcases hnew.get_new he' with ⟨rfl, _, hparents, _⟩ | ⟨e, he, hbare⟩
    · rw [hparents, hids] at hb
      exact Or.inr ⟨rfl, hb⟩
    · exact Or.inl ⟨e, he, parents_eq_of_bare hbare ▸ hb⟩
  · rintro (⟨e, he, hb⟩ | ⟨rfl, hb⟩)
    · obtain ⟨e', he', hbare⟩ := hnew.get_old he
      exact ⟨e', he', (parents_eq_of_bare hbare).symm ▸ hb⟩
    · obtain ⟨st, ancKey, descKey, _, hentry⟩ := hnew.entry
      exact ⟨_, hentry, (hids b).mpr hb⟩

theorem children_inserted :
    HasChild inner' a b ↔ HasChild inner a b ∨
      b = id ∧ a ∈ inner.arena.ancestorsOf m.order ws.tx := by
  constructor
  · rintro ⟨e', he', hb⟩
    rcases hnew.get_new he' with ⟨rfl, _, _, hchildren⟩ | ⟨e, he, hbare⟩
    · rw [hchildren] at hb
      exact absurd hb not_mem_empty
    · rcases (mem_children_of_bare hbare).mp hb with hb | hb
      · exact Or.inl ⟨e, he, hb⟩
      · exact Or.inr hb
  · rintro (⟨e, he, hb⟩ | ⟨rfl, ha⟩)
    · obtain ⟨e', he', hbare⟩ := hnew.get_old he
      exact ⟨e', he', (mem_children_of_bare hbare).mpr (Or.inl hb)⟩
    · obtain ⟨e, _, he, _⟩ := hnew.ancestor a ha
      obtain ⟨e', he', hbare⟩ := hnew.get_old he
      exact ⟨e', he', (mem_children_of_bare hbare).mpr (Or.inr ⟨rfl, ha⟩)⟩

/-- When nothing there names it, a new entry has no child. -/
theorem child_inserted (hself : ¬ Names env ws.tx ws.tx)
    (hunnamed : ∀ {k e}, inner.get k = some e → ¬ Names env e.tx ws.tx) :
    Child env inner' a b ↔ Child env inner a b ∨
      b = id ∧ ∃ e, inner.get a = some e ∧ Spends env ws.tx e.tx := by
  constructor
  · rintro ⟨ea', eb', hea', heb', hspends⟩
    rcases hnew.get_new heb' with ⟨rfl, hbtx, _⟩ | ⟨eb, heb, hbbare⟩
    · rw [hbtx] at hspends
      rcases hnew.get_new hea' with ⟨_, hatx, _⟩ | ⟨ea, hea, habare⟩
      · exact absurd (hatx ▸ hspends).names hself
      · exact Or.inr ⟨rfl, ea, hea, tx_eq_of_bare habare ▸ hspends⟩
    · rw [tx_eq_of_bare hbbare] at hspends
      rcases hnew.get_new hea' with ⟨_, hatx, _⟩ | ⟨ea, hea, habare⟩
      · exact absurd (hatx ▸ hspends).names (hunnamed heb)
      · exact Or.inl ⟨ea, eb, hea, heb, tx_eq_of_bare habare ▸ hspends⟩
  · rintro (⟨ea, eb, hea, heb, hspends⟩ | ⟨rfl, ea, hea, hspends⟩)
    · obtain ⟨ea', hea', habare⟩ := hnew.get_old hea
      obtain ⟨eb', heb', hbbare⟩ := hnew.get_old heb
      refine ⟨ea', eb', hea', heb', ?_⟩
      rwa [tx_eq_of_bare habare, tx_eq_of_bare hbbare]
    · obtain ⟨ea', hea', habare⟩ := hnew.get_old hea
      obtain ⟨st, ancKey, descKey, _, hentry⟩ := hnew.entry
      exact ⟨ea', _, hea', hentry, (tx_eq_of_bare habare).symm ▸ hspends⟩

end

/-! ## Removal -/

section

variable {ids : List EntryId} (hremoved : Removed env inner ids inner')
include hremoved

theorem get_removed {e : TxMemPoolEntry} :
    inner'.get a = some e ↔ a ∉ ids ∧ inner.get a = some e := by
  rw [hremoved.get]
  by_cases ha : a ∈ ids
  · simp [ha]
  · simp [ha]

theorem parents_removed : HasParent inner' a b ↔ a ∉ ids ∧ HasParent inner a b := by
  simp only [HasParent, get_removed hremoved, and_assoc, exists_and_left]

theorem children_removed : HasChild inner' a b ↔ a ∉ ids ∧ HasChild inner a b := by
  simp only [HasChild, get_removed hremoved, and_assoc, exists_and_left]

theorem child_removed :
    Child env inner' a b ↔ a ∉ ids ∧ b ∉ ids ∧ Child env inner a b := by
  simp only [Child, get_removed hremoved]
  constructor
  · rintro ⟨ea, eb, ⟨ha, hea⟩, ⟨hb, heb⟩, hspends⟩
    exact ⟨ha, hb, ea, eb, hea, heb, hspends⟩
  · rintro ⟨ha, hb, ea, eb, hea, heb, hspends⟩
    exact ⟨ea, eb, ⟨ha, hea⟩, ⟨hb, heb⟩, hspends⟩

end

/-! ## Conditions on the calls -/

/-- A transaction that is offered, or that is in the mempool. -/
def Present (inner : MemPoolInner) (txs : List Transaction) (tx : Transaction) : Prop :=
  tx ∈ txs ∨ ∃ k e, inner.get k = some e ∧ e.tx = tx

/-- Offered transactions that fit to the entries: nothing there names them, they name only outputs
that exist, and an ancestor of one of them is a parent of it. -/
structure Fits (env : PoolEnv SE) (inner : MemPoolInner) (txs : List Transaction) : Prop where
  unnamed : ∀ {k e}, inner.get k = some e → ∀ t ∈ txs, ¬ Names env e.tx t
  irrefl : ∀ t ∈ txs, ¬ Names env t t
  spends : ∀ t ∈ txs, ∀ {b}, Present inner txs b → Names env t b → Spends env t b
  direct : ∀ t ∈ txs, ∀ {b c}, Present inner txs b → Present inner txs c → Names env t b →
    Names env b c → Names env t c

/-- A set of entries that no spending relation leads into or out of. -/
def Detached (env : PoolEnv SE) (inner : MemPoolInner) (S : EntryId → Prop) : Prop :=
  ∀ a b, Child env inner a b → (S a ↔ S b)

/-- What the call removes are whole families. Of a trim, whose choice depends on fee rates, this is
sure when there is nothing to remove, or when there are no families. -/
def RemovesFamilies (env : PoolEnv SE) (build : Build) (m : Moment) (inner : MemPoolInner) :
    Call → Prop
  | .trimToSize maxSize => maxSize < inner.totalTxSize → ∀ a b, ¬ Child env inner a b
  | .expire maxAge => ∀ cutoff, build.subSigned (MemPool.currentTime m) maxAge =
      (.ok cutoff : Outcome MempoolError Int) →
      Detached env inner fun k => ∃ e, inner.get k = some e ∧ e.time < cutoff
  | .removeForBlock confirmed _ =>
    Detached env inner (Descends env inner fun r => r ∈ MemPool.confirmedIds env m inner confirmed)
  | .removeConflicts txs =>
    Detached env inner (Descends env inner fun r => r ∈ MemPool.conflictIds m inner txs)
  | .removeForReorg height block =>
    Detached env inner (Descends env inner fun r => ∃ e, inner.get r = some e ∧
      MemPool.invalidAt m height (MemPool.mtpAt env m block) e = true)
  | _ => True

/-- The condition on a call under which links stay exact. -/
def Tidy (env : PoolEnv SE) (build : Build) (m : Moment) (call : Call) (p : MemPool) : Prop :=
  Fits env p.inner call.offered ∧ RemovesFamilies env build m p.inner call

/-! ## The invariant -/

/-- Exact links among entries whose ancestors are all parents. -/
structure LinkInvariant (env : PoolEnv SE) (build : Build) (inner : MemPoolInner) : Prop where
  built : Built env build inner.arena
  byTxid : ByTxid env inner
  parents : ParentsExact env inner
  children : ChildrenExact env inner
  direct : ∀ {a b c ea eb ec}, inner.get a = some ea → inner.get b = some eb →
    inner.get c = some ec → Names env ea.tx eb.tx → Names env eb.tx ec.tx → Names env ea.tx ec.tx

variable {rest : List Transaction}

theorem Present.cons {tx : Transaction}
    (hnew : InsertedAt env build m inner.arena ws ctx id inner'.arena)
    (h : Present inner' rest tx) : Present inner (ws.tx :: rest) tx := by
  rcases h with h | ⟨k, e', he', rfl⟩
  · exact Or.inl (List.mem_cons_of_mem _ h)
  · rcases hnew.get_new he' with ⟨_, htx, _⟩ | ⟨e, he, hbare⟩
    · exact Or.inl (by simp [htx])
    · exact Or.inr ⟨k, e, he, (tx_eq_of_bare hbare).symm⟩

/-- The transactions still to come fit to what the first of them leaves. -/
theorem Fits.tail (h : Fits env inner (ws.tx :: rest))
    (hordered : ∀ t ∈ rest, ¬ Names env ws.tx t)
    (hnew : InsertedAt env build m inner.arena ws ctx id inner'.arena) : Fits env inner' rest where
  unnamed {k e'} he' t ht := by
    rcases hnew.get_new he' with ⟨_, htx, _⟩ | ⟨e, he, hbare⟩
    · rw [htx]
      exact hordered t ht
    · rw [tx_eq_of_bare hbare]
      exact h.unnamed he t (List.mem_cons_of_mem _ ht)
  irrefl t ht := h.irrefl t (List.mem_cons_of_mem _ ht)
  spends t ht _ hb := h.spends t (List.mem_cons_of_mem _ ht) (hb.cons hnew)
  direct t ht _ _ hb hc := h.direct t (List.mem_cons_of_mem _ ht) (hb.cons hnew) (hc.cons hnew)

theorem Fits.subset {sub : List Transaction} (h : Fits env inner txs) (hsub : ∀ t ∈ sub, t ∈ txs) :
    Fits env inner sub where
  unnamed he t ht := h.unnamed he t (hsub t ht)
  irrefl t ht := h.irrefl t (hsub t ht)
  spends t ht _ hb := h.spends t (hsub t ht) (hb.imp_left (hsub _))
  direct t ht _ _ hb hc := h.direct t (hsub t ht) (hb.imp_left (hsub _)) (hc.imp_left (hsub _))

namespace LinkInvariant

section

variable (h : LinkInvariant env build inner)

include h

/-- The ancestors of a transaction that fits are the entries it names. -/
theorem mem_ancestorsOf_iff {tx : Transaction} (hfits : Fits env inner (tx :: rest)) :
    a ∈ inner.arena.ancestorsOf m.order tx ↔ ∃ e, inner.get a = some e ∧ Names env tx e.tx := by
  rw [mem_ancestorsOf]
  constructor
  · rintro ⟨r, hr, hreach⟩
    -- along the chain of parents: a parent of a named entry is named as well
    induction hreach with
    | refl => exact h.byTxid.mem_parentIds.mp hr
    | tail _ hstep ih =>
      rename_i x y _
      obtain ⟨ex, hex, hnames⟩ := ih
      obtain ⟨ey, ex', hey, hex', hspends⟩ := (h.parents x y).mp (mem_parentsOf.mp hstep)
      obtain rfl := Option.some.inj (hex.symm.trans hex')
      refine ⟨ey, hey, hfits.direct tx List.mem_cons_self ?_ ?_ hnames hspends.names⟩
      · exact Or.inr ⟨x, ex, hex, rfl⟩
      · exact Or.inr ⟨y, ey, hey, rfl⟩
  · intro ha
    exact ⟨a, h.byTxid.mem_parentIds.mpr ha, .refl⟩

theorem inserted (hfits : Fits env inner (ws.tx :: rest))
    (hfresh : inner.arena.byTxid (env.computeTxid ws.tx) = none)
    (hinserted : Inserted env build m inner ws ctx inner') : LinkInvariant env build inner' := by
  obtain ⟨id, hid⟩ := hinserted.arena
  have hnew : InsertedAt env build m inner.arena ws ctx id inner'.arena := insertEntry_spec hid
  have hself : ¬ Names env ws.tx ws.tx := hfits.irrefl ws.tx List.mem_cons_self
  have hunnamed : ∀ {k e}, inner.get k = some e → ¬ Names env e.tx ws.tx :=
    fun he => hfits.unnamed he ws.tx List.mem_cons_self
  have hchild : ∀ a b, Child env inner' a b ↔ Child env inner a b ∨
      b = id ∧ ∃ e, inner.get a = some e ∧ Spends env ws.tx e.tx :=
    fun a b => child_inserted hnew hself hunnamed
  have hnamed : ∀ k, (∃ e, inner.get k = some e ∧ Names env ws.tx e.tx) ↔
      ∃ e, inner.get k = some e ∧ Spends env ws.tx e.tx := by
    intro k
    refine exists_congr fun e => and_congr_right fun he => ⟨fun hnames => ?_, Spends.names⟩
    exact hfits.spends ws.tx List.mem_cons_self (Or.inr ⟨k, e, he, rfl⟩) hnames
  refine ⟨built_insertEntry h.built hfresh hid, h.byTxid.inserted hfresh hinserted, ?_, ?_, ?_⟩
  · intro a b
    rw [parents_inserted hnew h.byTxid, h.parents a b, hchild, hnamed]
  · intro a b
    refine (children_inserted hnew).trans ?_
    rw [hchild, h.mem_ancestorsOf_iff hfits, hnamed]
    exact or_congr_left (h.children a b)
  · intro a b c ea eb ec hea heb hec hab hbc
    -- of three entries in a chain, only the first can be the new one
    rcases hnew.get_new heb with ⟨_, hbtx, _⟩ | ⟨eb0, heb0, hbbare⟩
    · rcases hnew.get_new hea with ⟨_, hatx, _⟩ | ⟨ea0, hea0, habare⟩
      · rw [hatx, hbtx] at hab
        exact absurd hab hself
      · rw [tx_eq_of_bare habare, hbtx] at hab
        exact absurd hab (hunnamed hea0)
    rcases hnew.get_new hec with ⟨_, hctx, _⟩ | ⟨ec0, hec0, hcbare⟩
    · rw [tx_eq_of_bare hbbare, hctx] at hbc
      exact absurd hbc (hunnamed heb0)
    rw [tx_eq_of_bare hbbare] at hab hbc
    rw [tx_eq_of_bare hcbare] at hbc ⊢
    rcases hnew.get_new hea with ⟨_, hatx, _⟩ | ⟨ea0, hea0, habare⟩
    · rw [hatx] at hab ⊢
      exact hfits.direct ws.tx List.mem_cons_self (Or.inr ⟨b, eb0, heb0, rfl⟩)
        (Or.inr ⟨c, ec0, hec0, rfl⟩) hab hbc
    · rw [tx_eq_of_bare habare] at hab ⊢
      exact h.direct hea0 heb0 hec0 hab hbc

theorem accepted {wss : List ValidationWorkspace} (hfits : Fits env inner txs)
    (haccepted : Accepted env build options m inner txs wss inner') :
    LinkInvariant env build inner' := by
  have hpending : Fits env inner (wss.map ValidationWorkspace.tx) := by
    refine hfits.subset fun t ht => ?_
    obtain ⟨ws, hws, rfl⟩ := List.mem_map.mp ht
    exact haccepted.mem ws hws
  refine (haccepted.induction (I := fun u rest => LinkInvariant env build u ∧
    Fits env u (rest.map ValidationWorkspace.tx) ∧ rest.Pairwise fun a b => ¬ Names env a.tx b.tx)
    ⟨h, hpending, haccepted.ordered⟩ ?_).1
  rintro u ws rest ctx u' ⟨hu, hfits, hordered⟩ hfresh hinserted
  obtain ⟨hhead, hordered⟩ := List.pairwise_cons.mp hordered
  obtain ⟨id, hnew⟩ := hinserted.insertedAt
  refine ⟨hu.inserted hfits hfresh hinserted, hfits.tail (fun t ht => ?_) hnew, hordered⟩
  obtain ⟨ws', hws', rfl⟩ := List.mem_map.mp ht
  exact hhead ws' hws'

theorem removed {ids : HashSet EntryId} (hdetached : Detached env inner fun k => k ∈ ids)
    (hremove : inner.removeStaged env build m.order ids false = (.ok inner' : Outcome MempoolError
      _)) : LinkInvariant env build inner' := by
  have hremoved : Removed env inner (ids.iter m.order) inner' := removeStaged_spec hremove
  have hget : ∀ {k e}, inner'.get k = some e → inner.get k = some e :=
    fun hk => ((get_removed hremoved).mp hk).2
  have hkept : ∀ {a b}, Child env inner a b →
      (a ∉ ids.iter m.order ↔ b ∉ ids.iter m.order) := by
    intro a b hchild
    rw [mem_iter, mem_iter]
    exact not_congr (hdetached a b hchild)
  refine ⟨?_, h.byTxid.removed hremoved, fun a b => ?_, fun a b => ?_, ?_⟩
  · exact removeStaged_induction (I := fun u => Built env build u.arena) h.built built_removeEntry
      (fun h => h) hremove
  · rw [parents_removed hremoved, child_removed hremoved, h.parents a b]
    constructor
    · rintro ⟨ha, hchild⟩
      exact ⟨(hkept hchild).mpr ha, ha, hchild⟩
    · rintro ⟨_, ha, hchild⟩
      exact ⟨ha, hchild⟩
  · refine (children_removed hremoved).trans ?_
    rw [child_removed hremoved]
    constructor
    · rintro ⟨ha, hlink⟩
      have hchild : Child env inner a b := (h.children a b).mp hlink
      exact ⟨ha, (hkept hchild).mp ha, hchild⟩
    · rintro ⟨ha, _, hchild⟩
      exact ⟨ha, (h.children a b).mpr hchild⟩
  · intro a b c ea eb ec hea heb hec
    exact h.direct (hget hea) (hget heb) (hget hec)

end

/-- What a call stages are whole families, under its condition. -/
theorem detached_of_stages {call : Call} {u : MemPoolInner} {ids : HashSet EntryId}
    (hfamilies : RemovesFamilies env build m inner call)
    (hstages : Stages env build m inner call u ids)
    (h : LinkInvariant env build u) : Detached env u fun k => k ∈ ids := by
  have hindexes : Indexes env build u.arena := indexes_of_built h.built
  intro a b hchild
  cases hstages with
  | trim hround hsize _ =>
    -- while a trim goes on there is no family it could break
    obtain ⟨ea, eb, hea, heb, hspends⟩ := hchild
    obtain ⟨hstart, hsub⟩ := hround.start_spec
    exact absurd ⟨ea, eb, hsub hea, hsub heb, hspends⟩ (hfamilies (hstart hsize) a b)
  | expire hcutoff hids =>
    show a ∈ empty.extend _ ↔ b ∈ empty.extend _
    rw [mem_extend, mem_extend, or_iff_right not_mem_empty,
      or_iff_right not_mem_empty, mem_expired hindexes hids, mem_expired hindexes hids]
    exact hfamilies _ hcutoff a b hchild
  | block =>
    show a ∈ MemPool.expand .. ↔ b ∈ MemPool.expand ..
    rw [mem_expand_iff h.children, mem_expand_iff h.children]
    exact hfamilies a b hchild
  | conflicts =>
    show a ∈ MemPool.expand .. ↔ b ∈ MemPool.expand ..
    rw [mem_expand_iff h.children, mem_expand_iff h.children]
    exact hfamilies a b hchild
  | reorg hids =>
    simp only [mem_expand_iff h.children, mem_reorgIds hindexes hids]
    exact hfamilies a b hchild

end LinkInvariant

theorem linkInvariant_new : LinkInvariant env build .new := by
  have hnone : ∀ k, MemPoolInner.new.get k = none := fun _ => rfl
  refine ⟨.new, byTxid_new, fun a b => ?_, fun a b => ?_, fun ha => ?_⟩
  · simp [HasParent, Child, hnone]
  · simp [Child, hnone]
  · rw [hnone] at ha
    cases ha

/-- In every state of a run whose calls keep to the conditions, the links are exact. -/
theorem links_of_tidy_run {p : MemPool} (h : Reachable env build options (Tidy env build) p) :
    Links env p.inner := by
  have hinvariant : LinkInvariant env build p.inner := by
    refine inner_invariant linkInvariant_new (fun hcond hI => hI.accepted hcond.1) ?_ ?_ h
    · intro m call p hcond u ids u' hstages hu hremove
      exact hu.removed (hu.detached_of_stages hcond.2 hstages) hremove
    · intro u unbroadcast hu
      exact ⟨hu.built, hu.byTxid, hu.parents, hu.children, hu.direct⟩
  exact links_of_exact hinvariant.parents hinvariant.children

/-! ## Samples -/

namespace Reference

theorem fits_child : Fits Reference.env .new [child, parent] := by
  have hpresent : ∀ {tx}, Present .new [child, parent] tx → tx ∈ [child, parent] := by
    rintro tx (h | ⟨k, e, he, _⟩)
    · exact h
    · cases he
  have hspends : ∀ t ∈ [child, parent], ∀ b ∈ [child, parent],
      Names Reference.env t b → Spends Reference.env t b := by
    decide +kernel
  have hdirect : ∀ t ∈ [child, parent], ∀ b ∈ [child, parent], ∀ c ∈ [child, parent],
      Names Reference.env t b → Names Reference.env b c → Names Reference.env t c := by
    decide +kernel
  refine ⟨fun he => ?_, by decide +kernel, fun t ht b hb => hspends t ht b (hpresent hb),
    fun t ht b c hb hc => hdirect t ht b (hpresent hb) c (hpresent hc)⟩
  cases he

/-- A package of a parent and its child. -/
theorem links_of_tidy_package :
    ∃ p, Reachable Reference.env .checked .default (Tidy Reference.env .checked) p ∧
      p.inner.arena.entries.len = 2 ∧ Links Reference.env p.inner := by
  have hrun : (run Reference.env .checked .default [(moment, .acceptPackage [child, parent])]
      (.new client)).any (fun p => p.inner.arena.entries.len = 2) = true := by decide +kernel
  have htidy : Tidy Reference.env .checked moment (.acceptPackage [child, parent]) (.new client) :=
    ⟨fits_child, trivial⟩
  obtain ⟨p, hp, hlen⟩ := exists_step (.new client) htidy hrun
  exact ⟨p, hp, of_decide_eq_true hlen, links_of_tidy_run hp⟩

/-- An entry among the children of one that is no parent of it. -/
def farChild (p : MemPool) : Bool :=
  p.inner.arena.entries.keys.any fun a => p.inner.arena.entries.keys.any fun b =>
    match p.inner.get a, p.inner.get b with
    | some ea, some eb => decide (a ∈ eb.children) && !decide (b ∈ ea.parents)
    | _, _ => false

theorem not_links_of_farChild {p : MemPool} (h : farChild p = true) :
    ¬ Links Reference.env p.inner := by
  intro hlinks
  simp only [farChild, List.any_eq_true] at h
  obtain ⟨a, _, b, _, h⟩ := h
  split at h
  · rename_i ea eb hea heb
    rw [Bool.and_eq_true, decide_eq_true_eq, Bool.not_eq_true', decide_eq_false_iff_not] at h
    exact h.2 ((hlinks.children hea heb).mp h.1)
  · cases h

/-- A chain of three transactions, accepted one by one: the third is linked as a child of the
first. -/
theorem not_links_grandchild :
    ∃ p, Reachable Reference.env .checked .default (fun _ _ _ => True) p ∧
      ¬ Links Reference.env p.inner := by
  have hrun : (run Reference.env .checked .default
      [(moment, .acceptSingleTransaction parent), (moment, .acceptSingleTransaction child),
        (moment, .acceptSingleTransaction grandchild)] (.new client)).any farChild = true := by
    decide +kernel
  obtain ⟨p, hp, hfar⟩ := exists_reachable hrun
  exact ⟨p, hp, not_links_of_farChild hfar⟩

end Reference

end Subcoin.Mempool
