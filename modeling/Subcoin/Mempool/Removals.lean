import Subcoin.Mempool.Indexes

/-!
# Subcoin — what removals find

The sets of entries that the removals start from, in terms of the live entries: what `expire`
reads off the index by time is what is too old (`mem_expired`), what `remove_for_reorg` collects is
what fails its checks (`mem_reorgIds`). `Child` is the spending relation among live entries; the
closures along links are closures of it where the links are exact (`mem_expand_iff`).
-/

namespace Subcoin.Mempool

variable {SE : Type} {env : PoolEnv SE} {build : Build} {m : Moment} {inner : MemPoolInner}
  {arena : MemPoolArena} {k : EntryId} {e : TxMemPoolEntry}

/-! ## The index by time -/

theorem key_le_of_lt {κ : Type} [LinearOrder κ] {p q : Indexed κ} (h : p < q) : p.key ≤ q.key := by
  have hlex : p.fields < q.fields := h
  rcases (Prod.Lex.toLex_lt_toLex).mp hlex with hlt | ⟨heq, _⟩
  · exact hlt.le
  · exact heq.le

/-- A walk along the index that stops at the first entry that is young enough. -/
theorem mem_expired_of_sorted {cutoff : Int} {l : List (Indexed Int)} {ids : List EntryId}
    (hsorted : l.Pairwise (· < ·))
    (hl : ∀ p ∈ l, ∃ e, arena.get p.id = some e ∧ e.time = p.key)
    (h : MemPoolInner.expired arena cutoff l = (.ok ids : Outcome MempoolError _)) :
    k ∈ ids ↔ ∃ p ∈ l, p.id = k ∧ p.key < cutoff := by
  induction l generalizing ids with
  | nil =>
    cases h
    simp
  | cons p l ih =>
    obtain ⟨hp, hsorted⟩ := List.pairwise_cons.mp hsorted
    obtain ⟨e, he, htime⟩ := hl p List.mem_cons_self
    simp only [MemPoolInner.expired, Outcome.bind_eq_ok, MemPoolArena.index_eq_ok] at h
    obtain ⟨e', he', h⟩ := h
    obtain rfl := Option.some.inj (he.symm.trans he')
    split at h
    · rename_i hold
      rw [Outcome.bind_eq_ok] at h
      obtain ⟨rest, hrest, h⟩ := h
      cases h
      rw [List.mem_cons, ih hsorted (fun q hq => hl q (List.mem_cons_of_mem p hq)) hrest,
        List.exists_mem_cons_iff, eq_comm, and_iff_left (htime ▸ hold)]
    · -- the entries after this one are not older than it
      rename_i hyoung
      cases h
      refine iff_of_false List.not_mem_nil ?_
      rintro ⟨q, hq, _, hlt⟩
      have hge : cutoff ≤ p.key := htime ▸ not_lt.mp hyoung
      rcases List.mem_cons.mp hq with rfl | hq
      · exact absurd hlt (not_lt.mpr hge)
      · exact absurd (lt_of_le_of_lt (hge.trans (key_le_of_lt (hp q hq))) hlt) (lt_irrefl _)

theorem byEntryTime_mem (h : Indexes env build arena) {p : Indexed Int} :
    p ∈ arena.byEntryTime.elems ↔ ∃ e, arena.get p.id = some e ∧ e.time = p.key := by
  have hexact : p ∈ arena.byEntryTime ↔ arena.keyed TxMemPoolEntry.time p.id = some p.key :=
    h.byEntryTime p.key p.id
  rw [← SortedSet.mem_def, hexact, MemPoolArena.keyed, Option.map_eq_some_iff]

theorem mem_expired (hindexes : Indexes env build arena) {cutoff : Int} {ids : List EntryId}
    (h : MemPoolInner.expired arena cutoff arena.byEntryTime.elems =
      (.ok ids : Outcome MempoolError _)) :
    k ∈ ids ↔ ∃ e, arena.get k = some e ∧ e.time < cutoff := by
  rw [mem_expired_of_sorted arena.byEntryTime.sorted (fun p => (byEntryTime_mem hindexes).mp) h]
  constructor
  · rintro ⟨p, hp, rfl, hlt⟩
    obtain ⟨e, he, htime⟩ := (byEntryTime_mem hindexes).mp hp
    exact ⟨e, he, htime ▸ hlt⟩
  · rintro ⟨e, he, hlt⟩
    exact ⟨⟨e.time, k⟩, (byEntryTime_mem hindexes).mpr ⟨e, he, rfl⟩, rfl, hlt⟩

theorem mem_indexAll {κ : Type} {l : List (Indexed κ)} {entries : List (EntryId × TxMemPoolEntry)}
    (h : arena.indexAll l = (.ok entries : Outcome MempoolError _)) :
    (k, e) ∈ entries ↔ arena.get k = some e ∧ ∃ p ∈ l, p.id = k := by
  induction l generalizing entries with
  | nil =>
    cases h
    simp
  | cons p l ih =>
    simp only [MemPoolArena.indexAll, Outcome.bind_eq_ok, MemPoolArena.index_eq_ok] at h
    obtain ⟨e', he', rest, hrest, h⟩ := h
    cases h
    rw [List.mem_cons, ih hrest, List.exists_mem_cons_iff, Prod.mk.injEq]
    constructor
    · rintro (⟨rfl, rfl⟩ | ⟨hget, hp⟩)
      · exact ⟨he', Or.inl rfl⟩
      · exact ⟨hget, Or.inr hp⟩
    · rintro ⟨hget, rfl | hp⟩
      · exact Or.inl ⟨rfl, Option.some.inj (hget.symm.trans he')⟩
      · exact Or.inr ⟨hget, hp⟩

theorem mem_reorgIds (hindexes : Indexes env build inner.arena) {height : Nat} {block : H256}
    {ids : HashSet EntryId} (h : MemPool.reorgIds env m inner height block = .ok ids) :
    k ∈ ids ↔ ∃ e, inner.get k = some e ∧
      MemPool.invalidAt m height (MemPool.mtpAt env m block) e = true := by
  simp only [MemPool.reorgIds, Outcome.bind_eq_ok] at h
  obtain ⟨entries, hentries, h⟩ := h
  cases h
  have hmem : ∀ k e, (k, e) ∈ entries ↔ inner.get k = some e := by
    intro k e
    rw [mem_indexAll hentries]
    refine and_iff_left_of_imp fun hget => ?_
    exact ⟨⟨e.time, k⟩, (byEntryTime_mem hindexes).mpr ⟨e, hget, rfl⟩, rfl⟩
  simp only [HashSet.mem_extend, HashSet.not_mem_empty, false_or, List.mem_map, List.mem_filter,
    Prod.exists, hmem]
  constructor
  · rintro ⟨k', e, ⟨hget, hinvalid⟩, rfl⟩
    exact ⟨e, hget, hinvalid⟩
  · rintro ⟨e, hget, hinvalid⟩
    exact ⟨k, e, ⟨hget, hinvalid⟩, rfl⟩

/-! ## Descendants -/

/-- Both entries are live, and the second spends an output of the first. -/
def Child (env : PoolEnv SE) (inner : MemPoolInner) (a b : EntryId) : Prop :=
  ∃ ea eb, inner.get a = some ea ∧ inner.get b = some eb ∧ Spends env eb.tx ea.tx

/-- The entry is in a set, or descends from one that is. -/
def Descends (env : PoolEnv SE) (inner : MemPoolInner) (S : EntryId → Prop) (k : EntryId) : Prop :=
  ∃ r, S r ∧ Relation.ReflTransGen (Child env inner) r k

/-- The sets of children hold the live spenders, and nothing else. -/
def ChildrenExact (env : PoolEnv SE) (inner : MemPoolInner) : Prop :=
  ∀ a b, (∃ e, inner.get a = some e ∧ b ∈ e.children) ↔ Child env inner a b

theorem mem_expand_iff (h : ChildrenExact env inner) {ids : HashSet EntryId} :
    k ∈ MemPool.expand m.order inner.arena ids ↔ Descends env inner (fun r => r ∈ ids) k := by
  have hnext : (fun x y => y ∈ inner.arena.childrenOf m.order x) = Child env inner := by
    funext x y
    rw [eq_iff_iff, ← h x y]
    exact mem_childrenOf
  rw [mem_expand]
  unfold Visit.Reaches Descends
  rw [hnext]

end Subcoin.Mempool
