import Subcoin.Mempool.Checks
import Subcoin.Mempool.Effects

/-!
# Subcoin — how an acceptance ends

An acceptance, of one transaction or of a package, inserts all it was offered (`Admits`) or ends
with an error (`Fails`): before anything was inserted, in which case the outputs it had made
visible are taken back, or because fees overflowed, in which case what was inserted stays.
`Accepted` is what both mean for the entries.

* **`topologicalSortPackage_spec`** — a sorted package is the package in an order in which no
  transaction names a later one.
* **`meets_acceptSingleTransaction`**, **`meets_acceptPackage`** — the ends of an acceptance.
-/

namespace Subcoin.Mempool

open Outcome Stateful MemPool

variable {SE : Type} {env : PoolEnv SE} {build : Build} {options : MemPoolOptions} {m : Moment}
  {inner inner' : MemPoolInner} {tx : Transaction} {ws : ValidationWorkspace}

/-- An input of `a` names the txid of `b`, which is what the mempool looks for. -/
def Names (env : PoolEnv SE) (a b : Transaction) : Prop :=
  ∃ o ∈ a.spends, o.txid = env.computeTxid b

instance (a b : Transaction) : Decidable (Names env a b) :=
  inferInstanceAs (Decidable (∃ o ∈ a.spends, _))

/-- An input of `a` spends an output of `b`. -/
def Spends (env : PoolEnv SE) (a b : Transaction) : Prop :=
  ∃ o ∈ a.spends, o.txid = env.computeTxid b ∧ o.vout < b.output.length

instance (a b : Transaction) : Decidable (Spends env a b) :=
  inferInstanceAs (Decidable (∃ o ∈ a.spends, _))

theorem Spends.names {a b : Transaction} (h : Spends env a b) : Names env a b := by
  obtain ⟨o, ho, htxid, _⟩ := h
  exact ⟨o, ho, htxid⟩

/-! ## The order of a package -/

variable {txs sorted : List Transaction} {wss done : List ValidationWorkspace}
  {coins' : CoinsViewCache}

theorem mem_packageEdges {a b : Transaction} (ha : a ∈ txs) (hb : b ∈ txs) (h : Names env a b) :
    (env.computeTxid b, env.computeTxid a) ∈ packageEdges env txs := by
  obtain ⟨o, ho, htxid⟩ := h
  refine List.mem_flatMap.mpr ⟨a, ha, List.mem_map.mpr ⟨o, List.mem_filter.mpr ⟨ho, ?_⟩, ?_⟩⟩
  · rw [htxid]
    exact Lookup.isSome_collect hb
  · rw [htxid]

/-- A sorted package: its members once each, none of which names a later one. -/
structure SortedPackage (env : PoolEnv SE) (txs sorted : List Transaction) : Prop where
  subset : ∀ tx ∈ sorted, tx ∈ txs
  complete : ∀ tx ∈ txs, tx ∈ sorted
  nodup : (sorted.map env.computeTxid).Nodup
  ordered : sorted.Pairwise fun a b => ¬ Names env a b

/-- As many transactions with different txids as the package has are the whole package. -/
theorem mem_of_length_eq (hsubset : ∀ tx ∈ sorted, tx ∈ txs)
    (hnodup : (sorted.map env.computeTxid).Nodup) (hlength : sorted.length = txs.length) :
    ∀ tx ∈ txs, tx ∈ sorted := by
  have hperm : (sorted.map env.computeTxid).Perm (txs.map env.computeTxid) := by
    refine (List.subperm_of_subset hnodup ?_).perm_of_length_le (by simp [hlength])
    intro t ht
    obtain ⟨tx, htx, rfl⟩ := List.mem_map.mp ht
    exact List.mem_map_of_mem (hsubset tx htx)
  intro tx htx
  obtain ⟨tx', htx', heq⟩ := List.mem_map.mp (hperm.mem_iff.mpr (List.mem_map_of_mem htx))
  have hinj := List.inj_on_of_nodup_map (hperm.nodup_iff.mp hnodup)
  exact hinj (hsubset tx' htx') htx heq ▸ htx'

theorem topologicalSortPackage_spec (h : topologicalSortPackage env m txs = .ok sorted) :
    SortedPackage env txs sorted := by
  simp only [topologicalSortPackage, bind_eq_ok, mapM_eq_ok,
    expect_eq_ok] at h
  obtain ⟨sorted', hlookup, _, hlength, h⟩ := h
  cases h
  generalize hids : HashSet.empty.extend (txs.map env.computeTxid) = ids at hlookup
  have hnodup : ((ids.iter m.order).filter fun t =>
      Kahn.inDegree (packageEdges env txs) t = 0).Nodup := HashSet.nodup_iter.filter _
  have hsources : ∀ t ∈ (ids.iter m.order).filter fun t =>
      Kahn.inDegree (packageEdges env txs) t = 0, Kahn.inDegree (packageEdges env txs) t = 0 := by
    intro t ht
    simpa using (List.mem_filter.mp ht).2
  have hfound : List.Forall₂ (fun tx t => tx ∈ txs ∧ env.computeTxid tx = t) sorted _ :=
    List.Forall₂.flip (hlookup.imp fun t tx ht => Lookup.collect_eq_some ht)
  obtain ⟨hmembers, htxids⟩ := (List.forall₂_and_left _ _).mp hfound
  have hmap : sorted.map env.computeTxid = Kahn.sort (packageEdges env txs) ids.elems
      ((ids.iter m.order).filter fun t => Kahn.inDegree (packageEdges env txs) t = 0) := by
    rw [← List.forall₂_eq_eq_eq, List.forall₂_map_left_iff]
    exact htxids
  have hnodup' : (sorted.map env.computeTxid).Nodup := hmap ▸ Kahn.nodup_sort hnodup hsources
  have hlength : sorted.length = txs.length := by simpa [errIf_eq_ok] using hlength
  refine ⟨hmembers, mem_of_length_eq hmembers hnodup' hlength, hnodup', ?_⟩
  have hordered : (sorted.map env.computeTxid).Pairwise fun a b => (b, a) ∉ packageEdges env txs :=
    hmap ▸ Kahn.ordered_sort hnodup hsources
  refine (List.pairwise_map.mp hordered).imp_of_mem fun ha hb hedge hnames => ?_
  exact hedge (mem_packageEdges (hmembers _ ha) (hmembers _ hb) hnames)

/-! ## Insertions -/

/-- The workspaces are inserted one after the other. -/
def InsertsAll (env : PoolEnv SE) (build : Build) (m : Moment) :
    MemPoolInner → List ValidationWorkspace → MemPoolInner → Prop
  | inner, [], inner' => inner' = inner
  | inner, ws :: rest, inner' => ∃ ctx inner₁, Inserted env build m inner ws ctx inner₁ ∧
      InsertsAll env build m inner₁ rest inner'

/-- What holds of a state and the workspaces still to come holds at the end, when each insertion
preserves it. -/
theorem insertsAll_induction {I : MemPoolInner → List ValidationWorkspace → Prop}
    (hstep : ∀ {inner ws rest ctx inner₁}, I inner (ws :: rest) → Inserted env build m inner ws
      ctx inner₁ → I inner₁ rest) (h : InsertsAll env build m inner wss inner') (hI : I inner wss) :
    I inner' [] := by
  induction wss generalizing inner with
  | nil => exact h ▸ hI
  | cons ws rest ih =>
    obtain ⟨ctx, inner₁, hinserted, h⟩ := h
    exact ih h (hstep hI hinserted)

/-- The effect of an acceptance of transactions out of `txs` on the entries. The checks were made
on the state before the first insertion. -/
structure Accepted (env : PoolEnv SE) (build : Build) (options : MemPoolOptions) (m : Moment)
    (inner : MemPoolInner) (txs : List Transaction) (wss : List ValidationWorkspace)
    (inner' : MemPoolInner) : Prop where
  inserts : InsertsAll env build m inner wss inner'
  mem : ∀ ws ∈ wss, ws.tx ∈ txs
  checked : ∀ ws ∈ wss, Admissible env build options m inner ws.tx ws
  nodup : (wss.map fun ws => env.computeTxid ws.tx).Nodup
  ordered : wss.Pairwise fun a b => ¬ Names env a.tx b.tx

/-! ## Vetting -/

/-- Transactions are vetted one after the other, each with the outputs of those before it. -/
def VetsAll (env : PoolEnv SE) (build : Build) (options : MemPoolOptions) (m : Moment)
    (height : Nat) (mtp : Int) (inner : MemPoolInner) :
    CoinsViewCache → List ValidationWorkspace → CoinsViewCache → Prop
  | coins, [], coins' => Fetches m.client coins coins'
  | coins, ws :: rest, coins' => ∃ coins₁,
      Vetted env build options m height mtp inner coins ws.tx ws ∧
      Fetches m.client coins coins₁ ∧
      VetsAll env build options m height mtp inner (coins₁.addMempoolCoins env ws.tx) rest coins'

section

variable {height : Nat} {mtp : Int} {coins coins₁ coins' : CoinsViewCache}
  {wss : List ValidationWorkspace}

namespace VetsAll

theorem of_fetches (h : Fetches m.client coins coins₁)
    (hvets : VetsAll env build options m height mtp inner coins₁ wss coins') :
    VetsAll env build options m height mtp inner coins wss coins' := by
  cases wss with
  | nil => exact h.trans hvets
  | cons ws rest =>
    obtain ⟨coins2, hvetted, h2, hrest⟩ := hvets
    exact ⟨coins2, hvetted.of_fetches h, h.trans h2, hrest⟩

/-- One more transaction at the end. -/
theorem snoc (hvets : VetsAll env build options m height mtp inner coins wss coins₁)
    (hvetted : Vetted env build options m height mtp inner coins₁ ws.tx ws)
    (h : Fetches m.client coins₁ coins') :
    VetsAll env build options m height mtp inner coins (wss ++ [ws])
      (coins'.addMempoolCoins env ws.tx) := by
  induction wss generalizing coins with
  | nil => exact ⟨coins', hvetted.of_fetches hvets, hvets.trans h, .refl _⟩
  | cons ws' rest ih =>
    obtain ⟨coins2, hvetted', h2, hrest⟩ := hvets
    exact ⟨coins2, hvetted', h2, ih hrest⟩

theorem fetches (hvets : VetsAll env build options m height mtp inner coins wss coins₁)
    (h : Fetches m.client coins₁ coins') :
    VetsAll env build options m height mtp inner coins wss coins' := by
  induction wss generalizing coins with
  | nil => exact hvets.trans h
  | cons ws rest ih =>
    obtain ⟨coins2, hvetted, h2, hrest⟩ := hvets
    exact ⟨coins2, hvetted, h2, ih hrest⟩

/-- Each transaction is vetted with the coins that those before it leave. -/
theorem vetted (hvets : VetsAll env build options m height mtp inner coins wss coins')
    (hws : ws ∈ wss) : ∃ before after coins2, wss = before ++ ws :: after ∧
      VetsAll env build options m height mtp inner coins before coins2 ∧
      Vetted env build options m height mtp inner coins2 ws.tx ws := by
  induction wss generalizing coins with
  | nil => cases hws
  | cons ws' rest ih =>
    obtain ⟨coins2, hvetted, h2, hrest⟩ := hvets
    rcases List.mem_cons.mp hws with rfl | hws
    · exact ⟨[], rest, coins, rfl, .refl coins, hvetted⟩
    · obtain ⟨before, after, coins3, rfl, hbefore, hws⟩ := ih hrest hws
      exact ⟨ws' :: before, after, coins3, rfl, ⟨coins2, hvetted, h2, hbefore⟩, hws⟩

/-- The front of what is vetted is vetted. -/
theorem front (hdone : done <+: wss)
    (hvets : VetsAll env build options m height mtp inner coins wss coins') :
    ∃ coins2, VetsAll env build options m height mtp inner coins done coins2 := by
  obtain ⟨rest, rfl⟩ := hdone
  induction done generalizing coins with
  | nil => exact ⟨coins, .refl coins⟩
  | cons ws done ih =>
    obtain ⟨coins2, hvetted, h2, hrest⟩ := hvets
    obtain ⟨coins3, hdone⟩ := ih hrest
    exact ⟨coins3, coins2, hvetted, h2, hdone⟩

section

variable (hvets : VetsAll env build options m height mtp inner coins wss coins')

include hvets

theorem bestBlock : coins'.bestBlock = coins.bestBlock := by
  induction wss generalizing coins with
  | nil => exact Fetches.bestBlock hvets
  | cons ws rest ih =>
    obtain ⟨coins2, _, h2, hrest⟩ := hvets
    exact (ih hrest).trans h2.bestBlock

theorem admissible : ∀ ws ∈ wss, Admissible env build options m inner ws.tx ws := by
  intro ws hws
  obtain ⟨_, _, _, _, _, hvetted⟩ := hvets.vetted hws
  exact hvetted.toAdmissible

/-- What the overlay held of other transactions it still holds. -/
theorem added_of_ne (hadded : Added env coins tx)
    (hne : ∀ ws ∈ wss, env.computeTxid tx ≠ env.computeTxid ws.tx) : Added env coins' tx := by
  induction wss generalizing coins with
  | nil =>
    intro o out hout
    rw [hvets.overlay]
    exact hadded o out hout
  | cons ws rest ih =>
    obtain ⟨coins2, _, h2, hrest⟩ := hvets
    obtain ⟨hhead, htail⟩ := List.forall_mem_cons.mp hne
    have hadded2 : Added env coins2 tx := by
      intro o out hout
      rw [h2.overlay]
      exact hadded o out hout
    exact ih hrest (hadded2.addMempoolCoins hhead) htail

/-- The bound on the coins has to cover the outputs of the transactions as well. -/
theorem baseFee_le {bound : OutPoint → Nat} (hbound : Bounds m.client coins bound)
    (hnew : ∀ ws ∈ wss, ∀ o out, outputAt env ws.tx o = some out → out.value ≤ bound o) :
    ∀ ws ∈ wss, ws.baseFee ≤ (ws.tx.spends.map bound).sum := by
  induction wss generalizing coins with
  | nil => simp
  | cons ws rest ih =>
    obtain ⟨coins2, hvetted, h2, hrest⟩ := hvets
    obtain ⟨hhead, htail⟩ := List.forall_mem_cons.mp hnew
    refine List.forall_mem_cons.mpr ⟨hvetted.baseFee_le hbound, ih hrest ?_ htail⟩
    intro o coin hfinds
    rcases hfinds.of_addMempoolCoins with ⟨out, hout, rfl⟩ | ⟨_, hfinds⟩
    · exact hhead o out hout
    · exact hbound o coin (.of_fetches h2 hfinds)

theorem added (hnodup : (wss.map fun ws => env.computeTxid ws.tx).Nodup) :
    ∀ ws ∈ wss, Added env coins' ws.tx := by
  induction wss generalizing coins with
  | nil => simp
  | cons ws rest ih =>
    obtain ⟨coins2, _, _, hrest⟩ := hvets
    rw [List.map_cons, List.nodup_cons] at hnodup
    refine List.forall_mem_cons.mpr ⟨hrest.added_of_ne added_addMempoolCoins ?_, ih hrest hnodup.2⟩
    intro ws' hws' heq
    exact hnodup.1 (heq ▸ List.mem_map_of_mem hws')

end

end VetsAll

end

/-- Transactions out of `txs` that an acceptance has vetted, and the coins it has then. -/
structure Vetting (env : PoolEnv SE) (build : Build) (options : MemPoolOptions) (m : Moment)
    (p : MemPool) (txs : List Transaction) (wss : List ValidationWorkspace)
    (coins' : CoinsViewCache) : Prop where
  vets : VetsAll env build options m m.client.bestNumber
    (MemPool.mtpAt env m p.coinsCache.bestBlock) p.inner p.coinsCache wss coins'
  mem : ∀ ws ∈ wss, ws.tx ∈ txs
  nodup : (wss.map fun ws => env.computeTxid ws.tx).Nodup
  ordered : wss.Pairwise fun a b => ¬ Names env a.tx b.tx

/-! ## The ends of an acceptance -/

/-- All of `txs` is vetted and inserted. -/
structure Admits (env : PoolEnv SE) (build : Build) (options : MemPoolOptions) (m : Moment)
    (p : MemPool) (txs : List Transaction) (wss : List ValidationWorkspace) (p' : MemPool) :
    Prop where
  vetting : Vetting env build options m p txs wss p'.coinsCache
  inserts : InsertsAll env build m p.inner wss p'.inner
  complete : ∀ tx ∈ txs, ∃ ws ∈ wss, ws.tx = tx

/-- The acceptance ends with an error: nothing is inserted, and the outputs of what was vetted are
taken back; or the fees of a transaction overflow after `done` was inserted. -/
inductive Fails (env : PoolEnv SE) (build : Build) (options : MemPoolOptions) (m : Moment)
    (p : MemPool) (txs : List Transaction) (p' : MemPool) : Prop where
  | rejected {wss : List ValidationWorkspace} {coins₁ : CoinsViewCache}
      (vetting : Vetting env build options m p txs wss coins₁) (inner : p'.inner = p.inner)
      (coins : p'.coinsCache =
        (wss.map ValidationWorkspace.tx).foldl (CoinsViewCache.removeMempoolTx env) coins₁)
  | overflowed {done rest : List ValidationWorkspace} {ws : ValidationWorkspace}
      {inner₁ : MemPoolInner}
      (vetting : Vetting env build options m p txs (done ++ ws :: rest) p'.coinsCache)
      (inserts : InsertsAll env build m p.inner done inner₁)
      (overflow : FeesOverflow build m inner₁ ws)
      (inner : p'.inner = inner₁ ∨ ∃ ctx, Inserted env build m inner₁ ws ctx p'.inner)

section

variable {p p' : MemPool} {txs : List Transaction} {wss : List ValidationWorkspace}

theorem insertsAll_snoc {ctx : EntryContext} {inner₁ : MemPoolInner}
    (h : InsertsAll env build m inner wss inner₁)
    (hws : Inserted env build m inner₁ ws ctx inner') :
    InsertsAll env build m inner (wss ++ [ws]) inner' := by
  induction wss generalizing inner with
  | nil =>
    cases h
    exact ⟨ctx, inner', hws, rfl⟩
  | cons ws' rest ih =>
    obtain ⟨ctx', inner2, hinserted, h⟩ := h
    exact ⟨ctx', inner2, hinserted, ih h⟩

theorem Vetting.front (h : Vetting env build options m p txs wss coins') (hdone : done <+: wss) :
    ∃ coins2, Vetting env build options m p txs done coins2 := by
  obtain ⟨coins2, hvets⟩ := h.vets.front hdone
  exact ⟨coins2, hvets, fun ws hws => h.mem ws (hdone.subset hws),
    h.nodup.sublist (hdone.sublist.map _), h.ordered.sublist hdone.sublist⟩

/-- Insertions of transactions from the front of what was vetted. -/
theorem Vetting.accepted (h : Vetting env build options m p txs wss coins') (hdone : done <+: wss)
    (hinserts : InsertsAll env build m p.inner done inner') :
    Accepted env build options m p.inner txs done inner' where
  inserts := hinserts
  mem ws hws := h.mem ws (hdone.subset hws)
  checked ws hws := h.vets.admissible ws (hdone.subset hws)
  nodup := h.nodup.sublist (hdone.sublist.map _)
  ordered := h.ordered.sublist hdone.sublist

theorem Admits.accepted (h : Admits env build options m p txs wss p') :
    Accepted env build options m p.inner txs wss p'.inner :=
  h.vetting.accepted List.prefix_rfl h.inserts

/-- What a failed acceptance has inserted is from the front of what it has vetted. -/
theorem Fails.inserts (h : Fails env build options m p txs p') :
    ∃ all coins₁ done, Vetting env build options m p txs all coins₁ ∧ done <+: all ∧
      InsertsAll env build m p.inner done p'.inner := by
  cases h with
  | rejected vetting inner coins => exact ⟨_, _, [], vetting, List.nil_prefix, inner⟩
  | overflowed vetting inserts overflow inner =>
    rename_i done rest ws inner₁
    rcases inner with inner | ⟨ctx, inner⟩
    · exact ⟨_, _, done, vetting, ⟨ws :: rest, rfl⟩, inner ▸ inserts⟩
    · exact ⟨_, _, done ++ [ws], vetting, ⟨rest, by simp⟩, insertsAll_snoc inserts inner⟩

theorem Fails.accepted (h : Fails env build options m p txs p') :
    ∃ wss, Accepted env build options m p.inner txs wss p'.inner := by
  obtain ⟨all, coins₁, done, hvetting, hdone, hinserts⟩ := h.inserts
  exact ⟨done, hvetting.accepted hdone hinserts⟩

/-- An error before anything was vetted. -/
theorem fails_of_fetches (hinner : p'.inner = p.inner)
    (hcoins : Fetches m.client p.coinsCache p'.coinsCache) :
    Fails env build options m p txs p' := by
  have hvetting : Vetting env build options m p txs [] p'.coinsCache :=
    ⟨hcoins, by simp, List.nodup_nil, List.Pairwise.nil⟩
  exact .rejected hvetting hinner rfl

end

theorem meets_withWorkspace {α : Type} {x : Stateful Checking MempoolError α} {p : MemPool}
    {Q : α → CoinsViewCache → Prop} {E : CoinsViewCache → Prop}
    (h : Stateful.Meets x ⟨.new env tx, p.coinsCache⟩ (fun a st => Q a st.coins)
      fun _ st => E st.coins) :
    Stateful.Meets (withWorkspace env tx x) p
      (fun a p' => p'.inner = p.inner ∧ Q a p'.coinsCache)
      fun _ p' => p'.inner = p.inner ∧ E p'.coinsCache :=
  .zoom (h.mono (fun _ _ ha => ⟨rfl, ha⟩) fun _ _ he => ⟨rfl, he⟩)

theorem currentHeight_eq_ok {height : Nat} (h : currentHeight m = .ok height) :
    height = m.client.bestNumber := by
  simp only [currentHeight, bind_eq_ok] at h
  obtain ⟨_, _, h⟩ := h
  cases h
  rfl

/-- Whatever is returned, the transaction was vetted or nothing is inserted. -/
theorem meets_acceptSingleTransaction {p : MemPool} :
    Stateful.Meets (acceptSingleTransaction env build options m tx) p
      (fun _ p' => ∃ ws, Admits env build options m p [tx] [ws] p' ∧
        Passes env build options m m.client.bestNumber
          (mtpAt env m p.coinsCache.bestBlock) p.coinsCache tx ws)
      fun _ p' => Fails env build options m p [tx] p' := by
  refine .get_bind (.lift_bind (fun height hheight => ?_) fun _ _ =>
    fails_of_fetches rfl (.refl _))
  obtain rfl := currentHeight_eq_ok hheight
  let mtp : Int := mtpAt env m p.coinsCache.bestBlock
  refine .bind ((meets_withWorkspace (Q := fun ws coins => Fetches m.client p.coinsCache coins ∧
      Vetted env build options m m.client.bestNumber mtp p.inner p.coinsCache tx ws ∧
      Passes env build options m m.client.bestNumber mtp p.coinsCache tx ws)
    (E := Fetches m.client p.coinsCache) meets_checkSingle).mono
    (fun _ _ h => h) fun _ _ h => fails_of_fetches h.1 h.2) ?_
  rintro ws p1 ⟨hinner1, hcoins1, hvetted, hpasses⟩
  have hvetting : Vetting env build options m p [tx] [ws]
      (p1.coinsCache.addMempoolCoins env ws.tx) := by
    refine ⟨⟨p1.coinsCache, ?_, hcoins1, .refl _⟩, ?_, List.nodup_singleton _,
      List.pairwise_singleton _ _⟩
    · exact hvetted.tx_eq.symm ▸ hvetted
    · simp [hvetted.tx_eq]
  refine .bind (Q := fun _ p2 => p2.inner = p.inner ∧ p2.coinsCache = p1.coinsCache)
    (.get_bind (.modify_bind (meets_pure ⟨hinner1, rfl⟩))) ?_
  rintro sequence p2 ⟨hinner2, hcoins2⟩
  refine .bind ((meets_finalizeTx hvetted.conflictSet).mono (fun _ _ h => h) ?_) ?_
  · rintro _ p3 ⟨hoverflow, ⟨hinner, hcoins⟩ | ⟨hinserted, hcoins⟩⟩
    · exact fails_of_fetches (hinner.trans hinner2) ((hcoins.trans hcoins2) ▸ hcoins1)
    · rw [hinner2] at hoverflow hinserted
      rw [hcoins2] at hcoins
      have hvetting3 : Vetting env build options m p [tx] ([] ++ [ws]) p3.coinsCache :=
        hcoins ▸ hvetting
      have hnone : InsertsAll env build m p.inner [] p.inner := rfl
      exact .overflowed hvetting3 hnone hoverflow (Or.inr ⟨_, hinserted⟩)
  rintro _ p3 ⟨hinserted, hcoins⟩
  rw [hinner2] at hinserted
  rw [hcoins2] at hcoins
  refine meets_modify ⟨ws, ⟨?_, ⟨_, _, hinserted, rfl⟩, ?_⟩, hpasses⟩
  · exact hcoins ▸ hvetting
  · simp [hvetted.tx_eq]

/-! ## Packages -/

section

variable {txs : List Transaction} {p : MemPool}

/-- Phase 1 changes coins only; when it fails, it takes back what it added. -/
theorem meets_validateAll {height : Nat} {mtp : Int} {rate : FeeRate} {coins : CoinsViewCache}
    (hdone : VetsAll env build options m height mtp p.inner coins done p.coinsCache) :
    Stateful.Meets (validateAll env build options m height mtp rate done txs) p
      (fun wss p' => p'.inner = p.inner ∧
        wss.map ValidationWorkspace.tx = done.map ValidationWorkspace.tx ++ txs ∧
        VetsAll env build options m height mtp p.inner coins wss p'.coinsCache)
      fun _ p' => p'.inner = p.inner ∧ ∃ wss coins₁,
        wss.map ValidationWorkspace.tx <+: done.map ValidationWorkspace.tx ++ txs ∧
        VetsAll env build options m height mtp p.inner coins wss coins₁ ∧
        p'.coinsCache =
          (wss.map ValidationWorkspace.tx).foldl (CoinsViewCache.removeMempoolTx env) coins₁ := by
  induction txs generalizing done p with
  | nil => exact meets_pure ⟨rfl, by simp, hdone⟩
  | cons tx rest ih =>
    refine .get_bind (.bind (.rescue (meets_withWorkspace
      (Q := fun ws coins => Fetches m.client p.coinsCache coins ∧
        Vetted env build options m height mtp p.inner p.coinsCache tx ws)
      (E := Fetches m.client p.coinsCache) meets_preValidatePackageTx) ?_) ?_)
    · rintro e p1 ⟨hinner, hfetches⟩
      exact .modify_bind (meets_fail ⟨hinner, done, p1.coinsCache, ⟨tx :: rest, rfl⟩,
        hdone.fetches hfetches, rfl⟩)
    rintro ws p1 ⟨hinner, hfetches, hvetted⟩
    have htx : ws.tx = tx := hvetted.tx_eq
    have hnext := hdone.snoc (htx.symm ▸ hvetted) hfetches
    have hmap : (done ++ [ws]).map ValidationWorkspace.tx ++ rest =
        done.map ValidationWorkspace.tx ++ tx :: rest := by simp [htx]
    rw [← hinner] at hnext ⊢
    rw [← hmap]
    exact .modify_bind (ih hnext)

/-- Phase 2 inserts the workspaces in order, until fees overflow. -/
theorem meets_finalizeAll {ctx : EntryContext} (hset : ∀ ws ∈ wss, ws.conflictSet = none)
    (hadded : ∀ ws ∈ wss, Added env p.coinsCache ws.tx) :
    Stateful.Meets (finalizeAll env build m ctx wss) p
      (fun _ p' => InsertsAll env build m p.inner wss p'.inner ∧ p'.coinsCache = p.coinsCache)
      fun _ p' => p'.coinsCache = p.coinsCache ∧ ∃ done ws rest inner₁, wss = done ++ ws :: rest ∧
        InsertsAll env build m p.inner done inner₁ ∧ FeesOverflow build m inner₁ ws ∧
        (p'.inner = inner₁ ∨ ∃ ctx, Inserted env build m inner₁ ws ctx p'.inner) := by
  induction wss generalizing ctx p with
  | nil => exact meets_pure ⟨rfl, rfl⟩
  | cons ws rest ih =>
    obtain ⟨hset1, hset⟩ := List.forall_mem_cons.mp hset
    obtain ⟨hadded1, hadded⟩ := List.forall_mem_cons.mp hadded
    have hsame : p.coinsCache.addMempoolCoins env ws.tx = p.coinsCache :=
      hadded1.addMempoolCoins_eq
    refine .bind ((meets_finalizeTx hset1).mono (fun _ _ h => h) ?_) ?_
    · rintro _ p1 ⟨hoverflow, ⟨hinner, hcoins⟩ | ⟨hinserted, hcoins⟩⟩
      · exact ⟨hcoins, [], ws, rest, p.inner, rfl, rfl, hoverflow, Or.inl hinner⟩
      · exact ⟨hcoins.trans hsame, [], ws, rest, p.inner, rfl, rfl, hoverflow,
          Or.inr ⟨ctx, hinserted⟩⟩
    rintro _ p1 ⟨hinserted, hcoins⟩
    have hcoins1 : p1.coinsCache = p.coinsCache := hcoins.trans hsame
    refine .lift_bind (fun sequence _ => ?_) fun e he =>
      absurd he Build.add_ne_err
    rw [← hcoins1] at hadded ⊢
    refine (ih hset hadded).mono (fun _ _ h => ⟨⟨ctx, _, hinserted, h.1⟩, h.2⟩) ?_
    rintro _ p2 ⟨hcoins2, done, ws', rest', inner₁, rfl, hinserts, hoverflow, hinner⟩
    exact ⟨hcoins2, ws :: done, ws', rest', inner₁, rfl, ⟨ctx, _, hinserted, hinserts⟩, hoverflow,
      hinner⟩

theorem checkPackage_spec (h : checkPackage env build options m txs = .ok sorted) :
    SortedPackage env txs sorted := by
  simp only [checkPackage, bind_eq_ok] at h
  obtain ⟨_, _, _, _, _, _, h⟩ := h
  exact topologicalSortPackage_spec h

theorem preserves_calculatePackageFeerate :
    Stateful.Preserves (Fetches m.client)
      (calculatePackageFeerate env build m p.inner sorted) := by
  have hinput : ∀ outputs o, Stateful.Preserves (Fetches m.client)
      (packageInput env m p.inner outputs o) := by
    intro outputs o
    unfold packageInput
    split
    · exact preserves_pure .refl
    · exact preserves_lift .refl
    · exact .bind .trans preserves_getInputCoin fun _ => preserves_pure .refl
  refine .bind .trans (.fold .trans .refl (fun totals tx => ?_) _ _) fun _ =>
    preserves_lift .refl
  refine .bind .trans (preserves_lift .refl) fun _ =>
    .bind .trans (.fold .trans .refl (fun value o => ?_) _ _) fun _ => preserves_lift .refl
  exact .bind .trans (hinput _ o) fun _ => preserves_lift .refl

/-- The workspaces of a sorted package, from its front. -/
theorem vetting_of_sorted (hsorted : SortedPackage env txs sorted)
    (hfront : wss.map ValidationWorkspace.tx <+: sorted)
    (hvets : VetsAll env build options m m.client.bestNumber (mtpAt env m
      p.coinsCache.bestBlock) p.inner p.coinsCache wss coins') :
    Vetting env build options m p txs wss coins' where
  vets := hvets
  mem ws hws := hsorted.subset _ (hfront.subset (List.mem_map_of_mem hws))
  nodup := by
    have hnodup := hsorted.nodup.sublist (hfront.sublist.map env.computeTxid)
    rwa [List.map_map] at hnodup
  ordered := List.pairwise_map.mp (hsorted.ordered.sublist hfront.sublist)

theorem meets_validatePackage {sequenceStart : Nat} :
    Stateful.Meets
      (validatePackage env build options m txs m.client.bestNumber p.coinsCache.bestBlock
        (mtpAt env m p.coinsCache.bestBlock) sequenceStart) p
      (fun _ p' => ∃ wss, Admits env build options m p txs wss p')
      fun _ p' => Fails env build options m p txs p' := by
  refine .lift_bind (fun sorted hok => ?_) fun _ _ => fails_of_fetches rfl (.refl _)
  have hsorted : SortedPackage env txs sorted := checkPackage_spec hok
  refine .get_bind (.bind (Q := fun _ p1 => p1.inner = p.inner ∧
      Fetches m.client p.coinsCache p1.coinsCache)
    (.zoom ((preserves_calculatePackageFeerate p.coinsCache).mono (fun _ _ h => ⟨rfl, h⟩)
      fun _ _ h => fails_of_fetches rfl h)) ?_)
  rintro rate p1 ⟨hinner1, hcoins1⟩
  refine .lift_bind (fun _ _ => ?_) fun _ _ => fails_of_fetches hinner1 hcoins1
  have hnone : VetsAll env build options m m.client.bestNumber
      (mtpAt env m p.coinsCache.bestBlock) p1.inner p1.coinsCache [] p1.coinsCache :=
    .refl _
  refine .bind ((meets_validateAll hnone).mono (fun _ _ h => h) ?_) ?_
  · rintro _ p2 ⟨hinner2, wss, coins₁, hfront, hvets, hcoins⟩
    rw [hinner1] at hinner2 hvets
    exact .rejected (vetting_of_sorted hsorted hfront (hvets.of_fetches hcoins1)) hinner2 hcoins
  rintro wss p2 ⟨hinner2, hmap, hvets⟩
  rw [hinner1] at hinner2 hvets
  rw [List.map_nil, List.nil_append] at hmap
  have hvetting : Vetting env build options m p txs wss p2.coinsCache :=
    vetting_of_sorted hsorted (hmap ▸ List.prefix_rfl) (hvets.of_fetches hcoins1)
  have hset : ∀ ws ∈ wss, ws.conflictSet = none := fun ws hws =>
    (hvets.admissible ws hws).conflictSet
  refine .bind ((meets_finalizeAll hset (hvets.added hvetting.nodup)).mono (fun _ _ h => h) ?_) ?_
  · rintro _ p3 ⟨hcoins3, done, ws, rest, inner₁, rfl, hinserts, hoverflow, hinner⟩
    rw [hinner2] at hinserts
    exact .overflowed (hcoins3 ▸ hvetting) hinserts hoverflow hinner
  rintro _ p3 ⟨hinserts, hcoins3⟩
  rw [hinner2] at hinserts
  refine meets_pure ⟨wss, hcoins3 ▸ hvetting, hinserts, fun tx htx => ?_⟩
  exact List.mem_map.mp (hmap ▸ hsorted.complete tx htx)

theorem meets_acceptPackage :
    Stateful.Meets (acceptPackage env build options m txs) p
      (fun _ p' => ∃ wss, Admits env build options m p txs wss p')
      fun _ p' => Fails env build options m p txs p' := by
  refine .lift_bind (fun _ _ => .get_bind (.lift_bind (fun height hheight => ?_) fun _ _ => ?_))
    fun _ _ => fails_of_fetches rfl (.refl _)
  · obtain rfl := currentHeight_eq_ok hheight
    refine .bind meets_validatePackage fun result p1 h1 => ?_
    obtain ⟨wss, h1⟩ := h1
    refine .lift_bind (fun sequence _ => ?_) fun e he =>
      absurd he Build.add_ne_err
    exact .modify_bind (.modify_bind (meets_pure ⟨wss, h1.vetting, h1.inserts,
      h1.complete⟩))
  · exact fails_of_fetches rfl (.refl _)

end

end Subcoin.Mempool
