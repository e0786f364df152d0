import Subcoin.Mempool.Indexes
import Subcoin.Mempool.Reference
import Subcoin.Nakamoto.BlockImport

/-!
# Subcoin — the totals of the mempool

`total_tx_size` and `total_fee` against the sums over the live entries. `finalize_tx` inserts the
entry before it adds the fee, and returns when the sum overflows: the entry then is there without
being counted. `AmountsFit` rules that out; it bounds the fees by what the offered transactions can
find to spend.

* **`indexes_and_totals`** — the indexes of an arena are exact after any operations, and so are the
  totals in every state of a run whose amounts fit.
-/

namespace Subcoin.Mempool

open Outcome ValidationWorkspace

variable {SE : Type} {env : PoolEnv SE} {build : Build} {options : MemPoolOptions} {m : Moment}
  {arena arena' : MemPoolArena} {id : EntryId} {ws : ValidationWorkspace} {ctx : EntryContext}
  {inner inner' : MemPoolInner}

/-! ## Sums over the entries -/

/-- What the totals add up, and the fee that the statistics of relatives use. -/
def TxMemPoolEntry.amounts (e : TxMemPoolEntry) : Nat × Nat × Nat :=
  (e.txWeight, e.fee, e.modifiedFee)

section

variable {g : Nat × Nat × Nat → Nat}

theorem total_rewrite {e : TxMemPoolEntry} {f : TxMemPoolEntry → TxMemPoolEntry}
    (hentries : arena'.entries = arena.entries.modify id f) (he : arena.get id = some e)
    (hf : (f e).amounts = e.amounts) :
    arena'.entries.total (fun e => g e.amounts) = arena.entries.total fun e => g e.amounts := by
  have htotal := SlotMap.total_modify (f := fun e => g e.amounts) (g := f) he
  rw [← hentries, hf] at htotal
  exact Nat.add_right_cancel htotal

theorem total_rewritten
    (h : ∃ old e, Rewritten env build arena id old e arena' ∧ e.bare = old.bare) :
    arena'.entries.total (fun e => g e.amounts) = arena.entries.total fun e => g e.amounts := by
  obtain ⟨old, e, h, hbare⟩ := h
  obtain ⟨f, rfl, hentries⟩ := h.entries
  have hamounts : (f old).bare.amounts = old.bare.amounts := congrArg TxMemPoolEntry.amounts hbare
  exact total_rewrite hentries h.live hamounts

theorem total_insertChild {ids : List EntryId} {child : EntryId} :
    (ids.foldl (fun arena id => arena.insertChild id child) arena).entries.total
      (fun e => g e.amounts) = arena.entries.total fun e => g e.amounts := by
  induction ids generalizing arena with
  | nil => rfl
  | cons id ids ih =>
    rw [List.foldl_cons, ih]
    cases he : arena.get id with
    | none => rw [MemPoolArena.insertChild, SlotMap.modify_of_get_none he]
    | some e => exact total_rewrite rfl he rfl

/-- A new entry is added to every sum, and the changes of its ancestors do not matter. -/
theorem total_insertEntry (h : insertEntry env build m arena ws ctx = .ok (id, arena')) :
    arena'.entries.total (fun e => g e.amounts) =
      arena.entries.total (fun e => g e.amounts) +
        g (ws.txWeight, ws.baseFee, ws.modifiedFee) := by
  simp only [insertEntry, bind_eq_ok] at h
  obtain ⟨st, _, ⟨new, arena1⟩, hinsert, arena2, hanc, arena3, hdesc, h⟩ := h
  cases h
  have hput : arena1.entries.total (fun e => g e.amounts) =
      arena.entries.total (fun e => g e.amounts) +
        g (ws.txWeight, ws.baseFee, ws.modifiedFee) := by
    simp only [MemPoolArena.insert, bind_eq_ok] at hinsert
    obtain ⟨_, _, _, _, _, _, heq⟩ := hinsert
    cases heq
    exact SlotMap.total_insert
  -- the updates of the ancestors leave the sum that the insertion made
  let I : MemPoolArena → Prop := fun a =>
    a.entries.total (fun e => g e.amounts) = arena1.entries.total fun e => g e.amounts
  have hancestors : I arena2 := by
    refine foldlM_invariant (I := I) (fun _ hI hstep => ?_) total_insertChild hanc
    exact (total_rewritten (rewritten_updateAncestorState hstep)).trans hI
  have hdescendants : I arena' := by
    refine foldlM_invariant (I := I) (fun _ hI hstep => ?_) hancestors hdesc
    exact (total_rewritten (rewritten_updateDescendantState env hstep)).trans hI
  exact hdescendants.trans hput

end

/-! ## The totals -/

/-- The totals are the sums over the entries, none of whose fees is modified. -/
structure Totals (inner : MemPoolInner) : Prop where
  size : inner.totalTxSize = inner.arena.entries.total TxMemPoolEntry.txWeight
  fee : inner.totalFee = inner.arena.entries.total TxMemPoolEntry.fee
  modifiedFee : ∀ {k e}, inner.get k = some e → e.modifiedFee = e.fee

theorem totals_new : Totals .new := ⟨rfl, rfl, by rintro k e ⟨⟩⟩

theorem Totals.total_modifiedFee (h : Totals inner) :
    inner.arena.entries.total TxMemPoolEntry.modifiedFee = inner.totalFee := by
  rw [h.fee]
  exact SlotMap.total_congr h.modifiedFee

theorem Totals.inserted (h : Totals inner) (hinserted : Inserted env build m inner ws ctx inner')
    (hsize : inner.totalTxSize + ws.txWeight < 2 ^ 64)
    (hfee : inner.totalFee + ws.baseFee < 2 ^ 64) (hmodified : ws.modifiedFee = ws.baseFee) :
    Totals inner' ∧ inner'.totalTxSize = inner.totalTxSize + ws.txWeight ∧
      inner'.totalFee = inner.totalFee + ws.baseFee := by
  obtain ⟨id, hid⟩ := hinserted.arena
  have htotalSize : inner'.totalTxSize = inner.totalTxSize + ws.txWeight := by
    have hadd := hinserted.totalTxSize
    rw [Build.add_of_lt hsize] at hadd
    exact (Outcome.ok.inj hadd).symm
  have htotalFee : inner'.totalFee = inner.totalFee + ws.baseFee := by
    rw [hinserted.totalFee, if_pos hfee]
  refine ⟨⟨?_, ?_, fun {k e} he => ?_⟩, htotalSize, htotalFee⟩
  · rw [htotalSize, h.size]
    exact (total_insertEntry (g := fun a => a.1) hid).symm
  · rw [htotalFee, h.fee]
    exact (total_insertEntry (g := fun a => a.2.1) hid).symm
  · obtain ⟨new, hnew⟩ := hinserted.insertedAt
    rcases hnew.record_new he with ⟨_, hrecord⟩ | ⟨old, hold, hrecord⟩
    · calc e.modifiedFee = e.record.modifiedFee := rfl
        _ = ws.modifiedFee := by rw [hrecord]; rfl
        _ = e.record.fee := by rw [hrecord]; exact hmodified
    · calc e.modifiedFee = e.record.modifiedFee := rfl
        _ = old.modifiedFee := by rw [hrecord]; rfl
        _ = old.fee := h.modifiedFee hold
        _ = e.record.fee := by rw [hrecord]; rfl

theorem Totals.removeEntry (h : Totals inner)
    (hremove : inner.removeEntry env build id = (.ok inner' : Outcome MempoolError _)) :
    Totals inner' := by
  have hmodified : ∀ {k e}, inner'.get k = some e → e.modifiedFee = e.fee := by
    intro k e he
    rw [(removeEntry_spec hremove).get] at he
    split at he
    · cases he
    · exact h.modifiedFee he
  cases hget : inner.arena.get id with
  | none =>
    simp only [MemPoolInner.removeEntry, MemPoolArena.remove, hget, Option.map_none] at hremove
    cases hremove
    exact h
  | some e =>
    simp only [MemPoolInner.removeEntry, MemPoolArena.remove, hget, Option.map_some,
      bind_eq_ok] at hremove
    obtain ⟨totalTxSize, hsub, hremove⟩ := hremove
    cases hremove
    have hsize : (inner.arena.entries.remove id).total _ + e.txWeight = _ :=
      SlotMap.total_remove hget
    have hfee : (inner.arena.entries.remove id).total _ + e.fee = _ := SlotMap.total_remove hget
    rw [← h.size] at hsize
    rw [← h.fee] at hfee
    rw [Build.sub_of_le (by omega)] at hsub
    cases hsub
    exact ⟨(Nat.eq_sub_of_add_eq hsize).symm, (Nat.eq_sub_of_add_eq hfee).symm, hmodified⟩

/-! ## Amounts that fit -/

/-- The fees of the offered transactions fit into the total: the value of every coin is bounded, of
those that can be found and of the new ones, and so is what the transactions can spend. -/
def FeesFit (env : PoolEnv SE) (m : Moment) (call : Call) (p : MemPool) : Prop :=
  ∃ bound, Bounds m.client p.coinsCache bound ∧
    (∀ tx ∈ call.offered, ∀ o out, outputAt env tx o = some out → out.value ≤ bound o) ∧
    p.inner.totalFee + (call.offered.map fun tx => (tx.spends.map bound).sum).sum < 2 ^ 64

/-- So do their weights. -/
def AmountsFit (env : PoolEnv SE) (m : Moment) (call : Call) (p : MemPool) : Prop :=
  FeesFit env m call p ∧ p.inner.totalTxSize + (call.offered.map env.txWeight).sum < 2 ^ 64

section

variable {p p' : MemPool} {call : Call} {wss done : List ValidationWorkspace}
  {coins' : CoinsViewCache} {txs : List Transaction}

/-- Sums over vetted transactions are sums over a part of the offered ones. -/
theorem Vetting.sum_le (h : Vetting env build options m p txs wss coins') (f : Transaction → Nat) :
    (wss.map fun ws => f ws.tx).sum ≤ (txs.map f).sum := by
  have hnodup : (wss.map tx).Nodup := by
    refine List.Nodup.of_map env.computeTxid ?_
    rw [List.map_map]
    exact h.nodup
  have hsubset : wss.map tx ⊆ txs := by
    intro tx htx
    obtain ⟨ws, hws, rfl⟩ := List.mem_map.mp htx
    exact h.mem ws hws
  obtain ⟨l, hperm, hsub⟩ := List.subperm_of_subset hnodup hsubset
  calc (wss.map fun ws => f ws.tx).sum = ((wss.map tx).map f).sum := by
        rw [List.map_map]; rfl
    _ = (l.map f).sum := (hperm.map f).sum_eq.symm
    _ ≤ (txs.map f).sum := (hsub.map f).sum_le_sum (by simp)

theorem Vetting.modifiedFee (h : Vetting env build options m p txs wss coins') :
    ∀ ws ∈ wss, ws.modifiedFee = ws.baseFee := by
  intro ws hws
  obtain ⟨_, _, _, _, _, hvetted⟩ := h.vets.vetted hws
  exact hvetted.modifiedFee

/-- The fees and weights that are inserted fit. -/
theorem Vetting.fits (h : Vetting env build options m p call.offered wss coins')
    (hfit : AmountsFit env m call p) :
    p.inner.totalFee + (wss.map baseFee).sum < 2 ^ 64 ∧
      p.inner.totalTxSize + (wss.map txWeight).sum < 2 ^ 64 := by
  obtain ⟨⟨bound, hbounds, hnew, hfee⟩, hsize⟩ := hfit
  constructor
  · have hle : (wss.map baseFee).sum ≤
        (wss.map fun ws => (ws.tx.spends.map bound).sum).sum :=
      List.sum_le_sum (h.vets.baseFee_le hbounds fun ws hws => hnew ws.tx (h.mem ws hws))
    have hsum := h.sum_le fun tx => (tx.spends.map bound).sum
    omega
  · have heq : wss.map txWeight = wss.map fun ws => env.txWeight ws.tx :=
      List.map_congr_left fun ws hws => (h.vets.admissible ws hws).txWeight
    have hsum := h.sum_le env.txWeight
    rw [heq]
    omega

/-- The totals stay exact along insertions that fit. -/
theorem Totals.insertsAll (h : Totals inner) (hinserts : InsertsAll env build m inner wss inner')
    (hmodified : ∀ ws ∈ wss, ws.modifiedFee = ws.baseFee)
    (hfee : inner.totalFee + (wss.map baseFee).sum < 2 ^ 64)
    (hsize : inner.totalTxSize + (wss.map txWeight).sum < 2 ^ 64) :
    Totals inner' ∧
      inner'.totalFee = inner.totalFee + (wss.map baseFee).sum := by
  let I : MemPoolInner → List ValidationWorkspace → Prop := fun u rest =>
    Totals u ∧ (∀ ws ∈ rest, ws.modifiedFee = ws.baseFee) ∧
      u.totalFee + (rest.map baseFee).sum =
        inner.totalFee + (wss.map baseFee).sum ∧
      u.totalTxSize + (rest.map txWeight).sum < 2 ^ 64
  have hstep : ∀ {u ws rest ctx u'}, I u (ws :: rest) → Inserted env build m u ws ctx u' →
      I u' rest := by
    rintro u ws rest ctx u' ⟨hu, hmodified, hfee', hsize⟩ hinserted
    rw [List.map_cons, List.sum_cons] at hfee' hsize
    obtain ⟨hws, hrest⟩ := List.forall_mem_cons.mp hmodified
    obtain ⟨hu', hsize', hfee''⟩ := hu.inserted hinserted (by omega) (by omega) hws
    exact ⟨hu', hrest, by omega, by omega⟩
  obtain ⟨htotals, _, htotalFee, _⟩ :=
    insertsAll_induction hstep hinserts ⟨h, hmodified, rfl, hsize⟩
  exact ⟨htotals, htotalFee⟩

theorem sum_le_of_front {f : ValidationWorkspace → Nat} (hdone : done <+: wss) :
    (done.map f).sum ≤ (wss.map f).sum :=
  (hdone.sublist.map f).sum_le_sum (by simp)

theorem Totals.vetting (h : Totals p.inner) (hfit : AmountsFit env m call p)
    (hvetting : Vetting env build options m p call.offered wss coins') (hdone : done <+: wss)
    (hinserts : InsertsAll env build m p.inner done inner') :
    Totals inner' ∧
      inner'.totalFee = p.inner.totalFee + (done.map baseFee).sum := by
  obtain ⟨hfee, hsize⟩ := hvetting.fits hfit
  have hfee' := sum_le_of_front (f := baseFee) hdone
  have hsize' := sum_le_of_front (f := txWeight) hdone
  exact h.insertsAll hinserts (fun ws hws => hvetting.modifiedFee ws (hdone.subset hws)) (by omega)
    (by omega)

/-- Fees that fit together do not overflow along the ancestors. -/
theorem not_failsWith_addAncestor {bad : MempoolError → Prop} {ids : List EntryId}
    {st : AncestorState}
    (h : st.fees + ((ids.filterMap arena.get).map TxMemPoolEntry.modifiedFee).sum < 2 ^ 64) :
    ¬ Outcome.FailsWith bad (ids.foldlM (addAncestor build arena) st) := by
  induction ids generalizing st with
  | nil => exact not_failsWith_pure
  | cons id ids ih =>
    rw [List.foldlM_cons, failsWith_bind, addAncestor]
    cases hid : arena.get id with
    | none => simp
    | some e =>
      rw [List.filterMap_cons, hid, List.map_cons, List.sum_cons] at h
      have hfits : st.fees + e.modifiedFee < 2 ^ 64 := by omega
      rintro (hfails | ⟨st', hst', hfails⟩)
      · rw [expect_some, ok_bind,
          checkedUnsigned_eq_some.mpr ⟨hfits, rfl⟩] at hfails
        exact not_failsWith_bind not_failsWith_add (fun _ =>
          not_failsWith_bind not_failsWith_signed fun _ =>
            not_failsWith_bind not_failsWith_ok fun _ =>
              not_failsWith_bind not_failsWith_signed fun _ =>
                not_failsWith_pure) hfails
      · simp only [bind_eq_ok, expect_eq_ok, okOr_eq_ok] at hst'
        obtain ⟨e', he', _, _, _, _, fees, hfees, _, _, hst'⟩ := hst'
        cases he'
        cases hst'
        obtain ⟨_, rfl⟩ := checkedUnsigned_eq_some.mp hfees
        exact ih (by dsimp only; omega) hfails

theorem Totals.not_feesOverflow (h : Totals inner) (hmodified : ws.modifiedFee = ws.baseFee)
    (hfee : inner.totalFee + ws.baseFee < 2 ^ 64) : ¬ FeesOverflow build m inner ws := by
  rintro (hfails | hoverflow)
  · refine not_failsWith_addAncestor ?_ hfails
    have hnodup : ((inner.arena.ancestorsOf m.order ws.tx).iter m.order).Nodup := HashSet.nodup_iter
    have hle := SlotMap.sum_le_total (f := TxMemPoolEntry.modifiedFee) (m := inner.arena.entries)
      hnodup
    rw [h.total_modifiedFee] at hle
    have hsum : ws.modifiedFee + _ ≤ ws.modifiedFee + inner.totalFee := Nat.add_le_add_left hle _
    exact Nat.lt_of_le_of_lt hsum (by omega)
  · omega

/-- An acceptance whose amounts fit fails before anything is inserted. -/
theorem Totals.rejected (h : Totals p.inner) (hfit : AmountsFit env m call p)
    (hfails : Fails env build options m p call.offered p') :
    ∃ wss coins1, Vetting env build options m p call.offered wss coins1 ∧ p'.inner = p.inner ∧
      p'.coinsCache =
        (wss.map tx).foldl (CoinsViewCache.removeMempoolTx env) coins1 := by
  cases hfails with
  | rejected vetting inner coins => exact ⟨_, _, vetting, inner, coins⟩
  | overflowed vetting inserts overflow inner =>
    rename_i done rest ws inner1
    obtain ⟨htotals, htotalFee⟩ := h.vetting hfit vetting ⟨ws :: rest, rfl⟩ inserts
    obtain ⟨hfee, _⟩ := vetting.fits hfit
    rw [List.map_append, List.sum_append, List.map_cons, List.sum_cons] at hfee
    refine absurd overflow (htotals.not_feesOverflow (vetting.modifiedFee ws (by simp)) ?_)
    omega

theorem Totals.removeStaged {order : HashOrder} {ids : HashSet EntryId} (h : Totals inner)
    (hremove : inner.removeStaged env build order ids false =
      (.ok inner' : Outcome MempoolError _)) : Totals inner' :=
  removeStaged_induction h (fun hu => hu.removeEntry)
    (fun hu => ⟨hu.size, hu.fee, hu.modifiedFee⟩) hremove

/-- In every state of a run whose amounts fit, the totals are exact. -/
theorem totals_reachable (h : Reachable env build options (AmountsFit env) p) :
    Totals p.inner := by
  refine pool_invariant (I := fun p => Totals p.inner) (fun _ => totals_new) ?_ h
  intro m call p p' _ hfit hI heffect
  cases heffect with
  | admitted admits => exact (hI.vetting hfit admits.vetting List.prefix_rfl admits.inserts).1
  | failed fails =>
    obtain ⟨all, coins1, done, hvetting, hdone, hinserts⟩ := fails.inserts
    exact (hI.vetting hfit hvetting hdone hinserts).1
  | trimmed rounds _ =>
    exact trimRound_survives (fun _ hu hremove => hu.removeStaged hremove) hI rounds
  | expired _ inner _ => exact hI.removeStaged inner
  | swept _ swept => exact hI.removeStaged swept.inner
  | moved inner _ => exact inner ▸ hI
  | kept inner _ =>
    rw [inner]
    exact ⟨hI.size, hI.fee, hI.modifiedFee⟩

end

/-- Whatever operations make an arena, its indexes are exact. In a run whose amounts fit, the
totals are exact as well. -/
theorem indexes_and_totals (hwtxid : WtxidCommits env) :
    (∀ arena, Built env build arena → Indexes env build arena ∧ ByWtxid env arena) ∧
      ∀ p, Reachable env build options (AmountsFit env) p →
        Indexes env build p.inner.arena ∧ ByWtxid env p.inner.arena ∧ Totals p.inner := by
  refine ⟨fun arena h => ⟨indexes_of_built h, byWtxid_of_built hwtxid h⟩, fun p h => ?_⟩
  have hbuilt := built_reachable h
  exact ⟨indexes_of_built hbuilt, byWtxid_of_built hwtxid hbuilt, totals_reachable h⟩

/-! ## Samples -/

namespace Reference

theorem wtxidCommits_baseEnv : WtxidCommits baseEnv := by
  intro a b h
  have hhash : (baseEnv.computeTxid a).hash = (baseEnv.computeTxid b).hash :=
    congrArg Wtxid.hash h
  cases ha : baseEnv.computeTxid a with
  | mk hash =>
    cases hb : baseEnv.computeTxid b with
    | mk hash' =>
      rw [ha, hb] at hhash
      exact congrArg Txid.mk hhash

/-- The values that can be found under an outpoint, and those that the transactions add, summed
up. -/
def valueAt (env : PoolEnv Unit) (client : Client) (coins : CoinsViewCache)
    (txs : List Transaction) (o : OutPoint) : Nat :=
  (coins.mempoolOverlay o).elim 0 (·.output.value) +
    (coins.baseCache.map fun p => p.2.elim 0 (·.output.value)).sum +
    (((client.blocks coins.bestBlock).bind StoredBlock.state).bind fun state =>
      state.coin o).elim 0 Coin.amount +
    (txs.map fun tx => (outputAt env tx o).elim 0 TxOut.value).sum

theorem bounds_valueAt (env : PoolEnv Unit) (client : Client) (coins : CoinsViewCache)
    (txs : List Transaction) : Bounds client coins (valueAt env client coins txs) := by
  rintro o coin (hoverlay | ⟨_, hcached | ⟨state, hstate, hcoin⟩⟩)
  · rw [valueAt, hoverlay, Option.elim_some]
    omega
  · have hmem : coin.output.value ∈ coins.baseCache.map fun p => p.2.elim 0 (·.output.value) :=
      List.mem_map.mpr ⟨_, hcached, rfl⟩
    have hle := List.single_le_sum (by simp) _ hmem
    rw [valueAt]
    omega
  · obtain ⟨c, hc, rfl⟩ := Option.map_eq_some_iff.mp hcoin.symm
    have hvalue : (PoolCoin.ofCoin c).output.value = c.amount := rfl
    rw [valueAt, hstate, Option.bind_some, hc, hvalue, Option.elim_some]
    omega

/-- The amounts of a call fit, by evaluation. -/
def fits (env : PoolEnv Unit) (m : Moment) (call : Call) (p : MemPool) : Bool :=
  decide (p.inner.totalFee + (call.offered.map fun tx =>
      (tx.spends.map (valueAt env m.client p.coinsCache call.offered)).sum).sum < 2 ^ 64) &&
    decide (p.inner.totalTxSize + (call.offered.map env.txWeight).sum < 2 ^ 64)

theorem amountsFit_of_fits {env : PoolEnv Unit} {m : Moment} {call : Call} {p : MemPool}
    (h : fits env m call p = true) : AmountsFit env m call p := by
  rw [fits, Bool.and_eq_true, decide_eq_true_eq, decide_eq_true_eq] at h
  refine ⟨⟨_, bounds_valueAt env m.client p.coinsCache call.offered, ?_, h.1⟩, h.2⟩
  intro tx htx o out hout
  have hmem : (outputAt env tx o).elim 0 TxOut.value ∈ call.offered.map fun tx =>
      (outputAt env tx o).elim 0 TxOut.value := List.mem_map.mpr ⟨tx, htx, rfl⟩
  have hle := List.single_le_sum (by simp) _ hmem
  rw [hout, Option.elim_some] at hle
  rw [valueAt]
  omega

/-- A package of two related transactions, another one, and a trim that removes one of the three:
two entries are left. -/
theorem indexes_and_totals_trimmed :
    ∃ p, Reachable baseEnv .checked .default (AmountsFit baseEnv) p ∧
      p.inner.arena.entries.keys.length = 2 ∧ Indexes baseEnv .checked p.inner.arena ∧
      ByWtxid baseEnv p.inner.arena ∧ Totals p.inner := by
  have hrun : (runIf baseEnv .checked .default (fits baseEnv)
      [(moment, .acceptPackage [parent, child]),
        (moment, .acceptSingleTransaction (spendOf (coinAt 1) 50000)),
        (moment, .trimToSize 700)]
      (.new client)).any (fun p => p.inner.arena.entries.keys.length = 2) = true := by
    decide +kernel
  obtain ⟨p, hp, hlen⟩ := exists_runIf (fun _ h => amountsFit_of_fits h) (.new client) hrun
  exact ⟨p, hp, of_decide_eq_true hlen, (indexes_and_totals wtxidCommits_baseEnv).2 p hp⟩

section Rich

open Subcoin.Reference

def mint : Transaction := coinbase [1, 1] 5000000000

/-- Two coins whose values overflow an amount together. -/
def inflated : Transaction :=
  transaction [input ⟨Subcoin.Reference.env.computeTxid mint, 0⟩ []]
    [⟨2 ^ 63 + 100000, lockScript⟩, ⟨2 ^ 63 + 100000, lockScript⟩]

/-- A block with the header of a valid one and another body. -/
def peerBlock : Block :=
  { block (Subcoin.Reference.env.hashOf genesisBlock) 1231006600 0x1d00ffff 7 [mint] with
    txdata := [mint, inflated] }

/-- The node after the block came from a Substrate peer: `SubstrateImportQueueVerifier` verifies the
header that the block embeds, and nothing but the runtime looks at its body. -/
def richClient : Option Client :=
  let importer : BitcoinBlockImporter := ⟨⟨ChainParams.new paramsOf .bitcoin, .full, .core⟩, true⟩
  let c := clientOf []
  match verifyHeader Subcoin.Reference.env .checked c importer.verifier.chainParams 1231006700
      peerBlock.header,
    prepareSubstrateBlockImport Subcoin.Reference.env importer c peerBlock ⟨c.genesisHash, 0⟩ with
  | .ok _, .ok params => some (c.importBlock Subcoin.Reference.env params).2
  | _, _ => none

end Rich

/-- The acceptance of a transaction that spends one of the coins. -/
def spendInflated (c : Client) (vout : Nat) : Moment × Call :=
  (⟨c, 1231006700, .insertion⟩,
    .acceptSingleTransaction (spendOf ⟨baseEnv.computeTxid inflated, vout⟩ 90000))

/-- The second of two large fees overflows the total: its entry stays and is not counted. -/
theorem not_totals_overflow :
    ∃ c p, richClient = some c ∧
      Reachable baseEnv ⟨false⟩ .default (fun m _ _ => m.client = c) p ∧
      p.inner.totalFee ≠ p.inner.arena.entries.total TxMemPoolEntry.fee := by
  have hrun : richClient.any (fun c => (run baseEnv ⟨false⟩ .default
      [spendInflated c 0, spendInflated c 1] (.new c)).any (fun p =>
        p.inner.totalFee ≠ p.inner.arena.entries.total TxMemPoolEntry.fee)) = true := by
    decide +kernel
  obtain ⟨c, hc, hrun⟩ := (Option.any_eq_true _ _).mp hrun
  have hclient : ∀ {m call}, (m, call) ∈ [spendInflated c 0, spendInflated c 1] → m.client = c := by
    intro m call hmem
    rcases List.mem_pair.mp hmem with h | h
    · cases h
      rfl
    · cases h
      rfl
  obtain ⟨p, hp, hne⟩ : ∃ p, Reachable baseEnv ⟨false⟩ .default (fun m _ _ => m.client = c) p ∧ _ :=
    exists_runIf (fun hmem _ => hclient hmem) (.new c) hrun
  exact ⟨c, p, hc, hp, of_decide_eq_true hne⟩

end Reference

end Subcoin.Mempool
