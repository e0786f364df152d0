import Subcoin.Indexer.SpentStatus
import Subcoin.Lib.Runs

/-!
# Subcoin — balances of addresses

The balance of an address is read off the outputs, and its history is written from the same
transactions on another way. For the index of a chain both agree (`IndexOf.consistent`), and reverts
and further batches lead from one index to another. A batch that indexes blocks again below the last
indexed one loses the spends of their outputs that are recorded above; it keeps the balances when
there are none.
-/

namespace Subcoin.Indexer

open Rows IndexMap

section

/-- The sum of `delta` over the history of an address. -/
def deltaSum (t : Tables) (address : String) : Int :=
  t.addressHistory.total fun key delta => if key.address = address then delta else 0

/-- The sum of `delta` over the history of an address up to a height. -/
def deltaSumUpto (t : Tables) (address : String) (height : Nat) : Int :=
  t.addressHistory.total fun key delta =>
    if key.blockHeight ≤ height then if key.address = address then delta else 0 else 0

/-- The history and the outputs of an address agree. -/
structure Consistent (t : Tables) (address : String) : Prop where
  deltas : deltaSum t address = (getAddressBalance t address).confirmed
  totals : (getAddressBalance t address).totalReceived - (getAddressBalance t address).totalSent =
    (getAddressBalance t address).confirmed
  nonneg : ∀ height, 0 ≤ deltaSumUpto t address height

variable {SE : Type} {env : IndexerEnv SE} {chain : List Block} {t : Tables} {address : String}

/-! ## Sums over tables -/

theorem confirmed_def : (getAddressBalance t address).confirmed = t.outputs.total fun _ row =>
    if row.address = some address ∧ row.spent.isNone then row.value else 0 := rfl

theorem totalReceived_def : (getAddressBalance t address).totalReceived =
    t.outputs.total fun _ row => if row.address = some address then row.value else 0 := rfl

theorem totalSent_def : (getAddressBalance t address).totalSent = t.outputs.total fun _ row =>
    if row.address = some address ∧ row.spent.isSome then row.value else 0 := rfl

/-- `total_received` minus `total_sent` is what is left, whatever the table holds. -/
theorem totals_eq : (getAddressBalance t address).totalReceived =
    (getAddressBalance t address).confirmed + (getAddressBalance t address).totalSent := by
  rw [confirmed_def, totalReceived_def, totalSent_def]
  refine total_add fun o row => ?_
  cases row.spent with
  | none => simp
  | some sp => simp

/-- The history up to a height is what a revert to this height leaves of it. -/
theorem deltaSum_revertToHeight {height : Nat} :
    deltaSum (revertToHeight height t) address = deltaSumUpto t address height := by
  have hhistory : (revertToHeight height t).addressHistory = t.addressHistory.retain
      fun key delta => if height < key.blockHeight then none else some delta := rfl
  unfold deltaSum deltaSumUpto
  rw [hhistory]
  exact total_retain_upto (h := fun (key : HistoryKey) _ => key.blockHeight)

/-! ## Sums over a chain -/

/-- The amount of an output that belongs to an address. -/
def amountOf (address : String) : Option (String × Nat) → Int
  | some info => if info.1 = address then toSigned 64 info.2 else 0
  | none => 0

theorem amountOf_addressed {out : TxOut} :
    amountOf address (addressed env out) =
      if scriptToAddress env out.scriptPubkey = some address then toSigned 64 out.value else 0 := by
  unfold addressed
  cases scriptToAddress env out.scriptPubkey with
  | none => rfl
  | some owner =>
    rw [Option.map_some, amountOf]
    simp only [Option.some.injEq]

def received (env : IndexerEnv SE) (address : String) (es : List Entry) : Int :=
  ((es.flatMap (created env)).map fun out => amountOf address (addressed env out.2)).sum

def sent (env : IndexerEnv SE) (info : OutPoint → Option (String × Nat)) (address : String)
    (es : List Entry) : Int :=
  ((spends env es).map fun spend => amountOf address (info spend.1)).sum

/-- What the history says about an address, transaction by transaction. -/
theorem sum_touches {info : OutPoint → Option (String × Nat)} {es : List Entry} :
    ((touches env info es).map fun r => if r.1.address = address then r.2 else 0).sum =
      received env address es - sent env info address es := by
  have hdebit (spend : OutPoint × Spent) :
      (((debit info spend).map fun r => if r.1.address = address then r.2 else 0).getD 0) =
        -amountOf address (info spend.1) := by
    unfold debit
    cases info spend.1 with
    | none => rfl
    | some found =>
      rw [Option.map_some, Option.map_some, Option.getD_some, amountOf]
      split
      · rfl
      · exact Int.neg_zero.symm
  have hcredit (height : Nat) (out : OutPoint × TxOut) :
      (((credit env height out).map fun r => if r.1.address = address then r.2 else 0).getD 0) =
        amountOf address (addressed env out.2) := by
    unfold credit
    cases addressed env out.2 with
    | none => rfl
    | some found => rfl
  have hneg (l : List (OutPoint × Spent)) :
      (l.map fun spend => -amountOf address (info spend.1)).sum =
        -(l.map fun spend => amountOf address (info spend.1)).sum := by
    rw [List.sum_neg, List.map_map]
    rfl
  unfold touches received sent spends
  induction es with
  | nil => rfl
  | cons x es ih =>
    simp only [List.flatMap_cons, List.map_append, List.sum_append, ih, sum_filterMap, hdebit,
      hcredit, hneg]
    omega

/-- What an output that is spent belongs to. -/
theorem ValidChain.amountOf_rightOutput (hvalid : ValidChain env chain) {spend : OutPoint × Spent}
    (hspend : spend ∈ spends env (entries chain)) :
    ((rightOutput env chain spend.1).map fun row =>
      if row.address = some address then row.value else 0).getD 0 =
        amountOf address (infoOf env chain spend.1) := by
  obtain ⟨out, hcreated, -⟩ := hvalid.created_of_spent (mem_spends.mp hspend)
  obtain ⟨x, hx, hout⟩ := List.mem_flatMap.mp (mem_created.mpr hcreated)
  rw [hvalid.rightOutput_of_created hx hout, hvalid.infoOf_of_created hx hout, amountOf_addressed,
    Option.map_some, Option.getD_some, outputRow_address, outputRow_value]

theorem deltaSum_eq (h : ∀ key, t.addressHistory.get key = rightDelta env chain key) :
    deltaSum t address =
    received env address (entries chain) -
      sent env (infoOf env chain) address (entries chain) := by
  have htally : deltaSum t address =
      (tally (touches env (infoOf env chain) (entries chain))).total
        fun key delta => if decide (key.address = address) = true then delta else 0 := by
    simp only [decide_eq_true_eq]
    refine total_congr fun key => ?_
    rw [h, get_tally]
    rfl
  rw [htally, total_tally, ← sum_touches]
  exact sum_ite.symm

namespace IndexOf

variable (h : IndexOf env chain t) (hvalid : ValidChain env chain)
include h hvalid

/-- A sum over the outputs is one over what the chain creates. -/
theorem total_outputs {f : OutPoint → OutputRow → Int} :
    t.outputs.total f = ((outputRows env (entries chain)).map fun r =>
      f r.1 (r.2.withSpent (rightSpent env chain r.1))).sum := by
  have hkeys : (((outputRows env (entries chain)).map fun r =>
      (r.1, r.2.withSpent (rightSpent env chain r.1))).map Prod.fst).Nodup := by
    rw [List.map_map]
    exact hvalid.outputKeys
  rw [total_eq hkeys, List.map_map]
  · rfl
  · intro o
    rw [h.outputs, find_map (f := fun o => OutputRow.withSpent (rightSpent env chain o))]
    rfl

theorem totalReceived_eq :
    (getAddressBalance t address).totalReceived = received env address (entries chain) := by
  rw [totalReceived_def, h.total_outputs hvalid]
  unfold received outputRows
  rw [List.map_flatMap, List.map_flatMap]
  simp only [List.map_map, Function.comp_def, OutputRow.withSpent_address,
    OutputRow.withSpent_value, outputRow_address, outputRow_value, amountOf_addressed]
  rfl

theorem totalSent_eq : (getAddressBalance t address).totalSent =
    sent env (infoOf env chain) address (entries chain) := by
  have hsub : ∀ o ∈ (marks env (infoOf env chain) (entries chain)).map Prod.fst,
      o ∈ (outputRows env (entries chain)).map Prod.fst := by
    intro o ho
    obtain ⟨spend, hspend, rfl⟩ := List.mem_map.mp ho
    obtain ⟨-, -, hsome⟩ :=
      hvalid.created_of_spent (mem_spends.mp (List.mem_filter.mp hspend).1)
    refine by_contra fun hnot => ?_
    rw [rightOutput, find_eq_none.mpr hnot] at hsome
    cases hsome
  have hkeys : ((marks env (infoOf env chain) (entries chain)).map Prod.fst).Nodup :=
    hvalid.markKeys
  have hjoin := sum_join hvalid.outputKeys hkeys hsub
    fun _ row => if row.address = some address then row.value else 0
  have hmarks : sent env (infoOf env chain) address (entries chain) =
      ((marks env (infoOf env chain) (entries chain)).map fun spend =>
        amountOf address (infoOf env chain spend.1)).sum := by
    refine (sum_filter fun spend _ hnone => ?_).symm
    rw [Option.isSome_eq_false_iff, Option.isNone_iff_eq_none] at hnone
    rw [hnone]
    rfl
  have hamounts : ((marks env (infoOf env chain) (entries chain)).map fun spend =>
      amountOf address (infoOf env chain spend.1)) =
        (marks env (infoOf env chain) (entries chain)).map fun spend =>
          ((find (outputRows env (entries chain)) spend.1).map fun row =>
            if row.address = some address then row.value else 0).getD 0 :=
    List.map_congr_left fun spend hspend =>
      (hvalid.amountOf_rightOutput (List.mem_filter.mp hspend).1).symm
  rw [totalSent_def, h.total_outputs hvalid, hmarks, hamounts, ← hjoin]
  refine congrArg List.sum (List.map_congr_left fun r _ => ?_)
  rw [OutputRow.withSpent_spent, OutputRow.withSpent_address, OutputRow.withSpent_value]
  unfold rightSpent
  cases find (marks env (infoOf env chain) (entries chain)) r.1 with
  | none => simp
  | some sp => simp

theorem confirmed_nonneg : 0 ≤ (getAddressBalance t address).confirmed := by
  rw [confirmed_def, h.total_outputs hvalid]
  refine List.sum_nonneg fun amount hamount => ?_
  obtain ⟨r, hr, rfl⟩ := List.mem_map.mp hamount
  obtain ⟨x, hx, hrow⟩ := List.mem_flatMap.mp hr
  obtain ⟨out, hout, rfl⟩ := List.mem_map.mp hrow
  rw [OutputRow.withSpent_value, outputRow_value, toSigned_of_lt (hvalid.lt_of_created hx hout)]
  split
  · exact Int.natCast_nonneg _
  · exact Int.le_refl 0

theorem deltaSum_eq_confirmed :
    deltaSum t address = (getAddressBalance t address).confirmed := by
  have htotals : (getAddressBalance t address).totalReceived = _ := totals_eq
  rw [h.totalReceived_eq hvalid, h.totalSent_eq hvalid] at htotals
  rw [deltaSum_eq h.addressHistory]
  omega

/-- The balances of the index of a chain. -/
theorem consistent : Consistent t address where
  deltas := h.deltaSum_eq_confirmed hvalid
  totals := by
    rw [totals_eq]
    omega
  nonneg height := by
    -- The history up to a height is the history of the blocks up to it.
    have hrevert : IndexOf env (chain.take (height + 1)) (revertToHeight height t) :=
      h.revert hvalid
    rw [← deltaSum_revertToHeight, hrevert.deltaSum_eq_confirmed (hvalid.take _)]
    exact hrevert.confirmed_nonneg (hvalid.take _)

end IndexOf

/-! ## Batches and reverts along a chain -/

/-- A database into which the blocks below `top` have been indexed. -/
structure Index where
  top : Nat
  tables : Tables

namespace Index

inductive Op where
  | index (start stop : Nat)
  | revert (height : Nat)

def fresh : Index := ⟨0, .empty⟩

def apply (env : IndexerEnv SE) (chain : List Block) : Op → Index → Outcome Empty (Unit × Index)
  | .index start stop, s =>
    .ok ((), ⟨max s.top stop, indexBlocksBatch env (blockRange chain start stop) s.tables⟩)
  | .revert height, s => .ok ((), ⟨min s.top (height + 1), revertToHeight height s.tables⟩)

/-- A batch leaves no block out, and is one of the chain. -/
def Op.Along (chain : List Block) (s : Index) : Op → Prop
  | .index start stop => start ≤ s.top ∧ start ≤ stop ∧ stop ≤ chain.length
  | .revert _ => True

/-- No output with an address that a batch creates is spent by a block that has been indexed above
the batch. -/
def Op.NotSpentAbove (env : IndexerEnv SE) (chain : List Block) (s : Index) : Op → Prop
  | .index start stop => ∀ x ∈ entries chain, ∀ out ∈ created env x, start ≤ x.height →
      x.height < stop → (scriptToAddress env out.2.scriptPubkey).isSome →
      ∀ sp, SpentBy env chain out.1 sp → sp.spentBlockHeight < stop ∨ s.top ≤ sp.spentBlockHeight
  | .revert _ => True

/-- A batch that may lie below the last indexed block. -/
theorem indexOf_batch (hvalid : ValidChain env chain) {top start stop : Nat}
    (h : IndexOf env (chain.take top) t) (hstart : start ≤ top)
    (hcross : ∀ o row sp, rightOutput env chain o = some row → start ≤ row.blockHeight →
      row.blockHeight < stop → rightSpent env chain o = some sp →
      sp.spentBlockHeight < stop ∨ top ≤ sp.spentBlockHeight) :
    IndexOf env (chain.take (max top stop))
      (indexBlocksBatch env (blockRange chain start stop) t) := by
  have hvalid' := hvalid.take (max top stop)
  have hfollows : Follows env (chain.take (max top stop)) top top t :=
    h.follows.lift hvalid (Nat.le_max_left ..) (Nat.le_refl _) (Nat.le_refl _)
  rw [← blockRange_take (Nat.le_max_right top stop)]
  have hlength := List.length_take_le (max top stop) chain
  refine (hfollows.indexBlocksBatch_blockRange hvalid' hstart hstart (Nat.le_refl _) ?_).indexOf
    hlength hlength
  -- A spend between the batch and the last indexed block is one that the batch would lose.
  intro o row sp hrow hlow hhigh hspent
  rw [rightOutput_take hvalid] at hrow
  rw [rightSpent_take hvalid] at hspent
  obtain ⟨hspent, hlt⟩ := Option.filter_eq_some_iff.mp hspent
  have hlt := of_decide_eq_true hlt
  rcases hcross o row sp (Option.filter_eq_some_iff.mp hrow).1 hlow hhigh hspent with hin | habove
  · exact .inl hin
  · exact .inl (by omega)

theorem indexOf_of_runs (hvalid : ValidChain env chain) {s : Index}
    (hrun : Runs (· = fresh) (apply env chain)
      (fun op s => op.Along chain s ∧ op.NotSpentAbove env chain s) s) :
    IndexOf env (chain.take s.top) s.tables := by
  refine hrun.invariant (I := fun s => IndexOf env (chain.take s.top) s.tables) (fun hinit => ?_)
    fun {op _ _ _} _ hcond h happly => ?_
  · obtain rfl := hinit
    exact Follows.empty.indexOf (Nat.le_refl 0) (Nat.le_refl 0)
  · obtain ⟨halong, hnot⟩ := hcond
    cases op with
    | index start stop =>
      cases happly
      refine indexOf_batch hvalid h halong.1 fun o row sp hrow hlow hhigh hspent => ?_
      obtain ⟨hby, hsome⟩ := hvalid.rightSpent_eq_some.mp hspent
      obtain ⟨x, hx, hmem⟩ := List.mem_flatMap.mp (mem_of_find hrow)
      obtain ⟨out, hout, heq⟩ := List.mem_map.mp hmem
      cases heq
      rw [hvalid.infoOf_of_created hx hout, addressed, Option.isSome_map] at hsome
      exact hnot x hx out hout hlow hhigh hsome sp hby
    | revert height =>
      cases happly
      have hrevert := h.revert (hvalid.take _) (k := height)
      rwa [List.take_take, Nat.min_comm] at hrevert

/-- The balances of all addresses are consistent in every state that batches and reverts along a
chain reach, when no batch loses a recorded spend. -/
theorem consistent_of_runs (hvalid : ValidChain env chain) {s : Index}
    (hrun : Runs (· = fresh) (apply env chain)
      (fun op s => op.Along chain s ∧ op.NotSpentAbove env chain s) s) (address : String) :
    Consistent s.tables address :=
  (indexOf_of_runs hvalid hrun).consistent (hvalid.take s.top)

end Index

/-! ## Lost spends -/

/-- The row of an output that a batch inserts again when its spend is recorded above the batch. -/
theorem get_outputs_lost (hvalid : ValidChain env chain) {rows spent start stop : Nat}
    (h : Follows env chain rows spent t) (hstart : start ≤ rows) {o : OutPoint} {row : OutputRow}
    {sp : Spent} (hrow : rightOutput env chain o = some row) (hlow : start ≤ row.blockHeight)
    (hhigh : row.blockHeight < stop) (hspent : rightSpent env chain o = some sp)
    (habove : stop ≤ sp.spentBlockHeight) :
    (indexBlocksBatch env (blockRange chain start stop) t).outputs.get o = some row := by
  have hnew : ((some row).filter fun row => start ≤ row.blockHeight ∧ row.blockHeight < stop) =
      some row := by
    rw [Option.filter_some, if_pos (decide_eq_true ⟨hlow, hhigh⟩)]
  have hlost : ((some sp).filter fun sp =>
      start ≤ sp.spentBlockHeight ∧ sp.spentBlockHeight < stop) = none := by
    rw [Option.filter_some, if_neg]
    exact fun hin => absurd (of_decide_eq_true hin).2 (Nat.not_lt.mpr habove)
  rw [indexBlocksBatch_blockRange hvalid h hstart, get_outputs_write hvalid, hrow, hspent, hnew,
    hlost]
  rfl

/-- Amounts in a database that follows a chain are not negative. -/
theorem Follows.value_nonneg (hvalid : ValidChain env chain) {rows spent : Nat}
    (h : Follows env chain rows spent t) {o : OutPoint} {row : OutputRow}
    (hrow : t.outputs.get o = some row) : 0 ≤ row.value := by
  have hpresent := h.outputs o
  rw [hrow, Option.map_some] at hpresent
  obtain ⟨x, hx, hmem⟩ := List.mem_flatMap.mp (mem_of_find hpresent.eq_of_some)
  obtain ⟨out, hout, heq⟩ := List.mem_map.mp hmem
  have hvalue := congrArg OutputRow.value (Prod.mk.inj heq).2
  rw [OutputRow.inserted_value, outputRow_value,
    toSigned_of_lt (hvalid.lt_of_created hx hout)] at hvalue
  omega

end

namespace Reference

open Index

/-- A batch up to the last indexed block or above it loses nothing. -/
theorem notSpentAbove_of_le {chain : List Block} {s : Index} {start stop : Nat}
    (h : s.top ≤ stop) : (Op.index start stop).NotSpentAbove env chain s :=
  fun _ _ _ _ _ _ _ _ _ => (Nat.lt_or_ge _ _).imp id h.trans

/-- The chain is indexed in two batches, and again above a height to which it is reverted. -/
theorem consistent_reindexed :
    ∃ s, s.top = 102 ∧ Runs (· = fresh) (apply env (chainSpending 0)) (fun op s =>
        op.Along (chainSpending 0) s ∧ op.NotSpentAbove env (chainSpending 0) s) s ∧
      ∀ address, Consistent s.tables address := by
  have hlength : (chainSpending 0).length = 102 := rfl
  have hbatch {s : Index} {start stop : Nat} (hstart : start ≤ s.top) (htop : s.top ≤ stop)
      (hstop : stop ≤ 102) : (Op.index start stop).Along (chainSpending 0) s ∧
        (Op.index start stop).NotSpentAbove env (chainSpending 0) s :=
    ⟨⟨hstart, hstart.trans htop, hlength ▸ hstop⟩, notSpentAbove_of_le htop⟩
  have hfresh : Runs (· = fresh) (apply env (chainSpending 0)) (fun op s =>
      op.Along (chainSpending 0) s ∧ op.NotSpentAbove env (chainSpending 0) s) fresh := .init rfl
  have hfirst := hfresh.step (Op.index 0 60) (hbatch (by decide) (by decide) (by decide)) rfl
  have hsecond := hfirst.step (Op.index 60 102) (hbatch (by decide) (by decide) (by decide)) rfl
  have hrevert := hsecond.step (Op.revert 70) ⟨trivial, trivial⟩ rfl
  have hagain := hrevert.step (Op.index 71 102) (hbatch (by decide) (by decide) (by decide)) rfl
  exact ⟨_, by decide, hagain,
    consistent_of_runs (validChain_chainSpending (by decide)) hagain⟩

/-- The output of the first block that the last block spends. -/
def spentOutput : OutPoint := ⟨env.computeTxid (coinbaseAt 1), 0⟩

def owner : String := addressText '1' (List.replicate 20 1)

/-- The whole chain in one batch, and the first block once more. -/
def indexedAgain : Tables :=
  indexBlocksBatch env (blockRange (chainSpending 0) 1 2)
    (indexBlocksBatch env (blockRange (chainSpending 0) 0 102) .empty)

/-- The first block is indexed again, and the owner of its output seems to have it still. -/
theorem not_consistent_again :
    ∃ s, Runs (· = fresh) (apply env (chainSpending 0))
        (fun op s => op.Along (chainSpending 0) s) s ∧
      ¬ Consistent s.tables owner := by
  have hlength : (chainSpending 0).length = 102 := rfl
  have hvalid : ValidChain env (chainSpending 0) := validChain_chainSpending (by decide)
  have hfresh : Runs (· = fresh) (apply env (chainSpending 0))
      (fun op s => op.Along (chainSpending 0) s) fresh := .init rfl
  have hall := hfresh.step (Op.index 0 102) ⟨by decide, by decide, hlength.ge⟩ rfl
  have hagain := hall.step (Op.index 1 2) ⟨by decide, by decide, by rw [hlength]; decide⟩ rfl
  have hfollows : Follows env (chainSpending 0) 102 102
      (indexBlocksBatch env (blockRange (chainSpending 0) 0 102) .empty) :=
    ((Indexed.batch .empty (Nat.zero_le 102) hlength.ge).indexOf hvalid).follows
  have hbatch : Follows env (chainSpending 0) 102 2 indexedAgain :=
    hfollows.indexBlocksBatch_blockRange hvalid (Nat.le_of_ble_eq_true rfl : 1 ≤ 102)
      (Nat.le_of_ble_eq_true rfl) (Nat.le_max_right 102 2) fun _ _ _ _ _ _ _ => Nat.lt_or_ge ..
  -- The history says that all has been sent.
  have hhistory : deltaSum indexedAgain owner = 0 := by
    rw [deltaSum_eq fun key => (hbatch.addressHistory key).eq_of_lt fun _ => lt_of_rightDelta]
    decide +kernel
  -- The output of the first block is not marked any more.
  have hrow : rightOutput env (chainSpending 0) spentOutput =
      some (outputRow env 1 ⟨3000000000, payTo 1⟩) := by decide +kernel
  have hspent : rightSpent env (chainSpending 0) spentOutput =
      some ⟨env.computeTxid (spending 0), 0, 101⟩ := by decide +kernel
  have hlost : indexedAgain.outputs.get spentOutput = _ :=
    get_outputs_lost hvalid hfollows (by decide) hrow (by decide) (by decide) hspent (by decide)
  have hpos : 0 < (getAddressBalance indexedAgain owner).confirmed := by
    rw [confirmed_def]
    refine total_pos hlost (by decide +kernel) fun o row hget => ?_
    have hnonneg := hbatch.value_nonneg hvalid hget
    split
    · exact hnonneg
    · exact Int.le_refl 0
  refine ⟨_, hagain, fun hconsistent => ?_⟩
  have hdeltas : deltaSum indexedAgain owner = _ := hconsistent.deltas
  rw [hhistory] at hdeltas
  exact absurd hpos (by rw [hdeltas]; exact Int.lt_irrefl _)

end Reference

end Subcoin.Indexer
