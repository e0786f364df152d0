import Subcoin.Indexer.Batch
import Subcoin.Indexer.Reference

/-!
# Subcoin — the index of a part of a chain

What a chain says about its blocks below a height is what the chain of these blocks says
(`rightOutput_take` and its companions), so that indexing continues from the index of a part of the
chain, and a revert leads back to one. A chain indexed from its first block in any batches gives its
index (`Indexed.indexOf`).
-/

namespace Subcoin.Indexer

open Rows

section

variable {SE : Type} {env : IndexerEnv SE} {chain : List Block} {t t' : Tables} {n : Nat}

/-! ## The index of a chain -/

section Heights

theorem lt_of_rightBlock {h : Nat} {row : BlockRow} (hright : rightBlock env chain h = some row) :
    h < chain.length := by
  obtain ⟨block, hblock, -⟩ := rightBlock_eq_some hright
  exact (List.getElem?_eq_some_iff.mp hblock).1

theorem lt_of_rightTransaction {txid : Txid} {row : TransactionRow}
    (hright : rightTransaction env chain txid = some row) : row.blockHeight < chain.length := by
  obtain ⟨x, hx, heq⟩ := List.mem_map.mp (mem_of_find hright)
  rw [← (Prod.mk.inj heq).2]
  exact height_lt hx

variable {o : OutPoint}

theorem lt_of_rightOutput {row : OutputRow} (hright : rightOutput env chain o = some row) :
    row.blockHeight < chain.length := by
  obtain ⟨x, hx, hrow⟩ := List.mem_flatMap.mp (mem_of_find hright)
  obtain ⟨out, -, heq⟩ := List.mem_map.mp hrow
  rw [← (Prod.mk.inj heq).2, outputRow_blockHeight]
  exact height_lt hx

theorem lt_of_mem_spends {spend : OutPoint × Spent} (h : spend ∈ spends env (entries chain)) :
    spend.2.spentBlockHeight < chain.length := by
  obtain ⟨x, hx, hspend⟩ := List.mem_flatMap.mp h
  obtain ⟨i, -, rfl⟩ := List.mem_map.mp hspend
  exact height_lt hx

theorem lt_of_rightSpent {sp : Spent} (hright : rightSpent env chain o = some sp) :
    sp.spentBlockHeight < chain.length :=
  lt_of_mem_spends (List.mem_filter.mp (mem_of_find hright)).1

theorem lt_of_rightDelta {key : HistoryKey} {delta : Int}
    (hright : rightDelta env chain key = some delta) : key.blockHeight < chain.length := by
  have hall : (entries chain).filter (fun x => decide (x.height < chain.length)) = entries chain :=
    List.filter_eq_self.mpr fun x hx => decide_eq_true (height_lt hx)
  have hkey : rightDelta env chain key =
      (rightDelta env chain key).filter fun _ => decide (key.blockHeight < chain.length) := by
    conv_lhs => rw [rightDelta, ← hall, touches_filter fun h => decide (h < chain.length),
      sumAt_filter (q := fun key : HistoryKey => decide (key.blockHeight < chain.length))]
    rfl
  rw [hkey] at hright
  exact of_decide_eq_true (Option.filter_eq_some_iff.mp hright).2

end Heights

variable {rows spent : Nat}

/-- A database that misses nothing of a chain is its index. -/
theorem Follows.indexOf (h : Follows env chain rows spent t) (hrows : chain.length ≤ rows)
    (hspent : chain.length ≤ spent) : IndexOf env chain t where
  blocks k := (h.blocks k).eq_of_lt fun _ hrow => (lt_of_rightBlock hrow).trans_le hrows
  transactions k := (h.transactions k).eq_of_lt fun _ hrow =>
    (lt_of_rightTransaction hrow).trans_le hrows
  outputs o := by
    have houtput := (h.outputs o).eq_of_lt fun _ hrow => (lt_of_rightOutput hrow).trans_le hrows
    rw [← houtput, Option.map_map]
    cases hget : t.outputs.get o with
    | none => rfl
    | some row =>
      have hright := (h.spent o row hget).eq_of_lt fun _ hsp =>
        (lt_of_rightSpent hsp).trans_le hspent
      rw [Option.map_some, ← hright]
      rfl
  addressHistory k := (h.addressHistory k).eq_of_lt fun _ hdelta =>
    (lt_of_rightDelta hdelta).trans_le hrows

namespace IndexOf

section

variable (h : IndexOf env chain t)

include h

theorem same (h' : IndexOf env chain t') : Tables.Same t t' where
  blocks k := (h.blocks k).trans (h'.blocks k).symm
  transactions k := (h.transactions k).trans (h'.transactions k).symm
  outputs k := (h.outputs k).trans (h'.outputs k).symm
  addressHistory k := (h.addressHistory k).trans (h'.addressHistory k).symm

theorem spent_eq {row : OutputRow} (hrow : t.outputs.get o = some row) :
    row.spent = rightSpent env chain o := by
  rw [h.outputs] at hrow
  obtain ⟨_, -, rfl⟩ := Option.map_eq_some_iff.mp hrow
  rfl

theorem inserted (o : OutPoint) :
    (t.outputs.get o).map OutputRow.inserted = rightOutput env chain o := by
  rw [h.outputs, Option.map_map]
  cases hright : rightOutput env chain o with
  | none => rfl
  | some row =>
    have hspent := rightOutput_spent hright
    show some { row with spent := none } = some row
    rw [← hspent]

theorem follows : Follows env chain rows spent t where
  blocks k := .inl (h.blocks k)
  transactions k := .inl (h.transactions k)
  outputs o := .inl (h.inserted o)
  spent _ _ hrow := .inl (h.spent_eq hrow)
  addressHistory k := .inl (h.addressHistory k)

end

end IndexOf

/-! ## The blocks below a height -/

section Take

theorem rightBlock_take {h : Nat} :
    rightBlock env (chain.take n) h = (rightBlock env chain h).filter fun _ => h < n := by
  have hkeys : (((numbered chain).map (blockRow env)).map Prod.fst).Nodup := by
    rw [blockRows_keys, numbered_map_fst]
    exact List.nodup_range
  have hfilter : (numbered (chain.take n)).map (blockRow env) =
      ((numbered chain).map (blockRow env)).filter fun r => r.1 < n := by
    rw [numbered_take, List.filter_map]
    rfl
  unfold rightBlock
  rw [hfilter, find_filter hkeys]

section

variable (hvalid : ValidChain env chain)

include hvalid

theorem rightTransaction_take {txid : Txid} :
    rightTransaction env (chain.take n) txid =
      (rightTransaction env chain txid).filter fun row => row.blockHeight < n := by
  unfold rightTransaction
  rw [entries_take, transactionRows_filter fun h => h < n, find_filter hvalid.transactionKeys]

theorem rightOutput_take :
    rightOutput env (chain.take n) o =
      (rightOutput env chain o).filter fun row => row.blockHeight < n := by
  unfold rightOutput
  rw [entries_take, outputRows_filter fun h => h < n, find_filter hvalid.outputKeys]

/-- What the first blocks of a chain spend was created by them. -/
theorem infoOf_take {spend : OutPoint × Spent}
    (hspend : spend ∈ spends env (entries (chain.take n))) :
    infoOf env (chain.take n) spend.1 = infoOf env chain spend.1 := by
  obtain ⟨x, hx, hspend⟩ := List.mem_flatMap.mp hspend
  obtain ⟨earlier, later, hsplit⟩ := List.append_of_mem hx
  have hkey := (hvalid.take n).earlier earlier x later hsplit spend
    (by unfold spends; rwa [List.flatMap_singleton])
  obtain ⟨out, hout, heq⟩ := List.mem_map.mp hkey
  obtain ⟨y, hy, hout⟩ := List.mem_flatMap.mp hout
  have hmem : y ∈ entries (chain.take n) := hsplit ▸ List.mem_append_left _ hy
  have hmem' : y ∈ entries chain := (List.mem_filter.mp (entries_take n ▸ hmem)).1
  rw [← heq, (hvalid.take n).infoOf_of_created hmem hout, hvalid.infoOf_of_created hmem' hout]

theorem rightSpent_take :
    rightSpent env (chain.take n) o =
      (rightSpent env chain o).filter fun sp => sp.spentBlockHeight < n := by
  have hinfo : marks env (infoOf env (chain.take n)) (entries (chain.take n)) =
      marks env (infoOf env chain) (entries (chain.take n)) :=
    List.filter_congr fun spend hspend => by rw [infoOf_take hvalid hspend]
  unfold rightSpent
  rw [hinfo, entries_take, marks_filter fun h => h < n, find_filter hvalid.markKeys]

theorem rightDelta_take {key : HistoryKey} :
    rightDelta env (chain.take n) key =
      (rightDelta env chain key).filter fun _ => key.blockHeight < n := by
  have hinfo : touches env (infoOf env (chain.take n)) (entries (chain.take n)) =
      touches env (infoOf env chain) (entries (chain.take n)) := by
    refine List.flatMap_congr fun x hx => congrArg (· ++ _) ?_
    refine List.filterMap_congr fun spend hspend => ?_
    unfold debit
    rw [infoOf_take hvalid (List.mem_flatMap.mpr ⟨x, hx, hspend⟩)]
  unfold rightDelta
  rw [hinfo, entries_take, touches_filter fun h => h < n,
    sumAt_filter (q := fun key : HistoryKey => decide (key.blockHeight < n))]

/-- A database that follows the blocks below a height follows the chain. -/
theorem Follows.of_take (h : Follows env (chain.take n) rows spent t) (hrows : rows ≤ n)
    (hspent : spent ≤ n) :
    Follows env chain rows spent t where
  blocks k := .of_filter (rightBlock_take ▸ h.blocks k) hrows
  transactions k := .of_filter (rightTransaction_take hvalid ▸ h.transactions k) hrows
  outputs o := .of_filter (rightOutput_take hvalid ▸ h.outputs o) hrows
  spent o row hrow := .of_filter (rightSpent_take hvalid ▸ h.spent o row hrow) hspent
  addressHistory k := .of_filter (rightDelta_take hvalid ▸ h.addressHistory k) hrows

/-- A database that follows the blocks below a height follows those below a greater one. -/
theorem Follows.lift {m : Nat} (hle : m ≤ n) (h : Follows env (chain.take m) rows spent t)
    (hrows : rows ≤ m) (hspent : spent ≤ m) : Follows env (chain.take n) rows spent t := by
  have htake : (chain.take n).take m = chain.take m := by
    rw [List.take_take, Nat.min_eq_left hle]
  exact Follows.of_take (hvalid.take n) (htake.symm ▸ h) hrows hspent

end

end Take

/-! ## Reverts -/

section Revert

variable {rows spent k : Nat}

/-- The row of an output after a revert. -/
theorem get_outputs_revertToHeight :
    (revertToHeight k t).outputs.get o =
      ((t.outputs.get o).map fun row =>
        { row with spent := row.spent.filter fun sp => sp.spentBlockHeight < k + 1 }).filter
          fun row => row.blockHeight < k + 1 := by
  show ((t.outputs.retain _).retain _).get o = _
  rw [IndexMap.get_retain_upto, IndexMap.get_retain]
  congr 1
  cases t.outputs.get o with
  | none => rfl
  | some row =>
    obtain ⟨address, value, script, height, spent⟩ := row
    cases spent with
    | none => rfl
    | some sp =>
      by_cases hsp : k < sp.spentBlockHeight
      · simp [Option.filter_some, hsp]
      · simp [Option.filter_some, hsp, Nat.not_lt.mp hsp]

/-- A revert to a height leads back to the index of the blocks up to this height. -/
theorem Follows.indexOf_revertToHeight (hvalid : ValidChain env chain)
    (h : Follows env chain rows spent t) (hrows : k < rows) (hspent : k < spent) :
    IndexOf env (chain.take (k + 1)) (revertToHeight k t) where
  blocks n := by
    rw [rightBlock_take, ← (h.blocks n).filter_eq hrows]
    exact IndexMap.get_retain_upto
  transactions txid := by
    rw [rightTransaction_take hvalid, ← (h.transactions txid).filter_eq hrows]
    exact IndexMap.get_retain_upto
  outputs o := by
    rw [rightOutput_take hvalid, ← (h.outputs o).filter_eq hrows, get_outputs_revertToHeight]
    cases hget : t.outputs.get o with
    | none => rfl
    | some row =>
      rw [rightSpent_take hvalid, ← (h.spent o row hget).filter_eq hspent, Option.map_some,
        Option.map_some, Option.filter_some, Option.filter_some, OutputRow.inserted_blockHeight]
      split
      · rfl
      · rfl
  addressHistory key := by
    rw [rightDelta_take hvalid, ← (h.addressHistory key).filter_eq hrows]
    exact IndexMap.get_retain_upto

/-- The index of the blocks that a revert leaves. -/
theorem IndexOf.revert (hvalid : ValidChain env chain) (h : IndexOf env chain t) :
    IndexOf env (chain.take (k + 1)) (revertToHeight k t) := by
  have hfollows : Follows env chain (k + 1) (k + 1) t := h.follows
  exact hfollows.indexOf_revertToHeight hvalid (Nat.lt_succ_self k) (Nat.lt_succ_self k)

end Revert

/-! ## Batches from the first block on -/

/-- The database after the blocks below a height have been indexed in some batches. -/
inductive Indexed (env : IndexerEnv SE) (chain : List Block) : Nat → Tables → Prop
  | empty : Indexed env chain 0 .empty
  | batch {start stop : Nat} {t : Tables} : Indexed env chain start t → start ≤ stop →
      stop ≤ chain.length →
      Indexed env chain stop (indexBlocksBatch env (blockRange chain start stop) t)

variable {start stop : Nat}

theorem blockRange_take (hle : stop ≤ n) :
    blockRange (chain.take n) start stop = blockRange chain start stop := by
  unfold blockRange
  rw [numbered_take, List.filter_filter]
  refine List.filter_congr fun b _ => ?_
  by_cases hb : b.1 < n
  · rw [decide_eq_true hb, Bool.and_true]
  · rw [decide_eq_false hb, Bool.and_false, decide_eq_false fun hin => hb (hin.2.trans_le hle)]

/-- A batch of the blocks below a height. -/
theorem Follows.indexBlocksBatch (hvalid : ValidChain env chain)
    (h : Follows env (chain.take n) rows spent t) (hrows : start ≤ rows) (hspent : start ≤ spent)
    (hstop : stop ≤ n) :
    Follows env (chain.take n) stop stop
      (indexBlocksBatch env (blockRange chain start stop) t) := by
  rw [← blockRange_take hstop]
  have hbatch := h.indexBlocksBatch_blockRange (hvalid.take n) hrows hspent
    (Nat.le_max_right spent stop) fun _ _ _ _ _ _ _ => Nat.lt_or_ge ..
  exact hbatch.mono (Nat.le_max_right ..) (Nat.le_refl _)

/-- The next batch on the index of the blocks below its heights. -/
theorem IndexOf.indexBlocksBatch (hvalid : ValidChain env chain) (hle : start ≤ stop)
    (h : IndexOf env (chain.take start) t) :
    IndexOf env (chain.take stop) (indexBlocksBatch env (blockRange chain start stop) t) := by
  have hfollows : Follows env (chain.take stop) start start t :=
    h.follows.lift hvalid hle (Nat.le_refl _) (Nat.le_refl _)
  have hbatch := hfollows.indexBlocksBatch hvalid (Nat.le_refl _) (Nat.le_refl _) (Nat.le_refl stop)
  have hlength := List.length_take_le stop chain
  exact hbatch.indexOf hlength hlength

theorem Indexed.indexOf (hvalid : ValidChain env chain) (h : Indexed env chain n t) :
    IndexOf env (chain.take n) t := by
  induction h with
  | empty =>
    rw [List.take_zero]
    exact Follows.empty.indexOf (Nat.le_refl 0) (Nat.le_refl 0)
  | batch _ hle _ ih => exact ih.indexBlocksBatch hvalid hle

/-- Indexing a chain and reverting to a height gives what indexing up to this height gives, in
whatever batches. -/
theorem revertToHeight_indexed (hvalid : ValidChain env chain) {k : Nat} (hk : k < n)
    (h : Indexed env chain n t) (h' : Indexed env chain (k + 1) t') :
    Tables.Same (revertToHeight k t) t' := by
  have hindex := (h.indexOf hvalid).revert (hvalid.take n) (k := k)
  rw [List.take_take, Nat.min_eq_left hk] at hindex
  exact hindex.same (h'.indexOf hvalid)

end

namespace Reference

/-- The first blocks in one batch, the others in another one. -/
theorem indexed_twice (vout stop : Nat) (h : stop ≤ 102) :
    ∃ t, Indexed env (chainSpending vout) stop t := by
  have hlength : (chainSpending vout).length = 102 := rfl
  have hfirst : Indexed env (chainSpending vout) (stop / 2) _ :=
    .batch .empty (Nat.zero_le _) (by omega)
  exact ⟨_, hfirst.batch (by omega) (by omega)⟩

/-- A revert across a spend. -/
theorem revertToHeight_first :
    ∃ t t', Indexed env (chainSpending 0) 102 t ∧ Indexed env (chainSpending 0) 51 t' ∧
      Tables.Same (revertToHeight 50 t) t' := by
  obtain ⟨t, ht⟩ := indexed_twice 0 102 (by decide)
  obtain ⟨t', ht'⟩ := indexed_twice 0 51 (by decide)
  exact ⟨t, t', ht, ht',
    revertToHeight_indexed (validChain_chainSpending (by decide)) (by decide) ht ht'⟩

end Reference

end Subcoin.Indexer
