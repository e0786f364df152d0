import Subcoin.Indexer.Reverting

/-!
# Subcoin — when outputs are marked as spent

The lookups of a batch leave out the outputs that have no address, so that the spend of such an
output is never recorded. The spends of all other outputs are.
-/

namespace Subcoin.Indexer

section

variable {SE : Type} (env : IndexerEnv SE) (chain : List Block)

/-- Input `spentVout` of transaction `spentTxid` in block `spentBlockHeight` spends the output. -/
def SpentBy (o : OutPoint) (sp : Spent) : Prop :=
  ∃ block tx input, chain[sp.spentBlockHeight]? = some block ∧ tx ∈ block.txdata ∧
    env.computeTxid tx = sp.spentTxid ∧ tx.input[sp.spentVout]? = some input ∧
    input.previousOutput = o ∧ o.isNull = false

/-- A transaction of the chain creates the output. -/
def CreatedAs (o : OutPoint) (out : TxOut) : Prop :=
  ∃ block ∈ chain, ∃ tx ∈ block.txdata, env.computeTxid tx = o.txid ∧
    tx.output[o.vout]? = some out

/-- The rows of outputs say which inputs spend them, and no others do. -/
def SpentExact (t : Tables) : Prop :=
  ∀ o row, t.outputs.get o = some row → ∀ sp, row.spent = some sp ↔ SpentBy env chain o sp

/-- Every output that is spent has an address. -/
def AddressedSpends : Prop :=
  ∀ o sp out, SpentBy env chain o sp → CreatedAs env chain o out →
    (scriptToAddress env out.scriptPubkey).isSome

variable {env chain}

theorem mem_entries {x : Entry} :
    x ∈ entries chain ↔
      ∃ block, chain[x.height]? = some block ∧ block.txdata[x.index]? = some x.tx := by
  unfold entries
  rw [mem_entriesOf]
  constructor
  · rintro ⟨b, hb, hheight, htx⟩
    exact ⟨b.2, hheight ▸ mem_numbered.mp hb, List.mem_zipIdx_iff_getElem?.mp htx⟩
  · rintro ⟨block, hblock, htx⟩
    exact ⟨(x.height, block), mem_numbered.mpr hblock, rfl, List.mem_zipIdx_iff_getElem?.mpr htx⟩

variable {o : OutPoint} {sp : Spent}

theorem mem_spends : (o, sp) ∈ spends env (entries chain) ↔ SpentBy env chain o sp := by
  constructor
  · intro h
    obtain ⟨x, hx, hspend⟩ := List.mem_flatMap.mp h
    obtain ⟨block, hblock, htx⟩ := mem_entries.mp hx
    obtain ⟨i, hi, heq⟩ := List.mem_map.mp hspend
    obtain ⟨hi, hnull⟩ := List.mem_filter.mp hi
    cases heq
    refine ⟨block, x.tx, i.1, hblock, List.mem_of_getElem? htx, rfl,
      List.mem_zipIdx_iff_getElem?.mp hi, rfl, ?_⟩
    rwa [Bool.not_eq_true'] at hnull
  · rintro ⟨block, tx, input, hblock, htx, htxid, hinput, rfl, hnull⟩
    obtain ⟨index, hindex⟩ := List.getElem?_of_mem htx
    refine List.mem_flatMap.mpr ⟨⟨sp.spentBlockHeight, index, tx⟩, ?_, ?_⟩
    · exact mem_entries.mpr ⟨block, hblock, hindex⟩
    · refine List.mem_map.mpr ⟨(input, sp.spentVout), List.mem_filter.mpr ⟨?_, ?_⟩, ?_⟩
      · exact List.mem_zipIdx_iff_getElem?.mpr hinput
      · rw [hnull]
        rfl
      · rw [htxid]

theorem mem_created {out : TxOut} :
    (o, out) ∈ (entries chain).flatMap (created env) ↔ CreatedAs env chain o out := by
  constructor
  · intro h
    obtain ⟨x, hx, hout⟩ := List.mem_flatMap.mp h
    obtain ⟨block, hblock, htx⟩ := mem_entries.mp hx
    obtain ⟨p, hp, heq⟩ := List.mem_map.mp hout
    cases heq
    exact ⟨block, List.mem_of_getElem? hblock, x.tx, List.mem_of_getElem? htx, rfl,
      List.mem_zipIdx_iff_getElem?.mp hp⟩
  · rintro ⟨block, hblock, tx, htx, htxid, hout⟩
    obtain ⟨height, hheight⟩ := List.getElem?_of_mem hblock
    obtain ⟨index, hindex⟩ := List.getElem?_of_mem htx
    refine List.mem_flatMap.mpr ⟨⟨height, index, tx⟩, ?_, ?_⟩
    · exact mem_entries.mpr ⟨block, hheight, hindex⟩
    · refine List.mem_map.mpr ⟨(out, o.vout), List.mem_zipIdx_iff_getElem?.mpr hout, ?_⟩
      rw [htxid]

namespace ValidChain

variable (hvalid : ValidChain env chain)
include hvalid

theorem infoOf_eq {out : TxOut} (h : CreatedAs env chain o out) :
    infoOf env chain o = addressed env out := by
  obtain ⟨x, hx, hout⟩ := List.mem_flatMap.mp (mem_created.mpr h)
  exact hvalid.infoOf_of_created hx hout

/-- What is spent was created, and its row is there. -/
theorem created_of_spent (h : SpentBy env chain o sp) :
    ∃ out, CreatedAs env chain o out ∧ (rightOutput env chain o).isSome := by
  obtain ⟨x, hx, hspend⟩ := List.mem_flatMap.mp (mem_spends.mpr h)
  obtain ⟨earlier, later, hchain⟩ := List.append_of_mem hx
  have hkey := hvalid.earlier earlier x later hchain (o, sp)
    (by unfold spends; rwa [List.flatMap_singleton])
  obtain ⟨out, hout, rfl⟩ := List.mem_map.mp hkey
  obtain ⟨y, hy, hout⟩ := List.mem_flatMap.mp hout
  have hmem : y ∈ entries chain := hchain ▸ List.mem_append_left _ hy
  refine ⟨out.2, mem_created.mp (List.mem_flatMap.mpr ⟨y, hmem, hout⟩), ?_⟩
  rw [hvalid.rightOutput_of_created hmem hout]
  rfl

/-- The spends that are recorded. -/
theorem rightSpent_eq_some :
    rightSpent env chain o = some sp ↔ SpentBy env chain o sp ∧ (infoOf env chain o).isSome := by
  unfold rightSpent
  rw [Rows.find_eq_some hvalid.markKeys, marks, List.mem_filter, mem_spends]

end ValidChain

/-- The status of outputs is exact when everything that is spent has an address, and only then. -/
theorem spentExact_iff (hvalid : ValidChain env chain) {t : Tables}
    (h : Indexed env chain chain.length t) :
    SpentExact env chain t ↔ AddressedSpends env chain := by
  have hindex : IndexOf env chain t := by
    have htake := h.indexOf hvalid
    rwa [List.take_length] at htake
  constructor
  · intro hexact o sp out hspent hcreated
    obtain ⟨-, -, hsome⟩ := hvalid.created_of_spent hspent
    obtain ⟨row, hrow⟩ := Option.isSome_iff_exists.mp hsome
    have hget := hindex.outputs o
    rw [hrow, Option.map_some] at hget
    have hmark := (hexact o _ hget sp).mpr hspent
    have hinfo := (hvalid.rightSpent_eq_some.mp hmark).2
    rwa [hvalid.infoOf_eq hcreated, addressed, Option.isSome_map] at hinfo
  · intro haddressed o row hget sp
    rw [hindex.spent_eq hget, hvalid.rightSpent_eq_some]
    refine and_iff_left_of_imp fun hspent => ?_
    obtain ⟨out, hcreated, -⟩ := hvalid.created_of_spent hspent
    rw [hvalid.infoOf_eq hcreated, addressed, Option.isSome_map]
    exact haddressed o sp out hspent hcreated

end

namespace Reference

/-- The output of the first block that is spent pays to a key. -/
theorem addressedSpends_key : AddressedSpends env (chainSpending 0) := by
  have hvalid : ValidChain env (chainSpending 0) := validChain_chainSpending (by decide)
  have hchecked : ∀ spend ∈ spends env (entries (chainSpending 0)),
      (infoOf env (chainSpending 0) spend.1).isSome := by decide +kernel
  intro o sp out hspent hcreated
  have hinfo := hchecked _ (mem_spends.mpr hspent)
  rwa [hvalid.infoOf_eq hcreated, addressed, Option.isSome_map] at hinfo

theorem spentExact_key :
    ∃ t, Indexed env (chainSpending 0) 102 t ∧ SpentExact env (chainSpending 0) t := by
  obtain ⟨t, ht⟩ := indexed_twice 0 102 (by decide)
  exact ⟨t, ht, (spentExact_iff (validChain_chainSpending (by decide)) ht).mpr addressedSpends_key⟩

/-- An output without an address is spent, and its row says that it is not. -/
theorem not_spentExact_bare :
    ∃ t, Indexed env (chainSpending 1) 102 t ∧ ¬ SpentExact env (chainSpending 1) t := by
  obtain ⟨t, ht⟩ := indexed_twice 1 102 (by decide)
  have hindex : IndexOf env (chainSpending 1) t :=
    ht.indexOf (validChain_chainSpending (by decide))
  have hchecked : ∃ spend ∈ spends env (entries (chainSpending 1)),
      (rightOutput env (chainSpending 1) spend.1).isSome ∧
        rightSpent env (chainSpending 1) spend.1 = none := by decide +kernel
  obtain ⟨spend, hspend, hsome, hnone⟩ := hchecked
  obtain ⟨row, hrow⟩ := Option.isSome_iff_exists.mp hsome
  have hget := hindex.outputs spend.1
  rw [hrow, Option.map_some] at hget
  refine ⟨t, ht, fun hexact => ?_⟩
  have hmark : rightSpent env (chainSpending 1) spend.1 = some spend.2 :=
    (hexact _ _ hget spend.2).mpr (mem_spends.mp hspend)
  rw [hnone] at hmark
  cases hmark

end Reference

end Subcoin.Indexer
