import Subcoin.Indexer.Ledger

/-!
# Subcoin — what a batch writes

A batch looks up the outputs that it spends in the database as it was before and then among
its own outputs. When the database follows a valid chain up to the first block of the batch, both
lookups only find what the chain says, and the buffers hold the rows of the chain for the heights of
the batch (`foldl_processBlock`). Writing them makes the database follow the chain up to the last
block of the batch, whatever it held of these heights before (`Follows.indexBlocksBatch`): rows of
heights above stay, but the spends of outputs of the batch that were recorded for these heights are
lost.
-/

namespace Subcoin.Indexer

open Rows IndexMap

variable {SE : Type} {env : IndexerEnv SE}

/-! ## Buffers -/

namespace Buffers

variable {cache info : OutPoint → Option (String × Nat)} {height : Nat} {txid : Txid} {b : Buffers}

/-- The buffers with further spends and amounts. -/
def record (b : Buffers) (updates : List (OutPoint × Spent)) (amounts : List (HistoryKey × Int)) :
    Buffers :=
  { b with
    spentUpdates := b.spentUpdates ++ updates
    addressHistoryMap := amounts.foldl IndexMap.add b.addressHistoryMap }

theorem record_nil : b.record [] [] = b := by
  unfold record
  rw [List.append_nil]
  rfl

theorem record_record {updates updates' : List (OutPoint × Spent)}
    {amounts amounts' : List (HistoryKey × Int)} :
    (b.record updates amounts).record updates' amounts' =
      b.record (updates ++ updates') (amounts ++ amounts') := by
  unfold record
  rw [List.append_assoc, List.foldl_append]

theorem processInput_eq {input : TxIn × Nat}
    (hinfo : input.1.previousOutput.isNull = false →
      b.outputInfo cache input.1.previousOutput = info input.1.previousOutput) :
    b.processInput cache height txid input =
      b.record ((spendsOf height txid [input]).filter fun spend => (info spend.1).isSome)
        ((spendsOf height txid [input]).filterMap (debit info)) := by
  unfold processInput spendsOf
  cases hnull : input.1.previousOutput.isNull with
  | true => simp [hnull, record_nil]
  | false =>
    simp only [hinfo hnull]
    cases hlook : info input.1.previousOutput with
    | none => simp [hnull, hlook, debit, record_nil]
    | some found => simp [hnull, hlook, debit, record]

theorem foldl_processInput (info : OutPoint → Option (String × Nat)) {inputs : List (TxIn × Nat)}
    (hinfo : ∀ i ∈ inputs, i.1.previousOutput.isNull = false →
      b.outputInfo cache i.1.previousOutput = info i.1.previousOutput) :
    inputs.foldl (processInput cache height txid) b =
      b.record ((spendsOf height txid inputs).filter fun spend => (info spend.1).isSome)
        ((spendsOf height txid inputs).filterMap (debit info)) := by
  induction inputs generalizing b with
  | nil => exact record_nil.symm
  | cons i inputs ih =>
    have hcons : spendsOf height txid (i :: inputs) =
        spendsOf height txid [i] ++ spendsOf height txid inputs := by
      unfold spendsOf
      rw [← List.map_append, ← List.filter_append, List.singleton_append]
    rw [List.foldl_cons, processInput_eq (hinfo i (by simp)), ih, record_record, hcons,
      List.filter_append, List.filterMap_append]
    -- The lookup does not read what is recorded.
    exact fun j hj => hinfo j (List.mem_cons_of_mem i hj)

/-- What a batch remembers of an output for spending within the batch. -/
def remembered (env : IndexerEnv SE) (out : TxOut) : Option String × Nat :=
  (scriptToAddress env out.scriptPubkey, out.value)

/-- The buffers with further outputs. -/
def create (env : IndexerEnv SE) (height : Nat) (b : Buffers) (outs : List (OutPoint × TxOut)) :
    Buffers :=
  { b with
    outputsData := b.outputsData ++ outs.map fun out => (out.1, outputRow env height out.2)
    batchOutputs := fun o => ((Rows.find outs.reverse o).map (remembered env)).or (b.batchOutputs o)
    addressHistoryMap :=
      (outs.filterMap (credit env height)).foldl IndexMap.add b.addressHistoryMap }

theorem create_nil : b.create env height [] = b := by
  unfold create
  rw [List.map_nil, List.append_nil]
  rfl

theorem create_create {outs outs' : List (OutPoint × TxOut)} :
    (b.create env height outs).create env height outs' = b.create env height (outs ++ outs') := by
  unfold create
  simp only [List.map_append, List.append_assoc, List.filterMap_append, List.foldl_append,
    List.reverse_append, find_append, Option.map_or, Option.or_assoc]

theorem processOutput_eq {output : TxOut × Nat} :
    b.processOutput env height txid output =
      b.create env height [(⟨txid, output.2⟩, output.1)] := by
  have hbatch : Function.update b.batchOutputs ⟨txid, output.2⟩ (some (remembered env output.1)) =
      fun o => ((find [((⟨txid, output.2⟩ : OutPoint), output.1)] o).map
        (remembered env)).or (b.batchOutputs o) := by
    funext o
    rw [Function.update_apply, find_cons]
    by_cases ho : o = ⟨txid, output.2⟩
    · simp [ho]
    · simp [ho, Ne.symm ho, find]
  unfold processOutput create
  rw [List.reverse_singleton, ← hbatch]
  cases haddress : scriptToAddress env output.1.scriptPubkey with
  | none => simp [credit, addressed, haddress, remembered, outputRow]
  | some address => simp [credit, addressed, haddress, remembered, outputRow]

theorem foldl_processOutput {outputs : List (TxOut × Nat)} :
    outputs.foldl (processOutput env height txid) b =
      b.create env height (outputs.map fun out => (⟨txid, out.2⟩, out.1)) := by
  induction outputs generalizing b with
  | nil => exact create_nil.symm
  | cons out outputs ih =>
    rw [List.foldl_cons, processOutput_eq, ih, create_create, List.map_cons, List.singleton_append]

/-- The buffers that hold given block rows and the rows of given transactions. -/
def collected (env : IndexerEnv SE) (info : OutPoint → Option (String × Nat))
    (rows : List (Nat × BlockRow)) (es : List Entry) : Buffers where
  blocksData := rows
  transactionsData := es.map (transactionRow env)
  outputsData := outputRows env es
  spentUpdates := marks env info es
  addressHistoryMap := .tally (touches env info es)
  batchOutputs := fun o => (Rows.find (es.flatMap (created env)).reverse o).map (remembered env)

variable {rows : List (Nat × BlockRow)} {es : List Entry}

/-- The lookups find what `info` says for everything that a transaction spends. -/
def Resolves (env : IndexerEnv SE) (cache info : OutPoint → Option (String × Nat))
    (es : List Entry) (x : Entry) : Prop :=
  ∀ spend ∈ spends env [x],
    ((cache spend.1).or (Rows.find (es.flatMap (created env)).reverse spend.1 |>.bind
      (addressed env))) = info spend.1

variable {o : OutPoint} {x : Entry} {blocks : List (Nat × Block)} {row : OutputRow} {h : Nat}

theorem outputInfo_collected :
    (collected env info rows es).outputInfo cache o =
      (cache o).or ((find (es.flatMap (created env)).reverse o).bind (addressed env)) := by
  unfold outputInfo collected
  rw [Option.bind_map]
  rfl

theorem processTx_collected (h : Resolves env cache info es x) :
    (collected env info rows es).processTx env cache x.height (x.tx, x.index) =
      collected env info rows (es ++ [x]) := by
  have hinputs : ∀ i ∈ x.tx.input.zipIdx, i.1.previousOutput.isNull = false →
      (collected env info rows es).outputInfo cache i.1.previousOutput =
        info i.1.previousOutput := by
    intro i hi hnull
    have hspend : (i.1.previousOutput, (⟨env.computeTxid x.tx, i.2, x.height⟩ : Spent)) ∈
        spends env [x] := by
      unfold spends spendsOf
      rw [List.flatMap_singleton]
      exact List.mem_map.mpr ⟨i, List.mem_filter.mpr ⟨hi, by rw [hnull]; rfl⟩, rfl⟩
    exact outputInfo_collected.trans (h _ hspend)
  unfold processTx
  simp only
  rw [foldl_processInput info, foldl_processOutput]
  · unfold record create collected marks spends outputRows touches tally
    simp only [List.map_append, List.map_singleton, List.flatMap_append, List.flatMap_singleton,
      List.filter_append, List.foldl_append, List.reverse_append, find_append, Option.map_or]
    rfl
  · -- The lookup does not read the transactions of the batch.
    exact hinputs

theorem foldl_processTx {xs : List Entry}
    (h : ∀ before x after, xs = before ++ x :: after → Resolves env cache info (es ++ before) x) :
    xs.foldl (fun b x => b.processTx env cache x.height (x.tx, x.index))
      (collected env info rows es) = collected env info rows (es ++ xs) := by
  induction xs generalizing es with
  | nil => rw [List.foldl_nil, List.append_nil]
  | cons x xs ih =>
    have hx : Resolves env cache info es x := by
      have hfirst := h [] x xs rfl
      rwa [List.append_nil] at hfirst
    rw [List.foldl_cons, processTx_collected hx, ih, List.append_assoc, List.singleton_append]
    intro before y after hsplit
    rw [List.append_assoc, List.singleton_append]
    exact h (x :: before) y after (by rw [hsplit, List.cons_append])

theorem processBlock_collected {block : Nat × Block}
    (h : ∀ before x after, entriesOf [block] = before ++ x :: after →
      Resolves env cache info (es ++ before) x) :
    (collected env info rows es).processBlock env cache block =
      collected env info (rows ++ [blockRow env block]) (es ++ entriesOf [block]) := by
  rw [← foldl_processTx h]
  unfold entriesOf
  rw [List.flatMap_singleton, List.foldl_map]
  rfl

theorem foldl_processBlock (rows : List (Nat × BlockRow))
    (h : ∀ before x after, entriesOf blocks = before ++ x :: after → Resolves env cache info (es
      ++ before) x) :
    blocks.foldl (processBlock env cache) (collected env info rows es) =
      collected env info (rows ++ blocks.map (blockRow env)) (es ++ entriesOf blocks) := by
  induction blocks generalizing rows es with
  | nil =>
    show collected env info rows es = collected env info (rows ++ []) (es ++ [])
    rw [List.append_nil, List.append_nil]
  | cons block blocks ih =>
    have hcons : entriesOf (block :: blocks) = entriesOf [block] ++ entriesOf blocks := by
      unfold entriesOf
      rw [← List.flatMap_append, List.singleton_append]
    rw [hcons] at h
    rw [List.foldl_cons, processBlock_collected, ih, hcons, List.map_cons, List.append_assoc,
      List.append_assoc, List.singleton_append]
    · intro before x after hsplit
      rw [List.append_assoc]
      exact h (entriesOf [block] ++ before) x after (by rw [hsplit, List.append_assoc])
    · intro before x after hsplit
      refine h before x (after ++ entriesOf blocks) ?_
      rw [hsplit, List.append_assoc, List.cons_append]

/-- The inputs of a transaction leave the rows of blocks and transactions. -/
theorem frame_foldl_processInput (inputs : List (TxIn × Nat)) (b : Buffers) :
    (inputs.foldl (processInput cache height txid) b).blocksData = b.blocksData ∧
      (inputs.foldl (processInput cache height txid) b).transactionsData = b.transactionsData := by
  induction inputs generalizing b with
  | nil => exact ⟨rfl, rfl⟩
  | cons i inputs ih =>
    rw [List.foldl_cons, (ih _).1, (ih _).2]
    unfold processInput
    simp only
    split
    · exact ⟨rfl, rfl⟩
    · split
      · exact ⟨rfl, rfl⟩
      · exact ⟨rfl, rfl⟩

/-- The rows of a transaction's block and of the transaction itself do not depend on what the
lookups find. -/
theorem frame_foldl_processTx (txs : List (Transaction × Nat)) (b : Buffers) :
    (txs.foldl (processTx env cache height) b).blocksData = b.blocksData ∧
      (txs.foldl (processTx env cache height) b).transactionsData =
        b.transactionsData ++ txs.map fun tx => (env.computeTxid tx.1, ⟨height, tx.2⟩) := by
  induction txs generalizing b with
  | nil => exact ⟨rfl, (List.append_nil _).symm⟩
  | cons tx txs ih =>
    rw [List.foldl_cons, (ih _).1, (ih _).2, List.map_cons, ← List.singleton_append,
      ← List.append_assoc]
    unfold processTx
    simp only [foldl_processOutput]
    exact ⟨(frame_foldl_processInput _ _).1,
      congrArg (· ++ _) (frame_foldl_processInput _ _).2⟩

/-- The rows of the blocks do not depend on what the lookups find. -/
theorem blocksData_foldl_processBlock :
    (blocks.foldl (processBlock env cache) b).blocksData =
      b.blocksData ++ blocks.map (blockRow env) := by
  induction blocks generalizing b with
  | nil => exact (List.append_nil _).symm
  | cons block blocks ih =>
    rw [List.foldl_cons, ih, List.map_cons, ← List.singleton_append, ← List.append_assoc]
    exact congrArg (· ++ _) (frame_foldl_processTx _ _).1

end Buffers

/-! ## Lookups -/

section Lookups

variable {chain : List Block} {rows spent start stop : Nat} {t : Tables}

/-- A transaction of a range, and what comes before it in the range and in the chain. -/
theorem split_blockRange {before after : List Entry}
    (h : entriesOf (blockRange chain start stop) = before ++ x :: after) :
    ∃ earlier later, entries chain = earlier ++ x :: later ∧
      before = earlier.filter (fun y => start ≤ y.height ∧ y.height < stop) ∧ x.height < stop := by
  rw [entriesOf_blockRange] at h
  obtain ⟨l, l', hchain, hl, hl'⟩ := List.filter_eq_append_iff.mp h
  obtain ⟨m, later, rfl, hm, hx, -⟩ := List.filter_eq_cons_iff.mp hl'
  refine ⟨l ++ m, later, by rw [hchain, List.append_assoc], ?_, (of_decide_eq_true hx).2⟩
  rw [List.filter_append, List.filter_eq_nil_iff.mpr hm, List.append_nil, hl]

/-- What a batch spends is fetched. -/
theorem mem_outpointsToFetch (hx : x ∈ entriesOf blocks) {spend : OutPoint × Spent}
    (hspend : spend ∈ spends env [x]) : spend.1 ∈ outpointsToFetch blocks := by
  obtain ⟨b, hb, -, htx⟩ := mem_entriesOf.mp hx
  unfold spends spendsOf at hspend
  rw [List.flatMap_singleton] at hspend
  obtain ⟨i, hi, rfl⟩ := List.mem_map.mp hspend
  obtain ⟨hi, hnull⟩ := List.mem_filter.mp hi
  refine List.mem_flatMap.mpr ⟨b, hb, List.mem_flatMap.mpr ⟨x.tx, ?_, ?_⟩⟩
  · exact List.fst_mem_of_mem_zipIdx htx
  · exact List.mem_filter.mpr ⟨List.mem_map.mpr ⟨i.1, List.fst_mem_of_mem_zipIdx hi, rfl⟩, hnull⟩

variable {out : OutPoint × TxOut} {y : Entry}

section

variable (hvalid : ValidChain env chain)

include hvalid

/-- An output of a chain and what the chain says about it. -/
theorem ValidChain.rightOutput_of_created (hy : y ∈ entries chain) (hout : out ∈ created env y) :
    rightOutput env chain out.1 = some (outputRow env y.height out.2) := by
  refine (find_eq_some hvalid.outputKeys).mpr (List.mem_flatMap.mpr ⟨y, hy, ?_⟩)
  exact List.mem_map.mpr ⟨out, hout, rfl⟩

theorem ValidChain.infoOf_of_created (hy : y ∈ entries chain) (hout : out ∈ created env y) :
    infoOf env chain out.1 = addressed env out.2 := by
  have hfind : find ((entries chain).flatMap (created env)) out.1 = some out.2 :=
    (find_eq_some hvalid.createdKeys).mpr (List.mem_flatMap.mpr ⟨y, hy, hout⟩)
  unfold infoOf
  rw [hfind, Option.bind_some]

/-- The database only knows what the chain says about an output. -/
theorem fetchOutputs_eq (h : Follows env chain rows spent t) (hy : y ∈ entries chain)
    (hout : out ∈ created env y) {outpoints : List OutPoint} (hmem : out.1 ∈ outpoints)
    (hrow : t.outputs.get out.1 = some row) :
    fetchOutputs t outpoints out.1 = addressed env out.2 := by
  have hpresent := h.outputs out.1
  rw [hrow, Option.map_some] at hpresent
  have hright := Option.some.inj
    (hpresent.eq_of_some.symm.trans (hvalid.rightOutput_of_created hy hout))
  have haddress := congrArg OutputRow.address hright
  have hvalue := congrArg OutputRow.value hright
  have hlt := hvalid.lt_of_created hy hout
  unfold fetchOutputs addressed
  rw [OutputRow.inserted_address, outputRow_address] at haddress
  rw [OutputRow.inserted_value, outputRow_value, toSigned_of_lt hlt] at hvalue
  rw [if_pos hmem, hrow, Option.bind_some, haddress, hvalue, toUnsigned_of_lt (by omega)]

/-- Both lookups of a batch find what the chain says. -/
theorem resolves_blockRange (h : Follows env chain rows spent t) (hstart : start ≤ rows)
    {before after : List Entry}
    (hsplit : entriesOf (blockRange chain start stop) = before ++ x :: after) :
    Buffers.Resolves env (fetchOutputs t (outpointsToFetch (blockRange chain start stop)))
      (infoOf env chain) before x := by
  intro spend hspend
  have hfetch : spend.1 ∈ outpointsToFetch (blockRange chain start stop) :=
    mem_outpointsToFetch (hsplit ▸ List.mem_append_right before (List.mem_cons_self ..)) hspend
  obtain ⟨earlier, later, hchain, hbefore, hx⟩ := split_blockRange hsplit
  -- The output was created by an earlier transaction.
  obtain ⟨out, hout, hkey⟩ := List.mem_map.mp (hvalid.earlier _ _ _ hchain spend hspend)
  obtain ⟨y, hy, hout⟩ := List.mem_flatMap.mp hout
  have hyc : y ∈ entries chain := hchain ▸ List.mem_append_left _ hy
  have hle : y.height ≤ x.height := by
    have hpair := hchain ▸ pairwise_entries chain
    exact (List.pairwise_append.mp hpair).2.2 y hy x (List.mem_cons_self ..)
  -- The batch only remembers outputs of the chain.
  have hsub : (before.flatMap (created env)).Sublist ((entries chain).flatMap (created env)) := by
    rw [hbefore, hchain]
    exact (List.filter_sublist.trans (List.sublist_append_left _ _)).flatMap _
  have hnodup : ((before.flatMap (created env)).reverse.map Prod.fst).Nodup := by
    rw [List.map_reverse, List.nodup_reverse]
    exact hvalid.createdKeys.sublist (hsub.map _)
  have hbatch : ∀ out', find (before.flatMap (created env)).reverse out.1 = some out' →
      out' = out.2 := by
    intro out' hfind
    have hmem := List.mem_reverse.mp ((find_eq_some hnodup).mp hfind)
    have hright : (out.1, out.2) ∈ (entries chain).flatMap (created env) :=
      List.mem_flatMap.mpr ⟨y, hyc, hout⟩
    have heq := (find_eq_some hvalid.createdKeys).mpr (hsub.subset hmem)
    rw [(find_eq_some hvalid.createdKeys).mpr hright] at heq
    exact (Option.some.inj heq).symm
  rw [← hkey, hvalid.infoOf_of_created hyc hout]
  rw [← hkey] at hfetch
  cases hget : t.outputs.get out.1 with
  | some row =>
    rw [fetchOutputs_eq hvalid h hyc hout hfetch hget]
    cases hfind : find (before.flatMap (created env)).reverse out.1 with
    | none => rw [Option.bind_none, Option.or_none]
    | some out' => rw [hbatch out' hfind, Option.bind_some, Option.or_self]
  | none =>
    -- Then the output is of the batch itself.
    have hfetched :
        fetchOutputs t (outpointsToFetch (blockRange chain start stop)) out.1 = none := by
      unfold fetchOutputs
      rw [if_pos hfetch, hget, Option.bind_none]
    have hheight : start ≤ y.height := by
      have hpresent := h.outputs out.1
      rw [hget, hvalid.rightOutput_of_created hyc hout] at hpresent
      rcases hpresent with heq | ⟨-, habove⟩
      · cases heq
      · exact hstart.trans (habove _ rfl)
    have hmem : y ∈ before := by
      rw [hbefore, List.mem_filter]
      exact ⟨hy, decide_eq_true ⟨hheight, by omega⟩⟩
    have hfind : find (before.flatMap (created env)).reverse out.1 = some out.2 := by
      refine (find_eq_some hnodup).mpr (List.mem_reverse.mpr ?_)
      exact List.mem_flatMap.mpr ⟨y, hmem, hout⟩
    rw [hfetched, hfind, Option.none_or, Option.bind_some]

end

end Lookups

/-! ## Writing -/

/-- A block only takes the place of the row of its own height when hashes say which height is
meant. -/
theorem Tables.get_insertBlock {blocks : IndexMap Nat BlockRow} {row : Nat × BlockRow}
    (hsame : ∀ h old, blocks.get h = some old → old.hash = row.2.hash → h = row.1) :
    (insertBlock blocks row).get h = if h = row.1 then some row.2 else blocks.get h := by
  unfold insertBlock
  rw [get_insert]
  by_cases hh : h = row.1
  · rw [if_pos hh, if_pos hh]
  · rw [if_neg hh, if_neg hh, get_retain]
    cases hget : blocks.get h with
    | none => rfl
    | some old => exact if_neg fun hhash => hh (hsame h old hget hhash)

theorem Tables.get_foldl_insertBlock {right : Nat → Option BlockRow}
    (hright : ∀ {h h' row row'}, right h = some row → right h' = some row' → row.hash = row'.hash →
      h = h') {rows : List (Nat × BlockRow)} (hnodup : (rows.map Prod.fst).Nodup)
    (hrows : ∀ row ∈ rows, right row.1 = some row.2) {blocks : IndexMap Nat BlockRow}
    (hblocks : ∀ h row, blocks.get h = some row → right h = some row) (h : Nat) :
    (rows.foldl insertBlock blocks).get h = (find rows h).or (blocks.get h) := by
  induction rows generalizing blocks with
  | nil => rfl
  | cons row rows ih =>
    obtain ⟨hnew, hnodup⟩ := List.nodup_cons.mp hnodup
    have hrow := hrows row (List.mem_cons_self ..)
    have hget : ∀ h, (insertBlock blocks row).get h =
        if h = row.1 then some row.2 else blocks.get h := fun h =>
      get_insertBlock fun h old hold hhash => hright (hblocks h old hold) hrow hhash
    have hkept : ∀ h old, (insertBlock blocks row).get h = some old → right h = some old := by
      intro h old hold
      rw [hget] at hold
      split at hold
      · rename_i hh
        cases hold
        exact hh ▸ hrow
      · exact hblocks h old hold
    rw [List.foldl_cons, ih hnodup (fun r hr => hrows r (List.mem_cons_of_mem row hr)) hkept, hget,
      find_cons]
    by_cases hh : row.1 = h
    · subst hh
      rw [find_eq_none.mpr hnew]
      simp
    · simp [hh, Ne.symm hh]

section Writes

variable {chain : List Block} {rows spent spent' start stop : Nat} {t : Tables}

theorem indexBlocksBatch_eq :
    indexBlocksBatch env blocks t =
      (blocks.foldl (Buffers.processBlock env (fetchOutputs t (outpointsToFetch blocks)))
        .empty).write t := by
  cases blocks with
  | nil => rfl
  | cons _ _ => rfl

/-- A batch of a valid chain writes the rows of the chain. -/
theorem indexBlocksBatch_blockRange (hvalid : ValidChain env chain)
    (h : Follows env chain rows spent t) (hstart : start ≤ rows) :
    indexBlocksBatch env (blockRange chain start stop) t =
      (Buffers.collected env (infoOf env chain) ((blockRange chain start stop).map (blockRow env))
        (entriesOf (blockRange chain start stop))).write t := by
  have hresolves : ∀ before x after,
      entriesOf (blockRange chain start stop) = before ++ x :: after →
      Buffers.Resolves env (fetchOutputs t (outpointsToFetch (blockRange chain start stop)))
        (infoOf env chain) ([] ++ before) x :=
    fun before x after hsplit => resolves_blockRange hvalid h hstart hsplit
  have hfold := Buffers.foldl_processBlock [] hresolves
  rw [indexBlocksBatch_eq]
  exact congrArg (fun b : Buffers => b.write t) hfold

theorem rightBlock_eq_some {row : BlockRow} (hright : rightBlock env chain h = some row) :
    ∃ block, chain[h]? = some block ∧ row.hash = env.hashOf block := by
  obtain ⟨b, hb, heq⟩ := List.mem_map.mp (mem_of_find hright)
  cases heq
  exact ⟨b.2, mem_numbered.mp hb, rfl⟩

theorem ValidChain.height_of_hash (hvalid : ValidChain env chain) {h' : Nat} {row row' : BlockRow}
    (hrow : rightBlock env chain h = some row) (hrow' : rightBlock env chain h' = some row')
    (hhash : row.hash = row'.hash) : h = h' := by
  obtain ⟨block, hblock, heq⟩ := rightBlock_eq_some hrow
  obtain ⟨block', hblock', heq'⟩ := rightBlock_eq_some hrow'
  obtain ⟨hlt, -⟩ := List.getElem?_eq_some_iff.mp hblock
  refine (List.getElem?_inj (l := chain.map env.hashOf) ?_ hvalid.hashes).mp ?_
  · rw [List.length_map]
    exact hlt
  · rw [List.getElem?_map, List.getElem?_map, hblock, hblock', Option.map_some, Option.map_some,
      ← heq, ← heq', hhash]

/-- An output is not spent below the height at which it was created. -/
theorem ValidChain.le_spent (hvalid : ValidChain env chain) {sp : Spent}
    (hrow : rightOutput env chain o = some row) (hspent : (o, sp) ∈ spends env (entries chain)) :
    row.blockHeight ≤ sp.spentBlockHeight := by
  obtain ⟨x, hx, hspend⟩ := List.mem_flatMap.mp hspent
  obtain ⟨earlier, later, hchain⟩ := List.append_of_mem hx
  have hkey := hvalid.earlier earlier x later hchain (o, sp)
    (by unfold spends; rwa [List.flatMap_singleton])
  obtain ⟨out, hout, rfl⟩ := List.mem_map.mp hkey
  obtain ⟨y, hy, hout⟩ := List.mem_flatMap.mp hout
  have hright := hvalid.rightOutput_of_created (hchain ▸ List.mem_append_left _ hy) hout
  have heq : row = outputRow env y.height out.2 := Option.some.inj (hrow.symm.trans hright)
  have hpair := hchain ▸ pairwise_entries chain
  have hle := (List.pairwise_append.mp hpair).2.2 y hy x (List.mem_cons_self ..)
  obtain ⟨i, -, hi⟩ := List.mem_map.mp hspend
  rw [heq, ← (Prod.mk.inj hi).2]
  exact hle

/-! The rows that a batch writes are what the chain says about its heights. -/

theorem find_blockRows_blockRange :
    find ((blockRange chain start stop).map (blockRow env)) h =
      (rightBlock env chain h).filter fun _ => start ≤ h ∧ h < stop := by
  have hkeys : (((numbered chain).map (blockRow env)).map Prod.fst).Nodup := by
    rw [blockRows_keys, numbered_map_fst]
    exact List.nodup_range
  have hfilter : (blockRange chain start stop).map (blockRow env) =
      ((numbered chain).map (blockRow env)).filter fun r => start ≤ r.1 ∧ r.1 < stop := by
    rw [List.filter_map]
    rfl
  rw [hfilter, find_filter hkeys]
  rfl

theorem find_transactionRows_blockRange (hvalid : ValidChain env chain) {txid : Txid} :
    find ((entriesOf (blockRange chain start stop)).map (transactionRow env)) txid =
      (rightTransaction env chain txid).filter fun row =>
        start ≤ row.blockHeight ∧ row.blockHeight < stop := by
  rw [entriesOf_blockRange, transactionRows_filter fun h => start ≤ h ∧ h < stop,
    find_filter hvalid.transactionKeys]
  rfl

theorem find_outputRows_blockRange (hvalid : ValidChain env chain) :
    find (outputRows env (entriesOf (blockRange chain start stop))) o =
      (rightOutput env chain o).filter fun row =>
        start ≤ row.blockHeight ∧ row.blockHeight < stop := by
  rw [entriesOf_blockRange, outputRows_filter fun h => start ≤ h ∧ h < stop,
    find_filter hvalid.outputKeys]
  rfl

theorem find_marks_blockRange (hvalid : ValidChain env chain) :
    find (marks env (infoOf env chain) (entriesOf (blockRange chain start stop))) o =
      (rightSpent env chain o).filter fun sp =>
        start ≤ sp.spentBlockHeight ∧ sp.spentBlockHeight < stop := by
  rw [entriesOf_blockRange, marks_filter fun h => start ≤ h ∧ h < stop,
    find_filter hvalid.markKeys]
  rfl

theorem sumAt_touches_blockRange {key : HistoryKey} :
    sumAt (touches env (infoOf env chain) (entriesOf (blockRange chain start stop))) key =
      (rightDelta env chain key).filter fun _ =>
        start ≤ key.blockHeight ∧ key.blockHeight < stop := by
  rw [entriesOf_blockRange, touches_filter fun h => start ≤ h ∧ h < stop,
    sumAt_filter (q := fun key : HistoryKey =>
      decide (start ≤ key.blockHeight ∧ key.blockHeight < stop))]
  rfl

/-! What the tables hold after a batch, in terms of what they held before. -/

section Get

variable {blockRows : List (Nat × BlockRow)} {es : List Entry}

theorem get_blocks_write (hvalid : ValidChain env chain)
    (hblocks : ∀ h row, t.blocks.get h = some row → rightBlock env chain h = some row) :
    ((Buffers.collected env (infoOf env chain) ((blockRange chain start stop).map (blockRow env))
        es).write t).blocks.get h =
      ((rightBlock env chain h).filter fun _ => start ≤ h ∧ h < stop).or (t.blocks.get h) := by
  have hkeys : (((numbered chain).map (blockRow env)).map Prod.fst).Nodup := by
    rw [blockRows_keys, numbered_map_fst]
    exact List.nodup_range
  have hsub : ((blockRange chain start stop).map (blockRow env)).Sublist
      ((numbered chain).map (blockRow env)) := List.filter_sublist.map _
  rw [← find_blockRows_blockRange]
  refine Tables.get_foldl_insertBlock hvalid.height_of_hash (hkeys.sublist (hsub.map _)) ?_
    hblocks h
  exact fun row hrow => (find_eq_some hkeys).mpr (hsub.subset hrow)

theorem get_transactions_write (hvalid : ValidChain env chain) {txid : Txid} :
    ((Buffers.collected env (infoOf env chain) blockRows
        (entriesOf (blockRange chain start stop))).write t).transactions.get txid =
      ((rightTransaction env chain txid).filter fun row =>
        start ≤ row.blockHeight ∧ row.blockHeight < stop).or (t.transactions.get txid) := by
  have hkeys : (((entriesOf (blockRange chain start stop)).map (transactionRow env)).map
      Prod.fst).Nodup := by
    rw [entriesOf_blockRange]
    exact hvalid.transactionKeys.sublist ((List.filter_sublist.map _).map _)
  rw [← find_transactionRows_blockRange hvalid]
  exact get_upsert hkeys

theorem get_addressHistory_write {key : HistoryKey} :
    ((Buffers.collected env (infoOf env chain) blockRows
        (entriesOf (blockRange chain start stop))).write t).addressHistory.get key =
      ((rightDelta env chain key).filter fun _ =>
        start ≤ key.blockHeight ∧ key.blockHeight < stop).or (t.addressHistory.get key) := by
  rw [← sumAt_touches_blockRange, ← get_tally]
  exact get_upsert (nodup _)

theorem get_outputs_write (hvalid : ValidChain env chain) :
    ((Buffers.collected env (infoOf env chain) blockRows
        (entriesOf (blockRange chain start stop))).write t).outputs.get o =
      (((rightOutput env chain o).filter fun row =>
          start ≤ row.blockHeight ∧ row.blockHeight < stop).or (t.outputs.get o)).map fun row =>
        { row with
          spent := ((rightSpent env chain o).filter fun sp =>
            start ≤ sp.spentBlockHeight ∧ sp.spentBlockHeight < stop).or row.spent } := by
  have houtputs : ((outputRows env (entriesOf (blockRange chain start stop))).map
      Prod.fst).Nodup := by
    rw [entriesOf_blockRange]
    exact hvalid.outputKeys.sublist ((List.filter_sublist.flatMap _).map _)
  have hmarks : ((marks env (infoOf env chain) (entriesOf (blockRange chain start stop))).map
      Prod.fst).Nodup := by
    rw [entriesOf_blockRange, marks_filter fun h => start ≤ h ∧ h < stop]
    exact hvalid.markKeys.sublist (List.filter_sublist.map _)
  show (amend _ (t.outputs.upsert (outputRows env _)) (marks env _ _)).get o = _
  rw [get_amend hmarks, get_upsert houtputs, find_outputRows_blockRange hvalid,
    find_marks_blockRange hvalid]
  congr 1
  funext row
  cases (rightSpent env chain o).filter fun sp =>
      start ≤ sp.spentBlockHeight ∧ sp.spentBlockHeight < stop with
  | none => rfl
  | some sp => rfl

end Get

theorem rightOutput_spent (h : rightOutput env chain o = some row) : row.spent = none := by
  obtain ⟨x, -, hrow⟩ := List.mem_flatMap.mp (mem_of_find h)
  obtain ⟨out, -, heq⟩ := List.mem_map.mp hrow
  rw [← (Prod.mk.inj heq).2, outputRow_spent]

theorem map_inserted_rightOutput {p : OutputRow → Bool} :
    ((rightOutput env chain o).filter p).map OutputRow.inserted =
      (rightOutput env chain o).filter p := by
  cases hnew : (rightOutput env chain o).filter p with
  | none => rfl
  | some row =>
    have hspent := rightOutput_spent (Option.filter_eq_some_iff.mp hnew).1
    rw [Option.map_some, OutputRow.inserted, ← hspent]

/-- What is recorded of the spend of an output that a batch inserts. -/
theorem present_rightSpent (hvalid : ValidChain env chain)
    (hrow : rightOutput env chain o = some row) (hstart : start ≤ row.blockHeight)
    (hcross : ∀ sp, rightSpent env chain o = some sp → sp.spentBlockHeight < stop ∨ spent' ≤
      sp.spentBlockHeight) :
    Present Spent.spentBlockHeight spent' (rightSpent env chain o)
      ((rightSpent env chain o).filter fun sp =>
        start ≤ sp.spentBlockHeight ∧ sp.spentBlockHeight < stop) := by
  cases hright : rightSpent env chain o with
  | none => exact .inl rfl
  | some sp =>
    have hmem := (List.mem_filter.mp (mem_of_find hright)).1
    have hle := hvalid.le_spent hrow hmem
    by_cases hlt : sp.spentBlockHeight < stop
    · refine .inl ?_
      rw [Option.filter_some, if_pos (decide_eq_true ⟨by omega, hlt⟩)]
    · refine .inr ⟨?_, fun sp' hsp' => ?_⟩
      · rw [Option.filter_some, if_neg fun hin => hlt (of_decide_eq_true hin).2]
      · cases hsp'
        exact (hcross sp hright).resolve_left hlt

/-- A batch of a valid chain on a database that follows the chain up to its first block. The spends
of outputs of the batch are recorded up to `spent'` when none of them is between the batch and
`spent'`. -/
theorem Follows.indexBlocksBatch_blockRange (hvalid : ValidChain env chain)
    (h : Follows env chain rows spent t) (hrows : start ≤ rows) (hspent : start ≤ spent)
    (hle : spent' ≤ max spent stop)
    (hcross : ∀ o row sp, rightOutput env chain o = some row → start ≤ row.blockHeight →
      row.blockHeight < stop → rightSpent env chain o = some sp →
      sp.spentBlockHeight < stop ∨ spent' ≤ sp.spentBlockHeight) :
    Follows env chain (max rows stop) spent'
      (indexBlocksBatch env (blockRange chain start stop) t) := by
  rw [Indexer.indexBlocksBatch_blockRange hvalid h hrows]
  refine ⟨fun k => ?_, fun txid => ?_, fun o => ?_, fun o row hrow => ?_, fun key => ?_⟩
  · rw [get_blocks_write hvalid fun k row hrow => (hrow ▸ h.blocks k).eq_of_some]
    exact (h.blocks k).write hrows rfl
  · rw [get_transactions_write hvalid]
    exact (h.transactions txid).write hrows rfl
  · rw [get_outputs_write hvalid, Option.map_map, Option.map_or]
    exact (h.outputs o).write hrows map_inserted_rightOutput
  · rw [get_outputs_write hvalid] at hrow
    obtain ⟨old, hold, rfl⟩ := Option.map_eq_some_iff.mp hrow
    cases hnew : (rightOutput env chain o).filter fun row =>
        start ≤ row.blockHeight ∧ row.blockHeight < stop with
    | none =>
      rw [hnew, Option.none_or] at hold
      exact ((h.spent o old hold).write hspent rfl).mono hle
    | some new =>
      obtain ⟨hright, hin⟩ := Option.filter_eq_some_iff.mp hnew
      obtain ⟨hstart, hstop⟩ := of_decide_eq_true hin
      rw [hnew, Option.some_or] at hold
      cases hold
      show Present _ _ _ (Option.or _ old.spent)
      rw [rightOutput_spent hright, Option.or_none]
      exact present_rightSpent hvalid hright hstart fun sp => hcross o old sp hright hstart hstop
  · rw [get_addressHistory_write]
    exact (h.addressHistory key).write hrows rfl

end Writes

end Subcoin.Indexer
