import Mathlib.Data.List.Basic
import Subcoin.Indexer.Database

/-!
# Subcoin — what a chain says about the index

A chain is the list of its blocks, that of height `h` at position `h`. The rows that an index of
it should have are lists read off the transactions of the chain in their order: `transactionRows`,
`outputRows`, the spends among the outputs that have an address (`marks`), and the amounts that
addresses receive and send (`touches`). Every row carries a height, so that the rows of a range of
blocks are those of the chain within its heights.
-/

namespace Subcoin.Indexer

variable {SE : Type} (env : IndexerEnv SE)

/-- A transaction of a chain and where it is. -/
structure Entry where
  height : Nat
  index : Nat
  tx : Transaction

/-- The transactions of numbered blocks, in order. -/
def entriesOf (blocks : List (Nat × Block)) : List Entry :=
  blocks.flatMap fun b => b.2.txdata.zipIdx.map fun tx => ⟨b.1, tx.2, tx.1⟩

/-- The blocks of a chain with their heights. -/
def numbered (chain : List Block) : List (Nat × Block) := chain.zipIdx.map Prod.swap

/-- The blocks of the heights from `start` to below `stop`. -/
def blockRange (chain : List Block) (start stop : Nat) : List (Nat × Block) :=
  (numbered chain).filter fun b => start ≤ b.1 ∧ b.1 < stop

def entries (chain : List Block) : List Entry := entriesOf (numbered chain)

/-! ## Rows -/

def blockRow (b : Nat × Block) : Nat × BlockRow :=
  (b.1, ⟨env.hashOf b.2, b.2.header.time.toNat⟩)

def transactionRow (x : Entry) : Txid × TransactionRow :=
  (env.computeTxid x.tx, ⟨x.height, x.index⟩)

/-- The outputs of a transaction under their outpoints. -/
def created (x : Entry) : List (OutPoint × TxOut) :=
  x.tx.output.zipIdx.map fun out => (⟨env.computeTxid x.tx, out.2⟩, out.1)

/-- The row of an output as it was inserted. -/
def OutputRow.inserted (row : OutputRow) : OutputRow := { row with spent := none }

variable {row : OutputRow} {spent : Option Spent} {height : Nat} {out : TxOut}
  {blocks : List (Nat × Block)} {x : Entry} {info : OutPoint → Option (String × Nat)}
  {es : List Entry}

@[simp] theorem OutputRow.inserted_address : row.inserted.address = row.address := rfl

@[simp] theorem OutputRow.inserted_value : row.inserted.value = row.value := rfl

@[simp] theorem OutputRow.inserted_blockHeight : row.inserted.blockHeight = row.blockHeight := rfl

/-- The row of an output with what is recorded of its spend. -/
def OutputRow.withSpent (spent : Option Spent) (row : OutputRow) : OutputRow :=
  { row with spent := spent }

@[simp] theorem OutputRow.withSpent_address : (row.withSpent spent).address = row.address := rfl

@[simp] theorem OutputRow.withSpent_value : (row.withSpent spent).value = row.value := rfl

@[simp] theorem OutputRow.withSpent_spent : (row.withSpent spent).spent = spent := rfl

/-- The row of an output that is not spent. -/
def outputRow (height : Nat) (out : TxOut) : OutputRow :=
  ⟨scriptToAddress env out.scriptPubkey, toSigned 64 out.value, out.scriptPubkey, height, none⟩

@[simp] theorem outputRow_address :
    (outputRow env height out).address = scriptToAddress env out.scriptPubkey := rfl

@[simp] theorem outputRow_value : (outputRow env height out).value = toSigned 64 out.value := rfl

@[simp] theorem outputRow_blockHeight : (outputRow env height out).blockHeight = height := rfl

@[simp] theorem outputRow_spent : (outputRow env height out).spent = none := rfl

/-- What the inputs of a transaction spend, and how the rows of these outputs say so. -/
def spendsOf (height : Nat) (txid : Txid) (inputs : List (TxIn × Nat)) : List (OutPoint × Spent) :=
  (inputs.filter fun i => !i.1.previousOutput.isNull).map fun i =>
    (i.1.previousOutput, ⟨txid, i.2, height⟩)

/-- The address and the value of an output that has an address. -/
def addressed (out : TxOut) : Option (String × Nat) :=
  (scriptToAddress env out.scriptPubkey).map fun address => (address, out.value)

/-- The amount that an address receives with an output. -/
def credit (height : Nat) (out : OutPoint × TxOut) : Option (HistoryKey × Int) :=
  (addressed env out.2).map fun info =>
    (⟨info.1, height, out.1.txid⟩, toSigned 64 info.2)

/-- The amount that an address sends with a spend. -/
def debit (info : OutPoint → Option (String × Nat)) (spend : OutPoint × Spent) :
    Option (HistoryKey × Int) :=
  (info spend.1).map fun info =>
    (⟨info.1, spend.2.spentBlockHeight, spend.2.spentTxid⟩, -toSigned 64 info.2)

def outputRows (es : List Entry) : List (OutPoint × OutputRow) :=
  es.flatMap fun x => (created env x).map fun out => (out.1, outputRow env x.height out.2)

/-- All that the transactions spend. -/
def spends (es : List Entry) : List (OutPoint × Spent) :=
  es.flatMap fun x => spendsOf x.height (env.computeTxid x.tx) x.tx.input.zipIdx

/-- The spends whose output has an address. -/
def marks (info : OutPoint → Option (String × Nat)) (es : List Entry) : List (OutPoint × Spent) :=
  (spends env es).filter fun spend => (info spend.1).isSome

/-- The amounts that addresses send and receive, in the order of the transactions. -/
def touches (info : OutPoint → Option (String × Nat)) (es : List Entry) :
    List (HistoryKey × Int) :=
  es.flatMap fun x =>
    (spendsOf x.height (env.computeTxid x.tx) x.tx.input.zipIdx).filterMap (debit info) ++
      (created env x).filterMap (credit env x.height)

/-- The outputs of a chain that have an address. -/
def infoOf (chain : List Block) (o : OutPoint) : Option (String × Nat) :=
  (Rows.find ((entries chain).flatMap (created env)) o).bind (addressed env)

/-! ## Valid chains -/

/-- What indexing needs of a valid chain: the hashes of its blocks and the identifiers of its
transactions are different, a transaction spends outputs of earlier ones, no output is spent twice,
and amounts are in the range of money. -/
structure ValidChain (chain : List Block) : Prop where
  hashes : (chain.map env.hashOf).Nodup
  txids : ((entries chain).map fun x => env.computeTxid x.tx).Nodup
  earlier : ∀ before x after, entries chain = before ++ x :: after →
    ∀ spend ∈ spends env [x], spend.1 ∈ (before.flatMap (created env)).map Prod.fst
  once : ((spends env (entries chain)).map Prod.fst).Nodup
  money : ∀ x ∈ entries chain, ∀ out ∈ x.tx.output, out.value ≤ maxMoney

/-! ## What the index of a chain should hold -/

def rightBlock (chain : List Block) (height : Nat) : Option BlockRow :=
  Rows.find ((numbered chain).map (blockRow env)) height

def rightTransaction (chain : List Block) (txid : Txid) : Option TransactionRow :=
  Rows.find ((entries chain).map (transactionRow env)) txid

/-- The row of an output as it is inserted. -/
def rightOutput (chain : List Block) (o : OutPoint) : Option OutputRow :=
  Rows.find (outputRows env (entries chain)) o

/-- How the row of an output says that it is spent. -/
def rightSpent (chain : List Block) (o : OutPoint) : Option Spent :=
  Rows.find (marks env (infoOf env chain) (entries chain)) o

def rightDelta (chain : List Block) (key : HistoryKey) : Option Int :=
  Rows.sumAt (touches env (infoOf env chain) (entries chain)) key

/-- Every row is the right one or is missing, and the missing ones are those of heights from `rows`
on; every spend is recorded rightly or is missing, and the missing ones are those of heights from
`spent` on. -/
structure Follows (chain : List Block) (rows spent : Nat) (t : Tables) : Prop where
  blocks : ∀ h, Present (fun _ => h) rows (rightBlock env chain h) (t.blocks.get h)
  transactions : ∀ txid, Present TransactionRow.blockHeight rows (rightTransaction env chain txid)
    (t.transactions.get txid)
  outputs : ∀ o, Present OutputRow.blockHeight rows (rightOutput env chain o)
    ((t.outputs.get o).map OutputRow.inserted)
  spent : ∀ o row, t.outputs.get o = some row →
    Present Spent.spentBlockHeight spent (rightSpent env chain o) row.spent
  addressHistory : ∀ key, Present (fun _ => key.blockHeight) rows (rightDelta env chain key)
    (t.addressHistory.get key)

/-- The database is the index of the chain. -/
structure IndexOf (chain : List Block) (t : Tables) : Prop where
  blocks : ∀ h, t.blocks.get h = rightBlock env chain h
  transactions : ∀ txid, t.transactions.get txid = rightTransaction env chain txid
  outputs : ∀ o, t.outputs.get o =
    (rightOutput env chain o).map (OutputRow.withSpent (rightSpent env chain o))
  addressHistory : ∀ key, t.addressHistory.get key = rightDelta env chain key

variable {env} {chain : List Block}

namespace Follows

variable {rows spent rows' spent' : Nat} {t : Tables}

theorem mono (h : Follows env chain rows spent t) (hrows : rows' ≤ rows) (hspent : spent' ≤ spent) :
    Follows env chain rows' spent' t where
  blocks k := (h.blocks k).mono hrows
  transactions k := (h.transactions k).mono hrows
  outputs k := (h.outputs k).mono hrows
  spent k row hrow := (h.spent k row hrow).mono hspent
  addressHistory k := (h.addressHistory k).mono hrows

theorem empty : Follows env chain 0 0 .empty where
  blocks _ := .inr ⟨rfl, fun _ _ => Nat.zero_le _⟩
  transactions _ := .inr ⟨rfl, fun _ _ => Nat.zero_le _⟩
  outputs _ := .inr ⟨rfl, fun _ _ => Nat.zero_le _⟩
  spent _ _ hrow := nomatch hrow
  addressHistory _ := .inr ⟨rfl, fun _ _ => Nat.zero_le _⟩

end Follows

/-! ## Heights -/

theorem mem_numbered {b : Nat × Block} : b ∈ numbered chain ↔ chain[b.1]? = some b.2 := by
  unfold numbered
  rw [List.mem_map]
  constructor
  · rintro ⟨p, hp, rfl⟩
    exact List.mem_zipIdx_iff_getElem?.mp hp
  · intro hb
    exact ⟨(b.2, b.1), List.mem_zipIdx_iff_getElem?.mpr hb, rfl⟩

theorem lt_of_mem_numbered {b : Nat × Block} (h : b ∈ numbered chain) : b.1 < chain.length :=
  (List.getElem?_eq_some_iff.mp (mem_numbered.mp h)).1

theorem numbered_map_fst : (numbered chain).map Prod.fst = List.range chain.length := by
  unfold numbered
  rw [List.map_map, List.range_eq_range']
  exact List.zipIdx_map_snd 0 chain

theorem mem_entriesOf :
    x ∈ entriesOf blocks ↔
      ∃ b ∈ blocks, x.height = b.1 ∧ (x.tx, x.index) ∈ b.2.txdata.zipIdx := by
  unfold entriesOf
  rw [List.mem_flatMap]
  constructor
  · rintro ⟨b, hb, hx⟩
    obtain ⟨tx, htx, rfl⟩ := List.mem_map.mp hx
    exact ⟨b, hb, rfl, htx⟩
  · rintro ⟨b, hb, hheight, htx⟩
    refine ⟨b, hb, List.mem_map.mpr ⟨(x.tx, x.index), htx, ?_⟩⟩
    rw [← hheight]

theorem height_lt (h : x ∈ entries chain) : x.height < chain.length := by
  obtain ⟨b, hb, hheight, -⟩ := mem_entriesOf.mp h
  exact hheight ▸ lt_of_mem_numbered hb

/-- The transactions of the blocks whose heights meet a condition. -/
theorem entriesOf_filter (p : Nat → Bool) :
    entriesOf (blocks.filter fun b => p b.1) = (entriesOf blocks).filter fun x => p x.height := by
  refine Rows.flatMap_filter fun b _ x hx => ?_
  obtain ⟨tx, -, rfl⟩ := List.mem_map.mp hx
  rfl

/-- Transactions come in the order of their heights. -/
theorem pairwise_entries (chain : List Block) :
    (entries chain).Pairwise fun x y => x.height ≤ y.height := by
  unfold entries entriesOf
  rw [List.pairwise_flatMap]
  constructor
  · intro b _
    rw [List.pairwise_map]
    exact List.pairwise_of_forall fun _ _ => Nat.le_refl _
  · have hlt : (numbered chain).Pairwise fun b b' => b.1 < b'.1 := by
      rw [← List.pairwise_map (f := Prod.fst), numbered_map_fst]
      exact List.pairwise_lt_range
    refine hlt.imp fun hb x hx y hy => ?_
    obtain ⟨_, -, rfl⟩ := List.mem_map.mp hx
    obtain ⟨_, -, rfl⟩ := List.mem_map.mp hy
    exact hb.le

/-- A chain starts with the blocks below a height. -/
theorem numbered_eq_append (chain : List Block) (n : Nat) :
    ∃ above, numbered chain = numbered (chain.take n) ++ above ∧ ∀ b ∈ above, n ≤ b.1 := by
  refine ⟨((chain.drop n).zipIdx (0 + (chain.take n).length)).map Prod.swap, ?_, fun b hb => ?_⟩
  · unfold numbered
    rw [← List.map_append, ← List.zipIdx_append, List.take_append_drop]
  · obtain ⟨p, hp, rfl⟩ := List.mem_map.mp hb
    have hle := List.le_snd_of_mem_zipIdx hp
    have hlt := List.snd_lt_add_of_mem_zipIdx hp
    rw [List.length_take] at hle hlt
    rw [List.length_drop] at hlt
    show n ≤ p.2
    omega

theorem numbered_take (n : Nat) :
    numbered (chain.take n) = (numbered chain).filter fun b => b.1 < n := by
  obtain ⟨above, heq, habove⟩ := numbered_eq_append chain n
  have hbelow : (numbered (chain.take n)).filter (fun b => b.1 < n) = numbered (chain.take n) := by
    refine List.filter_eq_self.mpr fun b hb => decide_eq_true ?_
    exact Nat.lt_of_lt_of_le (lt_of_mem_numbered hb) (List.length_take_le n chain)
  have hnil : above.filter (fun b => b.1 < n) = [] :=
    List.filter_eq_nil_iff.mpr fun b hb hlt =>
      absurd (of_decide_eq_true hlt) (Nat.not_lt.mpr (habove b hb))
  rw [heq, List.filter_append, hbelow, hnil, List.append_nil]

theorem entries_take (n : Nat) :
    entries (chain.take n) = (entries chain).filter fun x => x.height < n := by
  unfold entries
  rw [numbered_take, entriesOf_filter fun h => h < n]

theorem entries_eq_append (chain : List Block) (n : Nat) :
    ∃ above, entries chain = entries (chain.take n) ++ above := by
  obtain ⟨above, heq, -⟩ := numbered_eq_append chain n
  refine ⟨entriesOf above, ?_⟩
  unfold entries entriesOf
  rw [heq, List.flatMap_append]

theorem entriesOf_blockRange (start stop : Nat) :
    entriesOf (blockRange chain start stop) =
      (entries chain).filter fun x => start ≤ x.height ∧ x.height < stop :=
  entriesOf_filter fun h => start ≤ h ∧ h < stop

/-! ## The rows of some heights -/

section Filter

variable {es : List Entry} (p : Nat → Bool)

theorem transactionRows_filter :
    (es.filter fun x => p x.height).map (transactionRow env) =
      (es.map (transactionRow env)).filter fun r => p r.2.blockHeight := by
  rw [List.filter_map]
  rfl

theorem outputRows_filter :
    outputRows env (es.filter fun x => p x.height) =
      (outputRows env es).filter fun r => p r.2.blockHeight := by
  refine Rows.flatMap_filter fun x _ r hr => ?_
  obtain ⟨out, -, rfl⟩ := List.mem_map.mp hr
  rfl

theorem spends_filter :
    spends env (es.filter fun x => p x.height) =
      (spends env es).filter fun r => p r.2.spentBlockHeight := by
  refine Rows.flatMap_filter fun x _ r hr => ?_
  obtain ⟨i, -, rfl⟩ := List.mem_map.mp hr
  rfl

theorem marks_filter :
    marks env info (es.filter fun x => p x.height) =
      (marks env info es).filter fun r => p r.2.spentBlockHeight := by
  unfold marks
  rw [spends_filter, List.filter_comm]

theorem touches_filter :
    touches env info (es.filter fun x => p x.height) =
      (touches env info es).filter fun r => p r.1.blockHeight := by
  refine Rows.flatMap_filter fun x _ r hr => ?_
  rcases List.mem_append.mp hr with hdebit | hcredit
  · obtain ⟨spend, hspend, hr⟩ := List.mem_filterMap.mp hdebit
    obtain ⟨i, -, rfl⟩ := List.mem_map.mp hspend
    obtain ⟨info, -, rfl⟩ := Option.map_eq_some_iff.mp hr
    rfl
  · obtain ⟨out, -, hr⟩ := List.mem_filterMap.mp hcredit
    obtain ⟨info, -, rfl⟩ := Option.map_eq_some_iff.mp hr
    rfl

end Filter

/-! ## Keys -/

theorem nodup_created (h : (es.map fun x => env.computeTxid x.tx).Nodup) :
    ((es.flatMap (created env)).map Prod.fst).Nodup := by
  rw [List.map_flatMap, List.nodup_flatMap]
  constructor
  · intro x _
    have hkeys : (created env x).map Prod.fst =
        (List.range x.tx.output.length).map fun i => ⟨env.computeTxid x.tx, i⟩ := by
      unfold created
      rw [List.map_map, List.range_eq_range', ← List.zipIdx_map_snd 0 x.tx.output, List.map_map]
      rfl
    rw [hkeys]
    exact List.nodup_range.map fun i j hij => (OutPoint.mk.inj hij).2
  · refine (List.pairwise_map.mp h).imp fun hne => ?_
    refine List.disjoint_left.mpr fun o hx hy => hne ?_
    obtain ⟨r, hr, rfl⟩ := List.mem_map.mp hx
    obtain ⟨r', hr', heq⟩ := List.mem_map.mp hy
    obtain ⟨_, -, rfl⟩ := List.mem_map.mp hr
    obtain ⟨_, -, rfl⟩ := List.mem_map.mp hr'
    exact (OutPoint.mk.inj heq).1.symm

theorem outputRows_keys :
    (outputRows env es).map Prod.fst = (es.flatMap (created env)).map Prod.fst := by
  unfold outputRows
  rw [List.map_flatMap, List.map_flatMap]
  simp only [List.map_map]
  rfl

theorem transactionRows_keys :
    (es.map (transactionRow env)).map Prod.fst = es.map fun x => env.computeTxid x.tx :=
  List.map_map

theorem blockRows_keys : (blocks.map (blockRow env)).map Prod.fst = blocks.map Prod.fst :=
  List.map_map

namespace ValidChain

variable (h : ValidChain env chain)
include h

theorem createdKeys : (((entries chain).flatMap (created env)).map Prod.fst).Nodup :=
  nodup_created h.txids

theorem outputKeys : ((outputRows env (entries chain)).map Prod.fst).Nodup :=
  outputRows_keys ▸ h.createdKeys

theorem transactionKeys : (((entries chain).map (transactionRow env)).map Prod.fst).Nodup :=
  transactionRows_keys ▸ h.txids

theorem markKeys : ((marks env info (entries chain)).map Prod.fst).Nodup :=
  h.once.sublist (List.filter_sublist.map _)

/-- A prefix of a valid chain is valid. -/
theorem take (n : Nat) : ValidChain env (chain.take n) := by
  have hsub : (entries (chain.take n)).Sublist (entries chain) :=
    entries_take n ▸ List.filter_sublist
  refine ⟨h.hashes.sublist ((List.take_sublist n chain).map _), h.txids.sublist (hsub.map _), ?_,
    h.once.sublist ((hsub.flatMap _).map _), fun x hx => h.money x (hsub.subset hx)⟩
  obtain ⟨above, heq⟩ := entries_eq_append chain n
  intro before x after hsplit
  refine h.earlier before x (after ++ above) ?_
  rw [heq, hsplit, List.append_assoc, List.cons_append]

omit h in
/-- Whether every transaction spends outputs of earlier ones, position by position. -/
theorem earlier_of_take
    (hcheck : ∀ i < es.length, ∀ x ∈ es[i]?, ∀ spend ∈ spends env [x], spend.1 ∈ ((es.take
      i).flatMap (created env)).map Prod.fst) (before : List Entry) (x : Entry)
    (after : List Entry) (hsplit : es = before ++ x :: after) :
    ∀ spend ∈ spends env [x], spend.1 ∈ (before.flatMap (created env)).map Prod.fst := by
  have hx : x ∈ es[before.length]? := by
    rw [hsplit, List.getElem?_append_right (Nat.le_refl _), Nat.sub_self]
    rfl
  have htake : es.take before.length = before := by rw [hsplit, List.take_left]
  have hlt : before.length < es.length := (List.getElem?_eq_some_iff.mp hx).1
  exact htake ▸ hcheck before.length hlt x hx

theorem lt_of_created {out : OutPoint × TxOut} (hx : x ∈ entries chain)
    (hout : out ∈ created env x) : out.2.value < 2 ^ 63 := by
  obtain ⟨p, hp, rfl⟩ := List.mem_map.mp hout
  have hmoney := h.money x hx p.1 (List.fst_mem_of_mem_zipIdx hp)
  exact Nat.lt_of_le_of_lt hmoney (by decide)

end ValidChain

end Subcoin.Indexer
