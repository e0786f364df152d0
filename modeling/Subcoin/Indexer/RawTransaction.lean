import Subcoin.Indexer.Live
import Subcoin.Mempool.Indexes
import Subcoin.Mempool.Reference

/-!
# Subcoin — getrawtransaction

A transaction that is not in the mempool is looked up in the `transactions` table, which gives the
height of its block and its index there, and is then read from the block of the canonical chain at
that height. The answer is right as long as the rows of the table point into the canonical chain
(`Points`), whatever else the index has missed.

* **`Live.Rooted.apply`** — an import that takes out at most the best block keeps the rows right.
* **`answers_of_runs`** — so `getrawtransaction` answers about the asked transaction, along every
  run of such imports.
-/

namespace Subcoin.Indexer

section

variable {SE : Type} (env : IndexerEnv SE)

/-! ## The query -/

inductive RawTransactionError where
  | transactionNotFound
  | blockNotFound
deriving DecidableEq

/-- An answer. The other fields of the JSON object are read off the transaction. -/
inductive RawTransaction where
  | hex (tx : Transaction)
  | json (tx : Transaction) (blockhash : Option BlockHash) (confirmations : Option Int)
      (blocktime : Option Nat)

namespace RawTransaction

def tx : RawTransaction → Transaction
  | hex tx => tx
  | json tx _ _ _ => tx

def blockhash : RawTransaction → Option BlockHash
  | hex _ => none
  | json _ blockhash _ _ => blockhash

end RawTransaction

def calculateConfirmations (best height : Nat) : Int :=
  if best < height then 0 else toSigned 32 (best - height + 1)

/-- `get_raw_transaction`; `mempool` is `network_api.get_transaction`, and `canonical` the best
chain. -/
def getRawTransaction (mempool : Txid → Option Transaction) (canonical : List Block) (t : Tables)
    (txid : Txid) (verbose : Bool) : Except RawTransactionError RawTransaction :=
  match mempool txid with
  | some tx => if verbose then .ok (.json tx none none none) else .ok (.hex tx)
  | none =>
    match t.transactions.get txid with
    | none => .error .transactionNotFound
    | some row =>
      match canonical[row.blockHeight]? with
      | none => .error .blockNotFound
      | some block =>
        match block.txdata[row.txIndex]? with
        | none => .error .transactionNotFound
        | some tx =>
          if verbose then
            .ok (.json tx (some (env.hashOf block))
              (some (calculateConfirmations (canonical.length - 1) row.blockHeight))
              (some block.header.time.toNat))
          else .ok (.hex tx)

/-- The answer is about the transaction that was asked for, and a block that is reported is on the
canonical chain and contains it. -/
structure Answers (canonical : List Block) (txid : Txid) (answer : RawTransaction) : Prop where
  txid_eq : env.computeTxid answer.tx = txid
  block : ∀ hash, answer.blockhash = some hash →
    ∃ block ∈ canonical, env.hashOf block = hash ∧ answer.tx ∈ block.txdata

/-! ## Rows that point into a chain -/

/-- The transaction at a position of a chain has the txid. -/
def PointsTo (chain : List Block) (txid : Txid) (row : TransactionRow) : Prop :=
  ∃ block tx, chain[row.blockHeight]? = some block ∧ block.txdata[row.txIndex]? = some tx ∧
    env.computeTxid tx = txid

def Points (chain : List Block) (t : Tables) : Prop :=
  ∀ txid row, t.transactions.get txid = some row → PointsTo env chain txid row

end

section

variable {SE : Type} {env : IndexerEnv SE} {chain chain' : List Block} {t : Tables}

theorem Points.answers (h : Points env chain t) {mempool : Txid → Option Transaction}
    (hmempool : ∀ txid tx, mempool txid = some tx → env.computeTxid tx = txid) {txid : Txid}
    {verbose : Bool} {answer : RawTransaction}
    (hanswer : getRawTransaction env mempool chain t txid verbose = .ok answer) :
    Answers env chain txid answer := by
  unfold getRawTransaction at hanswer
  cases hmem : mempool txid with
  | some tx =>
    have htxid := hmempool txid tx hmem
    rw [hmem] at hanswer
    cases verbose with
    | true =>
      cases hanswer
      exact ⟨htxid, nofun⟩
    | false =>
      cases hanswer
      exact ⟨htxid, nofun⟩
  | none =>
    rw [hmem] at hanswer
    cases hrow : t.transactions.get txid with
    | none =>
      rw [hrow] at hanswer
      cases hanswer
    | some row =>
      obtain ⟨block, tx, hblock, htx, htxid⟩ := h txid row hrow
      simp only [hrow, hblock, htx] at hanswer
      cases verbose with
      | true =>
        cases hanswer
        refine ⟨htxid, fun hash hhash => ?_⟩
        cases hhash
        exact ⟨block, List.mem_of_getElem? hblock, rfl, List.mem_of_getElem? htx⟩
      | false =>
        cases hanswer
        exact ⟨htxid, nofun⟩

/-! ## What keeps the rows right -/

theorem PointsTo.lt {txid : Txid} {row : TransactionRow} (h : PointsTo env chain txid row) :
    row.blockHeight < chain.length := by
  obtain ⟨block, tx, hblock, -⟩ := h
  exact (List.getElem?_eq_some_iff.mp hblock).1

/-- Rows below a height that two chains have in common. -/
theorem PointsTo.of_take {txid : Txid} {row : TransactionRow} {n : Nat}
    (h : PointsTo env chain txid row) (hrow : row.blockHeight < n)
    (htake : chain.take n = chain'.take n) : PointsTo env chain' txid row := by
  obtain ⟨block, tx, hblock, htx, htxid⟩ := h
  refine ⟨block, tx, ?_, htx, htxid⟩
  rw [← List.getElem?_take_of_lt hrow, ← htake, List.getElem?_take_of_lt hrow]
  exact hblock

theorem Points.extend (h : Points env chain t) (hchain : chain <+: chain') :
    Points env chain' t := by
  intro txid row hrow
  refine (h txid row hrow).of_take (h txid row hrow).lt ?_
  rw [List.take_length]
  exact List.prefix_iff_eq_take.mp hchain

theorem points_empty : Points env chain .empty := nofun

/-- A block of the chain is indexed at its height. -/
theorem Points.indexBlock (h : Points env chain t) {height : Nat} {block : Block}
    (hblock : chain[height]? = some block) : Points env chain (indexBlock env height block t) := by
  intro txid row hrow
  have hdata : (Indexer.indexBlock env height block t).transactions =
      t.transactions.upsert
        (block.txdata.zipIdx.map fun tx => (env.computeTxid tx.1, ⟨height, tx.2⟩)) := by
    unfold Indexer.indexBlock indexBlocksBatch
    rw [if_neg (by simp)]
    unfold Buffers.write
    dsimp only
    rw [List.foldl_cons, List.foldl_nil, Buffers.processBlock,
      (Buffers.frame_foldl_processTx _ _).2]
    rfl
  rw [hdata] at hrow
  obtain hnew | hold := IndexMap.mem_of_get_upsert hrow
  · obtain ⟨⟨tx, index⟩, htx, heq⟩ := List.mem_map.mp hnew
    cases heq
    exact ⟨block, tx, hblock, List.mem_zipIdx_iff_getElem?.mp htx, rfl⟩
  · exact h txid row hold

theorem Points.indexHeight (h : Points env chain t) (height last : Nat) :
    Points env chain (indexHeight env chain (t, last) height).1 := by
  unfold Indexer.indexHeight
  cases hblock : chain[height]? with
  | none => exact h
  | some block => exact h.indexBlock hblock

theorem Points.foldl_indexHeight (heights : List Nat) {indexed : Tables × Nat}
    (h : Points env chain indexed.1) :
    Points env chain (heights.foldl (Indexer.indexHeight env chain) indexed).1 := by
  induction heights generalizing indexed with
  | nil => exact h
  | cons height heights ih => exact ih (h.indexHeight height indexed.2)

/-- After a revert the rows above the height are gone. -/
theorem Points.revertToHeight (h : Points env chain t) {height : Nat}
    (htake : chain.take (height + 1) = chain'.take (height + 1)) :
    Points env chain' (revertToHeight height t) := by
  intro txid row hrow
  unfold Indexer.revertToHeight at hrow
  rw [IndexMap.get_retain, Option.bind_eq_some_iff] at hrow
  obtain ⟨row', hget, hkept⟩ := hrow
  split at hkept
  · cases hkept
  · rename_i hle
    cases hkept
    exact (h txid row hget).of_take (by omega) htake

theorem IndexOf.points (h : IndexOf env chain t) : Points env chain t := by
  intro txid row hrow
  rw [h.transactions] at hrow
  obtain ⟨x, hx, heq⟩ := List.mem_map.mp (Rows.mem_of_find hrow)
  cases heq
  obtain ⟨b, hb, hx⟩ := List.mem_flatMap.mp hx
  obtain ⟨tx, htx, rfl⟩ := List.mem_map.mp hx
  exact ⟨b.2, tx.1, mem_numbered.mp hb, List.mem_zipIdx_iff_getElem?.mp htx, rfl⟩

/-! ## Common parts of paths -/

theorem take_commonLength (path path' : List Block) :
    path.take (commonLength path path') = path'.take (commonLength path path') := by
  induction path generalizing path' with
  | nil => rfl
  | cons a path ih =>
    cases path' with
    | nil => rfl
    | cons b path' =>
      rw [commonLength]
      split
      · rename_i heq
        rw [List.take_succ_cons, List.take_succ_cons, heq, ih]
      · rfl

theorem commonLength_le (path path' : List Block) :
    commonLength path path' ≤ path.length ∧ commonLength path path' ≤ path'.length := by
  induction path generalizing path' with
  | nil => exact ⟨Nat.le_refl _, Nat.zero_le _⟩
  | cons a path ih =>
    cases path' with
    | nil => exact ⟨Nat.zero_le _, Nat.zero_le _⟩
    | cons b path' =>
      rw [commonLength]
      split
      · exact ⟨Nat.succ_le_succ (ih path').1, Nat.succ_le_succ (ih path').2⟩
      · exact ⟨Nat.zero_le _, Nat.zero_le _⟩

theorem commonLength_pos {genesis : Block} {path path' : List Block}
    (h : path.head? = some genesis) (h' : path'.head? = some genesis) :
    0 < commonLength path path' := by
  obtain ⟨rest, rfl⟩ := List.head?_eq_some_iff.mp h
  obtain ⟨rest', rfl⟩ := List.head?_eq_some_iff.mp h'
  rw [commonLength, if_pos rfl]
  exact Nat.succ_pos _

/-! ## Imports -/

namespace Live

variable {s : Live} {i : Import}

/-- If the block becomes the best one, at most the old best block is taken out. -/
def Shallow (i : Import) (s : Live) : Prop :=
  i.isNewBest → (treeRoute s.tree.best i.parent).retracted.length ≤ 1

/-- The paths of the tree start with one genesis block, and the rows point into the best one. -/
structure Rooted (env : IndexerEnv SE) (s : Live) : Prop where
  genesis : ∃ genesis, s.tree.best.head? = some genesis ∧
    ∀ path ∈ s.tree.known, path.head? = some genesis
  points : Points env s.tree.best s.tables

/-- The rows after a reorganisation that takes out at most the best block. -/
theorem points_revertRetracted {best parent : List Block} {t : Tables} {last : Nat}
    (h : Points env best t) (hcommon : 0 < commonLength best parent)
    (hshallow : (treeRoute best parent).retracted.length ≤ 1) (block : Block) :
    Points env (parent ++ [block]) (revertRetracted (treeRoute best parent) (t, last)).1 := by
  obtain ⟨hle, hle'⟩ := commonLength_le best parent
  have hsame : best.take (commonLength best parent) =
      (parent ++ [block]).take (commonLength best parent) := by
    rw [List.take_append_of_le_length hle', take_commonLength]
  have hlength : best.length - commonLength best parent ≤ 1 := by
    rwa [treeRoute, List.length_reverse, List.length_range'] at hshallow
  obtain hnone | hone := Nat.le_one_iff_eq_zero_or_eq_one.mp hlength
  · -- the branch starts at the best block
    have hretracted : (treeRoute best parent).retracted = [] := by
      rw [treeRoute, hnone]
      rfl
    rw [revertRetracted, hretracted]
    refine h.extend (List.prefix_iff_eq_take.mpr ?_)
    rw [show best.length = commonLength best parent by omega, ← hsame,
      List.take_of_length_le (by omega)]
  · have hretracted : (treeRoute best parent).retracted = [commonLength best parent] := by
      rw [treeRoute, hone]
      rfl
    rw [revertRetracted, hretracted]
    refine h.revertToHeight ?_
    rwa [Nat.sub_add_cancel hcommon]

theorem tables_apply {s' : Live} {u : Unit} (happly : Live.apply env i s = .ok (u, s')) :
    s'.tables = (onNotification env (s.tree.importBlock i).best (s.tree.notification i)
      (s.tables, s.lastIndexed)).1 := by
  cases happly
  rfl

theorem Rooted.apply {s' : Live} {u : Unit} (h : Rooted env s) (himport : Importable env i s)
    (hshallow : Shallow i s) (happly : Live.apply env i s = .ok (u, s')) : Rooted env s' := by
  obtain ⟨parent, block, isNewBest⟩ := i
  obtain ⟨genesis, hbest, hknown⟩ := h.genesis
  have hparent := hknown parent himport.1
  have hpath : (parent ++ [block]).head? = some genesis := by
    rw [List.head?_append, hparent]
    rfl
  refine ⟨⟨genesis, ?_, ?_⟩, ?_⟩
  · rw [tree_apply happly, ChainTree.importBlock]
    split
    · exact hpath
    · exact hbest
  · rw [tree_apply happly]
    exact List.forall_mem_cons.mpr ⟨hpath, hknown⟩
  · rw [tables_apply happly, tree_apply happly]
    unfold onNotification
    cases isNewBest with
    | false => exact h.points.indexHeight _ _
    | true =>
      by_cases heq : parent = s.tree.best
      · -- a child of the best block
        subst heq
        have hroute : (s.tree.notification ⟨s.tree.best, block, true⟩).treeRoute = none :=
          if_neg fun hne => hne.2 rfl
        rw [hroute]
        exact (h.points.extend (List.prefix_append _ _)).indexHeight _ _
      · have hroute : (s.tree.notification ⟨parent, block, true⟩).treeRoute =
            some (treeRoute s.tree.best parent) := if_pos ⟨rfl, heq⟩
        rw [hroute]
        exact .foldl_indexHeight _ (points_revertRetracted h.points
          (commonLength_pos hbest hparent) (hshallow rfl) block)

theorem Initial.rooted (h : Initial env s) : Rooted env s := by
  obtain ⟨genesis, hgenesis⟩ : ∃ genesis, s.tree.best.head? = some genesis :=
    Option.ne_none_iff_exists'.mp (mt List.head?_eq_none_iff.mp h.nonempty)
  have hknown : s.tree.known =
      (List.range s.tree.best.length).map fun n => s.tree.best.take (n + 1) :=
    congrArg ChainTree.known h.tree
  refine ⟨⟨genesis, hgenesis, fun path hpath => ?_⟩, ?_⟩
  · rw [hknown] at hpath
    obtain ⟨n, -, rfl⟩ := List.mem_map.mp hpath
    rw [List.head?_take, if_neg (Nat.succ_ne_zero n)]
    exact hgenesis
  · obtain ⟨db, hdb, htables, -⟩ := h.caughtUp
    rw [htables]
    by_cases hlength : 1 < s.tree.best.length
    · obtain ⟨db', hdb', -, hindex⟩ := catchUp_eq h.valid hlength
      cases hdb.symm.trans hdb'
      exact hindex.points
    · -- nothing is indexed at the genesis block
      have hzero : s.tree.best.length - 1 = 0 := by omega
      rw [catchUp, hzero] at hdb
      cases hdb
      exact points_empty

end Live

/-- A mempool that runs of its calls have made gives the transaction for the txid. -/
def Pooled (env : Mempool.PoolEnv SE) (txid : Txid) (tx : Transaction) : Prop :=
  ∃ build options pool, Mempool.Reachable env build options (fun _ _ _ => True) pool ∧
    pool.getTransaction txid = .ok (some tx)

/-- **`getrawtransaction` answers about the asked transaction, along every run of imports that take
out at most the best block.** Imports beside the best chain are free, and so are the calls of the
mempool. -/
theorem answers_of_runs (env : IndexerEnv SE) (poolEnv : Mempool.PoolEnv SE)
    (hsame : poolEnv.computeTxid = env.computeTxid) (mempool : Txid → Option Transaction)
    (hmempool : ∀ txid tx, mempool txid = some tx → Pooled poolEnv txid tx) (s : Live)
    (hrun : Runs (Live.Initial env) (Live.apply env)
      (fun i s => s.Importable env i ∧ s.Shallow i) s) (txid : Txid) (verbose : Bool)
    (answer : RawTransaction)
    (hanswer : getRawTransaction env mempool s.tree.best s.tables txid verbose = .ok answer) :
    Answers env s.tree.best txid answer := by
  have hrooted : s.Rooted env := by
    refine hrun.invariant (I := fun s => s.Rooted env) (fun hinit => hinit.rooted) ?_
    exact fun _ hcond h happly => h.apply hcond.1 hcond.2 happly
  refine hrooted.points.answers (fun txid tx htx => ?_) hanswer
  obtain ⟨build, options, pool, hpool, hget⟩ := hmempool txid tx htx
  rw [← hsame]
  exact Mempool.computeTxid_getTransaction hpool hget

end

namespace Reference

/-- Three blocks that have been indexed. -/
def indexedChain : List Block := [blockAt 0 [], blockAt 1 [], blockAt 2 []]

/-- A transaction of the second block. -/
def askedTxid : Txid := env.computeTxid (coinbaseAt 1)

theorem initial_indexedChain : ∃ s : Live, s.tree = .linear indexedChain ∧ s.Initial env ∧
    s.tables.transactions.get askedTxid = some ⟨1, 0⟩ := by
  have hvalid : ValidChain env indexedChain := validChain_of_check (by decide +kernel)
  obtain ⟨db, hdb, hstate, hindex⟩ := catchUp_eq hvalid (by decide)
  refine ⟨⟨.linear indexedChain, db.tables, 2⟩, rfl, ⟨hvalid, nofun, rfl, db, hdb, rfl, hstate⟩, ?_⟩
  rw [hindex.transactions]
  decide +kernel

/-- Whether one block is taken out or two, only the rows above height 1 go. -/
theorem get_askedTxid {s s' : Live} {i : Import} {retracted : List Nat}
    (hget : s.tables.transactions.get askedTxid = some ⟨1, 0⟩)
    (hroute : (s.tree.notification i).treeRoute = some ⟨2 :: retracted, []⟩)
    (happly : Live.apply env i s = .ok ((), s')) :
    s'.tables.transactions.get askedTxid = some ⟨1, 0⟩ := by
  rw [Live.tables_apply happly, onNotification, hroute]
  show (revertToHeight 1 s.tables).transactions.get askedTxid = _
  unfold revertToHeight
  rw [IndexMap.get_retain, hget]
  rfl

/-- The instance of the mempool with the same hashes. -/
def poolEnv : Mempool.PoolEnv Unit :=
  { Mempool.Reference.env with txidHash := env.txidHash }

/-- A mempool with one transaction. -/
def pooledTx (txid : Txid) : Option Transaction :=
  if txid = env.computeTxid Mempool.Reference.parent then some Mempool.Reference.parent else none

theorem pooled_of_pooledTx (txid : Txid) (tx : Transaction) (h : pooledTx txid = some tx) :
    Pooled poolEnv txid tx := by
  obtain ⟨rfl, htx⟩ := Option.ite_none_right_eq_some.mp h
  cases htx
  have hrun : (Mempool.run poolEnv .checked .default
      [(Mempool.Reference.moment, .acceptSingleTransaction Mempool.Reference.parent)]
      (.new Mempool.Reference.client)).any (fun pool =>
        pool.getTransaction (env.computeTxid Mempool.Reference.parent) =
          .ok (some Mempool.Reference.parent)) = true := by decide +kernel
  obtain ⟨pool, hpool, hget⟩ := Mempool.exists_reachable hrun
  exact ⟨_, _, pool, hpool, of_decide_eq_true hget⟩

/-- The best block is replaced by another one with the same parent. -/
theorem answers_replaced :
    ∃ (s : Live) (answer : RawTransaction),
      getRawTransaction env pooledTx s.tree.best s.tables askedTxid true = .ok answer ∧
      Answers env s.tree.best askedTxid answer := by
  obtain ⟨s, htree, hinit, hget⟩ := initial_indexedChain
  let i : Import := ⟨[blockAt 0 [], blockAt 1 []], rival 501 1, true⟩
  obtain ⟨s', happly⟩ : ∃ s', Live.apply env i s = .ok ((), s') := ⟨_, rfl⟩
  have hroute : (s.tree.notification i).treeRoute = some ⟨[2], []⟩ := by
    rw [htree]
    decide +kernel
  have hshallow : s.Shallow i := by
    intro _
    rw [htree]
    decide +kernel
  have himport : s.Importable env i := by
    refine ⟨?_, validChain_of_check (by decide +kernel)⟩
    rw [htree]
    decide +kernel
  have hrun : Runs (Live.Initial env) (Live.apply env)
      (fun i s => s.Importable env i ∧ s.Shallow i) s' :=
    (Runs.init hinit).step i ⟨himport, hshallow⟩ happly
  have hbest : s'.tree.best = [blockAt 0 [], blockAt 1 [], rival 501 1] := by
    rw [Live.tree_apply happly, htree]
    rfl
  have hanswer : getRawTransaction env pooledTx s'.tree.best s'.tables askedTxid true =
      .ok (.json (coinbaseAt 1) (some (env.hashOf (blockAt 1 []))) (some 2)
        (some (blockAt 1 []).header.time.toNat)) := by
    rw [getRawTransaction, get_askedTxid hget hroute happly, hbest]
    rfl
  exact ⟨s', _, hanswer,
    answers_of_runs env poolEnv rfl pooledTx pooled_of_pooledTx s' hrun askedTxid true _ hanswer⟩

/-- A block on the genesis block becomes the best one: the row of a block that was taken out is
still there, and leads to the coinbase of the new block. -/
theorem not_answers_reorganised :
    ∃ (s : Live) (answer : RawTransaction),
      Runs (Live.Initial env) (Live.apply env) (fun i s => s.Importable env i) s ∧
      getRawTransaction env pooledTx s.tree.best s.tables askedTxid true = .ok answer ∧
      ¬ Answers env s.tree.best askedTxid answer := by
  obtain ⟨s, htree, hinit, hget⟩ := initial_indexedChain
  let i : Import := ⟨[blockAt 0 []], rival 501 0, true⟩
  obtain ⟨s', happly⟩ : ∃ s', Live.apply env i s = .ok ((), s') := ⟨_, rfl⟩
  have hroute : (s.tree.notification i).treeRoute = some ⟨[2, 1], []⟩ := by
    rw [htree]
    decide +kernel
  have himport : s.Importable env i := by
    refine ⟨?_, validChain_of_check (by decide +kernel)⟩
    rw [htree]
    decide +kernel
  have hrun : Runs (Live.Initial env) (Live.apply env) (fun i s => s.Importable env i) s' :=
    (Runs.init hinit).step i himport happly
  have hbest : s'.tree.best = [blockAt 0 [], rival 501 0] := by
    rw [Live.tree_apply happly, htree]
    rfl
  have hanswer : getRawTransaction env pooledTx s'.tree.best s'.tables askedTxid true =
      .ok (.json (coinbaseAt 501) (some (env.hashOf (rival 501 0))) (some 1)
        (some (rival 501 0).header.time.toNat)) := by
    rw [getRawTransaction, get_askedTxid hget hroute happly, hbest]
    rfl
  refine ⟨s', _, hrun, hanswer, fun hright => ?_⟩
  exact absurd hright.txid_eq (by decide +kernel)

end Reference

end Subcoin.Indexer
