import Subcoin.Nakamoto.Verification

/-!
# Subcoin — what block verification accepts

The spec lemmas of `Nakamoto/Verification`. `checkBlockSanity_eq_ok` gives the shape of a block
that passes the preliminary checks (`SaneBlock`), which also removes the txid map from the picture:
every lookup in it succeeds, so `accessCoin` is the pure `coinBefore` (`accessCoin_eq_ok`). The
loops over inputs and transactions are then inverted step by step, up to `AcceptedTransaction`,
what is known of each transaction of an accepted block, and `verifyBlock_full`, which puts the
parts together.
-/

namespace Subcoin

open Outcome Loop

variable {SE : Type} {env : Env SE}

/-! ## Preliminary checks -/

structure SaneBlock (env : Env SE) (block : Block) : Prop where
  coinbase : ∃ cb rest, block.txdata = cb :: rest ∧ cb.isCoinbase = true
  regular : ∀ {pre tx post}, block.txdata = pre ++ tx :: post → pre ≠ [] → tx.isCoinbase = false
  sane : ∀ tx ∈ block.txdata, SaneTransaction env tx
  nodup_txids : (block.txdata.map env.computeTxid).Nodup
  legacy_sig_ops_le :
    (block.txdata.map (getLegacySigOpCount env)).sum * witnessScaleFactor ≤ maxBlockSigopsCost

variable {block : Block} {tx : Transaction} {pre : List Transaction} {blockNumber : Nat}
  {o : OutPoint}

/-- If a transaction is no smaller than its number of outputs, as the size limit supposes, output
indices fit 32 bits. -/
theorem SaneBlock.output_length_le (h : SaneBlock env block)
    (hsize : ∀ tx, tx.output.length ≤ env.baseSize tx) :
    ∀ tx ∈ block.txdata, tx.output.length ≤ 2 ^ 32 := by
  intro tx htx
  have hbase := (h.sane tx htx).base_size_le
  rw [witnessScaleFactor, maxBlockWeight] at hbase
  have := hsize tx
  omega

theorem checkTxSanity_eq_ok {s s' : SanityState} {index : Nat} :
    checkTxSanity env block s index tx = .ok s' ↔
      (0 < index → tx.isCoinbase = false) ∧ env.computeTxid tx ∉ s.txids ∧
        SaneTransaction env tx ∧
        s' = ⟨s.txids ++ [env.computeTxid tx], s.sigOps + getLegacySigOpCount env tx⟩ := by
  simp only [checkTxSanity, bind_eq_ok, errIf_eq_ok, mapErr_eq_ok,
    pure_eq_ok, Outcome.ok.injEq, Bool.and_eq_false_imp, decide_eq_true_eq,
    decide_eq_false_iff_not]
  constructor
  · rintro ⟨_, hcb, _, hnew, _, hsane, rfl⟩
    exact ⟨hcb, hnew, checkTransactionSanity_eq_ok.mp hsane, rfl⟩
  · rintro ⟨hcb, hnew, hsane, rfl⟩
    exact ⟨(), hcb, (), hnew, (), checkTransactionSanity_eq_ok.mpr hsane, rfl⟩

/-- What the loop of `checkBlockSanity` knows of the transactions it has seen. -/
structure SanePrefix (env : Env SE) (pre : List Transaction) (s : SanityState) : Prop where
  txids_eq : s.txids = pre.map env.computeTxid
  sig_ops_eq : s.sigOps = (pre.map (getLegacySigOpCount env)).sum
  nodup : s.txids.Nodup
  sane : ∀ tx ∈ pre, SaneTransaction env tx
  regular : ∀ {l tx l'}, pre = l ++ tx :: l' → l ≠ [] → tx.isCoinbase = false

theorem SanePrefix.nil : SanePrefix env [] ⟨[], 0⟩ where
  txids_eq := rfl
  sig_ops_eq := rfl
  nodup := List.nodup_nil
  sane := by simp
  regular := by simp

theorem SanePrefix.snoc {s s' : SanityState} (h : SanePrefix env pre s)
    (hstep : checkTxSanity env block s pre.length tx = .ok s') :
    SanePrefix env (pre ++ [tx]) s' := by
  obtain ⟨hcb, hnew, hsane, rfl⟩ := checkTxSanity_eq_ok.mp hstep
  constructor
  · simp [h.txids_eq]
  · simp [h.sig_ops_eq]
  · refine List.nodup_append.mpr ⟨h.nodup, List.nodup_singleton _, ?_⟩
    intro a ha b hb hab
    rw [List.mem_singleton] at hb
    exact hnew (hb ▸ hab ▸ ha)
  · intro a ha
    rcases List.mem_append.mp ha with ha | ha
    · exact h.sane a ha
    · rw [List.mem_singleton] at ha
      exact ha ▸ hsane
  · -- only the transaction just checked is new, and its position is the length of the prefix
    intro l a l' hsplit hne
    rcases split_snoc hsplit with ⟨rfl, rfl, _⟩ | ⟨l'', _, hpre⟩
    · exact hcb (List.length_pos_of_ne_nil hne)
    · exact h.regular hpre hne

theorem checkBlockSanity_eq_ok {txids : List Txid}
    (h : checkBlockSanity env blockNumber block = .ok txids) :
    SaneBlock env block ∧ txids = block.txdata.map env.computeTxid := by
  simp only [checkBlockSanity, bind_eq_ok, errIf_eq_ok, pure_eq_ok,
    Outcome.ok.injEq] at h
  obtain ⟨_, hne, _, _, _, hcb, s, hloop, _, hsig, _, _, rfl⟩ := h
  have hs : SanePrefix env block.txdata s :=
    forEnum_invariant (SanePrefix env) SanePrefix.nil
      (fun _ _ _ _ _ _ hinv hstep => hinv.snoc hstep) hloop
  refine ⟨?_, hs.txids_eq⟩
  constructor
  · cases htx : block.txdata with
    | nil => simp [htx] at hne
    | cons cb rest => exact ⟨cb, rest, rfl, by simpa [htx] using hcb⟩
  · exact hs.regular
  · exact hs.sane
  · exact hs.txids_eq ▸ hs.nodup
  · rw [← hs.sig_ops_eq]
    simpa using hsig

theorem size_and_root_of_checkBlockSanity {txids : List Txid}
    (h : checkBlockSanity env blockNumber block = .ok txids) :
    blockBaseSize env block * witnessScaleFactor ≤ maxBlockWeight ∧
      env.calculateRoot txids = some block.header.merkleRoot := by
  simp only [checkBlockSanity, bind_eq_ok, errIf_eq_ok, pure_eq_ok,
    Outcome.ok.injEq, Bool.or_eq_false_iff, decide_eq_false_iff_not, not_lt, not_not] at h
  obtain ⟨_, _, _, hsize, _, _, s, _, _, _, _, hroot, rfl⟩ := h
  exact ⟨hsize.2, hroot⟩

/-! ## The coins a transaction can spend -/

/-- The first transaction of a list with a given txid, and whether its index, counted from `i`, is
zero. -/
def findTx (env : Env SE) (txid : Txid) : Nat → List Transaction → Option (Transaction × Bool)
  | _, [] => none
  | i, tx :: txs =>
    if env.computeTxid tx = txid then some (tx, i = 0) else findTx env txid (i + 1) txs

theorem findTx_eq_some {txid : Txid} {i : Nat} {l : List Transaction} {b : Bool}
    (h : findTx env txid i l = some (tx, b)) :
    ∃ l1 l2, l = l1 ++ tx :: l2 ∧ env.computeTxid tx = txid ∧ b = decide (i + l1.length = 0) := by
  induction l generalizing i with
  | nil => simp [findTx] at h
  | cons a l ih =>
    rw [findTx] at h
    split at h
    · rename_i htxid
      simp only [Option.some.injEq, Prod.mk.injEq] at h
      obtain ⟨rfl, rfl⟩ := h
      exact ⟨[], l, rfl, htxid, by simp⟩
    · obtain ⟨l1, l2, rfl, htxid, rfl⟩ := ih h
      refine ⟨a :: l1, l2, rfl, htxid, ?_⟩
      simp

/-- The coin an input of a transaction can spend: from the parent state, or else an output of one
of the transactions `pre` before it in the block. -/
def coinBefore (env : Env SE) (view : OutPoint → Option Coin) (blockNumber : Nat)
    (pre : List Transaction) (o : OutPoint) : Option (TxOut × Bool × Nat) :=
  match view o with
  | some coin => some (⟨coin.amount, coin.scriptPubkey⟩, coin.isCoinbase, coin.height)
  | none =>
    (findTx env o.txid 0 pre).bind fun (tx, isCoinbase) =>
      (tx.output[o.vout]?).map fun txout => (txout, isCoinbase, blockNumber)

variable {view : OutPoint → Option Coin}

theorem coinBefore_of_some {n : Nat} {coin : Coin} (h : view o = some coin) :
    coinBefore env view n pre o =
      some (⟨coin.amount, coin.scriptPubkey⟩, coin.isCoinbase, coin.height) := by
  simp [coinBefore, h]

theorem coinBefore_of_none {n : Nat} {txout : TxOut} {cb : Bool} {height : Nat}
    (hview : view o = none) (h : coinBefore env view n pre o = some (txout, cb, height)) :
    ∃ l1 tx l2, pre = l1 ++ tx :: l2 ∧ env.computeTxid tx = o.txid ∧
      tx.output[o.vout]? = some txout ∧ cb = decide (l1.length = 0) ∧ height = n := by
  simp only [coinBefore, hview, Option.bind_eq_some_iff, Option.map_eq_some_iff,
    Prod.mk.injEq] at h
  obtain ⟨⟨tx, b⟩, hfind, out, hout, rfl, rfl, rfl⟩ := h
  obtain ⟨l1, l2, hpre, htxid, rfl⟩ := findTx_eq_some hfind
  exact ⟨l1, tx, l2, hpre, htxid, hout, by simp, rfl⟩

namespace TxsContext

variable {ctx : TxsContext}

/-- The txid map holds the txid of every transaction of the block. -/
def TxidsComplete (env : Env SE) (ctx : TxsContext) : Prop :=
  ctx.txids = ctx.block.txdata.map env.computeTxid

variable {post : List Transaction} {s : BlockState}

theorem getTxid_of_split (hctx : ctx.TxidsComplete env)
    (hsplit : ctx.block.txdata = pre ++ tx :: post) :
    (ctx.getTxid pre.length : Outcome (VerifyError SE) Txid) = .ok (env.computeTxid tx) := by
  rw [TxidsComplete] at hctx
  simp [getTxid, hctx, hsplit]

theorem findTransaction_eq (hctx : ctx.TxidsComplete env) (txid : Txid) {l : List Transaction} :
    ∀ {pre post : List Transaction}, ctx.block.txdata = pre ++ l ++ post →
      (ctx.findTransaction txid pre.length l : Outcome (VerifyError SE) _) =
        .ok (findTx env txid pre.length l) := by
  induction l with
  | nil => intro pre post _; rfl
  | cons tx l ih =>
    intro pre post hsplit
    have htxid := getTxid_of_split hctx
      (show ctx.block.txdata = pre ++ tx :: (l ++ post) by simpa using hsplit)
    rw [findTransaction, htxid, ok_bind, findTx]
    split
    · rfl
    · have hrest := ih (show ctx.block.txdata = (pre ++ [tx]) ++ l ++ post by simpa using hsplit)
      simpa using hrest

def coin (env : Env SE) (ctx : TxsContext) (pre : List Transaction) (o : OutPoint) :
    Option (TxOut × Bool × Nat) :=
  coinBefore env ctx.findUtxoInState ctx.blockNumber pre o

section

variable (hctx : ctx.TxidsComplete env) (hsplit : ctx.block.txdata = pre ++ tx :: post)

include hctx hsplit

theorem accessCoin_eq (o : OutPoint) :
    ctx.accessCoin env pre.length o =
      match ctx.coin env pre o with
      | some r => .ok r
      | none =>
        .err (.missingUtxoInState (env.hashOf ctx.block)
          ⟨ctx.blockNumber, pre.length, env.computeTxid tx⟩ o) := by
  have htxid := getTxid_of_split hctx hsplit
  have htake : ctx.block.txdata.take pre.length = pre := by simp [hsplit]
  have hfind := findTransaction_eq hctx o.txid
    (show ctx.block.txdata = [] ++ pre ++ tx :: post by simpa using hsplit)
  rw [List.length_nil] at hfind
  cases hview : ctx.findUtxoInState o with
  | some c => simp [accessCoin, coin, coinBefore, hview]
  | none =>
    -- the state has no such coin: both sides look among the transactions before this one
    simp only [accessCoin, coin, coinBefore, hview, findUtxoInCurrentBlock, htake, hfind,
      txContext, htxid, ok_bind, pure_eq_ok]
    cases findTx env o.txid 0 pre with
    | none => rfl
    | some r => cases h : r.1.output[o.vout]? <;> simp [h]

theorem accessCoin_eq_ok {r : TxOut × Bool × Nat} :
    ctx.accessCoin env pre.length o = .ok r ↔ ctx.coin env pre o = some r := by
  rw [accessCoin_eq hctx hsplit]
  cases ctx.coin env pre o with
  | none => simp
  | some r' => simp

theorem spentOutputOf_eq (o : OutPoint) :
    ctx.spentOutputOf env pre.length o = (ctx.coin env pre o).map Prod.fst := by
  rw [spentOutputOf, accessCoin_eq hctx hsplit]
  cases ctx.coin env pre o with
  | none => rfl
  | some r => rfl

end

/-! ## One input -/

def Matured (ctx : TxsContext) (height : Nat) : Prop :=
  ∃ age, (ctx.build.sub 32 ctx.blockNumber height : Outcome Empty Nat) = .ok age ∧
    coinbaseMaturity ≤ age

theorem not_matured_self : ¬ ctx.Matured ctx.blockNumber := by
  rintro ⟨age, hsub, hage⟩
  rw [Build.sub_of_le le_rfl, Outcome.ok.injEq, Nat.sub_self] at hsub
  rw [← hsub, coinbaseMaturity] at hage
  omega

/-- What is known of an accepted input: the coin it spends, that the coin is mature if it comes
from a coinbase, and that the script engine let it through. -/
structure AcceptedInput (env : Env SE) (ctx : TxsContext) (pre : List Transaction)
    (tx : Transaction) (inputIndex : Nat) (input : TxIn) (txout : TxOut) : Prop where
  spends : ∃ cb height, ctx.coin env pre input.previousOutput = some (txout, cb, height) ∧
    (cb = true → ctx.Matured height)
  script : ctx.verifyScript env pre.length tx inputIndex input txout = .ok ()

theorem checkMaturity_eq_ok {cb : Bool} {height : Nat} :
    ctx.checkMaturity env cb height = .ok () ↔ (cb = true → ctx.Matured height) := by
  cases cb with
  | false => simp [checkMaturity]
  | true =>
    simp only [checkMaturity, if_true, bind_eq_ok, errIf_eq_ok,
      decide_eq_false_iff_not, not_lt, Matured, forall_const]
    constructor
    · rintro ⟨age, hage, hle⟩
      exact ⟨age, Build.sub_eq_ok_congr.mp hage, hle⟩
    · rintro ⟨age, hage, hle⟩
      exact ⟨age, Build.sub_eq_ok_congr.mp hage, hle⟩

theorem checkInput_eq_ok (hctx : ctx.TxidsComplete env)
    (hsplit : ctx.block.txdata = pre ++ tx :: post) {s s' : InputState} {inputIndex : Nat}
    {input : TxIn} :
    ctx.checkInput env pre.length tx s inputIndex input = .ok s' ↔
      input.previousOutput ∉ s.spentCoinsInBlock ∧
        ∃ txout, AcceptedInput env ctx pre tx inputIndex input txout ∧
          (ctx.build.add 64 s.valueIn txout.value : Outcome (VerifyError SE) Nat) =
            .ok s'.valueIn ∧
          s'.spentCoinsInBlock = input.previousOutput :: s.spentCoinsInBlock := by
  -- a coin spent before in the block fails first, before any lookup
  by_cases hspent : input.previousOutput ∈ s.spentCoinsInBlock
  · simp [checkInput, hspent, getTxid_of_split hctx hsplit]
  simp only [checkInput, hspent, if_false, not_false_eq_true, true_and, bind_eq_ok,
    accessCoin_eq_ok hctx hsplit, pure_eq_ok, Outcome.ok.injEq]
  constructor
  · rintro ⟨⟨txout, cb, height⟩, hcoin, _, hmature, _, hscript, valueIn, hadd, rfl⟩
    exact ⟨txout, ⟨⟨cb, height, hcoin, checkMaturity_eq_ok.mp hmature⟩, hscript⟩, hadd, rfl⟩
  · rintro ⟨txout, ⟨⟨cb, height, hcoin, hmature⟩, hscript⟩, hadd, hspent'⟩
    refine ⟨(txout, cb, height), hcoin, (), checkMaturity_eq_ok.mpr hmature, (), hscript,
      s'.valueIn, hadd, ?_⟩
    rw [← hspent']

/-! ## The inputs of a transaction -/

structure InputsPrefix (env : Env SE) (ctx : TxsContext) (pre : List Transaction)
    (tx : Transaction) (spent : List OutPoint) (ins : List TxIn) (s : InputState) : Prop where
  spent_eq : s.spentCoinsInBlock = (ins.map TxIn.previousOutput).reverse ++ spent
  nodup : spent.Nodup → s.spentCoinsInBlock.Nodup
  accepted : ∀ {l input l'}, ins = l ++ input :: l' →
    ∃ txout, AcceptedInput env ctx pre tx l.length input txout

theorem checkInputs_spec (hctx : ctx.TxidsComplete env)
    (hsplit : ctx.block.txdata = pre ++ tx :: post) {s s' : InputState}
    (h : forEnum (ctx.checkInput env pre.length tx) tx.input s = .ok s') :
    InputsPrefix env ctx pre tx s.spentCoinsInBlock tx.input s' := by
  refine forEnum_invariant (InputsPrefix env ctx pre tx s.spentCoinsInBlock) ?_ ?_ h
  · exact ⟨by simp, id, by simp⟩
  · intro ins input _ s1 s2 _ hinv hstep
    obtain ⟨hnew, txout, hacc, _, hspent⟩ := (checkInput_eq_ok hctx hsplit).mp hstep
    constructor
    · simp [hspent, hinv.spent_eq]
    · intro hnodup
      rw [hspent]
      exact List.nodup_cons.mpr ⟨hnew, hinv.nodup hnodup⟩
    · intro l input' l' hl
      rcases split_snoc hl with ⟨rfl, rfl, _⟩ | ⟨l'', _, hins⟩
      · exact ⟨txout, hacc⟩
      · exact hinv.accepted hins

/-! ## The transactions of a block -/

/-- What is known of a transaction of an accepted block, other than the coinbase. -/
structure AcceptedTransaction (env : Env SE) (ctx : TxsContext) (pre : List Transaction)
    (tx : Transaction) : Prop where
  inputs : ∀ {l input l'}, tx.input = l ++ input :: l' →
    ∃ txout, AcceptedInput env ctx pre tx l.length input txout
  sig_ops_le :
    env.totalSigopCost tx (fun o => (ctx.coin env pre o).map Prod.fst) ≤ maxBlockSigopsCost

theorem txFee_eq_ok {valueIn valueOut fee : Nat} :
    ctx.txFee env valueIn valueOut = .ok fee ↔ valueOut ≤ valueIn ∧ fee = valueIn - valueOut := by
  unfold txFee
  split
  · simp_all [eq_comm]
  · simp_all

theorem checkTransaction_eq_ok (hctx : ctx.TxidsComplete env)
    (hsplit : ctx.block.txdata = pre ++ tx :: post) {s' : BlockState} :
    ctx.checkTransaction env s pre.length tx = .ok s' ↔
      isFinalTx tx ctx.blockNumber ctx.lockTimeCutoff = true ∧
        ∃ ins, forEnum (ctx.checkInput env pre.length tx) tx.input ⟨s.spentCoinsInBlock, 0⟩ =
            .ok ins ∧
          env.totalSigopCost tx (fun o => (ctx.coin env pre o).map Prod.fst) ≤
            maxBlockSigopsCost ∧
          ∃ valueOut, (sumValues ctx.build tx.output : Outcome (VerifyError SE) Nat) =
              .ok valueOut ∧
            valueOut ≤ ins.valueIn ∧
            (ctx.build.add 64 s.blockFee (ins.valueIn - valueOut) :
              Outcome (VerifyError SE) Nat) = .ok s'.blockFee ∧
            s'.spentCoinsInBlock = ins.spentCoinsInBlock := by
  rw [show (fun o => (ctx.coin env pre o).map Prod.fst) = ctx.spentOutputOf env pre.length from
    funext fun o => (spentOutputOf_eq hctx hsplit o).symm]
  simp only [checkTransaction, bind_eq_ok, errIf_eq_ok, pure_eq_ok,
    Outcome.ok.injEq, decide_eq_false_iff_not, not_lt, Bool.not_eq_false', txFee_eq_ok]
  constructor
  · rintro ⟨_, hfinal, ins, hins, _, hsig, out, hout, _, ⟨hle, rfl⟩, fee, hfee, rfl⟩
    exact ⟨hfinal, ins, hins, hsig, out, hout, hle, hfee, rfl⟩
  · rintro ⟨hfinal, ins, hins, hsig, out, hout, hle, hfee, hspent⟩
    exact ⟨(), hfinal, ins, hins, (), hsig, out, hout, _, ⟨hle, rfl⟩, s'.blockFee, hfee,
      by rw [← hspent]⟩

theorem checkTransaction_spec (hctx : ctx.TxidsComplete env)
    (hsplit : ctx.block.txdata = pre ++ tx :: post) {s' : BlockState}
    (h : ctx.checkTransaction env s pre.length tx = .ok s') :
    AcceptedTransaction env ctx pre tx ∧
      s'.spentCoinsInBlock = tx.spends.reverse ++ s.spentCoinsInBlock ∧
      (s.spentCoinsInBlock.Nodup → s'.spentCoinsInBlock.Nodup) := by
  obtain ⟨_, ins, hins, hsig, _, _, _, _, hspent⟩ := (checkTransaction_eq_ok hctx hsplit).mp h
  have hspec := checkInputs_spec hctx hsplit hins
  rw [hspent]
  exact ⟨⟨hspec.accepted, hsig⟩, hspec.spent_eq, hspec.nodup⟩

structure TxsPrefix (env : Env SE) (ctx : TxsContext) (pre : List Transaction) (s : BlockState) :
    Prop where
  spent_eq : s.spentCoinsInBlock = (pre.tail.flatMap Transaction.spends).reverse
  nodup : s.spentCoinsInBlock.Nodup
  accepted : ∀ {l tx l'}, pre = l ++ tx :: l' → l ≠ [] → AcceptedTransaction env ctx l tx

theorem checkBlockTransactions_spec (hctx : ctx.TxidsComplete env)
    (h : forEnum (ctx.checkBlockTransaction env) ctx.block.txdata ⟨0, []⟩ = .ok s) :
    TxsPrefix env ctx ctx.block.txdata s := by
  refine forEnum_invariant (TxsPrefix env ctx) ?_ ?_ h
  · exact ⟨rfl, List.nodup_nil, by simp⟩
  · intro pre tx post s1 s2 hsplit hinv hstep
    cases pre with
    | nil =>
      -- The coinbase leaves the state as it is.
      simp only [checkBlockTransaction, List.length_nil, if_true, bind_eq_ok,
        pure_eq_ok, Outcome.ok.injEq] at hstep
      obtain ⟨_, _, rfl⟩ := hstep
      refine ⟨by simpa using hinv.spent_eq, hinv.nodup, ?_⟩
      intro l tx' l' hl hne
      rcases split_snoc hl with ⟨rfl, _, _⟩ | ⟨l'', _, hnil⟩
      · exact absurd rfl hne
      · simp at hnil
    | cons cb pre =>
      have hindex : (cb :: pre).length ≠ 0 := by simp
      rw [checkBlockTransaction, if_neg hindex] at hstep
      obtain ⟨hacc, hspent, hnodup⟩ := checkTransaction_spec hctx hsplit hstep
      refine ⟨?_, hnodup hinv.nodup, ?_⟩
      · simp [hspent, hinv.spent_eq]
      · intro l tx' l' hl hne
        rcases split_snoc hl with ⟨rfl, rfl, _⟩ | ⟨l'', _, hpre⟩
        · exact hacc
        · exact hinv.accepted hpre hne

theorem verifyTransactions_spec (hctx : ctx.TxidsComplete env)
    (h : ctx.verifyTransactions env = .ok ()) :
    (∀ {pre tx post}, ctx.block.txdata = pre ++ tx :: post → pre ≠ [] →
        AcceptedTransaction env ctx pre tx) ∧
      (ctx.block.txdata.tail.flatMap Transaction.spends).Nodup := by
  simp only [verifyTransactions, bind_eq_ok] at h
  obtain ⟨s, hloop, _⟩ := h
  have hspec := checkBlockTransactions_spec hctx hloop
  refine ⟨hspec.accepted, ?_⟩
  have hnodup := hspec.nodup
  rwa [hspec.spent_eq, List.nodup_reverse] at hnodup

end TxsContext

/-! ## The block -/

/-- The coins `verifyTransactions` reads for a block numbered `blockNumber`: those of the state at
the hash the number index gives for the parent number. -/
def utxoView (build : Build) (c : Client) (blockNumber : Nat) (o : OutPoint) : Option Coin :=
  match (build.sub 32 blockNumber 1 : Outcome Empty Nat) with
  | .ok parentNumber => (c.hash parentNumber).bind fun h => c.coinAt h o
  | _ => none

theorem utxoView_succ (build : Build) (c : Client) (n : Nat) :
    utxoView build c (n + 1) = fun o => (c.hash n).bind fun h => c.coinAt h o := by
  funext o
  have hsub : (build.sub 32 (n + 1) 1 : Outcome Empty Nat) = .ok n :=
    Build.sub_of_le (Nat.le_add_left 1 n)
  simp [utxoView, hsub]

theorem utxoView_genesis (nenv : NodeEnv SE) (build : Build) (block : Block)
    (state : Pallet.State) :
    utxoView build (Client.genesis nenv block state) 1 = state.coin := by
  rw [utxoView_succ]
  funext o
  simp [Client.hash, Client.findNumber, Client.coinAt, Client.header, Client.genesis,
    substrateGenesisHeader]

def txsContext (nenv : NodeEnv SE) (v : BlockVerifier) (build : Build) (c : Client)
    (blockNumber : Nat) (block : Block) (lockTimeCutoff : Nat) : TxsContext :=
  { verifier := v
    build := build
    findUtxoInState := utxoView build c blockNumber
    blockNumber := blockNumber
    block := block
    txids := block.txdata.map nenv.computeTxid
    lockTimeCutoff := lockTimeCutoff }

theorem txidsComplete_txsContext (nenv : NodeEnv SE) (v : BlockVerifier) (build : Build)
    (c : Client) (blockNumber : Nat) (block : Block) (lockTimeCutoff : Nat) :
    (txsContext nenv v build c blockNumber block lockTimeCutoff).TxidsComplete nenv.toEnv := rfl

theorem verifyBlock_full_iff {nenv : NodeEnv SE} {v : BlockVerifier} {build : Build} {c : Client}
    {now : Nat} (hfull : v.blockVerification = .full) :
    verifyBlock nenv v build c now blockNumber block = .ok () ↔
      checkBlockSanity nenv.toEnv blockNumber block =
          .ok (block.txdata.map nenv.computeTxid) ∧
        ∃ cutoff, verifyHeader nenv build c v.chainParams now block.header = .ok cutoff ∧
          (v.chainParams.segwitHeight ≤ blockNumber → nenv.checkWitnessCommitment block = true) ∧
          nenv.weight block ≤ maxBlockWeight ∧
          (∃ parentNumber, (build.sub 32 blockNumber 1 : Outcome Empty Nat) = .ok parentNumber ∧
            (c.hash parentNumber).isSome = true) ∧
          (txsContext nenv v build c blockNumber block cutoff).verifyTransactions nenv.toEnv =
            .ok () := by
  -- the view that the transactions are checked against is read at the parent's number
  have hview : ∀ {parentNumber parentHash},
      (build.sub 32 blockNumber 1 : Outcome Empty Nat) = .ok parentNumber →
      c.hash parentNumber = some parentHash →
      utxoView build c blockNumber = c.coinAt parentHash := by
    intro parentNumber parentHash hsub hparent
    funext o
    simp [utxoView, hsub, hparent]
  simp only [verifyBlock, bind_eq_ok, contextualCheckBlock, hfull, mapErr_eq_ok,
    errIf_eq_ok, verifyTransactions, okOr_eq_ok, Bool.and_eq_false_imp,
    decide_eq_true_eq, Bool.not_eq_false', decide_eq_false_iff_not, not_lt]
  constructor
  · rintro ⟨txids, hsanity, cutoff, hheader, _, hwit, _, hweight, parentNumber, hsub, parentHash,
      hparent, htxs⟩
    obtain ⟨_, rfl⟩ := checkBlockSanity_eq_ok hsanity
    have hsub' : (build.sub 32 blockNumber 1 : Outcome Empty Nat) = .ok parentNumber :=
      Build.sub_eq_ok_congr.mp hsub
    refine ⟨hsanity, cutoff, hheader, hwit, hweight, ⟨parentNumber, hsub', by simp [hparent]⟩, ?_⟩
    rw [txsContext, hview hsub' hparent]
    exact htxs
  · rintro ⟨hsanity, cutoff, hheader, hwit, hweight, ⟨parentNumber, hsub, hparent⟩, htxs⟩
    obtain ⟨parentHash, hparent⟩ := Option.isSome_iff_exists.mp hparent
    refine ⟨_, hsanity, cutoff, hheader, (), hwit, (), hweight, parentNumber,
      Build.sub_eq_ok_congr.mp hsub, parentHash, hparent, ?_⟩
    rw [txsContext, hview hsub hparent] at htxs
    exact htxs

/-- A fully verified block is sane, its header passes, and its transactions pass against the coins
of `utxoView`. -/
theorem verifyBlock_full {nenv : NodeEnv SE} {v : BlockVerifier} {build : Build} {c : Client}
    {now : Nat} (hfull : v.blockVerification = .full)
    (h : verifyBlock nenv v build c now blockNumber block = .ok ()) :
    SaneBlock nenv.toEnv block ∧
      ∃ cutoff, verifyHeader nenv build c v.chainParams now block.header = .ok cutoff ∧
        (txsContext nenv v build c blockNumber block cutoff).verifyTransactions nenv.toEnv =
          .ok () := by
  obtain ⟨hsanity, cutoff, hheader, _, _, _, htxs⟩ := (verifyBlock_full_iff hfull).mp h
  exact ⟨(checkBlockSanity_eq_ok hsanity).1, cutoff, hheader, htxs⟩

end Subcoin
