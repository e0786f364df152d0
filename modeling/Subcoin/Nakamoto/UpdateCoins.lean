import Subcoin.Nakamoto.CoinsCount
import Subcoin.Nakamoto.Reference

/-!
# Subcoin — the UTXO set of Bitcoin Core

`Core.updateCoins` is Bitcoin Core's `UpdateCoins` on a view of the coins: it spends the inputs of a
transaction that is no coinbase, and `AddCoin` then stores each output whose script can be spent.
The pallet does the same with two rules of its own. It skips the coinbase of two heights, whatever
the network, and the length of a script does not matter to it.

Both are logs of writes to one outpoint (`coinsTip_eq_after`, `coin_replay`), and the logs are the
same as long as no output falls under one of the two rules (`sameCoins_of_ordinary`).
-/

namespace Subcoin.Core

open Pallet (coinOf takenOutPoints)

variable {SE : Type} (env : Env SE)

/-- `MAX_SCRIPT_SIZE`. -/
def maxScriptSize : Nat := 10000

/-- `CScript::IsUnspendable`. -/
def isUnspendable (script : List UInt8) : Bool :=
  script.head? = some 0x6a || maxScriptSize < script.length

abbrev CoinsView := OutPoint → Option Coin

def spendCoin (view : CoinsView) (o : OutPoint) : CoinsView := Function.update view o none

/-- `AddCoin`, which ignores an output that can never be spent. -/
def addCoin (view : CoinsView) (o : OutPoint) (coin : Coin) : CoinsView :=
  if isUnspendable coin.scriptPubkey then view else Function.update view o (some coin)

def addCoins (height : Nat) (tx : Transaction) (view : CoinsView) : CoinsView :=
  tx.output.zipIdx.foldl
    (fun view (txout, i) => addCoin view ⟨env.computeTxid tx, i⟩ (coinOf height tx txout)) view

def updateCoins (height : Nat) (view : CoinsView) (tx : Transaction) : CoinsView :=
  addCoins env height tx
    (if tx.isCoinbase then view
     else tx.input.foldl (fun view txin => spendCoin view txin.previousOutput) view)

/-- The coins after the blocks of a chain. The genesis block is not connected, so the first block
has height 1. -/
def coinsTip (blocks : List Block) : CoinsView :=
  blocks.zipIdx.foldl
    (fun view (block, i) => block.txdata.foldl (updateCoins env (i + 1)) view) fun _ => none

/-! ## One outpoint -/

/-- The coin Core stores at an outpoint for a transaction, if any. -/
def keptCoin (height : Nat) (tx : Transaction) (o : OutPoint) : Option Coin :=
  if o.txid = env.computeTxid tx then
    (tx.output[o.vout]?).bind fun txout =>
      if isUnspendable txout.scriptPubkey then none else some (coinOf height tx txout)
  else none

variable {env}

theorem foldl_spendCoin (l : List TxIn) (view : CoinsView) (o : OutPoint) :
    l.foldl (fun view txin => spendCoin view txin.previousOutput) view o =
      if o ∈ l.map TxIn.previousOutput then none else view o := by
  induction l generalizing view with
  | nil => simp
  | cons txin l ih =>
    rw [List.foldl_cons, ih, List.map_cons]
    by_cases hrest : o ∈ l.map TxIn.previousOutput
    · rw [if_pos hrest, if_pos (List.mem_cons_of_mem _ hrest)]
    · rw [if_neg hrest, spendCoin, Function.update_apply]
      simp [hrest]

/-- The outputs from the index `k` on: each has an outpoint of its own. -/
theorem foldl_addCoin (txid : Txid) (mk : TxOut → Coin)
    (hmk : ∀ txout, (mk txout).scriptPubkey = txout.scriptPubkey) (outs : List TxOut) (k : Nat)
    (view : CoinsView) (o : OutPoint) :
    (outs.zipIdx k).foldl (fun view (txout, i) => addCoin view ⟨txid, i⟩ (mk txout)) view o =
      (if o.txid = txid ∧ k ≤ o.vout then
        (outs[o.vout - k]?).bind fun txout =>
          if isUnspendable txout.scriptPubkey then none else some (mk txout)
       else none).or (view o) := by
  induction outs generalizing k view with
  | nil => simp
  | cons out outs ih =>
    rw [List.zipIdx_cons, List.foldl_cons, ih (k + 1)]
    have hhead : addCoin view ⟨txid, k⟩ (mk out) o =
        if isUnspendable out.scriptPubkey = false ∧ o = ⟨txid, k⟩ then some (mk out)
        else view o := by
      rw [addCoin, hmk]
      cases hun : isUnspendable out.scriptPubkey with
      | true => simp
      | false => simp [Function.update_apply]
    dsimp only
    rw [hhead]
    by_cases htxid : o.txid = txid
    · rcases Nat.lt_trichotomy o.vout k with hlt | heq | hgt
      · have hne : o ≠ ⟨txid, k⟩ := fun h => by simp [h] at hlt
        simp [hne, show ¬ k + 1 ≤ o.vout by omega, show ¬ k ≤ o.vout by omega]
      · -- the outpoint of this output: the later outputs do not touch it
        obtain rfl : o = ⟨txid, k⟩ := by
          cases o
          simp_all
        cases hun : isUnspendable out.scriptPubkey with
        | true => simp [hun]
        | false => simp [hun]
      · have hne : o ≠ ⟨txid, k⟩ := fun h => by simp [h] at hgt
        obtain ⟨j, hj⟩ : ∃ j, o.vout - k = j + 1 := ⟨o.vout - k - 1, by omega⟩
        simp [htxid, hne, hj, show k + 1 ≤ o.vout by omega, show k ≤ o.vout by omega,
          show o.vout - (k + 1) = j by omega]
    · have hne : o ≠ ⟨txid, k⟩ := fun h => htxid (by rw [h])
      simp [htxid, hne]

theorem addCoins_apply (height : Nat) (tx : Transaction) (view : CoinsView) (o : OutPoint) :
    addCoins env height tx view o = (keptCoin env height tx o).or (view o) := by
  have h := foldl_addCoin (env.computeTxid tx) (coinOf height tx) (fun _ => rfl) tx.output 0 view o
  simpa [addCoins, keptCoin] using h

theorem updateCoins_apply (height : Nat) (view : CoinsView) (tx : Transaction) (o : OutPoint) :
    updateCoins env height view tx o =
      (keptCoin env height tx o).or (if o ∈ takenOutPoints tx then none else view o) := by
  rw [updateCoins, addCoins_apply, takenOutPoints]
  cases hcb : tx.isCoinbase with
  | true => simp
  | false => simp [foldl_spendCoin, Transaction.spends]

theorem foldl_updateCoins (height : Nat) (txs : List Transaction) (view : CoinsView)
    (o : OutPoint) :
    txs.foldl (updateCoins env height) view o =
      LastWrite.after (fun tx => keptCoin env height tx o) (fun tx => o ∈ takenOutPoints tx) txs
        (view o) := by
  induction txs using List.reverseRecOn with
  | nil => rfl
  | append_singleton txs tx ih =>
    rw [List.foldl_append, List.foldl_cons, List.foldl_nil, updateCoins_apply, ih,
      LastWrite.after_snoc]

/-! ## The chain as a log -/

/-- The transactions of a chain in their order, each with the height of its block. -/
def history (blocks : List Block) : List (Nat × Transaction) :=
  blocks.zipIdx.flatMap fun (block, i) => block.txdata.map fun tx => (i + 1, tx)

theorem history_snoc (blocks : List Block) (block : Block) :
    history (blocks ++ [block]) =
      history blocks ++ block.txdata.map fun tx => (blocks.length + 1, tx) := by
  simp [history, List.zipIdx_append]

variable {blocks : List Block} {height : Nat} {tx : Transaction}

theorem mem_history (h : (height, tx) ∈ history blocks) :
    ∃ pre block post, blocks = pre ++ block :: post ∧ height = pre.length + 1 ∧
      tx ∈ block.txdata := by
  induction blocks using List.reverseRecOn with
  | nil => simp [history] at h
  | append_singleton blocks block ih =>
    rw [history_snoc, List.mem_append] at h
    rcases h with h | h
    · obtain ⟨pre, b, post, rfl, hheight, htx⟩ := ih h
      exact ⟨pre, b, post ++ [block], by simp, hheight, htx⟩
    · obtain ⟨t, ht, heq⟩ := List.mem_map.mp h
      rw [Prod.mk.injEq] at heq
      exact ⟨blocks, block, [], rfl, heq.1.symm, heq.2 ▸ ht⟩

theorem coinsTip_snoc (blocks : List Block) (block : Block) :
    coinsTip env (blocks ++ [block]) =
      block.txdata.foldl (updateCoins env (blocks.length + 1)) (coinsTip env blocks) := by
  simp [coinsTip, List.zipIdx_append]

theorem coinsTip_eq_after (blocks : List Block) (o : OutPoint) :
    coinsTip env blocks o =
      LastWrite.after (fun e => keptCoin env e.1 e.2 o) (fun e => o ∈ takenOutPoints e.2)
        (history blocks) none := by
  induction blocks using List.reverseRecOn with
  | nil => rfl
  | append_singleton blocks block ih =>
    rw [coinsTip_snoc, foldl_updateCoins, ih, history_snoc, LastWrite.after_append,
      LastWrite.after_map]

end Subcoin.Core

namespace Subcoin

open Pallet (State executeBlock insertedCoin takenOutPoints bip30ExceptionHeights createdCoin)
open Subcoin.Core (history coinsTip keptCoin isUnspendable)

variable {SE : Type} {env : Env SE} {nenv : NodeEnv SE}

/-! ## The pallet's log -/

theorem coin_replay {S : State} (hsmall : ∀ block ∈ blocks, SmallBlock block)
    (h : replay env blocks = .ok S) (o : OutPoint) :
    S.coin o =
      LastWrite.after (fun e => insertedCoin env e.1 e.2 o) (fun e => o ∈ takenOutPoints e.2)
        (history blocks) none := by
  refine Loop.forEnum_invariant
    (fun pre (S : State) => ∀ o, S.coin o = LastWrite.after (fun e => insertedCoin env e.1 e.2 o)
      (fun e => o ∈ takenOutPoints e.2) (history pre) none) (fun _ => rfl) ?_ h o
  intro pre block post S1 S2 hsplit hinv hstep o
  have hblock := hsmall block (by simp [hsplit])
  rw [Pallet.coin_executePrefix hblock.output_length_le hstep, Pallet.coinAfter_eq_after, hinv o,
    Core.history_snoc, LastWrite.after_append, LastWrite.after_map]

/-! ## The two rules -/

/-- After each block the coins are those of Bitcoin Core. -/
def SameCoins (env : Env SE) (blocks : List Block) : Prop :=
  ∀ pre post, blocks = pre ++ post →
    ∃ S, replay env pre = .ok S ∧ ∀ o, S.coin o = coinsTip env pre o

/-- No output of the block falls under a rule of the pallet that is not Core's. -/
structure OrdinaryBlock (height : Nat) (block : Block) : Prop where
  /-- A coinbase the pallet skips has no output that could be spent. -/
  skipped : ∀ tx ∈ block.txdata, tx.isCoinbase = true → height ∈ bip30ExceptionHeights →
    ∀ txout ∈ tx.output, isUnspendable txout.scriptPubkey = true
  /-- Elsewhere a script longer than `MAX_SCRIPT_SIZE` starts with `OP_RETURN`. -/
  short : ∀ tx ∈ block.txdata, ¬ (tx.isCoinbase = true ∧ height ∈ bip30ExceptionHeights) →
    ∀ txout ∈ tx.output, Core.maxScriptSize < txout.scriptPubkey.length →
      txout.isOpReturn = true

theorem createdCoin_eq_keptCoin
    (h : ∀ txout ∈ tx.output, txout.isOpReturn = isUnspendable txout.scriptPubkey) (o : OutPoint) :
    createdCoin env height tx o = keptCoin env height tx o := by
  unfold createdCoin keptCoin
  cases hout : tx.output[o.vout]? with
  | none => simp
  | some txout =>
    have hmem : txout ∈ tx.output := List.mem_of_getElem? hout
    simp [h txout hmem]

theorem keptCoin_eq_none (h : ∀ txout ∈ tx.output, isUnspendable txout.scriptPubkey = true)
    (o : OutPoint) : keptCoin env height tx o = none := by
  unfold keptCoin
  cases hout : tx.output[o.vout]? with
  | none => simp
  | some txout =>
    have hmem : txout ∈ tx.output := List.mem_of_getElem? hout
    simp [h txout hmem]

theorem OrdinaryBlock.insertedCoin_eq {block : Block} (h : OrdinaryBlock height block)
    (htx : tx ∈ block.txdata) (o : OutPoint) :
    insertedCoin env height tx o = keptCoin env height tx o := by
  unfold insertedCoin
  by_cases hskip : tx.isCoinbase = true ∧ height ∈ bip30ExceptionHeights
  · rw [if_pos (by simp [hskip]), keptCoin_eq_none (h.skipped tx htx hskip.1 hskip.2)]
  · rw [if_neg (by simpa using hskip)]
    refine createdCoin_eq_keptCoin ?_ o
    intro txout hout
    have hshort := h.short tx htx hskip txout hout
    -- only the length could make the two tests differ
    by_cases hlong : Core.maxScriptSize < txout.scriptPubkey.length
    · simp [isUnspendable, hshort hlong, hlong]
    · simp [isUnspendable, hlong, TxOut.isOpReturn]

/-- Each block passed full verification for the chain parameters against the state its predecessors
left. -/
def AcceptedOn (nenv : NodeEnv SE) (chainParams : ChainParams) (blocks : List Block) : Prop :=
  ∀ pre block post, blocks = pre ++ block :: post →
    ∃ v build c now S, v.chainParams = chainParams ∧ v.blockVerification = .full ∧
      replay nenv.toEnv pre = .ok S ∧ utxoView build c (pre.length + 1) = S.coin ∧
      verifyBlock nenv v build c now (pre.length + 1) block = .ok ()

theorem AcceptedOn.acceptedRun {chainParams : ChainParams}
    (h : AcceptedOn nenv chainParams blocks) : AcceptedRun nenv blocks := by
  intro pre block post hsplit
  obtain ⟨v, build, c, now, S, _, hrest⟩ := h pre block post hsplit
  exact ⟨v, build, c, now, S, hrest⟩

/-- A run that returns went through each of its prefixes. -/
theorem exists_replay_of_append {pre post : List Block} {S : State}
    (h : replay env (pre ++ post) = .ok S) : ∃ S', replay env pre = .ok S' := by
  rw [replay, Loop.forEnum_append, Outcome.bind_eq_ok] at h
  obtain ⟨S', hpre, _⟩ := h
  exact ⟨S', hpre⟩

/-- **The UTXO set is Core's.** On every network, in every run of accepted blocks from the empty
state, `Coins` holds after each block exactly the coins Bitcoin Core keeps, as long as no block
pays an output to a script of more than 10,000 bytes that does not start with `OP_RETURN` and the
coinbases at heights 91722 and 91812 have no spendable output. No transaction has more outputs than
bytes. -/
theorem sameCoins_of_ordinary (nenv : NodeEnv SE)
    (hsize : ∀ tx, tx.output.length ≤ nenv.baseSize tx) (paramsOf : Network → Params)
    (network : Network) (blocks : List Block) (S : State)
    (hacc : AcceptedOn nenv (ChainParams.new paramsOf network) blocks)
    (hrun : replay nenv.toEnv blocks = .ok S)
    (hord : ∀ pre block post, blocks = pre ++ block :: post →
      OrdinaryBlock (pre.length + 1) block) : SameCoins nenv.toEnv blocks := by
  rintro pre post rfl
  obtain ⟨S', hpre⟩ := exists_replay_of_append hrun
  refine ⟨S', hpre, ?_⟩
  intro o
  have hsmall := hacc.acceptedRun.smallBlock hsize
  rw [coin_replay (fun b hb => hsmall b (List.mem_append_left post hb)) hpre,
    Core.coinsTip_eq_after]
  -- the two logs write the same at every transaction
  refine LastWrite.after_congr ?_ none
  rintro ⟨height, tx⟩ he
  obtain ⟨l, block, l', rfl, rfl, htx⟩ := Core.mem_history he
  exact (hord l block (l' ++ post) (by simp)).insertedCoin_eq htx o

/-! ## A long script -/

namespace UpdateCoinsSample

open Reference

/-- The genesis block of the test network, over the reference hashes. -/
def genesis : Block :=
  Reference.block BlockHash.allZeros 1296688602 0x1d00ffff 414098458
    [coinbase [4, 0xff, 0xff, 0, 29] 5000000000]

def client : Client := Client.genesis Reference.env genesis State.empty

def verifier : BlockVerifier := ⟨ChainParams.new paramsOf .testnet, .full, .core⟩

def payment (script : List UInt8) : Transaction :=
  { version := 1
    lockTime := LockTime.zero
    input := [⟨OutPoint.null, [1, 1], 0xffffffff, []⟩]
    output := [⟨5000000000, script⟩] }

/-- A first block whose coinbase pays to `script`. -/
def first (script : List UInt8) : Block :=
  Reference.block (Reference.env.hashOf genesis) 1296688700 0x1d00ffff 0 [payment script]

theorem acceptedOn_first {script : List UInt8}
    (h : verifyBlock Reference.env verifier Build.checked client 1296688800 1 (first script) =
      .ok ()) :
    AcceptedOn Reference.env (ChainParams.new paramsOf .testnet) [first script] := by
  intro pre block post hsplit
  cases pre with
  | nil =>
    rw [List.nil_append, List.cons.injEq] at hsplit
    obtain ⟨rfl, _⟩ := hsplit
    exact ⟨verifier, Build.checked, client, 1296688800, State.empty, rfl, rfl, rfl,
      utxoView_genesis Reference.env Build.checked genesis State.empty, h⟩
  | cons b pre => simp at hsplit

/-- The only transaction of the chain is the coinbase, which takes nothing. -/
theorem after_history_first (write : Nat × Transaction → Option Coin) (script : List UInt8)
    (o : OutPoint) :
    LastWrite.after write (fun e => o ∈ takenOutPoints e.2) (history [first script]) none =
      write (1, payment script) := by
  have hhistory : history [first script] = [(1, payment script)] := rfl
  rw [hhistory, LastWrite.after, List.foldl_cons, List.foldl_nil, ite_self, Option.or_none]

/-- The output of the first block. -/
def outPoint (script : List UInt8) : OutPoint :=
  ⟨Reference.env.computeTxid (payment script), 0⟩

theorem insertedCoin_first {script : List UInt8} (h : script.head? ≠ some 0x6a) :
    insertedCoin Reference.env.toEnv 1 (payment script) (outPoint script) =
      some ⟨true, 5000000000, 1, script⟩ := by
  have hop : TxOut.isOpReturn ⟨5000000000, script⟩ = false := by simpa [TxOut.isOpReturn] using h
  have hheight : 1 ∉ bip30ExceptionHeights := by decide
  have hcb : (payment script).isCoinbase = true := rfl
  have hout : (payment script).output[0]? = some ⟨5000000000, script⟩ := rfl
  simp [insertedCoin, createdCoin, outPoint, hheight, hcb, hout, hop, Pallet.coinOf]

/-- 10,001 times `OP_1`. -/
def longScript : List UInt8 := List.replicate 10001 0x51

end UpdateCoinsSample

open Reference ChainSample in
theorem acceptedOn_chain : AcceptedOn sampleEnv (ChainParams.new paramsOf .bitcoin) chain := by
  rintro pre block post hsplit
  obtain ⟨S', hS'⟩ := exists_chainState
  rw [chainState, hsplit] at hS'
  obtain ⟨prev, S, hpre, hrest⟩ := acceptsAll_append hS'
  obtain ⟨c, _, hview, hok, _⟩ := acceptsAll_cons hrest
  rw [Nat.zero_add] at hview hok
  exact ⟨verifier, .checked, c, 1231100000, S, rfl, rfl, forEnumFrom_of_acceptsAll hpre, hview, hok⟩

open Reference ChainSample in
/-- A chain whose last block spends the coinbase of the first. -/
theorem sameCoins_chain : SameCoins sampleEnv.toEnv chain := by
  obtain ⟨S, hS⟩ := exists_chainState
  refine sameCoins_of_ordinary sampleEnv output_length_le_baseSize paramsOf .bitcoin chain S
    acceptedOn_chain (forEnumFrom_of_acceptsAll hS) fun pre block post hsplit => ?_
  have hlength : pre.length + 1 + post.length = 101 := by
    have heq := congrArg List.length hsplit
    rw [List.length_append, List.length_cons] at heq
    have hchain : chain.length = 101 := rfl
    omega
  have hshort : ∀ b ∈ chain, ∀ tx ∈ b.txdata, ∀ out ∈ tx.output,
      out.scriptPubkey.length ≤ 1 := by decide +kernel
  constructor
  · intro tx _ _ hheight
    rcases List.mem_pair.mp hheight with h | h
    · omega
    · omega
  · intro tx htx _ out hout hlong
    have hle := hshort block (by simp [hsplit]) tx htx out hout
    have hmax : Core.maxScriptSize = 10000 := rfl
    omega

open Reference UpdateCoinsSample in
/-- On the test network a first block whose coinbase pays to a script of 10,001 bytes is accepted.
The pallet stores the output and Core does not. -/
theorem not_sameCoins_longScript :
    AcceptedOn Reference.env (ChainParams.new paramsOf .testnet) [first longScript] ∧
      (∃ S, replay Reference.env.toEnv [first longScript] = .ok S) ∧
      ¬ SameCoins Reference.env.toEnv [first longScript] := by
  have hacc : AcceptedOn Reference.env (ChainParams.new paramsOf .testnet) [first longScript] :=
    acceptedOn_first (by decide +kernel)
  have hsmall := hacc.acceptedRun.smallBlock output_length_le_baseSize
  refine ⟨hacc, ⟨_, rfl⟩, ?_⟩
  intro hsame
  obtain ⟨S, hrun, hcoins⟩ := hsame [first longScript] [] rfl
  have hpallet := coin_replay hsmall hrun (outPoint longScript)
  have hcore : coinsTip Reference.env.toEnv [first longScript] (outPoint longScript) = none := by
    rw [Core.coinsTip_eq_after, after_history_first]
    refine keptCoin_eq_none ?_ _
    intro txout hout
    obtain rfl : txout = ⟨5000000000, longScript⟩ := List.mem_singleton.mp hout
    have hlong : Core.maxScriptSize < longScript.length := by
      rw [longScript, List.length_replicate]
      decide
    simp [isUnspendable, hlong]
  rw [hcoins, hcore, after_history_first, insertedCoin_first] at hpallet
  · cases hpallet
  · simp [longScript]

end Subcoin
