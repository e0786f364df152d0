import Subcoin.Lib.FinmapTotal
import Subcoin.Lib.Loop
import Subcoin.Bitcoin.Env
import Subcoin.Pallet.Types

/-!
# Subcoin — the UTXO transition of `pallet-bitcoin`

`processBitcoinTransaction` is the runtime's whole state transition: it takes the coins a
transaction spends out of `Coins`, panicking when one is missing, and inserts the outputs that can
be spent later. `processBitcoinTransaction_total` says when it returns and
`coin_processBitcoinTransaction` what every lookup gives afterwards; the proofs about blocks and
chains use nothing else.
-/

namespace Subcoin.Pallet

open Outcome

variable {SE : Type} (env : Env SE)

abbrev Coins := Finmap fun _ : Runtime.OutPoint => Coin

/-- The pallet's storage: `Coins` and `CoinsCount`. -/
structure State where
  coins : Coins
  coinsCount : Nat
deriving DecidableEq

namespace State

def empty : State := ⟨∅, 0⟩

/-- `Coins::get` under the key of a Bitcoin outpoint. -/
def coin (st : State) (o : OutPoint) : Option Coin :=
  st.coins.lookup (Runtime.OutPoint.ofBitcoin o)

end State

def bip30ExceptionHeights : List Nat := [91722, 91812]

def coinOf (height : Nat) (tx : Subcoin.Transaction) (txout : Subcoin.TxOut) : Coin :=
  { isCoinbase := tx.isCoinbase
    amount := txout.value
    height := height
    scriptPubkey := txout.scriptPubkey }

/-- The new coins of a transaction, skipping `OP_RETURN` outputs. -/
def newCoins (height : Nat) (tx : Subcoin.Transaction) : List (OutPoint × Coin) :=
  tx.output.zipIdx.filterMap fun (txout, index) =>
    if txout.isOpReturn then none
    else some (⟨env.computeTxid tx, index % 2 ^ 32⟩, coinOf height tx txout)

/-- `Coins::insert` for each new coin. -/
def insertCoins (coins : Coins) (new : List (OutPoint × Coin)) : Coins :=
  new.foldl (fun m e => m.insert (Runtime.OutPoint.ofBitcoin e.1) e.2) coins

/-- `Coins::take` for one input. -/
def takeCoin (coins : Coins) (_ : Nat) (input : Subcoin.TxIn) : Outcome Empty Coins :=
  match coins.lookup (Runtime.OutPoint.ofBitcoin input.previousOutput) with
  | some _ => .ok (coins.erase (Runtime.OutPoint.ofBitcoin input.previousOutput))
  | none => .panic "Corruputed state, UTXO not found"

/-- `process_bitcoin_transaction`. The runtime is built without overflow checks, so the counter
updates wrap. -/
def processBitcoinTransaction (height : Nat) (st : State) (tx : Subcoin.Transaction) :
    Outcome Empty State :=
  if tx.isCoinbase && height ∈ bip30ExceptionHeights then
    -- Skip adding the outputs to the UTXO set if it is a BIP30 exception.
    .ok st
  else
    let new := newCoins env height tx
    if tx.isCoinbase then
      .ok
        { coins := insertCoins st.coins new
          coinsCount := wrappingAdd 64 st.coinsCount new.length }
    else do
      let coins ← Loop.forEnum takeCoin tx.input st.coins
      pure
        { coins := insertCoins coins new
          coinsCount :=
            wrappingSub 64 (wrappingAdd 64 st.coinsCount new.length) tx.input.length }

/-- The `transact` call: the pallet's transaction type is converted first. -/
def transact (height : Nat) (st : State) (btcTx : Transaction) : Outcome Empty State := do
  let tx ← btcTx.toBitcoin
  processBitcoinTransaction env height st tx

def executeBlock (height : Nat) (txs : List Subcoin.Transaction) (st : State) :
    Outcome Empty State :=
  Loop.forEnum (fun st _ tx => processBitcoinTransaction env height st tx) txs st

/-! ## Taking the spent coins -/

variable {coins : Coins} {i height : Nat} {tx : Subcoin.Transaction}

theorem takeCoin_eq_ok {coins' : Coins} {input : Subcoin.TxIn} :
    takeCoin coins i input = .ok coins' ↔
      Runtime.OutPoint.ofBitcoin input.previousOutput ∈ coins ∧
        coins' = coins.erase (Runtime.OutPoint.ofBitcoin input.previousOutput) := by
  unfold takeCoin
  split
  · rename_i c hc
    have hmem := Finmap.mem_of_lookup_eq_some hc
    simp [hmem, eq_comm]
  · rename_i hc
    simp [Finmap.lookup_eq_none.mp hc]

theorem lookup_takeCoins {ins : List Subcoin.TxIn} {coins' : Coins}
    (h : Loop.forEnumFrom takeCoin i ins coins = .ok coins') (o : OutPoint) :
    coins'.lookup (Runtime.OutPoint.ofBitcoin o) =
      if o ∈ ins.map TxIn.previousOutput then none
      else coins.lookup (Runtime.OutPoint.ofBitcoin o) := by
  induction ins generalizing i coins with
  | nil =>
    rw [Loop.forEnumFrom_nil, Outcome.ok.injEq] at h
    simp [h]
  | cons txin ins ih =>
    rw [Loop.forEnumFrom_cons, bind_eq_ok] at h
    obtain ⟨coins1, hhead, hrest⟩ := h
    obtain ⟨_, rfl⟩ := takeCoin_eq_ok.mp hhead
    rw [ih hrest]
    by_cases ho : o = txin.previousOutput
    · subst ho
      simp
    · have hne : Runtime.OutPoint.ofBitcoin o ≠ Runtime.OutPoint.ofBitcoin txin.previousOutput :=
        fun heq => ho (Runtime.OutPoint.ofBitcoin_inj.mp heq)
      simp [ho, Finmap.lookup_erase_ne hne]

theorem takeCoins_total {ins : List Subcoin.TxIn} :
    (∃ coins', Loop.forEnumFrom takeCoin i ins coins = .ok coins') ↔
      (ins.map TxIn.previousOutput).Nodup ∧
        ∀ o ∈ ins.map TxIn.previousOutput, Runtime.OutPoint.ofBitcoin o ∈ coins := by
  induction ins generalizing i coins with
  | nil => simp
  | cons txin ins ih =>
    simp only [Loop.forEnumFrom_cons, bind_eq_ok, takeCoin_eq_ok, List.map_cons,
      List.nodup_cons, List.forall_mem_cons]
    constructor
    · rintro ⟨coins', _, ⟨hmem, rfl⟩, hrest⟩
      obtain ⟨hnodup, hpresent⟩ := ih.mp ⟨coins', hrest⟩
      refine ⟨⟨?_, hnodup⟩, hmem, fun o ho => (Finmap.mem_erase.mp (hpresent o ho)).2⟩
      -- an outpoint taken twice is missing the second time
      intro htwice
      exact (Finmap.mem_erase.mp (hpresent _ htwice)).1 rfl
    · rintro ⟨⟨hfresh, hnodup⟩, hmem, hpresent⟩
      have hrest : ∀ o ∈ ins.map TxIn.previousOutput, Runtime.OutPoint.ofBitcoin o ∈
          coins.erase (Runtime.OutPoint.ofBitcoin txin.previousOutput) := by
        intro o ho
        refine Finmap.mem_erase.mpr ⟨?_, hpresent o ho⟩
        intro heq
        exact hfresh (Runtime.OutPoint.ofBitcoin_inj.mp heq ▸ ho)
      obtain ⟨coins', hrun⟩ := (ih (i := i + 1)).mpr ⟨hnodup, hrest⟩
      exact ⟨coins', _, ⟨hmem, rfl⟩, hrun⟩

/-! ## Inserting the new coins -/

/-- The coin a transaction creates at an outpoint, if any. -/
def createdCoin (height : Nat) (tx : Subcoin.Transaction) (o : OutPoint) : Option Coin :=
  if o.txid = env.computeTxid tx then
    (tx.output[o.vout]?).bind fun txout =>
      if txout.isOpReturn then none else some (coinOf height tx txout)
  else none

variable {env}

theorem insertCoins_cons (coins : Coins) (e : OutPoint × Coin) (new : List (OutPoint × Coin)) :
    insertCoins coins (e :: new) =
      insertCoins (coins.insert (Runtime.OutPoint.ofBitcoin e.1) e.2) new := rfl

/-- Inserting outputs `outs`, the first of which has index `k`. The indices fit 32 bits, so no two
outputs share a key. -/
theorem lookup_insertCoins_from (txid : Txid) (mk : Subcoin.TxOut → Coin)
    (outs : List Subcoin.TxOut) (k : Nat) (coins : Coins) (hlen : k + outs.length ≤ 2 ^ 32)
    (o : OutPoint) :
    (insertCoins coins ((outs.zipIdx k).filterMap fun (txout, index) =>
        if txout.isOpReturn then none
        else some ((⟨txid, index % 2 ^ 32⟩ : OutPoint), mk txout))).lookup
          (Runtime.OutPoint.ofBitcoin o) =
      (if o.txid = txid ∧ k ≤ o.vout then
        (outs[o.vout - k]?).bind fun txout =>
          if txout.isOpReturn then none else some (mk txout)
       else none).or (coins.lookup (Runtime.OutPoint.ofBitcoin o)) := by
  induction outs generalizing k coins with
  | nil => simp [insertCoins]
  | cons out outs ih =>
    simp only [List.length_cons] at hlen
    have hk : k % 4294967296 = k := Nat.mod_eq_of_lt (by omega)
    have hrest : k + 1 + outs.length ≤ 2 ^ 32 := by omega
    have hhead : insertCoins coins (((out :: outs).zipIdx k).filterMap fun (txout, index) =>
          if txout.isOpReturn then none
          else some ((⟨txid, index % 2 ^ 32⟩ : OutPoint), mk txout)) =
        insertCoins (if out.isOpReturn then coins
            else coins.insert (Runtime.OutPoint.ofBitcoin ⟨txid, k⟩) (mk out))
          ((outs.zipIdx (k + 1)).filterMap fun (txout, index) =>
            if txout.isOpReturn then none
            else some ((⟨txid, index % 2 ^ 32⟩ : OutPoint), mk txout)) := by
      cases hop : out.isOpReturn with
      | true => simp [List.zipIdx_cons, hop]
      | false => simp [List.zipIdx_cons, hop, insertCoins_cons, hk]
    -- the first output is inserted, if at all, before the others, from the index `k + 1` on
    rw [hhead, ih (k + 1) _ hrest]
    by_cases hthis : o = ⟨txid, k⟩
    · -- the outpoint of this output: the later outputs do not touch it
      subst hthis
      cases hop : out.isOpReturn with
      | true => simp [hop]
      | false => simp [hop, Finmap.lookup_insert]
    · have hlookup : (if out.isOpReturn then coins
            else coins.insert (Runtime.OutPoint.ofBitcoin ⟨txid, k⟩) (mk out)).lookup
              (Runtime.OutPoint.ofBitcoin o) = coins.lookup (Runtime.OutPoint.ofBitcoin o) := by
        split
        · rfl
        · exact Finmap.lookup_insert_of_ne _ fun heq =>
            hthis (Runtime.OutPoint.ofBitcoin_inj.mp heq)
      rw [hlookup]
      by_cases htx : o.txid = txid
      · rcases Nat.lt_trichotomy o.vout k with hlt | heq | hgt
        · simp [show ¬ k + 1 ≤ o.vout by omega, show ¬ k ≤ o.vout by omega]
        · exact absurd (by cases o; simp_all) hthis
        · obtain ⟨j, hj⟩ : ∃ j, o.vout - k = j + 1 := ⟨o.vout - k - 1, by omega⟩
          simp [htx, show k + 1 ≤ o.vout by omega, show k ≤ o.vout by omega, hj,
            show o.vout - (k + 1) = j by omega]
      · simp [htx]

theorem lookup_insertCoins_newCoins (hlen : tx.output.length ≤ 2 ^ 32) (o : OutPoint) :
    (insertCoins coins (newCoins env height tx)).lookup (Runtime.OutPoint.ofBitcoin o) =
      (createdCoin env height tx o).or (coins.lookup (Runtime.OutPoint.ofBitcoin o)) := by
  have h := lookup_insertCoins_from (env.computeTxid tx) (coinOf height tx) tx.output 0 coins
    (by omega) o
  simpa [newCoins, createdCoin] using h

/-! ## The transition -/

/-- The outpoints the runtime takes for a transaction: none for a coinbase. -/
def takenOutPoints (tx : Subcoin.Transaction) : List OutPoint :=
  if tx.isCoinbase then [] else tx.spends

variable (env) in
/-- The coin the runtime inserts at an outpoint for a transaction, if any. -/
def insertedCoin (height : Nat) (tx : Subcoin.Transaction) (o : OutPoint) : Option Coin :=
  if tx.isCoinbase && height ∈ bip30ExceptionHeights then none else createdCoin env height tx o

theorem processBitcoinTransaction_total {st : State} :
    (∃ st', processBitcoinTransaction env height st tx = .ok st') ↔
      (takenOutPoints tx).Nodup ∧ ∀ o ∈ takenOutPoints tx, (st.coin o).isSome = true := by
  cases hcb : tx.isCoinbase with
  | true =>
    by_cases hex : height ∈ bip30ExceptionHeights
    · simp [processBitcoinTransaction, takenOutPoints, hcb, hex]
    · simp [processBitcoinTransaction, takenOutPoints, hcb, hex]
  | false =>
    have htake : (∃ coins', Loop.forEnum takeCoin tx.input st.coins = .ok coins') ↔
        tx.spends.Nodup ∧ ∀ o ∈ tx.spends, Runtime.OutPoint.ofBitcoin o ∈ st.coins :=
      takeCoins_total
    simp only [processBitcoinTransaction, takenOutPoints, hcb, Bool.false_and,
      Bool.false_eq_true, if_false, bind_eq_ok, pure_eq_ok, State.coin,
      Finmap.lookup_isSome]
    refine Iff.trans ?_ htake
    constructor
    · rintro ⟨_, coins', hrun, _⟩
      exact ⟨coins', hrun⟩
    · rintro ⟨coins', hrun⟩
      exact ⟨_, coins', hrun, rfl⟩

theorem coin_processBitcoinTransaction {st st' : State} (hlen : tx.output.length ≤ 2 ^ 32)
    (h : processBitcoinTransaction env height st tx = .ok st') (o : OutPoint) :
    st'.coin o = (insertedCoin env height tx o).or
      (if o ∈ takenOutPoints tx then none else st.coin o) := by
  cases hcb : tx.isCoinbase with
  | true =>
    by_cases hex : height ∈ bip30ExceptionHeights
    · simp only [processBitcoinTransaction, hcb, hex, Bool.true_and, decide_true, if_true,
        Outcome.ok.injEq] at h
      simp [insertedCoin, takenOutPoints, hcb, hex, h]
    · simp only [processBitcoinTransaction, hcb, hex, Bool.true_and, decide_false,
        Bool.false_eq_true, if_false, if_true, Outcome.ok.injEq] at h
      simp [← h, State.coin, insertedCoin, takenOutPoints, hcb, hex,
        lookup_insertCoins_newCoins hlen]
  | false =>
    simp only [processBitcoinTransaction, hcb, Bool.false_and, Bool.false_eq_true, if_false,
      bind_eq_ok, pure_eq_ok, Outcome.ok.injEq] at h
    obtain ⟨coins', hrun, rfl⟩ := h
    simp [State.coin, insertedCoin, takenOutPoints, hcb, lookup_insertCoins_newCoins hlen,
      lookup_takeCoins hrun o, Transaction.spends]

theorem height_of_insertedCoin {o : OutPoint} {c : Coin}
    (h : insertedCoin env height tx o = some c) : c.height = height := by
  unfold insertedCoin createdCoin at h
  split at h
  · cases h
  · split at h
    · obtain ⟨txout, _, hc⟩ := Option.bind_eq_some_iff.mp h
      split at hc
      · cases hc
      · rw [Option.some.injEq] at hc
        rw [← hc]
        rfl
    · cases h

end Subcoin.Pallet
