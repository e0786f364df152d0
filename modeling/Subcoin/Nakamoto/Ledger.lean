import Subcoin.Nakamoto.Accepted
import Subcoin.Pallet.Execution

/-!
# Subcoin — the value account of a block

The account of a block weighs the coins of the parent state and all outputs created so far against
what its inputs have been charged for and what the runtime still holds (`Ledger`). Spending a coin
moves its value from one side to the other, creating outputs adds to both, and nothing else
happens: `Ledger.spend`, `Ledger.create`. Since no outpoint is charged twice, the charges are
bounded by the two totals (`Ledger.paid_le`), which is why no sum in `verifyTransactions` comes
near its width.
-/

namespace Subcoin

open Outcome Loop

open Pallet (State insertedCoin takenOutPoints coinAfter)

variable {SE : Type} {env : Env SE} {S : State}

/-! ## Totals -/

def amountOf (x : Option Coin) : Nat := (x.map Coin.amount).getD 0

@[simp] theorem amountOf_none : amountOf none = 0 := rfl

@[simp] theorem amountOf_some (c : Coin) : amountOf (some c) = c.amount := rfl

/-- The sum of the amounts in `Coins`. -/
def supply (S : State) : Nat := Finmap.total Coin.amount S.coins

/-- The value of the output a transaction has at an outpoint, `OP_RETURN` outputs included. -/
def createdBy (env : Env SE) (tx : Transaction) (o : OutPoint) : Nat :=
  if o.txid = env.computeTxid tx then ((tx.output[o.vout]?).map TxOut.value).getD 0 else 0

def createdIn (env : Env SE) (txs : List Transaction) (o : OutPoint) : Nat :=
  (txs.map fun tx => createdBy env tx o).sum

def outputTotal (txs : List Transaction) : Nat := (txs.map Transaction.outputValue).sum

theorem createdIn_snoc (txs : List Transaction) (tx : Transaction) (o : OutPoint) :
    createdIn env (txs ++ [tx]) o = createdIn env txs o + createdBy env tx o := by
  simp [createdIn]

variable {tx : Transaction} {l : List OutPoint} {o : OutPoint}

variable {txs : List Transaction}

theorem createdBy_le_createdIn (h : tx ∈ txs) (o : OutPoint) :
    createdBy env tx o ≤ createdIn env txs o :=
  List.single_le_sum (by simp) _ (List.mem_map.mpr ⟨tx, h, rfl⟩)

theorem sum_amounts_le (h : l.Nodup) : (l.map fun o => amountOf (S.coin o)).sum ≤ supply S := by
  have hkeys : (l.map Runtime.OutPoint.ofBitcoin).Nodup :=
    h.map Runtime.OutPoint.ofBitcoin_injective
  have hsum := Finmap.sum_weightAt_le_total (w := Coin.amount) S.coins hkeys
  rwa [List.map_map] at hsum

theorem sum_range_getD (values : List Nat) :
    ∑ j ∈ Finset.range values.length, (values[j]?).getD 0 = values.sum := by
  induction values with
  | nil => rfl
  | cons a values ih =>
    rw [List.length_cons, Finset.sum_range_succ', List.sum_cons, ← ih]
    simp [Nat.add_comm]

theorem sum_createdBy_le (tx : Transaction) (h : l.Nodup) :
    (l.map (createdBy env tx)).sum ≤ tx.outputValue := by
  have hlist : (l.map (createdBy env tx)).sum = ∑ o ∈ l.toFinset, createdBy env tx o :=
    (List.sum_toFinset _ h).symm
  let outpoint (j : Nat) : OutPoint := ⟨env.computeTxid tx, j⟩
  have hinj : Function.Injective outpoint := fun i j hij => congrArg OutPoint.vout hij
  have hvalues : ∀ j, createdBy env tx (outpoint j) =
      ((tx.output.map TxOut.value)[j]?).getD 0 := by
    intro j
    simp [createdBy, outpoint]
  calc (l.map (createdBy env tx)).sum
      = ∑ o ∈ l.toFinset, createdBy env tx o := hlist
    _ ≤ ∑ o ∈ (Finset.range tx.output.length).map ⟨outpoint, hinj⟩, createdBy env tx o := by
        -- an outpoint with a value is one of the transaction's own outputs
        refine Finset.sum_le_sum_of_ne_zero ?_
        intro o _ hne
        have htxid : o.txid = env.computeTxid tx := by
          by_contra hno
          simp [createdBy, hno] at hne
        have hlt : o.vout < tx.output.length := by
          by_contra hge
          simp [createdBy, htxid, List.getElem?_eq_none (not_lt.mp hge)] at hne
        refine Finset.mem_map.mpr ⟨o.vout, Finset.mem_range.mpr hlt, ?_⟩
        simp [outpoint, ← htxid]
    _ = ∑ j ∈ Finset.range tx.output.length, ((tx.output.map TxOut.value)[j]?).getD 0 := by
        rw [Finset.sum_map]
        exact Finset.sum_congr rfl fun j _ => hvalues j
    _ = tx.outputValue := by
        have := sum_range_getD (tx.output.map TxOut.value)
        rwa [List.length_map] at this

theorem sum_createdIn_le (txs : List Transaction) (h : l.Nodup) :
    (l.map (createdIn env txs)).sum ≤ outputTotal txs := by
  induction txs with
  | nil =>
    have hzero : (fun o => createdIn env [] o) = fun _ => 0 := rfl
    simp [outputTotal, hzero]
  | cons tx txs ih =>
    have hsplit : (l.map (createdIn env (tx :: txs))).sum =
        (l.map (createdBy env tx)).sum + (l.map (createdIn env txs)).sum := by
      rw [← List.sum_map_add]
      rfl
    have htx : (l.map (createdBy env tx)).sum ≤ tx.outputValue := sum_createdBy_le tx h
    rw [hsplit, outputTotal, List.map_cons, List.sum_cons]
    exact Nat.add_le_add htx ih

theorem sum_charge_le {charge : OutPoint → Nat} (h : l.Nodup)
    (hcharge : ∀ o, charge o ≤ amountOf (S.coin o) + createdIn env txs o) :
    (l.map charge).sum ≤ supply S + outputTotal txs := by
  have hle : (l.map charge).sum ≤
      (l.map fun o => amountOf (S.coin o) + createdIn env txs o).sum :=
    List.sum_le_sum fun o _ => hcharge o
  have hadd : (l.map fun o => amountOf (S.coin o) + createdIn env txs o).sum =
      (l.map fun o => amountOf (S.coin o)).sum + (l.map (createdIn env txs)).sum :=
    List.sum_map_add
  have hcoins := sum_amounts_le (S := S) h
  have hcreated : (l.map (createdIn env txs)).sum ≤ outputTotal txs := sum_createdIn_le txs h
  omega

/-! ## The account -/

/-- The inputs so far spent the outpoints `spent` and were charged `paid` for them, and what is left
at each outpoint, with the charge, is covered by the parent state and the outputs of `pre`. -/
def Ledger (env : Env SE) (S : State) (pre : List Transaction) (spent : List OutPoint) (paid : Nat)
    (left : OutPoint → Option Coin) : Prop :=
  spent.Nodup ∧ ∃ charge : OutPoint → Nat,
    (∀ o, o ∉ spent → charge o = 0) ∧ paid = (spent.map charge).sum ∧
      ∀ o, amountOf (left o) + charge o ≤ amountOf (S.coin o) + createdIn env pre o

namespace Ledger

variable {pre : List Transaction} {spent : List OutPoint} {paid : Nat}
  {left : OutPoint → Option Coin}

theorem initial (env : Env SE) (S : State) : Ledger env S [] [] 0 S.coin :=
  ⟨List.nodup_nil, fun _ => 0, fun _ _ => rfl, rfl, fun o => by simp [createdIn]⟩

theorem paid_le (h : Ledger env S pre spent paid left) : paid ≤ supply S + outputTotal pre := by
  obtain ⟨hnodup, charge, _, rfl, hcover⟩ := h
  exact sum_charge_le hnodup fun o => le_trans (Nat.le_add_left _ _) (hcover o)

theorem spend (h : Ledger env S pre spent paid left) (ho : o ∉ spent) {value : Nat}
    (hvalue : value ≤ amountOf (S.coin o) + createdIn env pre o) :
    Ledger env S pre (o :: spent) (paid + value) (Function.update left o none) := by
  obtain ⟨hnodup, charge, hzero, rfl, hcover⟩ := h
  have hsame : spent.map (Function.update charge o value) = spent.map charge := by
    refine List.map_congr_left fun o' ho' => Function.update_of_ne ?_ _ _
    rintro rfl
    exact ho ho'
  -- the input is charged the value of its coin; no earlier charge changes
  refine ⟨List.nodup_cons.mpr ⟨ho, hnodup⟩, Function.update charge o value, ?_, ?_, ?_⟩
  · intro o' ho'
    rw [List.mem_cons, not_or] at ho'
    rw [Function.update_of_ne ho'.1]
    exact hzero o' ho'.2
  · rw [List.map_cons, List.sum_cons, Function.update_self, hsame, Nat.add_comm]
  · intro o'
    by_cases heq : o' = o
    · subst heq
      simpa using hvalue
    · rw [Function.update_of_ne heq, Function.update_of_ne heq]
      exact hcover o'

theorem amountOf_insertedCoin_le (height : Nat) (tx : Transaction) (o : OutPoint) :
    amountOf (insertedCoin env height tx o) ≤ createdBy env tx o := by
  simp only [insertedCoin, Pallet.createdCoin, createdBy]
  split
  · simp
  · split
    · cases tx.output[o.vout]? with
      | none => simp
      | some txout =>
        by_cases hop : txout.isOpReturn = true
        · simp [hop]
        · simp [hop, Pallet.coinOf]
    · simp

/-- The outputs of a transaction are added to the account, whatever of them the runtime stores. -/
theorem create (h : Ledger env S pre spent paid left) (height : Nat) (tx : Transaction) :
    Ledger env S (pre ++ [tx]) spent paid
      (fun o => (insertedCoin env height tx o).or (left o)) := by
  obtain ⟨hnodup, charge, hzero, rfl, hcover⟩ := h
  refine ⟨hnodup, charge, hzero, rfl, fun o => ?_⟩
  have hins : amountOf (insertedCoin env height tx o) ≤ createdBy env tx o :=
    amountOf_insertedCoin_le height tx o
  have hor : amountOf ((insertedCoin env height tx o).or (left o)) ≤
      amountOf (insertedCoin env height tx o) + amountOf (left o) := by
    cases insertedCoin env height tx o with
    | none => simp
    | some c => simp
  have hold := hcover o
  rw [createdIn_snoc]
  dsimp only
  omega

end Ledger

/-! ## The inputs of a transaction -/

namespace TxsContext

variable {ctx : TxsContext}

def checked (ctx : TxsContext) : TxsContext := { ctx with build := Build.checked }

/-- What the account of a block needs to know: the parent state holds coins of earlier heights only,
and together with the coinbase it is far below `2 ^ 64`. -/
structure Solvent (env : Env SE) (ctx : TxsContext) (S : State) : Prop where
  txids : ctx.TxidsComplete env
  sane : SaneBlock env ctx.block
  view : ctx.findUtxoInState = S.coin
  height_le : ∀ {o c}, S.coin o = some c → c.height ≤ ctx.blockNumber
  supply_le : supply S ≤ maxSubsidy

variable {pre post : List Transaction} {txout : TxOut} {s : BlockState}

theorem value_le_of_coin (hview : ctx.findUtxoInState = S.coin) {cb : Bool} {height : Nat}
    (hcoin : ctx.coin env pre o = some (txout, cb, height)) :
    txout.value ≤ amountOf (S.coin o) + createdIn env pre o := by
  rw [coin, hview] at hcoin
  cases hS : S.coin o with
  | some c =>
    rw [coinBefore_of_some hS, Option.some.injEq, Prod.mk.injEq] at hcoin
    rw [← hcoin.1, amountOf_some]
    exact Nat.le_add_right _ _
  | none =>
    obtain ⟨l1, tx, l2, rfl, htxid, hout, _⟩ := coinBefore_of_none hS hcoin
    have hvalue : createdBy env tx o = txout.value := by simp [createdBy, htxid, hout]
    have hle : createdBy env tx o ≤ createdIn env (l1 ++ tx :: l2) o :=
      createdBy_le_createdIn (by simp) o
    omega

theorem Solvent.coin_height_le (h : Solvent env ctx S) {cb : Bool} {height : Nat}
    (hcoin : ctx.coin env pre o = some (txout, cb, height)) : height ≤ ctx.blockNumber := by
  rw [coin, h.view] at hcoin
  cases hS : S.coin o with
  | some c =>
    rw [coinBefore_of_some hS, Option.some.injEq, Prod.mk.injEq, Prod.mk.injEq] at hcoin
    rw [← hcoin.2.2]
    exact h.height_le hS
  | none =>
    obtain ⟨_, _, _, _, _, _, _, rfl⟩ := coinBefore_of_none hS hcoin
    exact le_rfl

theorem Solvent.acceptedInput_checked (h : Solvent env ctx S) {i : Nat} {input : TxIn}
    (hacc : AcceptedInput env ctx pre tx i input txout) :
    AcceptedInput env ctx.checked pre tx i input txout := by
  obtain ⟨⟨cb, height, hcoin, hmature⟩, hscript⟩ := hacc
  refine ⟨⟨cb, height, hcoin, fun hcb => ?_⟩, hscript⟩
  obtain ⟨age, hage, hle⟩ := hmature hcb
  have hheight := h.coin_height_le hcoin
  rw [Build.sub_of_le hheight] at hage
  exact ⟨age, by rw [← hage]; exact Build.sub_of_le hheight, hle⟩

variable {left : OutPoint → Option Coin}

/-- Until the last transaction, the charges exceed the outputs they paid for by at most the parent
supply and the coinbase. -/
theorem Solvent.fees_lt (h : Solvent env ctx S) (hsplit : ctx.block.txdata = pre ++ post)
    (hne : pre ≠ []) {spent : List OutPoint} {fees : Nat}
    (hledger : Ledger env S pre spent (fees + outputTotal pre.tail) left) :
    fees + initialSubsidy < 2 ^ 64 := by
  obtain ⟨cb, pre', rfl⟩ := List.exists_cons_of_ne_nil hne
  have hpaid := hledger.paid_le
  have hcb := (h.sane.sane cb (by simp [hsplit])).output_value_le
  have hsupply := h.supply_le
  simp only [outputTotal, List.tail_cons, List.map_cons, List.sum_cons] at hpaid
  rw [maxMoney] at hcb
  rw [maxSubsidy] at hsupply
  rw [initialSubsidy, coinValue]
  omega

theorem Solvent.checkInputs (h : Solvent env ctx S)
    (hsplit : ctx.block.txdata = pre ++ tx :: post) (hne : pre ≠ [])
    (hledger : Ledger env S pre s.spentCoinsInBlock (s.blockFee + outputTotal pre.tail) left)
    {ins : InputState}
    (hrun : forEnum (ctx.checkInput env pre.length tx) tx.input ⟨s.spentCoinsInBlock, 0⟩ = .ok
      ins) :
    forEnum (ctx.checked.checkInput env pre.length tx) tx.input ⟨s.spentCoinsInBlock, 0⟩ =
        .ok ins ∧
      Ledger env S pre ins.spentCoinsInBlock
        (s.blockFee + ins.valueIn + outputTotal pre.tail)
        (fun o => if o ∈ tx.spends then none else left o) := by
  refine forEnum_transfer
    (fun (l : List TxIn) (t : InputState) => Ledger env S pre t.spentCoinsInBlock
      (s.blockFee + t.valueIn + outputTotal pre.tail)
      (fun o => if o ∈ l.map TxIn.previousOutput then none else left o)) ?_ ?_ hrun
  · simpa using hledger
  · intro l input _ t t' _ hinv hstep
    obtain ⟨hnew, txout, hacc, hadd, hspent⟩ := (checkInput_eq_ok h.txids hsplit).mp hstep
    obtain ⟨cb, height, hcoin, _⟩ := hacc.spends
    have hinv' := hinv.spend hnew (value_le_of_coin h.view hcoin)
    have hpaid : s.blockFee + t.valueIn + outputTotal pre.tail + txout.value =
        (s.blockFee + (t.valueIn + txout.value)) + outputTotal pre.tail := by omega
    rw [hpaid] at hinv'
    -- the account bounds the sum, so that the addition is the same in both builds
    have hlt := h.fees_lt hsplit hne hinv'
    have hsum : t.valueIn + txout.value < 2 ^ 64 := by omega
    rw [Build.add_of_lt hsum, Outcome.ok.injEq] at hadd
    have hleft : (fun o => if o ∈ (l ++ [input]).map TxIn.previousOutput then none else left o) =
        Function.update (fun o => if o ∈ l.map TxIn.previousOutput then none else left o)
          input.previousOutput none := by
      funext o
      by_cases ho : o = input.previousOutput
      · simp [ho]
      · simp [ho]
    have htxids : ctx.checked.TxidsComplete env := h.txids
    refine ⟨(checkInput_eq_ok htxids hsplit).mpr
      ⟨hnew, txout, h.acceptedInput_checked hacc, ?_, hspent⟩, ?_⟩
    · rw [← hadd]
      exact Build.add_of_lt hsum
    · rw [hspent, ← hadd, hleft]
      exact hinv'

/-! ## The transactions of a block -/

theorem sumValues_from {build : Build} {outs : List TxOut} {i acc : Nat}
    (h : acc + (outs.map TxOut.value).sum < 2 ^ 64) :
    (forEnumFrom (fun acc _ (txout : TxOut) => build.add 64 acc txout.value) i outs acc :
      Outcome (VerifyError SE) Nat) = .ok (acc + (outs.map TxOut.value).sum) := by
  induction outs generalizing i acc with
  | nil => rfl
  | cons out outs ih =>
    simp only [List.map_cons, List.sum_cons] at h ⊢
    rw [forEnumFrom_cons, Build.add_of_lt (by omega), ok_bind, ih (by omega),
      Nat.add_assoc]

theorem sumValues_eq {build : Build} (h : SaneTransaction env tx) :
    (sumValues build tx.output : Outcome (VerifyError SE) Nat) = .ok tx.outputValue := by
  have hle := h.output_value_le
  rw [maxMoney] at hle
  have hlt : 0 + (tx.output.map TxOut.value).sum < 2 ^ 64 := by
    rw [Nat.zero_add]
    exact lt_of_le_of_lt hle (by norm_num)
  have hsum : (sumValues build tx.output : Outcome (VerifyError SE) Nat) =
      .ok (0 + (tx.output.map TxOut.value).sum) := sumValues_from hlt
  rw [Nat.zero_add] at hsum
  exact hsum

def BlockLedger (env : Env SE) (ctx : TxsContext) (S : State) (pre : List Transaction)
    (s : BlockState) : Prop :=
  Ledger env S pre s.spentCoinsInBlock (s.blockFee + outputTotal pre.tail)
    (fun o => coinAfter env ctx.blockNumber pre o (S.coin o))

theorem Solvent.checkCoinbase (h : Solvent env ctx S)
    (hsplit : ctx.block.txdata = [] ++ tx :: post) (hledger : BlockLedger env ctx S [] s) :
    BlockLedger env ctx S [tx] s := by
  obtain ⟨cb, rest, hcb, hcoinbase⟩ := h.sane.coinbase
  obtain rfl : cb = tx := by
    rw [hcb, List.nil_append, List.cons.injEq] at hsplit
    exact hsplit.1
  have hcreate := hledger.create ctx.blockNumber cb
  have htaken : takenOutPoints cb = [] := by simp [takenOutPoints, hcoinbase]
  have hafter : (fun o => (insertedCoin env ctx.blockNumber cb o).or
        (coinAfter env ctx.blockNumber [] o (S.coin o))) =
      fun o => coinAfter env ctx.blockNumber ([] ++ [cb]) o (S.coin o) := by
    funext o
    rw [Pallet.coinAfter_snoc, htaken, if_neg List.not_mem_nil]
  rw [hafter] at hcreate
  exact hcreate

theorem Solvent.checkTransaction (h : Solvent env ctx S)
    (hsplit : ctx.block.txdata = pre ++ tx :: post) (hne : pre ≠ []) {s' : BlockState}
    (hledger : BlockLedger env ctx S pre s)
    (hstep : ctx.checkTransaction env s pre.length tx = .ok s') :
    ctx.checked.checkTransaction env s pre.length tx = .ok s' ∧
      BlockLedger env ctx S (pre ++ [tx]) s' := by
  obtain ⟨hfinal, ins, hins, hsig, valueOut, hout, hle, hfee, hspent⟩ :=
    (checkTransaction_eq_ok h.txids hsplit).mp hstep
  obtain ⟨hins', hledger'⟩ := h.checkInputs hsplit hne hledger hins
  have hsane := h.sane.sane tx (by simp [hsplit])
  rw [sumValues_eq hsane, Outcome.ok.injEq] at hout
  have hlt := h.fees_lt hsplit hne hledger'
  have hsum : s.blockFee + (ins.valueIn - valueOut) < 2 ^ 64 := by omega
  rw [Build.add_of_lt hsum, Outcome.ok.injEq] at hfee
  constructor
  · have htxids : ctx.checked.TxidsComplete env := h.txids
    refine (checkTransaction_eq_ok htxids hsplit).mpr
      ⟨hfinal, ins, hins', hsig, valueOut, ?_, hle, ?_, hspent⟩
    · rw [← hout]
      exact sumValues_eq hsane
    · rw [← hfee]
      exact Build.add_of_lt hsum
  · have htaken : takenOutPoints tx = tx.spends := by
      simp [takenOutPoints, h.sane.regular hsplit hne]
    have hcreate := hledger'.create ctx.blockNumber tx
    have hafter : (fun o => (insertedCoin env ctx.blockNumber tx o).or
          (if o ∈ tx.spends then none else coinAfter env ctx.blockNumber pre o (S.coin o))) =
        fun o => coinAfter env ctx.blockNumber (pre ++ [tx]) o (S.coin o) := by
      funext o
      rw [Pallet.coinAfter_snoc, htaken]
    -- what the inputs were charged is the fee and the value of the outputs
    have hpaid : s.blockFee + ins.valueIn + outputTotal pre.tail =
        s'.blockFee + outputTotal (pre ++ [tx]).tail := by
      rw [List.tail_append_of_ne_nil hne]
      simp only [outputTotal, List.map_append, List.sum_append, List.map_singleton,
        List.sum_singleton]
      omega
    rw [BlockLedger, hspent, ← hpaid, ← hafter]
    exact hcreate

/-- **The account of a block.** A block that passes `verifyTransactions` passes in the checked build
as well; at its end the account is settled, and the coinbase claims at most fees and subsidy. -/
theorem Solvent.verifyTransactions (h : Solvent env ctx S)
    (hok : ctx.verifyTransactions env = .ok ()) :
    ctx.checked.verifyTransactions env = .ok () ∧
      ∃ s cb rest, ctx.block.txdata = cb :: rest ∧ BlockLedger env ctx S ctx.block.txdata s ∧
        cb.outputValue ≤ s.blockFee + bitcoinBlockSubsidy ctx.blockNumber := by
  simp only [TxsContext.verifyTransactions, bind_eq_ok, expect_eq_ok,
    errIf_eq_ok, decide_eq_false_iff_not, not_lt] at hok
  obtain ⟨s, hloop, cb, hcb, value, hvalue, allowed, hallowed, hle⟩ := hok
  obtain ⟨hloop', hledger⟩ : forEnum (ctx.checked.checkBlockTransaction env)
        ctx.block.txdata ⟨0, []⟩ = .ok s ∧ BlockLedger env ctx S ctx.block.txdata s := by
    refine forEnum_transfer (BlockLedger env ctx S) (Ledger.initial env S) ?_ hloop
    intro pre tx post s1 s2 hsplit hinv hstep
    cases pre with
    | nil =>
      -- the coinbase has its own branch in the loop, which neither sums nor looks up anything
      refine ⟨hstep, ?_⟩
      simp only [checkBlockTransaction, List.length_nil, if_true, bind_eq_ok,
        pure_eq_ok, Outcome.ok.injEq] at hstep
      obtain ⟨_, _, rfl⟩ := hstep
      exact h.checkCoinbase hsplit hinv
    | cons a pre =>
      have hindex : (a :: pre).length ≠ 0 := by simp
      rw [checkBlockTransaction, if_neg hindex] at hstep ⊢
      exact h.checkTransaction hsplit (List.cons_ne_nil a pre) hinv hstep
  obtain ⟨rest, hrest⟩ : ∃ rest, ctx.block.txdata = cb :: rest := List.head?_eq_some_iff.mp hcb
  have hsane := h.sane.sane cb (by simp [hrest])
  rw [sumValues_eq hsane, Outcome.ok.injEq] at hvalue
  have hlt := h.fees_lt (List.append_nil _).symm (by simp [hrest]) hledger
  have hsubsidy := bitcoinBlockSubsidy_le ctx.blockNumber
  have hsum : s.blockFee + bitcoinBlockSubsidy ctx.blockNumber < 2 ^ 64 := by omega
  rw [Build.add_of_lt hsum, Outcome.ok.injEq] at hallowed
  refine ⟨?_, s, cb, rest, hrest, hledger, by omega⟩
  simp only [TxsContext.verifyTransactions, bind_eq_ok, expect_eq_ok,
    errIf_eq_ok, decide_eq_false_iff_not, not_lt]
  exact ⟨s, hloop', cb, hcb, value, hvalue ▸ sumValues_eq hsane, allowed,
    hallowed ▸ Build.add_of_lt hsum, hle⟩

end TxsContext

end Subcoin
