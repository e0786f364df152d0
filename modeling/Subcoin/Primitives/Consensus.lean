import Subcoin.Lib.Loop
import Subcoin.Bitcoin.Env

/-!
# Subcoin — context-free transaction checks

`checkTransactionSanity` is `check_transaction_sanity` of the primitives crate. Its two loops are
characterised by what they leave behind (the running total, the set of inputs seen), and
`checkTransactionSanity_eq_ok` states once what a transaction that passes looks like.
-/

namespace Subcoin

open Outcome Loop

def minCoinbaseScriptLen : Nat := 2

def maxCoinbaseScriptLen : Nat := 100

inductive TxError where
  | emptyInput
  | emptyOutput
  | transactionOversize
  | duplicateTxInput (index : Nat)
  | outputValueTooLarge (value : Nat)
  | totalOutputValueTooLarge (value : Nat)
  | badCoinbaseLength (len : Nat)
  | previousOutputNull
deriving DecidableEq, Repr

def checkOutputValue (valueOut : Nat) (_ : Nat) (txout : TxOut) : Outcome TxError Nat := do
  Outcome.errIf (maxMoney < txout.value) (.outputValueTooLarge txout.value)
  let valueOut := valueOut + txout.value
  Outcome.errIf (maxMoney < valueOut) (.totalOutputValueTooLarge valueOut)
  pure valueOut

def checkDuplicateInput (seenInputs : List OutPoint) (index : Nat) (txin : TxIn) :
    Outcome TxError (List OutPoint) := do
  Outcome.errIf (txin.previousOutput ∈ seenInputs) (.duplicateTxInput index)
  pure (txin.previousOutput :: seenInputs)

/-- The last check: the script length of a coinbase, the inputs of any other transaction. -/
def checkPreviousOutputs (tx : Transaction) : Outcome TxError Unit :=
  if tx.isCoinbase then
    let scriptSigLen := (tx.input.head?.map fun txin => txin.scriptSig.length).getD 0
    Outcome.errIf (!(minCoinbaseScriptLen ≤ scriptSigLen && scriptSigLen ≤ maxCoinbaseScriptLen))
      (.badCoinbaseLength scriptSigLen)
  else
    -- Previous outputs referenced by the inputs of any other transaction must not be null.
    Outcome.errIf (tx.input.any fun txin => txin.previousOutput.isNull) .previousOutputNull

def checkTransactionSanity {SE : Type} (env : Env SE) (tx : Transaction) :
    Outcome TxError Unit := do
  Outcome.errIf tx.input.isEmpty .emptyInput
  Outcome.errIf tx.output.isEmpty .emptyOutput
  Outcome.errIf (maxBlockWeight < env.baseSize tx * witnessScaleFactor) .transactionOversize
  let _ ← Loop.forEnum checkOutputValue tx.output 0
  let _ ← Loop.forEnum checkDuplicateInput tx.input []
  checkPreviousOutputs tx

/-! ## The two loops -/

variable {i : Nat} {tx : Transaction}

theorem checkOutputValue_eq_ok {valueOut : Nat} {txout : TxOut} {r : Nat} :
    checkOutputValue valueOut i txout = .ok r ↔
      valueOut + txout.value ≤ maxMoney ∧ r = valueOut + txout.value := by
  simp only [checkOutputValue, bind_eq_ok, errIf_eq_ok, decide_eq_false_iff_not,
    pure_eq_ok, Outcome.ok.injEq]
  constructor
  · rintro ⟨_, _, _, h, rfl⟩
    exact ⟨by omega, rfl⟩
  · rintro ⟨h, rfl⟩
    exact ⟨(), by omega, (), by omega, rfl⟩

theorem checkOutputValues_eq_ok {outs : List TxOut} {acc r : Nat} (hacc : acc ≤ maxMoney) :
    forEnumFrom checkOutputValue i outs acc = .ok r ↔
      acc + (outs.map TxOut.value).sum ≤ maxMoney ∧ r = acc + (outs.map TxOut.value).sum := by
  induction outs generalizing i acc with
  | nil =>
    simp only [forEnumFrom_nil, Outcome.ok.injEq, List.map_nil, List.sum_nil, Nat.add_zero]
    exact ⟨fun h => ⟨hacc, h.symm⟩, fun h => h.2.symm⟩
  | cons out outs ih =>
    simp only [forEnumFrom_cons, bind_eq_ok, checkOutputValue_eq_ok, List.map_cons,
      List.sum_cons]
    constructor
    · rintro ⟨s, ⟨hle, rfl⟩, hrest⟩
      rw [ih hle] at hrest
      exact ⟨by omega, by omega⟩
    · rintro ⟨hle, rfl⟩
      refine ⟨acc + out.value, ⟨by omega, rfl⟩, ?_⟩
      rw [ih (by omega)]
      exact ⟨by omega, by omega⟩

theorem checkDuplicateInput_eq_ok {seen : List OutPoint} {txin : TxIn} {r : List OutPoint} :
    checkDuplicateInput seen i txin = .ok r ↔
      txin.previousOutput ∉ seen ∧ r = txin.previousOutput :: seen := by
  simp only [checkDuplicateInput, bind_eq_ok, errIf_eq_ok,
    decide_eq_false_iff_not, pure_eq_ok, Outcome.ok.injEq]
  constructor
  · rintro ⟨_, h, rfl⟩
    exact ⟨h, rfl⟩
  · rintro ⟨h, rfl⟩
    exact ⟨(), h, rfl⟩

theorem checkDuplicateInputs_eq_ok {ins : List TxIn} {seen : List OutPoint} :
    (∃ r, forEnumFrom checkDuplicateInput i ins seen = .ok r) ↔
      (ins.map TxIn.previousOutput).Nodup ∧ ∀ o ∈ ins.map TxIn.previousOutput, o ∉ seen := by
  induction ins generalizing i seen with
  | nil => simp
  | cons txin ins ih =>
    simp only [forEnumFrom_cons, bind_eq_ok, checkDuplicateInput_eq_ok, List.map_cons,
      List.nodup_cons]
    constructor
    · rintro ⟨r, s, ⟨hnew, rfl⟩, hrest⟩
      obtain ⟨hnodup, hseen⟩ := ih.mp ⟨r, hrest⟩
      refine ⟨⟨fun hmem => hseen _ hmem List.mem_cons_self, hnodup⟩, ?_⟩
      intro o ho
      rcases List.mem_cons.mp ho with rfl | ho
      · exact hnew
      · exact fun hs => hseen o ho (List.mem_cons_of_mem _ hs)
    · rintro ⟨⟨hfresh, hnodup⟩, hseen⟩
      have hrest : ∀ o ∈ ins.map TxIn.previousOutput, o ∉ txin.previousOutput :: seen := by
        intro o ho hs
        rcases List.mem_cons.mp hs with rfl | hs
        · exact hfresh ho
        · exact hseen o (List.mem_cons_of_mem _ ho) hs
      obtain ⟨r, hr⟩ := (ih (i := i + 1)).mpr ⟨hnodup, hrest⟩
      exact ⟨r, _, ⟨hseen _ List.mem_cons_self, rfl⟩, hr⟩

/-! ## What a transaction that passes looks like -/

structure SaneTransaction {SE : Type} (env : Env SE) (tx : Transaction) : Prop where
  input_ne_nil : tx.input ≠ []
  output_ne_nil : tx.output ≠ []
  base_size_le : env.baseSize tx * witnessScaleFactor ≤ maxBlockWeight
  output_value_le : tx.outputValue ≤ maxMoney
  nodup_spends : tx.spends.Nodup
  coinbase_script_len : tx.isCoinbase = true → ∀ txin ∈ tx.input,
    minCoinbaseScriptLen ≤ txin.scriptSig.length ∧ txin.scriptSig.length ≤ maxCoinbaseScriptLen
  spends_not_null : tx.isCoinbase = false → ∀ txin ∈ tx.input, txin.previousOutput.isNull = false

theorem Transaction.isCoinbase_eq_true :
    tx.isCoinbase = true ↔ ∃ txin, tx.input = [txin] ∧ txin.previousOutput.isNull = true := by
  unfold Transaction.isCoinbase
  match h : tx.input with
  | [] => simp
  | [txin] => simp
  | _ :: _ :: _ => simp

theorem checkPreviousOutputs_eq_ok :
    checkPreviousOutputs tx = .ok () ↔
      (tx.isCoinbase = true → ∀ txin ∈ tx.input,
        minCoinbaseScriptLen ≤ txin.scriptSig.length ∧
          txin.scriptSig.length ≤ maxCoinbaseScriptLen) ∧
      (tx.isCoinbase = false → ∀ txin ∈ tx.input, txin.previousOutput.isNull = false) := by
  cases hcb : tx.isCoinbase with
  | false => simp [checkPreviousOutputs, hcb, errIf_eq_ok]
  | true =>
    obtain ⟨txin, hin, _⟩ := Transaction.isCoinbase_eq_true.mp hcb
    simp [checkPreviousOutputs, hcb, errIf_eq_ok, hin]

theorem checkTransactionSanity_eq_ok {SE : Type} {env : Env SE} :
    checkTransactionSanity env tx = .ok () ↔ SaneTransaction env tx := by
  have hvalues : (∃ r, forEnum checkOutputValue tx.output 0 = .ok r) ↔
      tx.outputValue ≤ maxMoney := by
    constructor
    · rintro ⟨r, hr⟩
      have hle := ((checkOutputValues_eq_ok (Nat.zero_le _)).mp hr).1
      rwa [Nat.zero_add] at hle
    · intro hle
      refine ⟨0 + (tx.output.map TxOut.value).sum, (checkOutputValues_eq_ok (Nat.zero_le _)).mpr ?_⟩
      exact ⟨by rwa [Nat.zero_add], rfl⟩
  have hinputs : (∃ r, forEnum checkDuplicateInput tx.input [] = .ok r) ↔
      tx.spends.Nodup := by
    refine (checkDuplicateInputs_eq_ok (i := 0)).trans ⟨fun h => h.1, fun h => ⟨h, ?_⟩⟩
    exact fun _ _ => List.not_mem_nil
  constructor
  · intro h
    simp only [checkTransactionSanity, bind_eq_ok, errIf_eq_ok] at h
    obtain ⟨_, hin, _, hout, _, hsize, v, hv, d, hd, hrest⟩ := h
    obtain ⟨hcb, hnull⟩ := checkPreviousOutputs_eq_ok.mp hrest
    exact {
      input_ne_nil := by simpa using hin
      output_ne_nil := by simpa using hout
      base_size_le := by simpa using hsize
      output_value_le := hvalues.mp ⟨v, hv⟩
      nodup_spends := hinputs.mp ⟨d, hd⟩
      coinbase_script_len := hcb
      spends_not_null := hnull }
  · intro h
    obtain ⟨v, hv⟩ := hvalues.mpr h.output_value_le
    obtain ⟨d, hd⟩ := hinputs.mpr h.nodup_spends
    simp only [checkTransactionSanity, bind_eq_ok, errIf_eq_ok]
    refine ⟨(), by simpa using h.input_ne_nil, (), by simpa using h.output_ne_nil, (),
      by simpa using h.base_size_le, v, hv, d, hd, ?_⟩
    exact checkPreviousOutputs_eq_ok.mpr ⟨h.coinbase_script_len, h.spends_not_null⟩

end Subcoin
