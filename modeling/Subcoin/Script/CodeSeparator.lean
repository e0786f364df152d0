import Subcoin.Lib.Positions
import Subcoin.Script.Frame
import Subcoin.Script.Interpreter
import Subcoin.Script.Layout

/-!
# Subcoin — code separators

Two places know how long an instruction is: the interpreter, which keeps the position of the last
executed `OP_CODESEPARATOR`, and the transaction checker, which copies a script without its code
separators. Both count one byte and the data, and forget the length bytes of a `PUSHDATA`.

* **`EvalContext.script_code_iff`** — the script code of a signature opcode starts right after the
  last executed code separator exactly when no `PUSHDATA` stands before that one.
* **`pushdata_shifts_script_code`** — a script whose code separator itself is part of the script
  code.
* **`removeOpCodeseparator_iff`** — the script that is hashed is the script code without its code
  separators exactly when it has none of them, or no `PUSHDATA` before its last instruction.
* **`pushdata_loses_bytes`** — a script of which a byte is lost.
-/

namespace Subcoin.Script

open Outcome

/-! ## The last executed code separator -/

variable {item : Nat × Instruction}

theorem headerAt_of_isCodeseparator {minimal : Bool} {script : List UInt8}
    (hitem : item ∈ (instructionIndices minimal script).items) (h : isCodeseparator item.2 = true) :
    headerAt script item.1 = 0 := by
  obtain ⟨pos, instruction⟩ := item
  cases instruction with
  | pushBytes data => cases h
  | op code => exact headerAt_of_op hitem

theorem step_of_isCodeseparator {instruction : Instruction}
    (h : isCodeseparator instruction = true) : instruction.step = 1 := by
  cases instruction with
  | pushBytes data => cases h
  | op code => rfl

namespace EvalContext

/-- The position right after the last code separator executed in the steps, or the start of the
script. -/
def separatorEnd (before : List (EvalState × (Nat × Instruction))) : Nat :=
  before.foldl (fun stop p => if separates p.1 p.2.2 then p.2.1 + 1 else stop) 0

/-- The length bytes of the instructions at the positions that satisfy `c`. -/
def headerBytes (ctx : EvalContext) (c : Nat → Bool)
    (before : List (EvalState × (Nat × Instruction))) : Nat :=
  ((before.filter fun p => c p.2.1).map fun p => headerAt ctx.script p.2.1).sum

variable {ctx : EvalContext} {before : List (EvalState × (Nat × Instruction))}
  {p : EvalState × (Nat × Instruction)} {c : Nat → Bool}

theorem separatorEnd_snoc : separatorEnd (before ++ [p]) =
    if separates p.1 p.2.2 then p.2.1 + 1 else separatorEnd before := by
  rw [separatorEnd, List.foldl_append]
  rfl

theorem headerBytes_snoc : ctx.headerBytes c (before ++ [p]) =
    ctx.headerBytes c before + if c p.2.1 then headerAt ctx.script p.2.1 else 0 := by
  unfold headerBytes
  rw [List.filter_append, List.map_append, List.sum_append]
  cases hc : c p.2.1 with
  | true => simp [hc]
  | false => simp [hc]

theorem headerBytes_congr {c' : Nat → Bool} (h : ∀ p ∈ before, c p.2.1 = c' p.2.1) :
    ctx.headerBytes c before = ctx.headerBytes c' before := by
  unfold headerBytes
  rw [List.filter_congr h]

theorem headerBytes_eq_zero : ctx.headerBytes c before = 0 ↔
    ∀ p ∈ before, c p.2.1 = true → headerAt ctx.script p.2.1 = 0 := by
  unfold headerBytes
  rw [List.sum_eq_zero_iff, List.forall_mem_map]
  simp only [List.mem_filter, and_imp]

/-- What the counters of the interpreter miss: the position all length bytes so far, and the
position of the last code separator those before it. `stop` is where the steps end. -/
structure Counters (ctx : EvalContext) (before : List (EvalState × (Nat × Instruction)))
    (s : EvalState) (stop : Nat) : Prop where
  pc_add : s.pc + ctx.headerBytes (fun _ => true) before = stop
  begincode_add :
    s.begincode + ctx.headerBytes (fun pos => decide (pos < separatorEnd before)) before =
      separatorEnd before
  end_le : separatorEnd before ≤ stop

/-- One step, at the position where the steps before it end. -/
theorem Counters.step {s s' : EvalState} (h : ctx.Counters before s item.1)
    (hbefore : ∀ q ∈ before, q.2.1 < item.1)
    (hop : isCodeseparator item.2 = true → headerAt ctx.script item.1 = 0)
    (hstep : ctx.step s item.2 = .ok s') :
    ctx.Counters (before ++ [(s, item)]) s' (item.1 + width ctx.script item) := by
  obtain ⟨hpc, hbegin⟩ := positions_of_step hstep
  have hpc' := h.pc_add
  refine ⟨?_, ?_, ?_⟩
  · rw [headerBytes_snoc, hpc, if_pos rfl, width]
    dsimp only
    omega
  · rw [separatorEnd_snoc, headerBytes_snoc, hbegin]
    dsimp only
    cases hsep : separates s item.2 with
    | true =>
      -- all length bytes so far stand before it, and it has none of its own
      have hcode : isCodeseparator item.2 = true := (Bool.and_eq_true_iff.mp hsep).2
      have hall : ctx.headerBytes (fun pos => decide (pos < item.1 + 1)) before =
          ctx.headerBytes (fun _ => true) before := by
        refine headerBytes_congr fun q hq => decide_eq_true ?_
        have := hbefore q hq
        omega
      rw [if_pos rfl, if_pos rfl, hall, hop hcode, step_of_isCodeseparator hcode, ite_self]
      omega
    | false =>
      have hle := h.end_le
      rw [if_neg Bool.false_ne_true, if_neg Bool.false_ne_true,
        if_neg (by simpa using hle), Nat.add_zero]
      exact h.begincode_add
  · rw [separatorEnd_snoc, width]
    dsimp only
    have hle := h.end_le
    split
    · have hpos := width_pos ctx.script item
      rw [width] at hpos
      omega
    · omega

/-- The instruction after the steps so far stands where they end. -/
theorem contiguous_before {rest : List (Nat × Instruction)}
    (hl : ctx.parsed.items = before.map Prod.snd ++ item :: rest) :
    Contiguous ctx.script 0 (before.map Prod.snd) item.1 ∧ item.1 ≤ ctx.script.length := by
  obtain ⟨stop, hcontiguous, hstop, _⟩ :=
    contiguous_instructionIndices (ctx.flags.has .minimaldata) ctx.script
  have hitems : (instructionIndices (ctx.flags.has .minimaldata) ctx.script).items =
      before.map Prod.snd ++ item :: rest := hl
  rw [hitems, contiguous_append] at hcontiguous
  obtain ⟨mid, hbefore, hrest⟩ := hcontiguous
  have hle := hrest.le
  cases hrest
  exact ⟨hbefore, hle.trans hstop⟩

/-- Before each step the counters are as they should be, up to the length bytes. -/
theorem counters_steps {stack : Stack} {execData : ScriptExecutionData}
    {after : List (EvalState × (Nat × Instruction))}
    (hsplit : ctx.steps stack execData = before ++ p :: after) :
    ctx.Counters before p.1 p.2.1 ∧ p.2.1 ≤ ctx.script.length := by
  have hstep : ∀ pre s (_ : Nat) item rest s',
      ctx.parsed.items = pre.map Prod.snd ++ item :: rest →
      (∀ stop, Contiguous ctx.script 0 (pre.map Prod.snd) stop → ctx.Counters pre s stop) →
      ctx.step s item.2 = .ok s' →
      ∀ stop, Contiguous ctx.script 0 ((pre ++ [(s, item)]).map Prod.snd) stop →
        ctx.Counters (pre ++ [(s, item)]) s' stop := by
    intro pre s _ item rest s' hl hinv hstep stop hcontiguous
    obtain ⟨hpre, _⟩ := contiguous_before hl
    have hitem : item ∈ ctx.parsed.items := by simp [hl]
    rw [List.map_append, contiguous_append] at hcontiguous
    obtain ⟨_, _, hlast⟩ := hcontiguous
    obtain ⟨_, rfl⟩ := contiguous_singleton.mp hlast
    refine (hinv _ hpre).step ?_ (headerAt_of_isCodeseparator hitem) hstep
    intro q hq
    have hmem := hpre.mem (List.mem_map_of_mem hq)
    have hpos := width_pos ctx.script q.2
    omega
  have hinit : ∀ stop, Contiguous ctx.script 0 [] stop →
      ctx.Counters [] (EvalState.init stack execData) stop := by
    intro stop hstop
    cases hstop
    exact ⟨rfl, rfl, le_rfl⟩
  obtain ⟨hcounters, rest, hl⟩ := Loop.trace_split
    (fun pre s => ∀ stop, Contiguous ctx.script 0 (pre.map Prod.snd) stop → ctx.Counters pre s stop)
    hinit hstep hsplit
  obtain ⟨hbefore, hle⟩ := contiguous_before hl
  exact ⟨hcounters _ hbefore, hle⟩

/-- **Script code.** A signature opcode takes the script from the last executed code separator on
exactly when no `PUSHDATA` stands before that. -/
theorem script_code_iff {stack : Stack} {execData : ScriptExecutionData}
    {after : List (EvalState × (Nat × Instruction))}
    (hsplit : ctx.steps stack execData = before ++ p :: after) {r : EvalState × CryptoOp}
    (hr : ctx.signatureStep p.1 p.2.2 = some r) :
    r.1.begincode ≤ ctx.script.length ∧
      ((subscriptFrom ctx.script r.1.begincode : Outcome CheckSigError (List UInt8)) =
          .ok (ctx.script.drop (separatorEnd before)) ↔
        ∀ q ∈ before, q.2.1 < separatorEnd before → headerAt ctx.script q.2.1 = 0) := by
  obtain ⟨hcounters, hle⟩ := counters_steps hsplit
  have hbegin := hcounters.begincode_add
  have hend := hcounters.end_le
  have hr' : r.1.begincode = p.1.begincode := by
    obtain ⟨code, _, _, hcount, _⟩ := signatureStep_eq_some.mp hr
    rw [frame_countOp hcount]
    rfl
  have hbound : r.1.begincode ≤ ctx.script.length := by omega
  refine ⟨hbound, ?_⟩
  rw [subscriptFrom_of_le hbound, ok.injEq]
  have hzero := @headerBytes_eq_zero ctx before fun pos => decide (pos < separatorEnd before)
  simp only [decide_eq_true_eq] at hzero
  rw [← hzero]
  constructor
  · intro h
    have hlen := congrArg List.length h
    simp only [List.length_drop] at hlen
    omega
  · intro h
    congr 1
    omega

end EvalContext

namespace SeparatorSample

/-- A pre-segwit evaluation without flags, in which every signature verifies. -/
def context (script : List UInt8) : EvalContext :=
  baseContext ScriptEnv.reference ⟨0⟩ noSignatureCheck script

/-- A key above a signature. -/
def stack : Stack := [2 :: List.replicate 32 1, [0x30, 1]]

/-- `01 OP_DROP OP_CODESEPARATOR OP_CHECKSIG`, the push of one byte being a direct one. -/
def directPush : List UInt8 := [0x01, 0x01, 0x75, 0xab, 0xac]

/-- The same with `OP_PUSHDATA1`. -/
def pushdata : List UInt8 := [0x4c, 0x01, 0x01, 0x75, 0xab, 0xac]

/-- The steps before the last instruction. -/
def before (script : List UInt8) : List (EvalState × (Nat × Instruction)) :=
  ((context script).steps stack {}).dropLast

/-- In both evaluations, the state before `OP_CHECKSIG`. -/
def atChecksig : EvalState :=
  { EvalState.init stack { codeseparatorPos := 2 } with
    begincode := 4
    opCount := 2
    opcodePos := 3
    pc := 4 }

/-- The state in which it is evaluated. -/
def inChecksig : EvalState := { atChecksig with opCount := 3, pc := 5 }

end SeparatorSample

open SeparatorSample in
theorem script_code_directPush :
    (context directPush).steps stack {} = before directPush ++ [(atChecksig, (4, .op 0xac))] ∧
      (subscriptFrom directPush inChecksig.begincode : Outcome CheckSigError (List UInt8)) =
        .ok (directPush.drop 4) := by
  have hsplit : (context directPush).steps stack {} =
      before directPush ++ (atChecksig, (4, Instruction.op 0xac)) :: [] := by decide +kernel
  have hr : (context directPush).signatureStep atChecksig (.op 0xac) =
      some (inChecksig, .checkSig) := by decide +kernel
  have hdirect : ∀ q ∈ before directPush, q.2.1 < EvalContext.separatorEnd (before directPush) →
      headerAt directPush q.2.1 = 0 := by decide +kernel
  exact ⟨hsplit, (EvalContext.script_code_iff hsplit hr).2.mpr hdirect⟩

open SeparatorSample in
/-- After a `PUSHDATA`, the script code starts one byte too early, at the code separator itself. -/
theorem pushdata_shifts_script_code :
    (context pushdata).PreTapscript ∧
      (context pushdata).steps stack {} = before pushdata ++ [(atChecksig, (5, .op 0xac))] ∧
      (context pushdata).signatureStep atChecksig (.op 0xac) = some (inChecksig, .checkSig) ∧
      (subscriptFrom pushdata inChecksig.begincode : Outcome CheckSigError (List UInt8)) =
        .ok [0xab, 0xac] ∧
      pushdata.drop (EvalContext.separatorEnd (before pushdata)) = [0xac] :=
  ⟨Or.inl rfl, by decide +kernel, by decide +kernel, by decide +kernel, by decide +kernel⟩

/-! ## Scripts without code separators -/

/-- The bytes of `l`, which start at `pos`, without those at the positions of code separators. -/
def keptFrom (items : List (Nat × Instruction)) (pos : Nat) (l : List UInt8) : List UInt8 :=
  l.keepAt (fun i => !items.contains (i, .op 0xab)) pos

/-- The script without the `OP_CODESEPARATOR`s at its instruction boundaries, with every other byte
as it is. -/
def withoutCodeseparators (script : List UInt8) : List UInt8 :=
  keptFrom (instructionIndices false script).items 0 script

/-- The bytes of an instruction in the script. -/
def bytesOf (script : List UInt8) (item : Nat × Instruction) : List UInt8 :=
  if isCodeseparator item.2 then [] else (script.drop item.1).take (width script item)

/-- The bytes of an instruction that `remove_op_codeseparator` copies. -/
def copiedBytes (script : List UInt8) (item : Nat × Instruction) : List UInt8 :=
  if isCodeseparator item.2 then [] else (script.drop item.1).take item.2.step

/-- Where the copied bytes end. -/
def copiedEnd (items : List (Nat × Instruction)) : Nat :=
  match items.getLast? with
  | some item => item.1 + item.2.step
  | none => 0

section Removal

variable {pos skip n : Nat} {byte : UInt8} {l script : List UInt8} {instruction : Instruction}
  {item : Nat × Instruction} {items : List (Nat × Instruction)}

theorem keptFrom_cons : keptFrom items pos (byte :: l) =
    (if items.contains (pos, .op 0xab) then [] else [byte]) ++ keptFrom items (pos + 1) l := by
  rw [keptFrom, List.keepAt_cons, ← keptFrom]
  cases items.contains (pos, Instruction.op 0xab) with
  | true => rfl
  | false => rfl

variable {i : Nat} {before : List UInt8} {ε : Type}

/-- An instruction before the bytes does not matter. -/
theorem keptFrom_cons_items (hi : i < pos) :
    keptFrom ((i, instruction) :: items) pos l = keptFrom items pos l := by
  refine List.keepAt_congr fun j hj => ?_
  have hne : j ≠ i := Nat.ne_of_gt (Nat.lt_of_lt_of_le hi hj)
  simp [hne]

theorem not_contains_parseFrom (hskip : skip ≤ l.length) (hi : i < before.length + skip) :
    (parseFrom false before.length skip l).items.contains (i, .op 0xab) = false := by
  obtain ⟨stop, hcontiguous, _⟩ := @contiguous_parseFrom false l skip before hskip
  rw [Bool.eq_false_iff, ne_eq, List.contains_iff_mem]
  intro hmem
  have := (hcontiguous.mem hmem).1
  omega

theorem isCodeseparator_eq_true : isCodeseparator instruction = true ↔ instruction = .op 0xab := by
  cases instruction with
  | pushBytes data => simp [isCodeseparator]
  | op code => simp [isCodeseparator]

/-- The bytes of the instruction right after `before`. -/
theorem bytesOf_head (hnext : nextInstruction false byte l = .ok (instruction, n)) :
    bytesOf (before ++ byte :: l) (before.length, instruction) =
      (if instruction = .op 0xab then [] else [byte]) ++ l.take n := by
  have hlength := length_of_nextInstruction hnext
  unfold bytesOf
  by_cases hcode : instruction = .op 0xab
  · subst hcode
    obtain ⟨rfl, _⟩ := op_of_nextInstruction hnext
    have hn : n = 0 := Nat.succ.inj hlength
    simp [hn, isCodeseparator]
  · have hwidth : width (before ++ byte :: l) (before.length, instruction) = n + 1 := by
      rw [width, headerAt_append, hlength]
    rw [if_neg (mt isCodeseparator_eq_true.mp hcode), if_neg hcode, hwidth]
    simp

theorem keptFrom_parseFrom (hskip : skip ≤ l.length)
    (herror : (parseFrom false before.length skip l).error = none) :
    keptFrom (parseFrom false before.length skip l).items before.length l =
      l.take skip ++
        (parseFrom false before.length skip l).items.flatMap (bytesOf (before ++ l)) := by
  induction l generalizing skip before with
  | nil => simp [parseFrom, keptFrom]
  | cons byte l ih =>
    have hsplit : before ++ byte :: l = (before ++ [byte]) ++ l := by simp
    have hlen : before.length + 1 = (before ++ [byte]).length := by simp
    rw [keptFrom_cons]
    cases skip with
    | succ skip =>
      rw [not_contains_parseFrom hskip (by omega)]
      rw [parseFrom, hlen] at herror ⊢
      rw [ih (by simpa using hskip) herror, hsplit]
      simp
    | zero =>
      rw [parseFrom] at herror ⊢
      cases hnext : nextInstruction false byte l with
      | error e => rw [hnext] at herror; cases herror
      | ok r =>
        obtain ⟨instruction, n⟩ := r
        rw [hnext] at herror
        have hn := (step_of_nextInstruction hnext).2
        rw [hlen] at herror
        have hhead : ((before.length, Instruction.op 0xab) == (before.length, instruction)) =
            decide (instruction = .op 0xab) := by
          rw [Bool.eq_iff_iff, beq_iff_eq, decide_eq_true_eq, Prod.mk.injEq]
          exact ⟨fun h => h.2.symm, fun h => ⟨rfl, h.symm⟩⟩
        rw [keptFrom_cons_items (Nat.lt_add_one _), List.contains_cons, hhead, hlen,
          not_contains_parseFrom hn (by simp; omega), Bool.or_false, ih hn herror, ← hsplit,
          List.flatMap_cons, bytesOf_head hnext]
        simp

theorem withoutCodeseparators_eq (h : Parses script) : withoutCodeseparators script =
    (instructionIndices false script).items.flatMap (bytesOf script) :=
  @keptFrom_parseFrom 0 script [] (Nat.zero_le _) h

/-! ## What is copied -/

theorem sanitizeStep_eq {s : List UInt8 × Nat} (h : item.1 + item.2.step ≤ script.length) :
    (sanitizeStep script s i item : Outcome ε (List UInt8 × Nat)) =
      .ok (s.1 ++ copiedBytes script item, item.1 + item.2.step) := by
  obtain ⟨pos, instruction⟩ := item
  unfold sanitizeStep copiedBytes
  cases instruction with
  | op code =>
    dsimp only
    by_cases hcode : code = 0xab
    · simp [hcode, isCodeseparator, Instruction.step]
    · rw [if_neg hcode, sliceRange_of_le (Nat.le_succ pos) h]
      simp [hcode, isCodeseparator, Instruction.step]
  | pushBytes data =>
    have hstop : pos + 1 + data.length = pos + (data.length + 1) := by omega
    have hle : pos + (data.length + 1) ≤ script.length := h
    dsimp only
    rw [hstop, sliceRange_of_le (Nat.le_add_right _ _) hle]
    simp [isCodeseparator, Instruction.step]

theorem forEnum_sanitizeStep (h : ∀ item ∈ items, item.1 + item.2.step ≤ script.length) :
    (Loop.forEnum (sanitizeStep script) items ([], 0) : Outcome ε (List UInt8 × Nat)) =
      .ok (items.flatMap (copiedBytes script), copiedEnd items) := by
  have hstep : ∀ pre item post s, items = pre ++ item :: post →
      s = (pre.flatMap (copiedBytes script), copiedEnd pre) →
      ∃ s', (sanitizeStep script s pre.length item : Outcome ε (List UInt8 × Nat)) = .ok s' ∧
        s' = ((pre ++ [item]).flatMap (copiedBytes script), copiedEnd (pre ++ [item])) := by
    rintro pre item post s hsplit rfl
    refine ⟨_, sanitizeStep_eq (h item (by simp [hsplit])), ?_⟩
    simp [copiedEnd]
  obtain ⟨s, hrun, rfl⟩ := Loop.forEnum_total
    (fun pre s => s = (pre.flatMap (copiedBytes script), copiedEnd pre)) rfl hstep
  exact hrun

/-- The two copies differ by length bytes. -/
theorem length_bytesOf (hitem : item ∈ (instructionIndices false script).items)
    (hle : item.1 + width script item ≤ script.length) :
    (bytesOf script item).length = (copiedBytes script item).length + headerAt script item.1 := by
  unfold bytesOf copiedBytes
  cases hcode : isCodeseparator item.2 with
  | true => simp [headerAt_of_isCodeseparator hitem hcode]
  | false =>
    rw [width] at hle ⊢
    simp only [Bool.false_eq_true, if_false, List.length_take, List.length_drop]
    omega

theorem bytesOf_eq_copiedBytes (h : headerAt script item.1 = 0) :
    bytesOf script item = copiedBytes script item := by
  rw [bytesOf, copiedBytes, width, h, Nat.add_zero]

theorem flatMap_bytesOf_iff (hitems : ∀ item ∈ items,
    item ∈ (instructionIndices false script).items ∧ item.1 + width script item ≤ script.length) :
    items.flatMap (copiedBytes script) = items.flatMap (bytesOf script) ↔
      ∀ item ∈ items, headerAt script item.1 = 0 := by
  constructor
  · intro h
    have hlen := congrArg List.length h
    have hsum : (items.map fun item => (bytesOf script item).length) =
        items.map fun item => (copiedBytes script item).length + headerAt script item.1 :=
      List.map_congr_left fun item hitem =>
        length_bytesOf (hitems item hitem).1 (hitems item hitem).2
    rw [List.length_flatMap, List.length_flatMap, hsum, List.sum_map_add] at hlen
    have hzero : (items.map fun item => headerAt script item.1).sum = 0 := by omega
    rw [List.sum_eq_zero_iff, List.forall_mem_map] at hzero
    exact hzero
  · intro h
    exact List.flatMap_congr fun item hitem => (bytesOf_eq_copiedBytes (h item hitem)).symm

/-- The last instruction is complete: what is left of the script is copied after it. -/
theorem copiedBytes_last (hcode : isCodeseparator item.2 = true → headerAt script item.1 = 0)
    (h : item.1 + width script item = script.length) :
    copiedBytes script item ++ script.drop (item.1 + item.2.step) = bytesOf script item := by
  unfold copiedBytes bytesOf
  cases hsep : isCodeseparator item.2 with
  | true =>
    rw [width, hcode hsep, Nat.add_zero] at h
    simp [h]
  | false =>
    have hdrop : (script.drop item.1).length = width script item := by
      rw [List.length_drop]
      omega
    rw [← List.drop_drop]
    simp only [Bool.false_eq_true, if_false]
    rw [List.take_append_drop, List.take_of_length_le hdrop.le]

/-- With a code separator, the instructions are copied one by one. -/
theorem removeOpCodeseparator_of_mem (hparses : Parses script)
    (hsep : ∃ item ∈ (instructionIndices false script).items, isCodeseparator item.2 = true) :
    (removeOpCodeseparator script : Outcome ε (List UInt8)) =
      .ok ((instructionIndices false script).items.flatMap (copiedBytes script) ++
        script.drop (copiedEnd (instructionIndices false script).items)) := by
  have hstep : ∀ item ∈ (instructionIndices false script).items,
      item.1 + item.2.step ≤ script.length := by
    intro item hitem
    simpa using pos_add_step_le (Nat.zero_le _) hitem
  have hend : copiedEnd (instructionIndices false script).items ≤ script.length := by
    unfold copiedEnd
    split
    · rename_i item hlast
      exact hstep item (List.mem_of_getLast? hlast)
    · exact Nat.zero_le _
  have hfound : ((instructionIndices false script).items.any fun item => isCodeseparator item.2) =
      true := List.any_eq_true.mpr hsep
  have herror : (instructionIndices false script).error = none := hparses
  unfold removeOpCodeseparator hasCodeSeparators sanitize
  dsimp only
  rw [hfound, if_pos rfl, ok_bind, if_pos rfl, forEnum_sanitizeStep hstep, ok_bind, herror]
  rw [sliceRange_of_le hend le_rfl, List.take_of_length_le (by simp)]
  rfl

theorem removeOpCodeseparator_of_not_mem (hparses : Parses script)
    (hsep : ∀ item ∈ (instructionIndices false script).items, isCodeseparator item.2 = false) :
    (removeOpCodeseparator script : Outcome ε (List UInt8)) = .ok script ∧
      withoutCodeseparators script = script := by
  have hfound : ((instructionIndices false script).items.any fun item => isCodeseparator item.2) =
      false := by
    refine List.any_eq_false.mpr fun item hitem => ?_
    rw [hsep item hitem]
    exact Bool.false_ne_true
  have herror : (instructionIndices false script).error = none := hparses
  constructor
  · unfold removeOpCodeseparator hasCodeSeparators
    dsimp only
    rw [hfound, if_neg Bool.false_ne_true, herror]
    rfl
  · unfold withoutCodeseparators keptFrom
    refine List.keepAt_of_forall fun i _ => ?_
    rw [Bool.not_eq_true', Bool.eq_false_iff, ne_eq, List.contains_iff_mem]
    intro hmem
    cases hsep _ hmem

/-- The copy is right up to the length bytes of the instructions before the last one, which is
copied as a whole. -/
theorem copied_eq_iff (hparses : Parses script) :
    (instructionIndices false script).items.flatMap (copiedBytes script) ++
        script.drop (copiedEnd (instructionIndices false script).items) =
        withoutCodeseparators script ↔
      ∀ item ∈ (instructionIndices false script).items.dropLast, headerAt script item.1 = 0 := by
  obtain ⟨stop, hcontiguous, _, hend⟩ := contiguous_instructionIndices false script
  obtain rfl := hend hparses
  rw [withoutCodeseparators_eq hparses]
  rcases List.eq_nil_or_concat (instructionIndices false script).items with
    hnil | ⟨init, last, hitems⟩
  · rw [hnil, contiguous_nil] at hcontiguous
    obtain rfl : script = [] := List.eq_nil_of_length_eq_zero hcontiguous.symm
    simp [hnil]
  · rw [List.concat_eq_append] at hitems
    have hlast : last ∈ (instructionIndices false script).items := by simp [hitems]
    have hinit : ∀ item ∈ init, item ∈ (instructionIndices false script).items ∧
        item.1 + width script item ≤ script.length := by
      intro item hitem
      have hmem : item ∈ (instructionIndices false script).items := by simp [hitems, hitem]
      exact ⟨hmem, (hcontiguous.mem hmem).2⟩
    have hwidth : last.1 + width script last = script.length := by
      rw [hitems, contiguous_append] at hcontiguous
      obtain ⟨_, _, hcontiguous⟩ := hcontiguous
      exact (contiguous_singleton.mp hcontiguous).2
    have hcopied : copiedEnd (init ++ [last]) = last.1 + last.2.step := by simp [copiedEnd]
    rw [hitems, hcopied, List.flatMap_append, List.flatMap_append, List.flatMap_singleton,
      List.flatMap_singleton, List.append_assoc,
      copiedBytes_last (headerAt_of_isCodeseparator hlast) hwidth, List.append_left_inj,
      List.dropLast_concat]
    exact flatMap_bytesOf_iff hinit

/-- **The script that is hashed.** For a script code that parses it is the script code without its
code separators exactly when there is none, or when no `PUSHDATA` stands before the last
instruction. -/
theorem removeOpCodeseparator_iff (hparses : Parses script) :
    ∃ hashed, (∀ (env : ScriptEnv) (c : TransactionSignatureChecker) (sig : EcdsaSignature),
        c.message env sig script .base = c.legacyMessage env sig hashed) ∧
      (hashed = withoutCodeseparators script ↔
        (∀ item ∈ (instructionIndices false script).items, isCodeseparator item.2 = false) ∨
          ∀ item ∈ (instructionIndices false script).items.dropLast,
            headerAt script item.1 = 0) := by
  have hmessage : ∀ {hashed : List UInt8},
      (removeOpCodeseparator script : Outcome SignatureError (List UInt8)) = .ok hashed →
      ∀ (env : ScriptEnv) (c : TransactionSignatureChecker) (sig : EcdsaSignature),
        c.message env sig script .base = c.legacyMessage env sig hashed := by
    intro hashed hremoved env c sig
    rw [TransactionSignatureChecker.message, hremoved, ok_bind]
  by_cases hsep : ∀ item ∈ (instructionIndices false script).items, isCodeseparator item.2 = false
  · obtain ⟨hremoved, hsame⟩ := removeOpCodeseparator_of_not_mem hparses hsep
    exact ⟨script, hmessage hremoved, iff_of_true hsame.symm (Or.inl hsep)⟩
  · have hmem : ∃ item ∈ (instructionIndices false script).items,
        isCodeseparator item.2 = true := by simpa using hsep
    refine ⟨_, hmessage (removeOpCodeseparator_of_mem hparses hmem), ?_⟩
    rw [or_iff_right hsep]
    exact copied_eq_iff hparses

end Removal

namespace SeparatorSample

/-- A code separator between direct pushes, and an `OP_PUSHDATA1` at the end. -/
def lastPushdata : List UInt8 := [0x01, 0x07, 0xab, 0x4c, 0x01, 0x05]

/-- An `OP_PUSHDATA1` before a code separator. -/
def firstPushdata : List UInt8 := [0x4c, 0x01, 0x05, 0xab, 0xac]

end SeparatorSample

open SeparatorSample in
theorem removeOpCodeseparator_lastPushdata : Parses lastPushdata ∧
    ∃ hashed, (∀ (env : ScriptEnv) (c : TransactionSignatureChecker) (sig : EcdsaSignature),
      c.message env sig lastPushdata .base = c.legacyMessage env sig hashed) ∧
      hashed = [0x01, 0x07, 0x4c, 0x01, 0x05] := by
  have hparses : Parses lastPushdata := by decide +kernel
  obtain ⟨hashed, hmessage, hiff⟩ := removeOpCodeseparator_iff hparses
  refine ⟨hparses, hashed, hmessage, (hiff.mpr (Or.inr ?_)).trans ?_⟩
  · decide +kernel
  · decide +kernel

open SeparatorSample in
/-- The byte that `OP_PUSHDATA1` pushes is lost. -/
theorem pushdata_loses_bytes : Parses firstPushdata ∧
    (∀ (env : ScriptEnv) (c : TransactionSignatureChecker) (sig : EcdsaSignature),
      c.message env sig firstPushdata .base = c.legacyMessage env sig [0x4c, 0x01, 0xac]) ∧
    withoutCodeseparators firstPushdata = [0x4c, 0x01, 0x05, 0xac] := by
  refine ⟨by decide +kernel, fun env c sig => ?_, by decide +kernel⟩
  have hremoved : (removeOpCodeseparator firstPushdata : Outcome SignatureError (List UInt8)) =
      .ok [0x4c, 0x01, 0xac] := by decide +kernel
  rw [TransactionSignatureChecker.message, hremoved, ok_bind]

end Subcoin.Script
