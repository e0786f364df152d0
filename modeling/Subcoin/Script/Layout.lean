import Subcoin.Script.Instruction

/-!
# Subcoin — where instructions stand

The instructions of a script follow each other without gaps. An instruction takes as many bytes as
the interpreter counts (`Instruction.step`), and the length bytes of its `PUSHDATA` on top of that.

* **`contiguous_parseFrom`** — each position is the one before it plus the bytes of the instruction
  there, and a script without a malformed instruction is used up.
-/

namespace Subcoin.Script

/-- The length bytes after the opcode `OP_PUSHDATA1`, `OP_PUSHDATA2` or `OP_PUSHDATA4`. -/
def pushHeader (byte : UInt8) : Nat :=
  if byte = 0x4c then 1 else if byte = 0x4d then 2 else if byte = 0x4e then 4 else 0

/-- The length bytes of the instruction at a position. -/
def headerAt (script : List UInt8) (pos : Nat) : Nat :=
  match script[pos]? with
  | some byte => pushHeader byte
  | none => 0

/-- The bytes of an instruction. -/
def width (script : List UInt8) (item : Nat × Instruction) : Nat :=
  item.2.step + headerAt script item.1

theorem width_pos (script : List UInt8) (item : Nat × Instruction) : 0 < width script item := by
  obtain ⟨pos, instruction⟩ := item
  cases instruction with
  | pushBytes data => simp only [width, Instruction.step]; omega
  | op code => simp only [width, Instruction.step]; omega

/-- The instructions stand one after the other, from `start` to `stop`. -/
inductive Contiguous (script : List UInt8) : Nat → List (Nat × Instruction) → Nat → Prop
  | nil {start : Nat} : Contiguous script start [] start
  | cons {start stop : Nat} {instruction : Instruction} {rest : List (Nat × Instruction)}
      (h : Contiguous script (start + width script (start, instruction)) rest stop) :
      Contiguous script start ((start, instruction) :: rest) stop

/-! ## One instruction -/

variable {minimal : Bool} {byte : UInt8} {l script : List UInt8} {instruction : Instruction}
  {n : Nat}

theorem length_of_takeSlice {skip k : Nat} (h : takeSlice skip k l = .ok (instruction, n)) :
    n + 1 = instruction.step + skip := by
  unfold takeSlice at h
  split at h
  · cases h
  · rename_i hlen
    rw [Except.ok.injEq, Prod.mk.injEq] at h
    obtain ⟨rfl, rfl⟩ := h
    simp only [Instruction.step, List.length_take, List.length_drop]
    omega

theorem length_of_nextPushDataLen {k minPushLen : Nat}
    (h : nextPushDataLen minimal k minPushLen l = .ok (instruction, n)) :
    n + 1 = instruction.step + k := by
  unfold nextPushDataLen at h
  split at h
  · cases h
  · dsimp only at h
    split at h
    · cases h
    · exact length_of_takeSlice h

theorem length_of_nextInstruction (h : nextInstruction minimal byte l = .ok (instruction, n)) :
    n + 1 = instruction.step + pushHeader byte := by
  unfold nextInstruction at h
  unfold pushHeader
  split at h
  · rename_i h75
    split at h
    · cases h
    · rw [if_neg, if_neg, if_neg]
      · exact length_of_takeSlice h
      all_goals
        rintro rfl
        exact absurd h75 (by decide)
  · split at h
    · rename_i h1
      rw [if_pos h1]
      exact length_of_nextPushDataLen h
    · rename_i h1
      rw [if_neg h1]
      split at h
      · rename_i h2
        rw [if_pos h2]
        exact length_of_nextPushDataLen h
      · rename_i h2
        rw [if_neg h2]
        split at h
        · rename_i h4
          rw [if_pos h4]
          exact length_of_nextPushDataLen h
        · rename_i h4
          rw [if_neg h4]
          cases h
          rfl

/-! ## All instructions -/

theorem headerAt_append {before : List UInt8} :
    headerAt (before ++ byte :: l) before.length = pushHeader byte := by
  simp [headerAt]

/-- The instructions of the bytes `l` that are left after the bytes `before`, from the first of
them that is not skipped. -/
theorem contiguous_parseFrom {skip : Nat} {before : List UInt8} (hskip : skip ≤ l.length) :
    ∃ stop, Contiguous (before ++ l) (before.length + skip)
        (parseFrom minimal before.length skip l).items stop ∧
      stop ≤ (before ++ l).length ∧
      ((parseFrom minimal before.length skip l).error = none → stop = (before ++ l).length) := by
  induction l generalizing skip before with
  | nil =>
    obtain rfl : skip = 0 := by simpa using hskip
    exact ⟨before.length, .nil, by simp, by simp⟩
  | cons byte l ih =>
    have hsplit : before ++ byte :: l = (before ++ [byte]) ++ l := by simp
    have hlen : before.length + 1 = (before ++ [byte]).length := by simp
    cases skip with
    | succ skip =>
      rw [parseFrom, hsplit, hlen, Nat.add_comm skip, ← Nat.add_assoc, hlen]
      exact ih (by simpa using hskip)
    | zero =>
      rw [parseFrom]
      cases hnext : nextInstruction minimal byte l with
      | error e => exact ⟨before.length, .nil, by simp, by simp⟩
      | ok r =>
        obtain ⟨instruction, n⟩ := r
        obtain ⟨stop, hrest, hstop, hend⟩ :=
          @ih n (before ++ [byte]) (step_of_nextInstruction hnext).2
        rw [← hsplit, ← hlen] at hrest
        rw [← hsplit] at hstop hend
        rw [← hlen] at hend
        refine ⟨stop, .cons ?_, hstop, hend⟩
        have hwidth : before.length + 0 + width (before ++ byte :: l)
            (before.length + 0, instruction) = before.length + 1 + n := by
          simp only [width, Nat.add_zero, headerAt_append]
          have := length_of_nextInstruction hnext
          omega
        rw [hwidth]
        exact hrest

theorem contiguous_instructionIndices (minimal : Bool) (script : List UInt8) :
    ∃ stop, Contiguous script 0 (instructionIndices minimal script).items stop ∧
      stop ≤ script.length ∧
      ((instructionIndices minimal script).error = none → stop = script.length) :=
  @contiguous_parseFrom minimal script 0 [] (Nat.zero_le _)

variable {items : List (Nat × Instruction)}

theorem contiguous_append {start stop : Nat} {items' : List (Nat × Instruction)} :
    Contiguous script start (items ++ items') stop ↔
      ∃ mid, Contiguous script start items mid ∧ Contiguous script mid items' stop := by
  induction items generalizing start with
  | nil =>
    refine ⟨fun h => ⟨start, .nil, h⟩, ?_⟩
    rintro ⟨mid, h, h'⟩
    cases h
    exact h'
  | cons item items ih =>
    constructor
    · intro h
      cases h with
      | cons h =>
        obtain ⟨mid, hitems, hitems'⟩ := ih.mp h
        exact ⟨mid, .cons hitems, hitems'⟩
    · rintro ⟨mid, h, h'⟩
      cases h with
      | cons h => exact .cons (ih.mpr ⟨mid, h, h'⟩)

theorem contiguous_nil {start stop : Nat} : Contiguous script start [] stop ↔ start = stop := by
  constructor
  · intro h
    cases h
    rfl
  · rintro rfl
    exact .nil

theorem contiguous_singleton {start stop : Nat} {item : Nat × Instruction} :
    Contiguous script start [item] stop ↔
      item.1 = start ∧ item.1 + width script item = stop := by
  constructor
  · intro h
    cases h with
    | cons h => exact ⟨rfl, contiguous_nil.mp h⟩
  · rintro ⟨rfl, rfl⟩
    exact .cons .nil

theorem Contiguous.le {start stop : Nat} (h : Contiguous script start items stop) :
    start ≤ stop := by
  induction h with
  | nil => exact le_rfl
  | cons _ ih => omega

/-- The instructions stand between the two ends. -/
theorem Contiguous.mem {start stop : Nat} (h : Contiguous script start items stop)
    {item : Nat × Instruction} (hitem : item ∈ items) :
    start ≤ item.1 ∧ item.1 + width script item ≤ stop := by
  induction h with
  | nil => cases hitem
  | cons hrest ih =>
    rcases List.mem_cons.mp hitem with rfl | hitem
    · exact ⟨le_rfl, hrest.le⟩
    · have := ih hitem
      omega

theorem Contiguous.pairwise {start stop : Nat} (h : Contiguous script start items stop) :
    items.Pairwise fun a b => a.1 + width script a ≤ b.1 := by
  induction h with
  | nil => exact List.Pairwise.nil
  | cons hrest ih => exact List.pairwise_cons.mpr ⟨fun b hb => (hrest.mem hb).1, ih⟩

/-- Each instruction was read at its position. -/
theorem nextInstruction_of_mem_items {before : List UInt8} {skip : Nat} {item : Nat × Instruction}
    (h : item ∈ (parseFrom minimal before.length skip l).items) :
    ∃ byte rest n, (before ++ l).drop item.1 = byte :: rest ∧
      nextInstruction minimal byte rest = .ok (item.2, n) := by
  induction l generalizing skip before with
  | nil => simp [parseFrom] at h
  | cons byte l ih =>
    have hsplit : before ++ byte :: l = (before ++ [byte]) ++ l := by simp
    have hlen : before.length + 1 = (before ++ [byte]).length := by simp
    cases skip with
    | succ skip =>
      rw [parseFrom, hlen] at h
      rw [hsplit]
      exact ih h
    | zero =>
      rw [parseFrom] at h
      split at h
      · simp at h
      · rename_i instruction n hnext
        rcases List.mem_cons.mp h with rfl | h
        · exact ⟨byte, l, n, by simp, hnext⟩
        · rw [hlen] at h
          rw [hsplit]
          exact ih h

theorem nextInstruction_of_mem {item : Nat × Instruction}
    (h : item ∈ (instructionIndices minimal script).items) :
    ∃ byte rest n, script.drop item.1 = byte :: rest ∧
      nextInstruction minimal byte rest = .ok (item.2, n) :=
  @nextInstruction_of_mem_items minimal script [] 0 item h

theorem headerAt_of_drop {pos : Nat} {rest : List UInt8} (h : script.drop pos = byte :: rest) :
    headerAt script pos = pushHeader byte := by
  have hbyte : script[pos]? = some byte := by
    rw [← List.head?_drop, h]
    rfl
  rw [headerAt, hbyte]

theorem headerAt_of_op {pos : Nat} {code : UInt8}
    (h : (pos, Instruction.op code) ∈ (instructionIndices minimal script).items) :
    headerAt script pos = 0 := by
  obtain ⟨byte, rest, n, hdrop, hnext⟩ := nextInstruction_of_mem h
  obtain ⟨_, hlt⟩ := op_of_nextInstruction hnext
  rw [headerAt_of_drop hdrop, pushHeader, if_neg, if_neg, if_neg]
  all_goals
    rintro rfl
    exact absurd hlt (by decide)

end Subcoin.Script
