import Subcoin.Script.Types

/-!
# Subcoin — reading scripts

The instruction iterators of the `bitcoin` crate and the script predicates built on them. Parsing
is structural on the bytes: `parseFrom` walks the script once and skips the bytes an instruction
has consumed. The first malformed instruction ends the iteration, so the result is the list of
instructions before it, with their positions, and the error if there was one.

`step` is the interpreter's own idea of the length of an instruction, which counts no length bytes
of a `PUSHDATA`; `pos_add_step_le` shows that it never leads past the end of the script.
-/

namespace Subcoin.Script

/-! ## Instructions -/

inductive Instruction where
  | pushBytes (data : List UInt8)
  | op (code : UInt8)
deriving DecidableEq, Repr

/-- What an iterator over a script yields: the instructions with their positions, and the error
that ended it early. -/
structure Instructions where
  items : List (Nat × Instruction)
  error : Option ScriptError
deriving DecidableEq, Repr

/-- A push of `n` bytes after `skip` length bytes, with the number of bytes it takes. -/
def takeSlice (skip n : Nat) (l : List UInt8) : Except ScriptError (Instruction × Nat) :=
  if l.length < skip + n then .error .earlyEndOfScript
  else .ok (.pushBytes ((l.drop skip).take n), skip + n)

/-- `next_push_data_len`: a push whose length is in the next `width` bytes. -/
def nextPushDataLen (minimal : Bool) (width minPushLen : Nat) (l : List UInt8) :
    Except ScriptError (Instruction × Nat) :=
  if l.length < width then .error .earlyEndOfScript
  else
    let n := ofLeBytes (l.take width)
    if minimal && n < minPushLen then .error .nonMinimalPush else takeSlice width n l

/-- A byte that `OP_1NEGATE` or `OP_1` to `OP_16` would push. -/
def isSmallNum (byte : UInt8) : Bool := byte = 0x81 || (0 < byte && byte ≤ 16)

/-- The instruction that starts with `byte`, and how many of the bytes `l` after it belong to it. -/
def nextInstruction (minimal : Bool) (byte : UInt8) (l : List UInt8) :
    Except ScriptError (Instruction × Nat) :=
  if byte ≤ 0x4b then
    if minimal && byte = 1 && l.head?.any isSmallNum then .error .nonMinimalPush
    else takeSlice 0 byte.toNat l
  else if byte = 0x4c then nextPushDataLen minimal 1 76 l
  else if byte = 0x4d then nextPushDataLen minimal 2 0x100 l
  else if byte = 0x4e then nextPushDataLen minimal 4 0x10000 l
  else .ok (.op byte, 0)

/-- The instructions of the bytes left at position `pos`, the first `skip` of which belong to an
instruction already read. -/
def parseFrom (minimal : Bool) : Nat → Nat → List UInt8 → Instructions
  | _, _, [] => ⟨[], none⟩
  | pos, skip + 1, _ :: l => parseFrom minimal (pos + 1) skip l
  | pos, 0, byte :: l =>
    match nextInstruction minimal byte l with
    | .error e => ⟨[], some e⟩
    | .ok (instruction, n) =>
      let rest := parseFrom minimal (pos + 1) n l
      ⟨(pos, instruction) :: rest.items, rest.error⟩

/-- `instruction_indices`, or `instruction_indices_minimal` when minimal pushes are required. -/
def instructionIndices (minimal : Bool) (script : List UInt8) : Instructions :=
  parseFrom minimal 0 0 script

/-- `instructions`: the same instructions without their positions. -/
def instructions (script : List UInt8) : List Instruction :=
  (instructionIndices false script).items.map Prod.snd

def Parses (script : List UInt8) : Prop := (instructionIndices false script).error = none

instance (script : List UInt8) : Decidable (Parses script) := inferInstanceAs (Decidable (_ = _))

/-! ## Scripts -/

def isPushOnly (script : List UInt8) : Bool :=
  (instructionIndices false script).error.isNone &&
    (instructions script).all fun
      | .pushBytes _ => true
      | .op code => code ≤ 0x60

/-- `Script::is_p2sh`: `OP_HASH160`, a push of 20 bytes, `OP_EQUAL`. -/
def isP2sh (script : List UInt8) : Bool :=
  script.length = 23 && script[0]? = some 0xa9 && script[1]? = some 0x14 && script[22]? = some 0x87

/-- `WitnessVersion::try_from` on an opcode. -/
def witnessVersionOf (code : UInt8) : Option Nat :=
  if code = 0 then some 0
  else if 0x51 ≤ code && code ≤ 0x60 then some (code.toNat - 0x50)
  else none

/-- `Script::witness_version`: the version of a script that is a version opcode followed by a
single push of 2 to 40 bytes. -/
def witnessVersion (script : List UInt8) : Option Nat :=
  match script with
  | version :: push :: program =>
    if 4 ≤ script.length && script.length ≤ 42 && 2 ≤ push && push ≤ 40 &&
        program.length = push.toNat then witnessVersionOf version
    else none
  | _ => none

/-- `bitcoin::WitnessProgram`, whose length is right for its version. -/
structure WitnessProgram where
  version : Nat
  program : List UInt8
  two_le : 2 ≤ program.length
  le_forty : program.length ≤ 40
  v0_length : version = 0 → program.length = 20 ∨ program.length = 32
deriving DecidableEq

inductive WitnessProgramError where
  | invalidLength (n : Nat)
  | invalidSegwitV0Length (n : Nat)
deriving DecidableEq, Repr

def WitnessProgram.new (version : Nat) (program : List UInt8) :
    Except WitnessProgramError WitnessProgram :=
  if hlen : 2 ≤ program.length ∧ program.length ≤ 40 then
    if hv0 : version = 0 → program.length = 20 ∨ program.length = 32 then
      .ok ⟨version, program, hlen.1, hlen.2, hv0⟩
    else .error (.invalidSegwitV0Length program.length)
  else .error (.invalidLength program.length)

/-- `Builder::push_slice` on an empty builder. The data has fewer than `2 ^ 32` bytes, as
`PushBytesBuf` guarantees. -/
def pushSlice (data : List UInt8) : List UInt8 :=
  if data.length < 0x4c then UInt8.ofNat data.length :: data
  else if data.length < 0x100 then 0x4c :: leBytes 1 data.length ++ data
  else if data.length < 0x10000 then 0x4d :: leBytes 2 data.length ++ data
  else 0x4e :: leBytes 4 data.length ++ data

/-- `PushBytesBuf::extend_from_slice` on an empty buffer. -/
def pushBytesBuf (data : List UInt8) : Option (List UInt8) :=
  if data.length < 2 ^ 32 then some data else none

/-! ## Lengths -/

/-- The length of an instruction as `eval_script` counts it. -/
def Instruction.step : Instruction → Nat
  | .pushBytes data => data.length + 1
  | .op _ => 1

variable {instr : Instruction} {k : Nat} {l : List UInt8} {minimal : Bool}

theorem step_of_takeSlice {skip n : Nat} (h : takeSlice skip n l = .ok (instr, k)) :
    instr.step ≤ k + 1 ∧ k ≤ l.length := by
  unfold takeSlice at h
  split at h
  · cases h
  · rename_i hlen
    rw [Except.ok.injEq, Prod.mk.injEq] at h
    obtain ⟨rfl, rfl⟩ := h
    simp only [Instruction.step, List.length_take, List.length_drop]
    omega

theorem step_of_nextPushDataLen {width minPushLen : Nat}
    (h : nextPushDataLen minimal width minPushLen l = .ok (instr, k)) :
    instr.step ≤ k + 1 ∧ k ≤ l.length := by
  unfold nextPushDataLen at h
  split at h
  · cases h
  · dsimp only at h
    split at h
    · cases h
    · exact step_of_takeSlice h

/-- An instruction is at least as long as the interpreter counts, and ends within the script. -/
theorem step_of_nextInstruction {byte : UInt8}
    (h : nextInstruction minimal byte l = .ok (instr, k)) : instr.step ≤ k + 1 ∧ k ≤ l.length := by
  unfold nextInstruction at h
  split at h
  · split at h
    · cases h
    · exact step_of_takeSlice h
  · split at h
    · exact step_of_nextPushDataLen h
    · split at h
      · exact step_of_nextPushDataLen h
      · split at h
        · exact step_of_nextPushDataLen h
        · rw [Except.ok.injEq, Prod.mk.injEq] at h
          obtain ⟨rfl, rfl⟩ := h
          exact ⟨le_rfl, Nat.zero_le _⟩

/-- The opcode of an instruction that is not a push is its byte, which lies above those of the
pushes. -/
theorem op_of_nextInstruction {byte code : UInt8}
    (h : nextInstruction minimal byte l = .ok (.op code, k)) : code = byte ∧ 0x4e < byte := by
  have hpush : ∀ {skip n : Nat}, takeSlice skip n l ≠ .ok (.op code, k) := by
    intro skip n h
    unfold takeSlice at h
    split at h <;> cases h
  have hdata : ∀ {width minPushLen : Nat},
      nextPushDataLen minimal width minPushLen l ≠ .ok (.op code, k) := by
    intro width minPushLen h
    unfold nextPushDataLen at h
    split at h
    · cases h
    · dsimp only at h
      split at h
      · cases h
      · exact hpush h
  unfold nextInstruction at h
  split at h
  · split at h
    · cases h
    · exact absurd h hpush
  · rename_i h75
    split at h
    · exact absurd h hdata
    · rename_i h1
      split at h
      · exact absurd h hdata
      · rename_i h2
        split at h
        · exact absurd h hdata
        · rename_i h4
          rw [Except.ok.injEq, Prod.mk.injEq, Instruction.op.injEq] at h
          obtain ⟨rfl, _⟩ := h
          refine ⟨rfl, ?_⟩
          rw [← UInt8.toNat_inj] at h1 h2 h4
          rw [UInt8.le_iff_toNat_le] at h75
          rw [UInt8.lt_iff_toNat_lt]
          simp only [UInt8.reduceToNat] at h75 h1 h2 h4 ⊢
          omega

/-- Every instruction ends within the script. -/
theorem pos_add_step_le {pos skip : Nat} (hskip : skip ≤ l.length) {item : Nat × Instruction}
    (h : item ∈ (parseFrom minimal pos skip l).items) : item.1 + item.2.step ≤ pos + l.length := by
  induction l generalizing pos skip with
  | nil => simp [parseFrom] at h
  | cons byte l ih =>
    cases skip with
    | succ skip =>
      rw [parseFrom] at h
      have := ih (by simpa using hskip) h
      rw [List.length_cons]
      omega
    | zero =>
      rw [parseFrom] at h
      split at h
      · simp at h
      · rename_i instr n hnext
        obtain ⟨hstep, hn⟩ := step_of_nextInstruction hnext
        simp only [List.mem_cons] at h
        rw [List.length_cons]
        rcases h with rfl | h
        · simp only
          omega
        · have := ih hn h
          omega

end Subcoin.Script
