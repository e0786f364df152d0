import Subcoin.Script.Types

/-!
# Subcoin — opcodes

The opcodes of the interpreter, in the groups of the source: one inductive type for each section of
its table, and `Opcode` over them. The push opcodes and the constants keep their code, all of them
being handled alike.
-/

namespace Subcoin.Script

inductive FlowOp where
  | nop
  | «if»
  | notIf
  | «else»
  | endIf
  | verify
  | «return»
deriving DecidableEq, Repr

inductive StackOp where
  | toAltStack
  | fromAltStack
  | twoDrop
  | twoDup
  | threeDup
  | twoOver
  | twoRot
  | twoSwap
  | ifDup
  | depth
  | drop
  | dup
  | nip
  | overOne
  | pick
  | roll
  | rot
  | swap
  | tuck
deriving DecidableEq, Repr

inductive SpliceOp where
  | cat
  | substr
  | left
  | right
  | size
deriving DecidableEq, Repr

inductive BitwiseOp where
  | invert
  | and
  | or
  | xor
  | equal
  | equalVerify
deriving DecidableEq, Repr

inductive ArithmeticOp where
  | oneAdd
  | oneSub
  | twoMul
  | twoDiv
  | negate
  | abs
  | not
  | zeroNotEqual
  | add
  | sub
  | mul
  | div
  | mod
  | lshift
  | rshift
  | boolAnd
  | boolOr
  | numEqual
  | numEqualVerify
  | numNotEqual
  | lessThan
  | greaterThan
  | lessThanOrEqual
  | greaterThanOrEqual
  | min
  | max
  | within
deriving DecidableEq, Repr

inductive CryptoOp where
  | ripemd160
  | sha1
  | sha256
  | hash160
  | hash256
  | codeSeparator
  | checkSig
  | checkSigVerify
  | checkMultiSig
  | checkMultiSigVerify
  | checkSigAdd
deriving DecidableEq, Repr

inductive LocktimeOp where
  | checkLockTimeVerify
  | checkSequenceVerify
deriving DecidableEq, Repr

inductive ReservedOp where
  | reserved
  | ver
  | reserved1
  | reserved2
  | verIf
  | verNotIf
  | nop1
  | nop4
  | nop5
  | nop6
  | nop7
  | nop8
  | nop9
  | nop10
deriving DecidableEq, Repr

inductive Opcode where
  /-- `OP_0`, `OP_PUSHBYTES_1` to `OP_PUSHBYTES_75`, `OP_PUSHDATA1`, `2` and `4`. -/
  | push (code : UInt8)
  /-- `OP_1NEGATE` and `OP_1` to `OP_16`. -/
  | constant (code : UInt8)
  | flow (op : FlowOp)
  | stack (op : StackOp)
  | splice (op : SpliceOp)
  | bitwise (op : BitwiseOp)
  | arithmetic (op : ArithmeticOp)
  | crypto (op : CryptoOp)
  | locktime (op : LocktimeOp)
  | reserved (op : ReservedOp)
deriving DecidableEq, Repr

namespace Opcode

/-- The opcodes above `OP_16`, and `OP_RESERVED`, with their codes. -/
def table : List (UInt8 × Opcode) :=
  [(0x61, .flow .nop), (0x63, .flow .if), (0x64, .flow .notIf), (0x67, .flow .else),
    (0x68, .flow .endIf), (0x69, .flow .verify), (0x6a, .flow .return),
    (0x6b, .stack .toAltStack), (0x6c, .stack .fromAltStack), (0x6d, .stack .twoDrop),
    (0x6e, .stack .twoDup), (0x6f, .stack .threeDup), (0x70, .stack .twoOver),
    (0x71, .stack .twoRot), (0x72, .stack .twoSwap), (0x73, .stack .ifDup), (0x74, .stack .depth),
    (0x75, .stack .drop), (0x76, .stack .dup), (0x77, .stack .nip), (0x78, .stack .overOne),
    (0x79, .stack .pick), (0x7a, .stack .roll), (0x7b, .stack .rot), (0x7c, .stack .swap),
    (0x7d, .stack .tuck),
    (0x7e, .splice .cat), (0x7f, .splice .substr), (0x80, .splice .left), (0x81, .splice .right),
    (0x82, .splice .size),
    (0x83, .bitwise .invert), (0x84, .bitwise .and), (0x85, .bitwise .or), (0x86, .bitwise .xor),
    (0x87, .bitwise .equal), (0x88, .bitwise .equalVerify),
    (0x8b, .arithmetic .oneAdd), (0x8c, .arithmetic .oneSub), (0x8d, .arithmetic .twoMul),
    (0x8e, .arithmetic .twoDiv), (0x8f, .arithmetic .negate), (0x90, .arithmetic .abs),
    (0x91, .arithmetic .not), (0x92, .arithmetic .zeroNotEqual), (0x93, .arithmetic .add),
    (0x94, .arithmetic .sub), (0x95, .arithmetic .mul), (0x96, .arithmetic .div),
    (0x97, .arithmetic .mod), (0x98, .arithmetic .lshift), (0x99, .arithmetic .rshift),
    (0x9a, .arithmetic .boolAnd), (0x9b, .arithmetic .boolOr), (0x9c, .arithmetic .numEqual),
    (0x9d, .arithmetic .numEqualVerify), (0x9e, .arithmetic .numNotEqual),
    (0x9f, .arithmetic .lessThan), (0xa0, .arithmetic .greaterThan),
    (0xa1, .arithmetic .lessThanOrEqual), (0xa2, .arithmetic .greaterThanOrEqual),
    (0xa3, .arithmetic .min), (0xa4, .arithmetic .max), (0xa5, .arithmetic .within),
    (0xa6, .crypto .ripemd160), (0xa7, .crypto .sha1), (0xa8, .crypto .sha256),
    (0xa9, .crypto .hash160), (0xaa, .crypto .hash256), (0xab, .crypto .codeSeparator),
    (0xac, .crypto .checkSig), (0xad, .crypto .checkSigVerify), (0xae, .crypto .checkMultiSig),
    (0xaf, .crypto .checkMultiSigVerify), (0xba, .crypto .checkSigAdd),
    (0xb1, .locktime .checkLockTimeVerify), (0xb2, .locktime .checkSequenceVerify),
    (0x50, .reserved .reserved), (0x62, .reserved .ver), (0x89, .reserved .reserved1),
    (0x8a, .reserved .reserved2), (0x65, .reserved .verIf), (0x66, .reserved .verNotIf),
    (0xb0, .reserved .nop1), (0xb3, .reserved .nop4), (0xb4, .reserved .nop5),
    (0xb5, .reserved .nop6), (0xb6, .reserved .nop7), (0xb7, .reserved .nop8),
    (0xb8, .reserved .nop9), (0xb9, .reserved .nop10)]

/-- `Opcode::from_u8`. -/
def fromU8 (value : UInt8) : Option Opcode :=
  if value ≤ 0x4e then some (.push value)
  else if value = 0x4f || (0x51 ≤ value && value ≤ 0x60) then some (.constant value)
  else table.lookup value

/-- The three ways a code gives an opcode. -/
theorem fromU8_cases {value : UInt8} {opcode : Opcode} (h : fromU8 value = some opcode) :
    (value ≤ 0x4e ∧ opcode = .push value) ∨
      ((value = 0x4f ∨ (0x51 ≤ value ∧ value ≤ 0x60)) ∧ opcode = .constant value) ∨
      (value, opcode) ∈ table := by
  unfold fromU8 at h
  split at h
  · rename_i hpush
    exact Or.inl ⟨hpush, (Option.some.inj h).symm⟩
  · split at h
    · rename_i hconst
      simp only [Bool.or_eq_true, decide_eq_true_eq, Bool.and_eq_true] at hconst
      exact Or.inr (Or.inl ⟨hconst, (Option.some.inj h).symm⟩)
    · obtain ⟨l1, l2, hl, _⟩ := List.lookup_eq_some_iff.mp h
      refine Or.inr (Or.inr ?_)
      rw [hl]
      exact List.mem_append_right _ List.mem_cons_self

theorem mem_table_of_crypto {value : UInt8} {op : CryptoOp}
    (h : fromU8 value = some (.crypto op)) : (value, .crypto op) ∈ table := by
  rcases fromU8_cases h with ⟨_, hne⟩ | ⟨_, hne⟩ | hmem
  · cases hne
  · cases hne
  · exact hmem

end Opcode

end Subcoin.Script
