import Subcoin.Script.Opcode
import Subcoin.Script.Sig

/-!
# Subcoin — evaluating a script

`eval_script`: a loop over the instructions of a script. Each group of opcodes has a function of
its own; those that work on the main stack only are functions from stacks to stacks. `step` is the
body of the loop: it counts the instruction, skips it outside the executed branches unless it is a
conditional, and checks the stack sizes at its end. A `CHECKLOCKTIMEVERIFY` or
`CHECKSEQUENCEVERIFY` that is not enabled leaves the body early, as the `continue` of the source.

The operation count and `pc` are `usize` counters bounded by the limits of the loop and the length
of the script. `opcode_pos` has 32 bits and wraps, as in a build without overflow checks.
-/

namespace Subcoin.Script

/-- What is fixed while a script is evaluated. `verifyMinimaldata` is the setting of its stack. -/
structure EvalContext where
  env : ScriptEnv
  script : List UInt8
  flags : VerifyFlags
  checker : SignatureChecker
  sigVersion : SigVersion
  verifyMinimaldata : Bool

/-- The local variables of `eval_script`. The innermost condition of `execStack` is its head. -/
structure EvalState where
  stack : Stack
  altStack : Stack
  execStack : List Bool
  begincode : Nat
  opCount : Nat
  opcodePos : Nat
  pc : Nat
  execData : ScriptExecutionData
deriving DecidableEq

/-- Before the first instruction. -/
def EvalState.init (stack : Stack) (execData : ScriptExecutionData) : EvalState :=
  { stack := stack
    altStack := []
    execStack := []
    begincode := 0
    opCount := 0
    opcodePos := 0
    pc := 0
    execData := execData }

/-- All conditions around the current position hold. -/
def EvalState.executing (s : EvalState) : Bool := s.execStack.all id

/-- An opcode that works on the main stack only. -/
def onStack (f : Stack → Outcome Error Stack) (s : EvalState) : Outcome Error EvalState := do
  let stack ← f s.stack
  pure { s with stack := stack }

/-- A stack operation that cannot panic. -/
def liftStack (f : Stack → Except StackError Stack) (stack : Stack) : Outcome Error Stack :=
  Outcome.ofExcept .stack (f stack)

namespace EvalContext

variable (ctx : EvalContext)

/-! ## Constants -/

/-- The value of `OP_1NEGATE` or `OP_1` to `OP_16`. -/
def constantValue (code : UInt8) : Int := (code.toNat : Int) - 0x50

/-! ## Flow control -/

/-- The argument of `OP_IF` must be minimal: under Tapscript always, for witness version 0 with the
flag. -/
def checkMinimalIf (top : List UInt8) : Outcome Error Unit :=
  let minimal := top = [] || top = [1]
  if ctx.sigVersion = .tapscript then Outcome.errIf (!minimal) .taprootMinimalif
  else if ctx.sigVersion = .witnessV0 && ctx.flags.has .minimalif then
    Outcome.errIf (!minimal) .minimalif
  else pure ()

/-- `OP_IF` and `OP_NOTIF`, the second with `negate`. -/
def evalIf (negate executing : Bool) (s : EvalState) : Outcome Error EvalState :=
  if executing then do
    let (top, stack) ← Outcome.ofExcept .stack s.stack.pop
    ctx.checkMinimalIf top
    pure { s with stack := stack, execStack := (castToBool top ^^ negate) :: s.execStack }
  else pure { s with execStack := false :: s.execStack }

/-- The innermost branch is turned round. -/
def evalElse (s : EvalState) : Outcome Error EvalState :=
  match s.execStack with
  | [] => .err .unbalancedConditional
  | last :: rest => .ok { s with execStack := (!last) :: rest }

/-- The innermost branch is left. -/
def evalEndIf (s : EvalState) : Outcome Error EvalState :=
  match s.execStack with
  | [] => .err .unbalancedConditional
  | _ :: rest => .ok { s with execStack := rest }

/-- The top has to be true. -/
def evalVerify (code : UInt8) (stack : Stack) : Outcome Error Stack := do
  let (value, stack) ← Outcome.ofExcept .stack stack.popBool
  Outcome.errIf (!value) (.verify code)
  pure stack

/-- Branches are followed also where nothing is executed. -/
def evalFlow (code : UInt8) (executing : Bool) (s : EvalState) : FlowOp → Outcome Error EvalState
  | .nop => pure s
  | .if => ctx.evalIf false executing s
  | .notIf => ctx.evalIf true executing s
  | .else => evalElse s
  | .endIf => evalEndIf s
  | .verify => onStack (evalVerify code) s
  | .return => .err .opReturn

/-! ## Stack -/

/-- The top is doubled when it is true. -/
def evalIfDup (stack : Stack) : Outcome Error Stack := do
  let value ← Outcome.ofExcept .stack stack.peekBool
  if value then liftStack (Stack.dupN 1) stack else pure stack

/-- `OP_PICK` and `OP_ROLL`: the number of the element is on the top. -/
def evalPickRoll (roll : Bool) (stack : Stack) : Outcome Error Stack := do
  let (n, stack) ← Outcome.ofExcept .stack (stack.popNum ctx.verifyMinimaldata)
  if n < 0 || (stack.length : Int) ≤ n then .err (.stack .invalidOperation)
  else if roll then do
    let (v, stack) ← Outcome.ofExcept .stack (stack.remove n.toNat)
    pure (v :: stack)
  else do
    let v ← Outcome.ofExcept .stack (stack.top n.toNat)
    pure (v :: stack)

/-- The top goes to the other stack. -/
def evalToAltStack (s : EvalState) : Outcome Error EvalState := do
  let (v, stack) ← Outcome.ofExcept .stack s.stack.pop
  pure { s with stack := stack, altStack := v :: s.altStack }

/-- An empty other stack is an error of its own. -/
def evalFromAltStack (s : EvalState) : Outcome Error EvalState := do
  let (v, altStack) ← Outcome.ofExcept (fun _ => .invalidAltStackOperation) s.altStack.pop
  pure { s with stack := v :: s.stack, altStack := altStack }

/-- The opcodes that move elements. -/
def evalStack (s : EvalState) : StackOp → Outcome Error EvalState
  | .toAltStack => evalToAltStack s
  | .fromAltStack => evalFromAltStack s
  | .twoDrop => onStack (liftStack (Stack.dropN 2)) s
  | .twoDup => onStack (liftStack (Stack.dupN 2)) s
  | .threeDup => onStack (liftStack (Stack.dupN 3)) s
  | .twoOver => onStack (liftStack (Stack.overN 2)) s
  | .twoRot => onStack (liftStack (Stack.rotN 2)) s
  | .twoSwap => onStack (liftStack (Stack.swapN 2)) s
  | .ifDup => onStack evalIfDup s
  | .depth => onStack (fun stack => stack.pushNum stack.length) s
  | .drop => onStack (liftStack (Stack.dropN 1)) s
  | .dup => onStack (liftStack (Stack.dupN 1)) s
  | .nip => onStack (liftStack Stack.nip) s
  | .overOne => onStack (liftStack (Stack.overN 1)) s
  | .pick => onStack (ctx.evalPickRoll false) s
  | .roll => onStack (ctx.evalPickRoll true) s
  | .rot => onStack (liftStack (Stack.rotN 1)) s
  | .swap => onStack (liftStack (Stack.swapN 1)) s
  | .tuck => onStack (liftStack Stack.tuck) s

/-! ## Splice and bitwise logic -/

/-- The length of the top, which stays. -/
def evalSize (stack : Stack) : Outcome Error Stack := do
  let x ← Outcome.ofExcept .stack stack.last
  stack.pushNum x.length

/-- All of them but one are disabled. -/
def evalSplice (code : UInt8) (s : EvalState) : SpliceOp → Outcome Error EvalState
  | .cat | .substr | .left | .right => .err (.disabledOpcode code)
  | .size => onStack evalSize s

/-- The comparison of `OP_EQUAL` and `OP_EQUALVERIFY`. -/
def popEqual (stack : Stack) : Outcome Error (Bool × Stack) := do
  let (x, stack) ← Outcome.ofExcept .stack stack.pop
  let (y, stack) ← Outcome.ofExcept .stack stack.pop
  pure (x = y, stack)

/-- Equality of bytes. -/
def evalEqual (stack : Stack) : Outcome Error Stack := do
  let (equal, stack) ← popEqual stack
  pure (stack.pushBool equal)

/-- Equality, or the script fails. -/
def evalEqualVerify (code : UInt8) (stack : Stack) : Outcome Error Stack := do
  let (equal, stack) ← popEqual stack
  Outcome.errIf (!equal) (.verify code)
  pure stack

/-- Of these only the two equalities are enabled. -/
def evalBitwise (code : UInt8) (s : EvalState) : BitwiseOp → Outcome Error EvalState
  | .invert | .and | .or | .xor => .err (.disabledOpcode code)
  | .equal => onStack evalEqual s
  | .equalVerify => onStack (evalEqualVerify code) s

/-! ## Arithmetic -/

/-- An opcode that replaces the number on the top. -/
def unaryNum (f : Int → Except NumError Int) (stack : Stack) : Outcome Error Stack := do
  let (n, stack) ← Outcome.ofExcept .stack (stack.popNum ctx.verifyMinimaldata)
  let r ← Outcome.ofExcept .num (f n)
  stack.pushNum r

/-- The two numbers on the top, the upper one first. -/
def popTwoNums (stack : Stack) : Outcome Error ((Int × Int) × Stack) := do
  let (v1, stack) ← Outcome.ofExcept .stack (stack.popNum ctx.verifyMinimaldata)
  let (v2, stack) ← Outcome.ofExcept .stack (stack.popNum ctx.verifyMinimaldata)
  pure ((v1, v2), stack)

/-- An opcode that replaces the two numbers on the top, `v1` being the upper one. -/
def binaryNum (f : Int → Int → Except NumError Int) (stack : Stack) : Outcome Error Stack := do
  let ((v1, v2), stack) ← ctx.popTwoNums stack
  let r ← Outcome.ofExcept .num (f v1 v2)
  stack.pushNum r

/-- A binary opcode whose result is a truth value. -/
def compareNum (f : Int → Int → Bool) (stack : Stack) : Outcome Error Stack :=
  ctx.binaryNum (fun v1 v2 => .ok (numOfBool (f v1 v2))) stack

def evalNumEqualVerify (code : UInt8) (stack : Stack) : Outcome Error Stack := do
  let ((v1, v2), stack) ← ctx.popTwoNums stack
  Outcome.errIf (v1 ≠ v2) (.verify code)
  pure stack

/-- `OP_WITHIN`, on the stack `x min max`. -/
def evalWithin (stack : Stack) : Outcome Error Stack := do
  let ((v1, v2), stack) ← ctx.popTwoNums stack
  let (v3, stack) ← Outcome.ofExcept .stack (stack.popNum ctx.verifyMinimaldata)
  pure (stack.pushBool (v2 ≤ v3 && v3 < v1))

/-- Numbers of up to four bytes. -/
def evalArithmetic (code : UInt8) (s : EvalState) : ArithmeticOp → Outcome Error EvalState
  | .twoMul | .twoDiv | .mul | .div | .mod | .lshift | .rshift => .err (.disabledOpcode code)
  | .oneAdd => onStack (ctx.unaryNum fun n => checkedNum (n + 1)) s
  | .oneSub => onStack (ctx.unaryNum fun n => checkedNum (n - 1)) s
  | .negate => onStack (ctx.unaryNum fun n => checkedNum (-n)) s
  | .abs => onStack (ctx.unaryNum fun n => .ok n.natAbs) s
  | .not => onStack (ctx.unaryNum fun n => .ok (numOfBool (n = 0))) s
  | .zeroNotEqual => onStack (ctx.unaryNum fun n => .ok (numOfBool (n ≠ 0))) s
  | .add => onStack (ctx.binaryNum fun v1 v2 => checkedNum (v1 + v2)) s
  | .sub => onStack (ctx.binaryNum fun v1 v2 => checkedNum (v2 - v1)) s
  | .boolAnd => onStack (ctx.compareNum fun v1 v2 => v1 ≠ 0 && v2 ≠ 0) s
  | .boolOr => onStack (ctx.compareNum fun v1 v2 => v1 ≠ 0 || v2 ≠ 0) s
  | .numEqual => onStack (ctx.compareNum fun v1 v2 => v1 = v2) s
  | .numEqualVerify => onStack (ctx.evalNumEqualVerify code) s
  | .numNotEqual => onStack (ctx.compareNum fun v1 v2 => v1 ≠ v2) s
  | .lessThan => onStack (ctx.compareNum fun v1 v2 => v2 < v1) s
  | .greaterThan => onStack (ctx.compareNum fun v1 v2 => v1 < v2) s
  | .lessThanOrEqual => onStack (ctx.compareNum fun v1 v2 => v2 ≤ v1) s
  | .greaterThanOrEqual => onStack (ctx.compareNum fun v1 v2 => v1 ≤ v2) s
  | .min => onStack (ctx.binaryNum fun v1 v2 => .ok (min v1 v2)) s
  | .max => onStack (ctx.binaryNum fun v1 v2 => .ok (max v1 v2)) s
  | .within => onStack ctx.evalWithin s

/-! ## Crypto -/

/-- An opcode that replaces the top by its hash. -/
def hashTop (hash : List UInt8 → List UInt8) (stack : Stack) : Outcome Error Stack := do
  let (x, stack) ← Outcome.ofExcept .stack stack.pop
  pure (hash x :: stack)

/-- The script code begins after this instruction. -/
def evalCodeSeparator (s : EvalState) : Outcome Error EvalState := do
  -- Use of OP_CODESEPARATOR is rejected in pre-segwit script.
  Outcome.errIf (ctx.sigVersion = .base && ctx.flags.has .constScriptcode) .opCodeSeparator
  pure { s with
    begincode := s.pc
    execData := { s.execData with codeseparatorPos := s.opcodePos } }

/-- The signature check of a signature opcode, from the position of the last code separator on. -/
def handleChecksigAt (s : EvalState) (sig pubkey : List UInt8) :
    Outcome Error (Bool × ScriptExecutionData) :=
  (handleChecksig ctx.env ctx.flags ctx.checker ctx.sigVersion ctx.script s.begincode sig pubkey
    s.execData).mapErr .checkSig

/-- The arguments of `OP_CHECKSIG`, and its check. -/
def popAndCheckSig (s : EvalState) : Outcome Error (Bool × EvalState) := do
  let (pubkey, stack) ← Outcome.ofExcept .stack s.stack.pop
  let (sig, stack) ← Outcome.ofExcept .stack stack.pop
  let (success, execData) ← ctx.handleChecksigAt s sig pubkey
  pure (success, { s with stack := stack, execData := execData })

/-- The result is pushed. -/
def evalCheckSig (s : EvalState) : Outcome Error EvalState := do
  let (success, s) ← ctx.popAndCheckSig s
  pure { s with stack := s.stack.pushBool success }

/-- A failed check fails the script. -/
def evalCheckSigVerify (code : UInt8) (s : EvalState) : Outcome Error EvalState := do
  let (success, s) ← ctx.popAndCheckSig s
  Outcome.errIf (!success) (.verify code)
  pure s

/-- The result of `eval_checkmultisig`, in the state of the loop. -/
def checkMultisig (s : EvalState) : Outcome Error (Bool × EvalState) := do
  let (success, stack, opCount) ←
    (evalCheckmultisig ctx.env ctx.flags ctx.checker ctx.sigVersion ctx.verifyMinimaldata
      ctx.script s.begincode s.stack s.opCount).mapErr .checkMultiSig
  pure (success, { s with stack := stack, opCount := opCount })

/-- `handle_checkmultisig` for `OP_CHECKMULTISIG`. -/
def evalCheckMultiSig (s : EvalState) : Outcome Error EvalState := do
  let (success, s) ← ctx.checkMultisig s
  pure { s with stack := s.stack.pushBool success }

/-- `handle_checkmultisig` for `OP_CHECKMULTISIGVERIFY`. -/
def evalCheckMultiSigVerify (s : EvalState) : Outcome Error EvalState := do
  let (success, s) ← ctx.checkMultisig s
  Outcome.errIf (!success) (.checkMultiSig .checkMultiSigVerify)
  pure s

/-- BIP 342: a counter goes up by the result. -/
def evalCheckSigAdd (s : EvalState) : Outcome Error EvalState := do
  let (pubkey, stack) ← Outcome.ofExcept .stack s.stack.pop
  let (num, stack) ← Outcome.ofExcept .stack (stack.popNum ctx.verifyMinimaldata)
  let (sig, stack) ← Outcome.ofExcept .stack stack.pop
  let (success, execData) ← ctx.handleChecksigAt s sig pubkey
  let stack ← stack.pushNum (num + numOfBool success)
  pure { s with stack := stack, execData := execData }

/-- Hashes and signatures. -/
def evalCrypto (code : UInt8) (s : EvalState) : CryptoOp → Outcome Error EvalState
  | .ripemd160 => onStack (hashTop fun x => (ctx.env.ripemd160 x).bytes) s
  | .sha1 => onStack (hashTop fun x => (ctx.env.sha1 x).bytes) s
  | .sha256 => onStack (hashTop fun x => (ctx.env.sha256 x).bytes) s
  | .hash160 => onStack (hashTop fun x => (ctx.env.hash160 x).bytes) s
  | .hash256 => onStack (hashTop fun x => (ctx.env.sha256d x).bytes) s
  | .codeSeparator => ctx.evalCodeSeparator s
  | .checkSig => ctx.evalCheckSig s
  | .checkSigVerify => ctx.evalCheckSigVerify code s
  | .checkMultiSig => ctx.evalCheckMultiSig s
  | .checkMultiSigVerify => ctx.evalCheckMultiSigVerify s
  | .checkSigAdd => ctx.evalCheckSigAdd s

/-! ## Lock times -/

/-- The number on the top, of up to five bytes, which stays there. -/
def lockTimeArg (stack : Stack) : Outcome Error Int := do
  let x ← Outcome.ofExcept .stack stack.last
  Outcome.ofExcept .num (numFromBytes x (ctx.flags.has .minimaldata) 5)

/-- BIP 65; the argument stays on the stack. -/
def evalCheckLockTimeVerify (stack : Stack) : Outcome Error Stack := do
  let lockTime ← ctx.lockTimeArg stack
  Outcome.errIf (lockTime < 0) .negativeLocktime
  let reached ← (ctx.checker.checkLockTime lockTime).mapErr Empty.elim
  Outcome.errIf (!reached) .unsatisfiedLocktime
  pure stack

/-- The check of `OP_CHECKSEQUENCEVERIFY`, void when the disable bit of the argument is set. -/
def sequenceReached (sequence : Int) : Outcome Error Bool :=
  if sequence.toNat.testBit 31 then pure true
  else (ctx.checker.checkSequence sequence).mapErr Empty.elim

/-- BIP 112; the argument stays on the stack. -/
def evalCheckSequenceVerify (stack : Stack) : Outcome Error Stack := do
  let sequence ← ctx.lockTimeArg stack
  Outcome.errIf (sequence < 0) .negativeLocktime
  let reached ← ctx.sequenceReached sequence
  Outcome.errIf (!reached) .unsatisfiedLocktime
  pure stack

def evalLocktime (s : EvalState) : LocktimeOp → Outcome Error EvalState
  | .checkLockTimeVerify => onStack ctx.evalCheckLockTimeVerify s
  | .checkSequenceVerify => onStack ctx.evalCheckSequenceVerify s

/-! ## Reserved words -/

/-- Two of them fail even where nothing is executed. -/
def evalReserved (code : UInt8) (executing : Bool) (s : EvalState) :
    ReservedOp → Outcome Error EvalState
  | .reserved | .ver | .reserved1 | .reserved2 =>
    if executing then .err (.disabledOpcode code) else pure s
  | .verIf | .verNotIf => .err (.disabledOpcode code)
  | .nop1 | .nop4 | .nop5 | .nop6 | .nop7 | .nop8 | .nop9 | .nop10 => do
    Outcome.errIf (ctx.flags.has .discourageUpgradableNops) .discourageUpgradableNops
    pure s

/-! ## The loop -/

/-- The `match` over the opcodes. -/
def evalOpcode (code : UInt8) (executing : Bool) (s : EvalState) : Opcode → Outcome Error EvalState
  | .push _ =>
    .panic <| "internal error: entered unreachable code: " ++
      "Instruction::Op(opcode) contains non-push opcode only"
  | .constant c => onStack (Stack.pushNum (constantValue c)) s
  | .flow op => ctx.evalFlow code executing s op
  | .stack op => ctx.evalStack s op
  | .splice op => evalSplice code s op
  | .bitwise op => evalBitwise code s op
  | .arithmetic op => ctx.evalArithmetic code s op
  | .crypto op => ctx.evalCrypto code s op
  | .locktime op => ctx.evalLocktime s op
  | .reserved op => ctx.evalReserved code executing s op

/-- The opcode limit, for `OP_NOP` and everything above it. -/
def countOp (code : UInt8) (s : EvalState) : Outcome Error EvalState :=
  if (ctx.sigVersion = .base || ctx.sigVersion = .witnessV0) && 0x60 < code then do
    Outcome.errIf (maxOpsPerScript < s.opCount + 1) .opCount
    pure { s with opCount := s.opCount + 1 }
  else pure s

/-- A lock time opcode that is not enabled is a NOP. -/
def isDisabledLocktime : Opcode → Bool
  | .locktime .checkLockTimeVerify => !ctx.flags.has .checklocktimeverify
  | .locktime .checkSequenceVerify => !ctx.flags.has .checksequenceverify
  | _ => false

/-- The end of the loop body. -/
def finishInstruction (s : EvalState) : Outcome Error EvalState := do
  Outcome.errIf (maxStackSize < s.stack.length + s.altStack.length) .stackSize
  pure { s with opcodePos := wrappingAdd 32 s.opcodePos 1 }

/-- A push of at most 520 bytes. -/
def evalPush (data : List UInt8) (s : EvalState) : Outcome Error EvalState := do
  Outcome.errIf (maxScriptElementSize < data.length) .pushSize
  finishInstruction { s with stack := data :: s.stack }

/-- An opcode that is counted and known. -/
def evalCounted (code : UInt8) (executing : Bool) (opcode : Opcode) (s : EvalState) :
    Outcome Error EvalState :=
  if ctx.isDisabledLocktime opcode then pure s
  else do
    let s ← ctx.evalOpcode code executing s opcode
    finishInstruction s

/-- An opcode is counted before it is looked up. -/
def evalOp (code : UInt8) (executing : Bool) (s : EvalState) : Outcome Error EvalState := do
  let s ← ctx.countOp code s
  let opcode ← Outcome.okOr (Opcode.fromU8 code) (.unknownOpcode code)
  ctx.evalCounted code executing opcode s

/-- `OP_IF` to `OP_ENDIF`, which are handled in branches that are not executed as well. -/
def isConditional : Instruction → Bool
  | .op code => 0x63 ≤ code && code ≤ 0x68
  | .pushBytes _ => false

/-- The instruction is handled, and not ignored as part of a branch that is not executed. -/
def handles (s : EvalState) (instruction : Instruction) : Bool :=
  s.executing || isConditional instruction

def advance (s : EvalState) (instruction : Instruction) : EvalState :=
  { s with pc := s.pc + instruction.step }

def evalInstruction (executing : Bool) (s : EvalState) : Instruction → Outcome Error EvalState
  | .pushBytes data => evalPush data s
  | .op code => ctx.evalOp code executing s

/-- The body of the loop. -/
def step (s : EvalState) (instruction : Instruction) : Outcome Error EvalState :=
  if handles s instruction then
    ctx.evalInstruction s.executing (advance s instruction) instruction
  else pure (advance s instruction)

/-- The loop over the instructions. -/
def run (instructions : List (Nat × Instruction)) (s : EvalState) : Outcome Error EvalState :=
  Loop.forEnum (fun s _ item => ctx.step s item.2) instructions s

/-- The instructions the loop goes through. -/
def parsed : Instructions := instructionIndices (ctx.flags.has .minimaldata) ctx.script

end EvalContext

/-- What `eval_script` returns and what it leaves in its arguments. -/
structure EvalResult where
  success : Bool
  stack : Stack
  execData : ScriptExecutionData
deriving DecidableEq

/-- The error of a malformed instruction, which ends the loop. -/
def readError : Option ScriptError → Outcome Error Unit
  | none => pure ()
  | some e => .err (.readInstruction e)

def topIsTrue : Stack → Bool
  | [] => false
  | x :: _ => castToBool x

/-- The whole evaluation; open branches at the end are an error. -/
def evalScript (ctx : EvalContext) (stack : Stack) (execData : ScriptExecutionData) :
    Outcome Error EvalResult := do
  Outcome.errIf (ctx.sigVersion = .taproot) .noScriptExecution
  let s ← ctx.run ctx.parsed.items (EvalState.init stack execData)
  readError ctx.parsed.error
  Outcome.errIf (!s.execStack.isEmpty) .unbalancedConditional
  pure ⟨topIsTrue s.stack, s.stack, s.execData⟩

end Subcoin.Script
