import Subcoin.Lib.SignedInt
import Subcoin.Script.Eval

/-!
# Subcoin — the lock time opcodes

`OP_CHECKLOCKTIMEVERIFY` and `OP_CHECKSEQUENCEVERIFY` read a number of up to five bytes, which they
leave on the stack, and ask the checker about it. The rules of BIP 65 and BIP 112 are stated here
over the number itself, which may have 39 bits, and over the fields of the transaction.

* **`checkLockTimeVerify_bip65`** — the first opcode follows BIP 65 on every operand whose encoding
  the flags admit.
* **`followsBip112_iff`** — the second one compares the version as a signed number, and rejects
  every operand that has no disable bit but a bit above the 32 of a sequence number.
-/

namespace Subcoin.Script

open Outcome

/-! ## The operand -/

/-- The number that an element of at most five bytes stands for, minimally encoded or not. -/
def operand (x : List UInt8) : Int := (numFromBytes x false 5).toOption.getD 0

/-- The encoding of an operand is one the flags admit. -/
def Admits (flags : VerifyFlags) (x : List UInt8) : Prop :=
  flags.has .minimaldata = true → isMinimallyEncoded x = true

theorem numFromBytes_eq_operand {x : List UInt8} (hx : x.length ≤ 5) :
    numFromBytes x false 5 = .ok (operand x) := by
  have hvalue : ∃ n, numFromBytes x false 5 = .ok n := by
    unfold numFromBytes
    rw [if_neg (by omega)]
    split
    · exact ⟨_, rfl⟩
    · rw [if_neg (by simp)]
      split
      · exact ⟨_, rfl⟩
      · exact ⟨_, rfl⟩
  obtain ⟨n, hn⟩ := hvalue
  rw [operand, hn]
  rfl

theorem numFromBytes_five {x : List UInt8} (hx : x.length ≤ 5) (requireMinimal : Bool) :
    numFromBytes x requireMinimal 5 =
      if requireMinimal && !isMinimallyEncoded x then .error .notMinimallyEncoded
      else .ok (operand x) := by
  have hlen : ¬ 5 < x.length := by omega
  rw [← numFromBytes_eq_operand hx]
  unfold numFromBytes
  rw [if_neg hlen, if_neg hlen]
  cases hlast : x.getLast? with
  | none => simp [isMinimallyEncoded, hlast]
  | some last => simp

namespace EvalContext

variable {ctx : EvalContext} {s s' : EvalState} {x : List UInt8} {rest : Stack}

theorem lockTimeArg_eq_ok {stack : Stack} {n : Int} :
    ctx.lockTimeArg stack = .ok n ↔
      ∃ x rest, stack = x :: rest ∧ x.length ≤ 5 ∧ Admits ctx.flags x ∧ operand x = n := by
  unfold lockTimeArg
  cases stack with
  | nil => simp [Stack.last]
  | cons x rest =>
    rw [Stack.last, ofExcept_ok, ok_bind, ofExcept_eq_ok]
    by_cases hx : x.length ≤ 5
    · rw [numFromBytes_five hx]
      split
      · simp_all [Admits]
      · simp_all [Admits]
    · simp [numFromBytes, not_le.mp hx, hx]

/-- The body the two opcodes share. -/
def lockTimeVerify (ctx : EvalContext) (reached : Int → Outcome Error Bool) (stack : Stack) :
    Outcome Error Stack := do
  let n ← ctx.lockTimeArg stack
  Outcome.errIf (n < 0) .negativeLocktime
  let reached ← reached n
  Outcome.errIf (!reached) .unsatisfiedLocktime
  pure stack

/-- It returns only the stack it was given, once the number on the top has been reached. -/
theorem lockTimeVerify_eq_ok {reached : Int → Outcome Error Bool} {s' : EvalState} :
    onStack (ctx.lockTimeVerify reached) s = .ok s' ↔
      s' = s ∧ ∃ x rest, s.stack = x :: rest ∧ x.length ≤ 5 ∧ Admits ctx.flags x ∧
        0 ≤ operand x ∧ reached (operand x) = .ok true := by
  simp only [onStack, lockTimeVerify, bind_eq_ok, lockTimeArg_eq_ok, errIf_eq_ok,
    pure_eq_ok, Outcome.ok.injEq]
  constructor
  · rintro ⟨_, ⟨_, ⟨x, rest, hs, hx, hadmits, rfl⟩, _, hneg, b, hb, _, htrue, rfl⟩, rfl⟩
    rw [Bool.not_eq_false'] at htrue
    subst htrue
    exact ⟨rfl, x, rest, hs, hx, hadmits, by simpa using hneg, hb⟩
  · rintro ⟨rfl, x, rest, hs, hx, hadmits, hneg, hb⟩
    exact ⟨s'.stack, ⟨_, ⟨x, rest, hs, hx, hadmits, rfl⟩, (), by simpa using hneg, true, hb, (),
      rfl, rfl⟩, rfl⟩

theorem evalLocktime_eq_ok {op : LocktimeOp} (h : ctx.evalLocktime s op = .ok s') : s' = s := by
  cases op with
  | checkLockTimeVerify =>
    have h : onStack (ctx.lockTimeVerify fun n =>
      (ctx.checker.checkLockTime n).mapErr Empty.elim) s = .ok s' := h
    exact (lockTimeVerify_eq_ok.mp h).1
  | checkSequenceVerify =>
    have h : onStack (ctx.lockTimeVerify ctx.sequenceReached) s = .ok s' := h
    exact (lockTimeVerify_eq_ok.mp h).1

theorem isPanic_lockTimeVerify {reached : Int → Outcome Error Bool}
    (h : ∀ n, (reached n).isPanic = false) :
    (onStack (ctx.lockTimeVerify reached) s).isPanic = false := by
  simp [onStack, lockTimeVerify, lockTimeArg, isPanic_bind_eq_false, h]

end EvalContext

/-! ## The checker -/

namespace TransactionSignatureChecker

variable {c : TransactionSignatureChecker} {txin : TxIn}

theorem inputSequence_eq (h : c.tx.input[c.inputIndex]? = some txin) :
    c.inputSequence = .ok txin.sequence := by
  rw [inputSequence, h]
  rfl

theorem toU32_eq_some {n : Int} {k : Nat} : toU32 n = some k ↔ n = k ∧ k < 2 ^ 32 := by
  unfold toU32
  split
  · rw [Option.some.injEq]
    omega
  · simp only [reduceCtorEq, false_iff]
    omega

/-- `nSequence` with the disable bit clear: the operand of the same unit and at most its value. -/
def SequenceCovers (sequence n : Nat) : Prop :=
  sequence.testBit 31 = false ∧ n.testBit 22 = sequence.testBit 22 ∧
    n % 2 ^ 16 ≤ sequence % 2 ^ 16

/-- The rule of BIP 112. -/
def Bip112 (version sequence n : Nat) : Prop :=
  n.testBit 31 = true ∨ 2 ≤ version ∧ SequenceCovers sequence n

/-- The rule of BIP 65. -/
def Bip65 (lockTime sequence : Nat) (n : Int) : Prop :=
  0 ≤ n ∧ (n < lockTimeThreshold ↔ lockTime < lockTimeThreshold) ∧ n ≤ lockTime ∧
    sequence ≠ 0xffffffff

theorem lockTimeReached_iff {n : Nat} {lockTime : LockTime} :
    lockTimeReached n lockTime = true ↔
      (n < lockTimeThreshold ↔ lockTime.toConsensusU32 < lockTimeThreshold) ∧
        n ≤ lockTime.toConsensusU32 := by
  cases lockTime with
  | blocks h hlt =>
    simp only [lockTimeReached, LockTime.toConsensusU32, Bool.and_eq_true, decide_eq_true_eq]
    omega
  | seconds t hle =>
    simp only [lockTimeReached, LockTime.toConsensusU32, Bool.and_eq_true, decide_eq_true_eq]
    omega

section

variable (hin : c.tx.input[c.inputIndex]? = some txin)

include hin

/-- A number of 33 bits or more is above every lock time, so that the conversion to 32 bits
changes no answer. -/
theorem checkLockTime_eq_true (hlock : c.tx.lockTime.toConsensusU32 < 2 ^ 32) {n : Int} :
    0 ≤ n ∧ c.checkLockTime n = .ok true ↔
      Bip65 c.tx.lockTime.toConsensusU32 txin.sequence n := by
  unfold checkLockTime Bip65
  cases hn : toU32 n with
  | none =>
    have hout : ¬ (0 ≤ n ∧ n < 2 ^ 32) := by
      intro h
      rw [toU32, if_pos h] at hn
      cases hn
    simp only [Outcome.ok.injEq, reduceCtorEq, and_false, false_iff]
    omega
  | some k =>
    obtain ⟨rfl, _⟩ := toU32_eq_some.mp hn
    rw [inputSequence_eq hin]
    by_cases hreached : lockTimeReached k c.tx.lockTime = true
    · have := lockTimeReached_iff.mp hreached
      simp only [hreached, if_true, ok_bind, pure_eq_ok, Outcome.ok.injEq,
        decide_eq_true_eq]
      omega
    · have := mt lockTimeReached_iff.mpr hreached
      simp only [hreached, if_false, Outcome.ok.injEq, reduceCtorEq, and_false, false_iff]
      omega

theorem checkSequence_eq_true {n : Nat} (hn : n.testBit 31 = false) :
    c.checkSequence n = .ok true ↔
      2 ≤ c.tx.version ∧ n < 2 ^ 32 ∧ SequenceCovers txin.sequence n := by
  unfold checkSequence
  by_cases hversion : c.tx.version < 2
  · rw [if_pos hversion]
    simp only [Outcome.ok.injEq, reduceCtorEq, false_iff]
    omega
  · rw [if_neg hversion, inputSequence_eq hin, ok_bind, pure_eq_ok,
      Outcome.ok.injEq, and_iff_right (by omega)]
    by_cases hlt : n < 2 ^ 32
    · rw [toU32_eq_some.mpr ⟨rfl, hlt⟩, Option.bind_some, and_iff_right hlt]
      simp only [toRelativeLockTime, SequenceCovers, hn, Bool.false_eq_true, if_false]
      -- the operand has a lock; the sequence has one unless its own bit 31 is set
      cases txin.sequence.testBit 31 with
      | true => simp
      | false =>
        cases txin.sequence.testBit 22 with
        | true => cases n.testBit 22 <;> simp [relativeLockReached]
        | false => cases n.testBit 22 <;> simp [relativeLockReached]
    · have hnone : toU32 n = none := if_neg (by omega)
      rw [hnone, iff_false_right (fun h => hlt h.1)]
      cases toRelativeLockTime txin.sequence with
      | none => simp
      | some lockTime => simp

theorem isPanic_checkLockTime (n : Int) : (c.checkLockTime n).isPanic = false := by
  unfold checkLockTime
  rw [inputSequence_eq hin]
  split
  · rfl
  · split
    · rfl
    · rfl

theorem isPanic_checkSequence (n : Int) : (c.checkSequence n).isPanic = false := by
  unfold checkSequence
  rw [inputSequence_eq hin]
  split
  · rfl
  · rfl

end

end TransactionSignatureChecker

/-! ## The opcodes -/

open TransactionSignatureChecker

namespace EvalContext

/-- The context of an input of a transaction whose fields have their 32 bits. -/
structure ChecksInput (ctx : EvalContext) (c : TransactionSignatureChecker) (txin : TxIn) :
    Prop where
  checker : ctx.checker = c.toChecker ctx.env
  input : c.tx.input[c.inputIndex]? = some txin
  version : -2 ^ 31 ≤ c.tx.version ∧ c.tx.version < 2 ^ 31
  lockTime : c.tx.lockTime.toConsensusU32 < 2 ^ 32

variable {ctx : EvalContext} {c : TransactionSignatureChecker} {txin : TxIn} {code : UInt8}
  {executing : Bool} {s : EvalState}

/-- **OP_CHECKLOCKTIMEVERIFY.** Enabled, it succeeds exactly on an operand of at most five bytes,
encoded as the flags ask, that meets BIP 65; it leaves the state as it is, and every other stack is
an error. -/
theorem checkLockTimeVerify_bip65 (h : ctx.ChecksInput c txin)
    (hflag : ctx.flags.has .checklocktimeverify = true) (code : UInt8) (executing : Bool)
    (s : EvalState) :
    let result := ctx.evalOpcode code executing s (.locktime .checkLockTimeVerify)
    ctx.evalCounted code executing (.locktime .checkLockTimeVerify) s =
        result >>= finishInstruction ∧
      result.isPanic = false ∧
      ∀ s', result = .ok s' ↔ s' = s ∧ ∃ x rest, s.stack = x :: rest ∧ x.length ≤ 5 ∧
        Admits ctx.flags x ∧ Bip65 c.tx.lockTime.toConsensusU32 txin.sequence (operand x) := by
  have hchecker : ctx.checker.checkLockTime = c.checkLockTime := by
    rw [h.checker]
    rfl
  have hbody : ctx.evalOpcode code executing s (.locktime .checkLockTimeVerify) =
      onStack (ctx.lockTimeVerify fun n => (c.checkLockTime n).mapErr Empty.elim) s := by
    rw [← hchecker]
    rfl
  refine ⟨if_neg (by simp [isDisabledLocktime, hflag]), ?_, fun s' => ?_⟩
  · rw [hbody]
    exact isPanic_lockTimeVerify fun n => by simp [isPanic_checkLockTime h.input]
  · rw [hbody, lockTimeVerify_eq_ok]
    simp only [mapErr_eq_ok, checkLockTime_eq_true h.input h.lockTime]

/-- What BIP 112 asks of the opcode on a stack with the operand `x` on top. -/
structure FollowsBip112 (c : TransactionSignatureChecker) (txin : TxIn) (s : EvalState)
    (x : List UInt8) (result : Outcome Error EvalState) : Prop where
  succeeds : 0 ≤ operand x → ((∃ s', result = .ok s') ↔
    Bip112 (toUnsigned 32 c.tx.version) txin.sequence (operand x).toNat)
  negative : operand x < 0 → ∃ e, result = .err e
  unchanged : ∀ s', result = .ok s' → s' = s

/-- An operand that the conversions of the code can represent: the flags admit its encoding, and
unless it disables the lock, the version is not negative as a signed number and the operand has 32
bits. -/
def Representable (flags : VerifyFlags) (version : Int) (x : List UInt8) : Prop :=
  Admits flags x ∧
    ((operand x).toNat.testBit 31 = true ∨ 0 ≤ version ∧ operand x < 2 ^ 32)

theorem sequenceReached_eq_true (h : ctx.ChecksInput c txin) {n : Nat} :
    ctx.sequenceReached n = .ok true ↔
      n.testBit 31 = true ∨
        2 ≤ c.tx.version ∧ n < 2 ^ 32 ∧ SequenceCovers txin.sequence n := by
  unfold sequenceReached
  rw [Int.toNat_natCast, h.checker]
  cases hn : n.testBit 31 with
  | true => simp
  | false =>
    rw [if_neg Bool.false_ne_true, mapErr_eq_ok]
    simp only [Bool.false_eq_true, false_or]
    exact checkSequence_eq_true h.input hn

theorem isPanic_sequenceReached (h : ctx.ChecksInput c txin) (n : Int) :
    (ctx.sequenceReached n).isPanic = false := by
  unfold sequenceReached
  rw [h.checker]
  split
  · rfl
  · rw [isPanic_mapErr]
    exact isPanic_checkSequence h.input n

/-- The code succeeds on what BIP 112 accepts and its conversions represent. -/
theorem sequenceReached_iff_bip112 (h : ctx.ChecksInput c txin) {n : Nat} :
    ctx.sequenceReached n = .ok true ↔
      Bip112 (toUnsigned 32 c.tx.version) txin.sequence n ∧
        (n.testBit 31 = true ∨ 0 ≤ c.tx.version ∧ n < 2 ^ 32) := by
  have hversion : 2 ≤ c.tx.version ↔ 2 ≤ toUnsigned 32 c.tx.version ∧ 0 ≤ c.tx.version := by
    have hcast : toUnsigned 32 c.tx.version = (c.tx.version % 2 ^ 32).toNat := rfl
    have hrange := h.version
    omega
  rw [sequenceReached_eq_true h, hversion, Bip112]
  cases n.testBit 31 with
  | true => simp
  | false => simp only [Bool.false_eq_true, false_or, and_assoc, and_left_comm, and_comm]

/-- **OP_CHECKSEQUENCEVERIFY.** Enabled, it follows BIP 112 on an operand exactly when the operand
is representable, or the lock does not hold anyway. -/
theorem followsBip112_iff (h : ctx.ChecksInput c txin)
    (hflag : ctx.flags.has .checksequenceverify = true) (code : UInt8) (executing : Bool)
    {s : EvalState} {x : List UInt8} {rest : Stack} (hs : s.stack = x :: rest)
    (hx : x.length ≤ 5) :
    let result := ctx.evalOpcode code executing s (.locktime .checkSequenceVerify)
    ctx.evalCounted code executing (.locktime .checkSequenceVerify) s =
        result >>= finishInstruction ∧
      (FollowsBip112 c txin s x result ↔
        (0 ≤ operand x →
          Bip112 (toUnsigned 32 c.tx.version) txin.sequence (operand x).toNat →
          Representable ctx.flags c.tx.version x)) := by
  intro result
  have hresult : ∀ s', result = .ok s' ↔ s' = s ∧ Admits ctx.flags x ∧ 0 ≤ operand x ∧
      ctx.sequenceReached (operand x) = .ok true := by
    intro s'
    rw [show result = onStack (ctx.lockTimeVerify ctx.sequenceReached) s from rfl,
      lockTimeVerify_eq_ok, hs]
    simp [hx]
  have hpanic : result.isPanic = false := isPanic_lockTimeVerify (isPanic_sequenceReached h)
  refine ⟨if_neg (by simp [isDisabledLocktime, hflag]), ?_⟩
  -- on such operands success is the rule of BIP 112 together with representability
  have hsucceeds : 0 ≤ operand x → ((∃ s', result = .ok s') ↔
      Bip112 (toUnsigned 32 c.tx.version) txin.sequence (operand x).toNat ∧
        Representable ctx.flags c.tx.version x) := by
    intro hpos
    obtain ⟨n, hn⟩ := Int.eq_ofNat_of_zero_le hpos
    have hlt : operand x < 2 ^ 32 ↔ n < 2 ^ 32 := by omega
    simp only [hresult, exists_eq_left, Representable, hlt, hpos, true_and]
    rw [hn, Int.toNat_natCast, sequenceReached_iff_bip112 h, and_left_comm]
  constructor
  · intro hfollows hpos hbip
    exact ((hsucceeds hpos).mp ((hfollows.succeeds hpos).mpr hbip)).2
  · intro hrep
    refine ⟨fun hpos => ?_, fun hneg => ?_, fun s' h => ((hresult s').mp h).1⟩
    · rw [hsucceeds hpos]
      exact and_iff_left_of_imp (hrep hpos)
    · cases hcase : result with
      | ok s' =>
        have hpos := ((hresult s').mp hcase).2.2.1
        omega
      | err e => exact ⟨e, rfl⟩
      | panic msg =>
        rw [hcase] at hpanic
        cases hpanic

/-! ## Samples -/

namespace LockTimeSample

/-- A transaction with one input of sequence zero and lock time 10. -/
def sampleChecker (version : Int) : TransactionSignatureChecker :=
  .new ⟨version, .blocks 10 (by decide), [⟨OutPoint.null, [], 0, []⟩], []⟩ 0 0

def sampleContext (version : Int) (flags : List VerifyFlag) : EvalContext where
  env := .reference
  script := []
  flags := .ofList flags
  checker := (sampleChecker version).toChecker .reference
  sigVersion := .base
  verifyMinimaldata := false

def stateOf (x : List UInt8) : EvalState := .init [x] {}

theorem checksInput_sample (flags : List VerifyFlag) {version : Int}
    (h : -2 ^ 31 ≤ version ∧ version < 2 ^ 31) :
    (sampleContext version flags).ChecksInput (sampleChecker version)
      ⟨OutPoint.null, [], 0, []⟩ :=
  ⟨rfl, rfl, h, show 10 < 2 ^ 32 by decide⟩

theorem checkLockTimeVerify_bip65_ten :
    (sampleContext 2 [.checklocktimeverify]).evalOpcode 0xb1 true (stateOf [10])
      (.locktime .checkLockTimeVerify) = .ok (stateOf [10]) :=
  ((checkLockTimeVerify_bip65 (checksInput_sample [.checklocktimeverify] (by decide)) rfl 0xb1 true
    (stateOf [10])).2.2 _).mpr ⟨rfl, [10], [], rfl, by decide, fun h => absurd h (by decide),
      by decide, by decide, by decide, by decide⟩

/-- A zero of one byte meets BIP 65, but is an error where numbers must be minimally encoded. -/
theorem not_bip65_nonminimal :
    Bip65 10 0 (operand [0]) ∧ ∃ e,
      (sampleContext 2 [.checklocktimeverify, .minimaldata]).evalOpcode 0xb1 true (stateOf [0])
        (.locktime .checkLockTimeVerify) = .err e :=
  ⟨⟨by decide, by decide, by decide, by decide⟩, _, rfl⟩

theorem followsBip112_zero :
    FollowsBip112 (sampleChecker 2) ⟨OutPoint.null, [], 0, []⟩ (stateOf []) []
      ((sampleContext 2 [.checksequenceverify]).evalOpcode 0xb2 true (stateOf [])
        (.locktime .checkSequenceVerify)) :=
  (followsBip112_iff (checksInput_sample [.checksequenceverify] (by decide)) rfl 0xb2 true
    (s := stateOf []) rfl (by decide)).2.mpr
    fun _ _ => ⟨fun h => absurd h (by decide), .inr ⟨by decide, by decide⟩⟩

/-- The operand `2 ^ 32` has no bit that counts, and is rejected; so is the operand zero when the
version is `0xffffffff`. -/
theorem not_followsBip112 :
    ¬ FollowsBip112 (sampleChecker 2) ⟨OutPoint.null, [], 0, []⟩ (stateOf [0, 0, 0, 0, 1])
        [0, 0, 0, 0, 1]
        ((sampleContext 2 [.checksequenceverify]).evalOpcode 0xb2 true (stateOf [0, 0, 0, 0, 1])
          (.locktime .checkSequenceVerify)) ∧
      ¬ FollowsBip112 (sampleChecker (-1)) ⟨OutPoint.null, [], 0, []⟩ (stateOf []) []
        ((sampleContext (-1) [.checksequenceverify]).evalOpcode 0xb2 true (stateOf [])
          (.locktime .checkSequenceVerify)) := by
  constructor
  · intro h
    obtain ⟨s', hs'⟩ := (h.succeeds (by decide)).mpr
      (.inr ⟨by decide, by decide, by decide, by decide⟩)
    cases hs'
  · intro h
    obtain ⟨s', hs'⟩ := (h.succeeds (by decide)).mpr
      (.inr ⟨by decide, by decide, by decide, by decide⟩)
    cases hs'

end LockTimeSample

end EvalContext

end Subcoin.Script
