import Subcoin.Lib.Outcome
import Subcoin.Script.Types

/-!
# Subcoin — script numbers and the stack

`ScriptNum` and the stack of the interpreter. A stack is a list with its top first. Every access in
the source comes after a check of the length (`require`), so the operations return an error and
never panic; the one panic here is the absolute value in `as_bytes`, of the smallest 64-bit number.
Whether numbers must be minimally encoded is a field of the source's stack that no operation
changes; here the operations that read numbers take it as an argument.
-/

namespace Subcoin.Script

/-! ## Numbers -/

/-- The highest bit of a byte. -/
def signBit (byte : UInt8) : Bool := byte &&& 0x80 ≠ 0

/-- `ScriptNum::is_minimally_encoded`. -/
def isMinimallyEncoded (data : List UInt8) : Bool :=
  match data.getLast? with
  | none => true
  | some last => !(last &&& 0x7f = 0 && (data.dropLast.getLast?.all fun byte => !signBit byte))

/-- `ScriptNum::from_bytes`: little endian, the highest bit of the last byte is the sign. No caller
allows more than five bytes, so the 64-bit operations of the source are exact. -/
def numFromBytes (data : List UInt8) (requireMinimal : Bool) (maxSize : Nat) :
    Except NumError Int :=
  if maxSize < data.length then .error .overflow
  else
    match data.getLast? with
    | none => .ok 0
    | some last =>
      if requireMinimal && !isMinimallyEncoded data then .error .notMinimallyEncoded
      else if signBit last then
        .ok (-((ofLeBytes data - 0x80 * 256 ^ (data.length - 1) : Nat) : Int))
      else .ok (ofLeBytes data)

/-- The loop of `as_bytes`; eight bytes hold every magnitude. -/
def magnitude : Nat → Nat → List UInt8
  | 0, _ => []
  | k + 1, n => if n = 0 then [] else UInt8.ofNat n :: magnitude k (n / 256)

/-- `ScriptNum::as_bytes`. -/
def numAsBytes {ε : Type} (value : Int) : Outcome ε (List UInt8) :=
  if value ≤ -2 ^ 63 then .panic "attempt to negate with overflow"
  else
    let result := magnitude 8 value.natAbs
    match result.getLast? with
    | none => .ok []
    | some last =>
      if signBit last then .ok (result ++ [if value < 0 then 0x80 else 0])
      else if value < 0 then .ok (result.dropLast ++ [last ||| 0x80])
      else .ok result

/-- A result of `checked_add` and the like: the number if it fits 64 bits. -/
def checkedNum (value : Int) : Except NumError Int :=
  if -2 ^ 63 ≤ value ∧ value < 2 ^ 63 then .ok value else .error .overflow

/-- `ScriptNum::from` of a boolean. -/
def numOfBool (b : Bool) : Int := if b then 1 else 0

theorem ofLeBytes_lt (data : List UInt8) : ofLeBytes data < 256 ^ data.length := by
  induction data with
  | nil => simp [ofLeBytes]
  | cons byte data ih =>
    have hbyte := byte.toNat_lt
    rw [ofLeBytes, List.length_cons, Nat.pow_succ]
    omega

theorem natAbs_lt_of_numFromBytes {data : List UInt8} {requireMinimal : Bool} {maxSize : Nat}
    {v : Int} (h : numFromBytes data requireMinimal maxSize = .ok v) :
    v.natAbs < 256 ^ maxSize := by
  unfold numFromBytes at h
  split at h
  · cases h
  · rename_i hlen
    have hval : ofLeBytes data < 256 ^ maxSize :=
      (ofLeBytes_lt data).trans_le (Nat.pow_le_pow_right (by norm_num) (not_lt.mp hlen))
    split at h
    · cases h
      exact Nat.zero_lt_of_lt hval
    · split at h
      · cases h
      · split at h
        · rw [Except.ok.injEq] at h
          subst h
          omega
        · rw [Except.ok.injEq] at h
          subst h
          omega

variable {value : Int} {ε : Type}

theorem isPanic_numAsBytes (h : -2 ^ 63 < value) :
    (numAsBytes value : Outcome ε (List UInt8)).isPanic = false := by
  unfold numAsBytes
  rw [if_neg (by omega)]
  dsimp only
  split
  · rfl
  · split
    · rfl
    · split
      · rfl
      · rfl

theorem length_magnitude_le (k n : Nat) : (magnitude k n).length ≤ k := by
  induction k generalizing n with
  | zero => simp [magnitude]
  | succ k ih =>
    unfold magnitude
    split
    · simp
    · simpa using ih (n / 256)

theorem length_numAsBytes_le {bytes : List UInt8}
    (h : (numAsBytes value : Outcome ε (List UInt8)) = .ok bytes) : bytes.length ≤ 9 := by
  have hmag := length_magnitude_le 8 value.natAbs
  unfold numAsBytes at h
  split at h
  · cases h
  · dsimp only at h
    split at h
    · cases h
      simp
    · split at h
      · cases h
        simp only [List.length_append, List.length_singleton]
        omega
      · split at h
        · cases h
          simp only [List.length_append, List.length_dropLast, List.length_singleton]
          omega
        · cases h
          omega

/-! ## The stack -/

/-- The stack of the interpreter, its top first. -/
abbrev Stack := List (List UInt8)

/-- `cast_to_bool`: zero, in either sign, is false. -/
def castToBool (data : List UInt8) : Bool :=
  match data.getLast? with
  | none => false
  | some last => data.dropLast.any (fun byte => byte ≠ 0) || (last ≠ 0 && last ≠ 0x80)

def boolBytes (b : Bool) : List UInt8 := if b then [1] else []

namespace Stack

/-- `require`, and then the operation `f` on the stack. -/
def requireThen (n : Nat) (f : Stack → Stack) (s : Stack) : Except StackError Stack :=
  if s.length < n then .error .invalidOperation else .ok (f s)

def last : Stack → Except StackError (List UInt8)
  | [] => .error .invalidOperation
  | x :: _ => .ok x

def pop : Stack → Except StackError (List UInt8 × Stack)
  | [] => .error .invalidOperation
  | x :: s => .ok (x, s)

/-- `pop_num`, with the four-byte limit of script numbers. -/
def popNum (verifyMinimaldata : Bool) : Stack → Except StackError (Int × Stack)
  | [] => .error .invalidOperation
  | x :: s =>
    match numFromBytes x verifyMinimaldata 4 with
    | .ok v => .ok (v, s)
    | .error e => .error (.num e)

def peekBool (s : Stack) : Except StackError Bool := s.last.map castToBool

def popBool (s : Stack) : Except StackError (Bool × Stack) :=
  s.pop.map fun (x, s) => (castToBool x, s)

/-- The element `i` below the top. -/
def top (i : Nat) (s : Stack) : Except StackError (List UInt8) :=
  match s[i]? with
  | some x => .ok x
  | none => .error .invalidOperation

/-- Takes out the element `i` below the top. -/
def remove (i : Nat) (s : Stack) : Except StackError (List UInt8 × Stack) :=
  match s[i]? with
  | some x => .ok (x, s.eraseIdx i)
  | none => .error .invalidOperation

/-- The source's `drop`, `dup`, `over`, `rot` and `swap`, for `n` elements at a time. -/
def dropN (n : Nat) (s : Stack) : Except StackError Stack := requireThen n (List.drop n) s

def dupN (n : Nat) (s : Stack) : Except StackError Stack := requireThen n (fun s => s.take n ++ s) s

def overN (n : Nat) (s : Stack) : Except StackError Stack :=
  requireThen (n * 2) (fun s => (s.drop n).take n ++ s) s

def rotN (n : Nat) (s : Stack) : Except StackError Stack :=
  requireThen (n * 3)
    (fun s => (s.drop (n * 2)).take n ++ s.take (n * 2) ++ s.drop (n * 3)) s

def swapN (n : Nat) (s : Stack) : Except StackError Stack :=
  requireThen (n * 2) (fun s => (s.drop n).take n ++ s.take n ++ s.drop (n * 2)) s

def nip : Stack → Except StackError Stack
  | x :: _ :: s => .ok (x :: s)
  | _ => .error .invalidOperation

def tuck : Stack → Except StackError Stack
  | x :: y :: s => .ok (x :: y :: x :: s)
  | _ => .error .invalidOperation

/-- `Vec::truncate`: the bottom of the stack stays. -/
def truncate (n : Nat) (s : Stack) : Stack := s.drop (s.length - n)

/-- `push_num`. -/
def pushNum {ε : Type} (value : Int) (s : Stack) : Outcome ε Stack := do
  let bytes ← numAsBytes value
  pure (bytes :: s)

def pushBool (b : Bool) (s : Stack) : Stack := boolBytes b :: s

/-- The loop that pops `n` elements, in the order they come off. -/
def popMany : Nat → Stack → Except StackError (List (List UInt8) × Stack)
  | 0, s => .ok ([], s)
  | n + 1, s =>
    match s.pop with
    | .error e => .error e
    | .ok (x, s) =>
      match popMany n s with
      | .error e => .error e
      | .ok (xs, s) => .ok (x :: xs, s)

theorem popMany_eq (n : Nat) (s : Stack) : popMany n s =
    if n ≤ s.length then .ok (s.take n, s.drop n) else .error .invalidOperation := by
  induction n generalizing s with
  | zero => simp [popMany]
  | succ n ih =>
    cases s with
    | nil => simp [popMany, pop]
    | cons x s =>
      rw [popMany, pop]
      dsimp only
      rw [ih]
      by_cases h : n ≤ s.length
      · simp [h]
      · simp [h]

variable {s : Stack} {xs : List (List UInt8)}

theorem popMany_eq_ok {n : Nat} {s' : Stack} :
    popMany n s = .ok (xs, s') ↔ n ≤ s.length ∧ s.take n = xs ∧ s.drop n = s' := by
  rw [popMany_eq]
  split
  · rename_i h
    simp [h]
  · rename_i h
    simp [h]

theorem length_popMany {n : Nat} {s' : Stack} (h : popMany n s = .ok (xs, s')) : xs.length = n := by
  obtain ⟨hle, rfl, _⟩ := popMany_eq_ok.mp h
  exact List.length_take_of_le hle

theorem isPanic_pushNum (h : -2 ^ 63 < value) :
    (pushNum value s : Outcome ε Stack).isPanic = false :=
  Outcome.isPanic_bind (isPanic_numAsBytes h) fun _ => rfl

end Stack

end Subcoin.Script
