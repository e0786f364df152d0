import Subcoin.Lib.Outcome

/-!
# Signed fixed-width arithmetic

Signed integers are `Int` within the range of their width. A cast (`as`) wraps; `+`, `-`, `*` and
negation follow the build, as the unsigned operations do; a division panics in every build when
its divisor is zero or its quotient leaves the range.
-/

/-- The cast of an integer to a signed one of `w` bits. -/
def toSigned (w : Nat) (x : Int) : Int := (x + 2 ^ (w - 1)) % 2 ^ w - 2 ^ (w - 1)

/-- Only a multiple of the range is cast to zero. -/
theorem toSigned_ne_zero {x : Nat} (hpos : 0 < x) (hlt : x < 2 ^ 32) : toSigned 32 x ≠ 0 := by
  have hcast : toSigned 32 x = (x + 2 ^ 31) % 2 ^ 32 - 2 ^ 31 := rfl
  omega

/-- The cast of an integer to an unsigned one of `w` bits. -/
def toUnsigned (w : Nat) (x : Int) : Nat := (x % 2 ^ w).toNat

theorem toSigned_of_lt {x : Nat} (h : x < 2 ^ 63) : toSigned 64 x = x := by
  have hcast : toSigned 64 x = (x + 2 ^ 63) % 2 ^ 64 - 2 ^ 63 := rfl
  omega

theorem toUnsigned_of_lt {x : Nat} (h : x < 2 ^ 64) : toUnsigned 64 x = x := by
  have hcast : toUnsigned 64 x = ((x : Int) % 2 ^ 64).toNat := rfl
  omega

/-- The value fits into a signed integer of `w` bits. -/
def fitsSigned (w : Nat) (x : Int) : Bool := -2 ^ (w - 1) ≤ x && x < 2 ^ (w - 1)

def checkedSigned (w : Nat) (x : Int) : Option Int := if fitsSigned w x then some x else none

def checkedUnsigned (w : Nat) (x : Nat) : Option Nat := if x < 2 ^ w then some x else none

theorem checkedUnsigned_eq_some {w x y : Nat} :
    checkedUnsigned w x = some y ↔ x < 2 ^ w ∧ y = x := by
  unfold checkedUnsigned
  split
  · rename_i h
    rw [Option.some.injEq, and_iff_right h, eq_comm]
  · rename_i h
    simp [h]

namespace Build

variable {ε : Type} (b : Build)

/-- The result of a signed operation of 64 bits, whose overflow panics or wraps. -/
def signed (msg : String) (x : Int) : Outcome ε Int :=
  if fitsSigned 64 x then .ok x
  else if b.overflowChecks then .panic msg
  else .ok (toSigned 64 x)

def addSigned (x y : Int) : Outcome ε Int := b.signed "attempt to add with overflow" (x + y)

def subSigned (x y : Int) : Outcome ε Int := b.signed "attempt to subtract with overflow" (x - y)

def mulSigned (x y : Int) : Outcome ε Int := b.signed "attempt to multiply with overflow" (x * y)

def negSigned (x : Int) : Outcome ε Int := b.signed "attempt to negate with overflow" (-x)

end Build

def divSigned {ε : Type} (x y : Int) : Outcome ε Int :=
  if y = 0 then .panic "attempt to divide by zero"
  else if fitsSigned 64 (x.tdiv y) then .ok (x.tdiv y)
  else .panic "attempt to divide with overflow"
