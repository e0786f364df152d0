import Mathlib.Tactic

/-!
# Byte strings

Little-endian byte strings of a fixed length and 32-byte strings. A `Hash256` carries its length,
so a value of another length cannot be built; `fromSlice` is the checked way in.
-/

/-! ## Little-endian integers -/

/-- The `k` low bytes of `n`, least significant first. -/
def leBytes : Nat → Nat → List UInt8
  | 0, _ => []
  | k + 1, n => UInt8.ofNat n :: leBytes k (n / 256)

def ofLeBytes : List UInt8 → Nat
  | [] => 0
  | b :: l => b.toNat + 256 * ofLeBytes l

@[simp] theorem length_leBytes (k n : Nat) : (leBytes k n).length = k := by
  induction k generalizing n with
  | zero => rfl
  | succ k ih => simp [leBytes, ih]

theorem ofLeBytes_leBytes (k n : Nat) : ofLeBytes (leBytes k n) = n % 256 ^ k := by
  induction k generalizing n with
  | zero => simp [leBytes, ofLeBytes, Nat.mod_one]
  | succ k ih =>
    have hbyte : (UInt8.ofNat n).toNat = n % 256 := by simp
    rw [leBytes, ofLeBytes, ih, hbyte, Nat.pow_succ, Nat.mul_comm (256 ^ k) 256, Nat.mod_mul]

/-! ## 32-byte strings -/

structure Hash256 where
  bytes : List UInt8
  length_eq : bytes.length = 32
deriving DecidableEq, Repr

namespace Hash256

@[ext] theorem ext {a b : Hash256} (h : a.bytes = b.bytes) : a = b := by
  cases a
  cases b
  simpa using h

def allZeros : Hash256 := ⟨List.replicate 32 0, by simp⟩

instance : Inhabited Hash256 := ⟨allZeros⟩

/-- A slice is accepted exactly when it has 32 bytes. -/
def fromSlice (l : List UInt8) : Option Hash256 :=
  if h : l.length = 32 then some ⟨l, h⟩ else none

@[simp] theorem fromSlice_bytes (h : Hash256) : fromSlice h.bytes = some h := by
  simp [fromSlice, h.length_eq]

def reverse (h : Hash256) : Hash256 := ⟨h.bytes.reverse, by simp [h.length_eq]⟩

@[simp] theorem reverse_reverse (h : Hash256) : h.reverse.reverse = h := by
  ext1
  simp [reverse]

def toHex (h : Hash256) : String :=
  String.ofList (h.bytes.flatMap fun b => [(b.toNat / 16).digitChar, (b.toNat % 16).digitChar])

/-- The string whose little-endian value is `n` modulo `2 ^ 256`. -/
def ofNat (n : Nat) : Hash256 := ⟨leBytes 32 n, by simp⟩

theorem ofNat_inj {m n : Nat} (hm : m < 2 ^ 256) (hn : n < 2 ^ 256) :
    ofNat m = ofNat n ↔ m = n := by
  constructor
  · intro h
    have hval := congrArg (fun x => ofLeBytes x.bytes) h
    simp only [ofNat, ofLeBytes_leBytes] at hval
    have hpow : (256 : Nat) ^ 32 = 2 ^ 256 := by norm_num
    rwa [hpow, Nat.mod_eq_of_lt hm, Nat.mod_eq_of_lt hn] at hval
  · rintro rfl
    rfl

end Hash256
