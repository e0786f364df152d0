import Mathlib.Tactic

/-!
# Compact numbers

A number below `2 ^ 256` as a 32-bit word, the way block headers write their targets: the high byte
is a size in bytes, the low 24 bits are the three leading bytes of the number at that size, and bit
23 is a sign. Encoding keeps the leading bytes and drops the rest; several words decode to one
number, and `Canonical` says which of them encoding gives back.
-/

namespace Compact

def byteLength (n : Nat) : Nat := ((if n = 0 then 0 else n.log2 + 1) + 7) / 8

/-- The word of a number. A mantissa that would read as negative is shifted by one more byte. -/
def encode (n : Nat) : Nat :=
  let size := byteLength n
  let word := if size ≤ 3 then n <<< (8 * (3 - size)) else n >>> (8 * (size - 3))
  if word / 2 ^ 23 % 2 = 1 then word / 2 ^ 8 + (size + 1) * 2 ^ 24 else word + size * 2 ^ 24

/-- The number of a word without a sign. -/
def decode (bits : Nat) : Nat :=
  let size := bits / 2 ^ 24
  let word := bits % 2 ^ 23
  if size ≤ 3 then word >>> (8 * (3 - size)) else word <<< (8 * (size - 3)) % 2 ^ 256

def mantissa (bits : Nat) : Nat := bits % 2 ^ 24

def size (bits : Nat) : Nat := bits / 2 ^ 24

/-- Zero, or a word without a sign, with a mantissa that could not be written with a smaller size,
no digits below the units and none above `2 ^ 256`. -/
def Canonical (bits : Nat) : Prop :=
  bits = 0 ∨
    (2 ^ 15 ≤ mantissa bits ∧ mantissa bits < 2 ^ 23 ∧
      (size bits < 3 → mantissa bits % 256 ^ (3 - size bits) = 0) ∧
      (size bits ≤ 32 ∨ (size bits = 33 ∧ mantissa bits < 2 ^ 16)))

instance (bits : Nat) : Decidable (Canonical bits) :=
  inferInstanceAs (Decidable (_ ∨ _))

/-! ## The digits of a number -/

/-- The size that encoding gives to a number other than zero. -/
def encodedSize (n : Nat) : Nat := (n.log2 + 1) / 8 + 1

section Digits

variable {n : Nat}

theorem encodedSize_bounds (hn : n ≠ 0) :
    2 ^ (8 * (encodedSize n - 1)) ≤ 2 * n ∧ 2 * n < 2 ^ (8 * encodedSize n) := by
  have hlow := Nat.log2_self_le hn
  have hhigh := Nat.lt_log2_self (n := n)
  constructor
  · calc 2 ^ (8 * ((n.log2 + 1) / 8 + 1 - 1)) ≤ 2 ^ (n.log2 + 1) :=
          Nat.pow_le_pow_right (by norm_num) (by omega)
      _ ≤ 2 * n := by
          rw [Nat.pow_succ]
          omega
  · calc 2 * n < 2 ^ (n.log2 + 2) := by
          rw [Nat.pow_succ] at hhigh ⊢
          omega
      _ ≤ 2 ^ (8 * ((n.log2 + 1) / 8 + 1)) := Nat.pow_le_pow_right (by norm_num) (by omega)

theorem encodedSize_eq {s : Nat} (hs : 0 < s) (hlow : 2 ^ (8 * (s - 1)) ≤ 2 * n)
    (hhigh : 2 * n < 2 ^ (8 * s)) : encodedSize n = s := by
  have hpos : 0 < 2 ^ (8 * (s - 1)) := Nat.pow_pos (by norm_num)
  have hn : n ≠ 0 := by omega
  obtain ⟨hlow', hhigh'⟩ := encodedSize_bounds hn
  have hlt := (Nat.pow_lt_pow_iff_right (by norm_num)).mp (lt_of_le_of_lt hlow hhigh')
  have hlt' := (Nat.pow_lt_pow_iff_right (by norm_num)).mp (lt_of_le_of_lt hlow' hhigh)
  have hsize : 0 < encodedSize n := Nat.succ_pos _
  omega

/-- Shifting to three bytes, whichever direction that is. -/
theorem shift_eq (n s : Nat) :
    (if s ≤ 3 then n <<< (8 * (3 - s)) else n >>> (8 * (s - 3))) = n * 2 ^ 24 / 2 ^ (8 * s) := by
  have hpos : 0 < 2 ^ (8 * s) := Nat.pow_pos (by norm_num)
  split
  · have hpow : 2 ^ 24 = 2 ^ (8 * (3 - s)) * 2 ^ (8 * s) := by
      rw [← Nat.pow_add]
      congr 1
      omega
    rw [Nat.shiftLeft_eq, hpow, ← Nat.mul_assoc, Nat.mul_div_cancel _ hpos]
  · have hpow : 2 ^ (8 * s) = 2 ^ (8 * (s - 3)) * 2 ^ 24 := by
      rw [← Nat.pow_add]
      congr 1
      omega
    rw [Nat.shiftRight_eq_div_pow, hpow, Nat.mul_div_mul_right _ _ (by norm_num)]

theorem encode_zero : encode 0 = 0 := by decide

theorem encode_eq (hn : n ≠ 0) :
    encode n = n * 2 ^ 24 / 2 ^ (8 * encodedSize n) + encodedSize n * 2 ^ 24 := by
  have hlow := Nat.log2_self_le hn
  have hhigh := Nat.lt_log2_self (n := n)
  have hlength : byteLength n = (n.log2 + 8) / 8 := by
    unfold byteLength
    rw [if_neg hn]
  have hpos : 0 < 2 ^ (8 * byteLength n) := Nat.pow_pos (by norm_num)
  have hfit : n < 2 ^ (8 * byteLength n) :=
    lt_of_lt_of_le hhigh (Nat.pow_le_pow_right (by norm_num) (by omega))
  unfold encode
  dsimp only
  rw [shift_eq]
  generalize hword : n * 2 ^ 24 / 2 ^ (8 * byteLength n) = word
  have hword_lt : word < 2 ^ 24 := by
    rw [← hword, Nat.div_lt_iff_lt_mul hpos]
    nlinarith
  -- the leading bit is set exactly when the number fills its bytes
  have hsign : 2 ^ 23 ≤ word ↔ (n.log2 + 1) % 8 = 0 := by
    rw [← hword, Nat.le_div_iff_mul_le hpos]
    constructor
    · intro hle
      have hlt : 2 ^ (8 * byteLength n) < 2 ^ (n.log2 + 2) := by
        rw [Nat.pow_succ]
        omega
      have := (Nat.pow_lt_pow_iff_right (by norm_num)).mp hlt
      omega
    · intro hmod
      have hexp : 8 * byteLength n = n.log2 + 1 := by omega
      rw [hexp, Nat.pow_succ]
      omega
  split
  · rename_i hbit
    have hsize : encodedSize n = byteLength n + 1 := by
      have := hsign.mp (by omega)
      unfold encodedSize
      omega
    rw [hsize, ← hword, Nat.div_div_eq_div_mul, Nat.mul_add, Nat.pow_add]
  · rename_i hbit
    have hsize : encodedSize n = byteLength n := by
      have := mt hsign.mpr (by omega)
      unfold encodedSize
      omega
    rw [hsize, hword]

end Digits

/-! ## Canonical words -/

section Words

variable {n bits : Nat}

theorem mantissa_add (m s : Nat) (hm : m < 2 ^ 24) : mantissa (m + s * 2 ^ 24) = m := by
  unfold mantissa
  omega

theorem size_add (m s : Nat) (hm : m < 2 ^ 24) : size (m + s * 2 ^ 24) = s := by
  unfold size
  omega

theorem canonical_encode (hn : n < 2 ^ 256) : Canonical (encode n) := by
  by_cases hzero : n = 0
  · rw [hzero, encode_zero]
    exact Or.inl rfl
  refine Or.inr ?_
  obtain ⟨hlow, hhigh⟩ := encodedSize_bounds hzero
  have hpos : 0 < 2 ^ (8 * encodedSize n) := Nat.pow_pos (by norm_num)
  have hone : 0 < encodedSize n := Nat.succ_pos _
  have hpow : 2 ^ (8 * encodedSize n) = 2 ^ (8 * (encodedSize n - 1)) * 2 ^ 8 := by
    rw [← Nat.pow_add]
    congr 1
  rw [encode_eq hzero]
  generalize hm : n * 2 ^ 24 / 2 ^ (8 * encodedSize n) = m
  have hm_lt : m < 2 ^ 23 := by
    rw [← hm, Nat.div_lt_iff_lt_mul hpos]
    omega
  have hm_le : 2 ^ 15 ≤ m := by
    rw [← hm, Nat.le_div_iff_mul_le hpos]
    omega
  rw [mantissa_add m _ (by omega), size_add m _ (by omega)]
  refine ⟨hm_le, hm_lt, ?_, ?_⟩
  · intro hs
    have hsplit : 2 ^ 24 = 256 ^ (3 - encodedSize n) * 2 ^ (8 * encodedSize n) := by
      rw [show 256 = 2 ^ 8 by norm_num, ← Nat.pow_mul, ← Nat.pow_add]
      congr 1
      omega
    rw [← hm, hsplit, ← Nat.mul_assoc, Nat.mul_div_cancel _ hpos, Nat.mul_mod_left]
  · have hle : 8 * (encodedSize n - 1) < 257 := by
      refine (Nat.pow_lt_pow_iff_right (a := 2) (by norm_num)).mp ?_
      omega
    by_cases hs : encodedSize n ≤ 32
    · exact Or.inl hs
    · have hs' : encodedSize n = 33 := by omega
      refine Or.inr ⟨hs', ?_⟩
      rw [← hm, hs', Nat.div_lt_iff_lt_mul (by norm_num)]
      omega

theorem unsigned_of_canonical (h : Canonical bits) : bits / 2 ^ 23 % 2 = 0 := by
  obtain rfl | ⟨-, hlt, -⟩ := h
  · rfl
  · unfold mantissa at hlt
    omega

/-- A canonical word stands for its mantissa at its size, without a remainder. -/
theorem decode_mul_of_canonical (h : Canonical bits) :
    decode bits * 2 ^ 24 = mantissa bits * 2 ^ (8 * size bits) := by
  obtain rfl | ⟨hlow, hlt, hunits, hfits⟩ := h
  · rfl
  have hword : bits % 2 ^ 23 = mantissa bits := by
    unfold mantissa at hlt ⊢
    omega
  have hdecode : decode bits = if size bits ≤ 3 then mantissa bits >>> (8 * (3 - size bits))
      else mantissa bits <<< (8 * (size bits - 3)) % 2 ^ 256 := by
    rw [← hword]
    rfl
  generalize mantissa bits = m at *
  generalize size bits = s at *
  rw [hdecode]
  split
  · rename_i hs
    have hsplit : 2 ^ 24 = 2 ^ (8 * (3 - s)) * 2 ^ (8 * s) := by
      rw [← Nat.pow_add]
      congr 1
      omega
    have hdvd : 2 ^ (8 * (3 - s)) ∣ m := by
      by_cases hthree : s = 3
      · rw [hthree]
        exact one_dvd m
      · have hpow : 2 ^ (8 * (3 - s)) = 256 ^ (3 - s) := Nat.pow_mul 2 8 (3 - s)
        rw [hpow]
        exact Nat.dvd_of_mod_eq_zero (hunits (by omega))
    rw [Nat.shiftRight_eq_div_pow, hsplit, ← Nat.mul_assoc, Nat.div_mul_cancel hdvd]
  · rename_i hs
    have hbound : m * 2 ^ (8 * (s - 3)) < 2 ^ 256 := by
      obtain hs' | ⟨rfl, hm⟩ := hfits
      · calc m * 2 ^ (8 * (s - 3)) < 2 ^ 23 * 2 ^ (8 * (s - 3)) :=
              Nat.mul_lt_mul_of_pos_right hlt (Nat.pow_pos (by norm_num))
          _ ≤ 2 ^ 23 * 2 ^ 232 :=
              Nat.mul_le_mul_left _ (Nat.pow_le_pow_right (by norm_num) (by omega))
          _ < 2 ^ 256 := by norm_num
      · norm_num
        omega
    have hsplit : 2 ^ (8 * s) = 2 ^ (8 * (s - 3)) * 2 ^ 24 := by
      rw [← Nat.pow_add]
      congr 1
      omega
    rw [Nat.shiftLeft_eq, Nat.mod_eq_of_lt hbound, hsplit, Nat.mul_assoc]

/-- Encoding gives a canonical word back. -/
theorem encode_decode_of_canonical (h : Canonical bits) : encode (decode bits) = bits := by
  have hmul := decode_mul_of_canonical h
  obtain rfl | ⟨hlow, hlt, hunits, -⟩ := h
  · decide
  have hpos : 0 < 2 ^ (8 * size bits) := Nat.pow_pos (by norm_num)
  have hone : 0 < size bits := by
    by_contra hzero
    have hmod := hunits (by omega)
    rw [show size bits = 0 by omega] at hmod
    norm_num at hmod
    omega
  have hpow : 2 ^ (8 * size bits) = 2 ^ (8 * (size bits - 1)) * 2 ^ 8 := by
    rw [← Nat.pow_add]
    congr 1
    omega
  have hupper : mantissa bits * 2 ^ (8 * size bits) < 2 ^ 23 * 2 ^ (8 * size bits) :=
    Nat.mul_lt_mul_of_pos_right hlt hpos
  have hlower : 2 ^ 15 * 2 ^ (8 * size bits) ≤ mantissa bits * 2 ^ (8 * size bits) :=
    Nat.mul_le_mul_right _ hlow
  have hsize : encodedSize (decode bits) = size bits := encodedSize_eq hone (by omega) (by omega)
  have hne : decode bits ≠ 0 := by omega
  rw [encode_eq hne, hsize, hmul, Nat.mul_div_cancel _ hpos]
  unfold mantissa size
  omega

end Words

end Compact
