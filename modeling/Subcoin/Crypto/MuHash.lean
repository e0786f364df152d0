import Mathlib.FieldTheory.Finite.Basic
import Subcoin.Lib.Bytes

/-!
# Subcoin — MuHash

`MuHash3072` is a hash of a set: every byte string stands for a number modulo a prime, inserting one
multiplies a numerator, removing one multiplies a denominator, and only the digest divides. The
inverse is taken by exponentiation.

* **`value_run`** — what a sequence of operations leaves, as a quotient in the field.
* **`digest_eq_of_net_eq`** — the digest depends only on how often each byte string was inserted
  more than removed.
-/

namespace Subcoin.Crypto

/-- `Sha256::digest` and the key stream of the `chacha20` crate: key, nonce, position, length. -/
structure CryptoEnv where
  sha256 : List UInt8 → Hash256
  keystream : Hash256 → List UInt8 → Nat → Nat → List UInt8

def chacha20Block (env : CryptoEnv) (key : Hash256) (nonce : List UInt8) (counter : Nat) :
    List UInt8 :=
  env.keystream key nonce (counter * 64) 64

/-- `data_to_num3072`: a 3072-bit number from 6 blocks of key stream. -/
def dataToNum3072 (env : CryptoEnv) (data : Hash256) : Nat :=
  ofLeBytes ((List.range 6).flatMap fun counter =>
    chacha20Block env data (List.replicate 12 0) counter)

/-- `BigUint::to_bytes_le`: no byte beyond the leading one, and one byte for zero. -/
def toBytesLe (n : Nat) : List UInt8 :=
  if n = 0 then [0] else (Nat.digits 256 n).map UInt8.ofNat

/-- `Vec::resize` with zeros. -/
def resize (k : Nat) (l : List UInt8) : List UInt8 := l.take k ++ List.replicate (k - l.length) 0

/-- `BigUint::modpow`. -/
def modpow (base exponent modulus : Nat) : Nat := base ^ exponent % modulus

structure MuHash3072 where
  numerator : Nat
  denominator : Nat
  modulus : Nat
deriving DecidableEq

namespace MuHash3072

def new : MuHash3072 := ⟨1, 1, (1 <<< 3072) - 1103717⟩

/-- The number a byte string stands for. -/
def num3072 (env : CryptoEnv) (data : List UInt8) : Nat := dataToNum3072 env (env.sha256 data)

def insert (env : CryptoEnv) (data : List UInt8) (m : MuHash3072) : MuHash3072 :=
  { m with numerator := m.numerator * num3072 env data % m.modulus }

def remove (env : CryptoEnv) (data : List UInt8) (m : MuHash3072) : MuHash3072 :=
  { m with denominator := m.denominator * num3072 env data % m.modulus }

/-- The number that the digest hashes. -/
def value (m : MuHash3072) : Nat :=
  let denominatorInv := modpow m.denominator (m.modulus - 2) m.modulus
  m.numerator * denominatorInv % m.modulus

def digest (env : CryptoEnv) (m : MuHash3072) : List UInt8 :=
  (env.sha256 (resize 384 (toBytesLe m.value))).bytes

/-- `txoutset_muhash`: the digest in hexadecimal, last byte first. -/
def txoutsetMuhash (env : CryptoEnv) (m : MuHash3072) : String :=
  (m.digest env).reverse.foldl
    (fun output b => (output.push (b.toNat / 16).digitChar).push (b.toNat % 16).digitChar) ""

end MuHash3072

/-! ## Sequences of operations -/

inductive SetOp where
  | insert (data : List UInt8)
  | remove (data : List UInt8)
deriving DecidableEq

namespace SetOp

def apply (env : CryptoEnv) (m : MuHash3072) : SetOp → MuHash3072
  | .insert data => m.insert env data
  | .remove data => m.remove env data

def run (env : CryptoEnv) (ops : List SetOp) (m : MuHash3072) : MuHash3072 :=
  ops.foldl (apply env) m

def inserted (ops : List SetOp) : List (List UInt8) :=
  ops.filterMap fun
    | .insert data => some data
    | .remove _ => none

def removed (ops : List SetOp) : List (List UInt8) :=
  ops.filterMap fun
    | .insert _ => none
    | .remove data => some data

/-- How often a byte string was inserted more than removed. -/
def net (ops : List SetOp) (data : List UInt8) : ℤ :=
  (inserted ops).count data - (removed ops).count data

end SetOp

/-! ## Quotients of products -/

section Quotients

variable {α F : Type} [BEq α] [LawfulBEq α] [CommGroupWithZero F]

/-- A quotient of two products depends on the difference of the multiplicities only. -/
theorem prod_div_prod_eq_of_count {f : α → F} (hf : ∀ a, f a ≠ 0) {ins rem ins' rem' : List α}
    (h : ∀ a, (ins.count a : ℤ) - rem.count a = ins'.count a - rem'.count a) :
    (ins.map f).prod / (rem.map f).prod = (ins'.map f).prod / (rem'.map f).prod := by
  have hne : ∀ l : List α, (l.map f).prod ≠ 0 := by
    intro l
    refine List.prod_ne_zero fun hzero => ?_
    obtain ⟨a, -, ha⟩ := List.mem_map.mp hzero
    exact hf a ha
  have hperm : (ins ++ rem').Perm (ins' ++ rem) := by
    refine List.perm_iff_count.mpr fun a => ?_
    have ha := h a
    rw [List.count_append, List.count_append]
    omega
  rw [div_eq_div_iff (hne rem) (hne rem'), ← List.prod_append, ← List.prod_append,
    ← List.map_append, ← List.map_append]
  exact (hperm.map f).prod_eq

end Quotients

/-- The inverse by exponentiation, also modulo two. -/
theorem pow_sub_two_eq_inv {p : Nat} [Fact p.Prime] {a : ZMod p} (ha : a ≠ 0) :
    a ^ (p - 2) = a⁻¹ := by
  have hp := (Fact.out : p.Prime).two_le
  refine eq_inv_of_mul_eq_one_left ?_
  rw [← pow_succ, show p - 2 + 1 = p - 1 by omega, ZMod.pow_card_sub_one_eq_one ha]

/-! ## What a run leaves -/

section Runs

variable {env : CryptoEnv} {m : MuHash3072}

theorem modulus_run (ops : List SetOp) : (SetOp.run env ops m).modulus = m.modulus := by
  induction ops generalizing m with
  | nil => rfl
  | cons op ops ih =>
    show (SetOp.run env ops (op.apply env m)).modulus = m.modulus
    rw [ih]
    cases op with
    | insert data => rfl
    | remove data => rfl

variable (env) in
/-- The product of the numbers that byte strings stand for. -/
def product (p : Nat) (l : List (List UInt8)) : ZMod p :=
  (l.map fun data => (MuHash3072.num3072 env data : ZMod p)).prod

theorem numerator_run {p : Nat} (hm : m.modulus = p) (ops : List SetOp) :
    ((SetOp.run env ops m).numerator : ZMod p) =
      m.numerator * product env p (SetOp.inserted ops) := by
  induction ops generalizing m with
  | nil => exact (mul_one _).symm
  | cons op ops ih =>
    cases op with
    | insert data =>
      have hstep : ((m.insert env data).numerator : ZMod p) =
          m.numerator * MuHash3072.num3072 env data := by
        show ((m.numerator * MuHash3072.num3072 env data % m.modulus : Nat) : ZMod p) = _
        rw [hm, ZMod.natCast_mod, Nat.cast_mul]
      show ((SetOp.run env ops (m.insert env data)).numerator : ZMod p) =
        m.numerator * product env p (data :: SetOp.inserted ops)
      rw [ih (m := m.insert env data) hm, hstep, product, product, List.map_cons, List.prod_cons,
        mul_assoc]
    | remove data => exact ih (m := m.remove env data) hm

theorem denominator_run {p : Nat} (hm : m.modulus = p) (ops : List SetOp) :
    ((SetOp.run env ops m).denominator : ZMod p) =
      m.denominator * product env p (SetOp.removed ops) := by
  induction ops generalizing m with
  | nil => exact (mul_one _).symm
  | cons op ops ih =>
    cases op with
    | insert data => exact ih (m := m.insert env data) hm
    | remove data =>
      have hstep : ((m.remove env data).denominator : ZMod p) =
          m.denominator * MuHash3072.num3072 env data := by
        show ((m.denominator * MuHash3072.num3072 env data % m.modulus : Nat) : ZMod p) = _
        rw [hm, ZMod.natCast_mod, Nat.cast_mul]
      show ((SetOp.run env ops (m.remove env data)).denominator : ZMod p) =
        m.denominator * product env p (data :: SetOp.removed ops)
      rw [ih (m := m.remove env data) hm, hstep, product, product, List.map_cons, List.prod_cons,
        mul_assoc]

/-- What a run leaves, as a quotient in the field. -/
theorem value_run {p : Nat} [Fact p.Prime] (hm : m.modulus = p)
    (hnonzero : ∀ data, (MuHash3072.num3072 env data : ZMod p) ≠ 0) (ops : List SetOp) :
    ((SetOp.run env ops m).value : ZMod p) = m.numerator * m.denominator ^ (p - 2) *
      (product env p (SetOp.inserted ops) / product env p (SetOp.removed ops)) := by
  have hremoved : product env p (SetOp.removed ops) ≠ 0 := by
    refine List.prod_ne_zero fun hzero => ?_
    obtain ⟨data, -, hdata⟩ := List.mem_map.mp hzero
    exact hnonzero data hdata
  unfold MuHash3072.value modpow
  rw [modulus_run, hm, ZMod.natCast_mod, Nat.cast_mul, ZMod.natCast_mod, Nat.cast_pow,
    numerator_run hm, denominator_run hm, mul_pow, pow_sub_two_eq_inv hremoved, div_eq_mul_inv]
  ring

theorem value_eq_of_net_eq (hprime : m.modulus.Prime)
    (hnonzero : ∀ data, MuHash3072.num3072 env data % m.modulus ≠ 0) {ops ops' : List SetOp}
    (hnet : ∀ data, SetOp.net ops data = SetOp.net ops' data) :
    (SetOp.run env ops m).value = (SetOp.run env ops' m).value := by
  have : Fact m.modulus.Prime := ⟨hprime⟩
  have hcast : ∀ data, (MuHash3072.num3072 env data : ZMod m.modulus) ≠ 0 := by
    intro data hzero
    exact hnonzero data (Nat.mod_eq_zero_of_dvd ((ZMod.natCast_eq_zero_iff _ _).mp hzero))
  have hvalue : ((SetOp.run env ops m).value : ZMod m.modulus) = (SetOp.run env ops' m).value := by
    rw [value_run rfl hcast, value_run rfl hcast]
    congr 1
    exact prod_div_prod_eq_of_count hcast hnet
  -- both values are reduced
  have hlt : ∀ ops : List SetOp, (SetOp.run env ops m).value < m.modulus := by
    intro ops
    have hmod := Nat.mod_lt ((SetOp.run env ops m).numerator * modpow
      (SetOp.run env ops m).denominator (m.modulus - 2) m.modulus) hprime.pos
    unfold MuHash3072.value
    rw [modulus_run]
    exact hmod
  have hmod := (ZMod.natCast_eq_natCast_iff' _ _ _).mp hvalue
  rwa [Nat.mod_eq_of_lt (hlt ops), Nat.mod_eq_of_lt (hlt ops')] at hmod

end Runs

/-- **The hash depends on the set only.** From any hash with a prime modulus to which every byte
string is coprime, two sequences of operations that insert every byte string equally often, net of
removals, lead to the same digest. -/
theorem digest_eq_of_net_eq (env : CryptoEnv) (m : MuHash3072) (hprime : m.modulus.Prime)
    (hnonzero : ∀ data, MuHash3072.num3072 env data % m.modulus ≠ 0) (ops ops' : List SetOp)
    (hnet : ∀ data, SetOp.net ops data = SetOp.net ops' data) :
    (SetOp.run env ops m).digest env = (SetOp.run env ops' m).digest env ∧
      (SetOp.run env ops m).txoutsetMuhash env = (SetOp.run env ops' m).txoutsetMuhash env := by
  have hdigest : (SetOp.run env ops m).digest env = (SetOp.run env ops' m).digest env := by
    unfold MuHash3072.digest
    rw [value_eq_of_net_eq hprime hnonzero hnet]
  refine ⟨hdigest, ?_⟩
  unfold MuHash3072.txoutsetMuhash
  rw [hdigest]

namespace Sample

/-- A hash that keeps the first byte, and a key stream that starts with a number from 1 to 6. -/
def env : CryptoEnv where
  sha256 l := Hash256.ofNat (l.headD 0).toNat
  keystream key _ position _ :=
    if position = 0 then UInt8.ofNat ((key.bytes.headD 0).toNat % 6 + 1) :: List.replicate 63 0
    else List.replicate 64 0

theorem num3072_env (data : List UInt8) :
    MuHash3072.num3072 env data = (data.headD 0).toNat % 6 + 1 := by
  have hzeros : ∀ l : List UInt8, (∀ b ∈ l, b = 0) → ofLeBytes l = 0 := by
    intro l hl
    induction l with
    | nil => rfl
    | cons b l ih =>
      rw [ofLeBytes, ih fun b hb => hl b (List.mem_cons_of_mem _ hb), hl b List.mem_cons_self]
      rfl
  let key := env.sha256 data
  have hkey : key.bytes.headD 0 = data.headD 0 := UInt8.ofNat_toNat
  -- only the first byte of the stream is not zero
  have hstream : MuHash3072.num3072 env data =
      ofLeBytes (UInt8.ofNat ((key.bytes.headD 0).toNat % 6 + 1) :: (List.replicate 63 0 ++
        (List.range' 1 5).flatMap fun counter =>
          chacha20Block env key (List.replicate 12 0) counter)) := rfl
  rw [hstream, ofLeBytes, hzeros, hkey, UInt8.toNat_ofNat']
  · omega
  · intro b hb
    obtain hb | hb := List.mem_append.mp hb
    · exact List.eq_of_mem_replicate hb
    · obtain ⟨counter, hcounter, hb⟩ := List.mem_flatMap.mp hb
      have hpos : counter * 64 ≠ 0 := by
        have := List.mem_range'_1.mp hcounter
        omega
      have hblock : chacha20Block env key (List.replicate 12 0) counter = List.replicate 64 0 :=
        if_neg hpos
      exact List.eq_of_mem_replicate (hblock ▸ hb)

end Sample

/-- Inserting in another order, with a pair that cancels out. -/
theorem digest_eq_of_net_eq_sample :
    (SetOp.run Sample.env [.insert [1], .insert [2], .remove [3], .insert [3]] ⟨1, 1, 7⟩).digest
        Sample.env =
      (SetOp.run Sample.env [.insert [2], .insert [1]] ⟨1, 1, 7⟩).digest Sample.env := by
  refine (digest_eq_of_net_eq Sample.env ⟨1, 1, 7⟩ (by norm_num) (fun data => ?_) _ _
    fun data => ?_).1
  · show MuHash3072.num3072 Sample.env data % 7 ≠ 0
    rw [Sample.num3072_env]
    omega
  · show (([[1], [2], [3]] : List (List UInt8)).count data : ℤ) - ([[3]] : List (List UInt8)).count
      data = ([[2], [1]] : List (List UInt8)).count data - ([] : List (List UInt8)).count data
    simp only [List.count_cons, List.count_nil]
    omega

end Subcoin.Crypto
