import Subcoin.Lib.Bytes

/-!
# Byte codecs

A `Codec α` writes values of `α` as bytes and reads them back from the front of a byte string. The
law it carries says that a reader stops exactly where the writer did, so codecs compose: products,
sums, lists and representations of one type in another need no proof about bytes of their own.
-/

/-- A writer, a reader, and the law that ties them. -/
structure Codec (α : Type) where
  encode : α → List UInt8
  decode : List UInt8 → Option (α × List UInt8)
  decode_encode : ∀ a tail, decode (encode a ++ tail) = some (a, tail)

namespace Codec

variable {α β : Type}

theorem decode_encode_self (c : Codec α) (a : α) : c.decode (c.encode a) = some (a, []) := by
  simpa using c.decode_encode a []

/-! ## Integers -/

/-- Groups of seven bits, least significant first; every group but the last has its high bit
set. -/
def natBytes : Nat → Nat → List UInt8
  | 0, n => [UInt8.ofNat n]
  | fuel + 1, n =>
    if n < 128 then [UInt8.ofNat n]
    else UInt8.ofNat (n % 128 + 128) :: natBytes fuel (n / 128)

def ofNatBytes : List UInt8 → Option (Nat × List UInt8)
  | [] => none
  | b :: l =>
    if b.toNat < 128 then some (b.toNat, l)
    else (ofNatBytes l).map fun (n, tail) => (b.toNat % 128 + 128 * n, tail)

theorem ofNatBytes_natBytes {fuel n : Nat} (hn : n ≤ fuel) (tail : List UInt8) :
    ofNatBytes (natBytes fuel n ++ tail) = some (n, tail) := by
  induction fuel generalizing n with
  | zero =>
    have hzero : n = 0 := by omega
    subst hzero
    rfl
  | succ fuel ih =>
    rw [natBytes]
    split
    · rename_i hlt
      have hbyte : (UInt8.ofNat n).toNat = n := by
        simp only [UInt8.toNat_ofNat']
        omega
      simp [ofNatBytes, hbyte, hlt]
    · -- the continuation bit is what tells this byte from a last one when it is read back
      have hbyte : (UInt8.ofNat (n % 128 + 128)).toNat = n % 128 + 128 := by
        simp only [UInt8.toNat_ofNat']
        omega
      have hrest := ih (show n / 128 ≤ fuel by omega)
      rw [List.cons_append, ofNatBytes, hbyte, if_neg (by omega), hrest]
      simp only [Option.map_some, Option.some.injEq, Prod.mk.injEq, and_true]
      omega

def nat : Codec Nat where
  encode n := natBytes n n
  decode := ofNatBytes
  decode_encode _ tail := ofNatBytes_natBytes le_rfl tail

def word32 : Codec UInt32 where
  encode x := leBytes 4 x.toNat
  decode l :=
    if 4 ≤ l.length then some (UInt32.ofNat (ofLeBytes (l.take 4)), l.drop 4) else none
  decode_encode x tail := by
    have hlen : 4 ≤ (leBytes 4 x.toNat ++ tail).length := by simp
    have hval : UInt32.ofNat (ofLeBytes (leBytes 4 x.toNat)) = x := by
      have hmod : x.toNat % 256 ^ 4 = x.toNat := Nat.mod_eq_of_lt x.toNat_lt
      rw [ofLeBytes_leBytes, hmod, UInt32.ofNat_toNat]
    rw [if_pos hlen, List.take_left' (by simp), List.drop_left' (by simp), hval]

def hash256 : Codec Hash256 where
  encode h := h.bytes
  decode l := (Hash256.fromSlice (l.take 32)).map fun h => (h, l.drop 32)
  decode_encode h tail := by
    rw [List.take_left' h.length_eq, List.drop_left' h.length_eq, Hash256.fromSlice_bytes]
    rfl

def byte : Codec UInt8 where
  encode b := [b]
  decode
    | [] => none
    | b :: l => some (b, l)
  decode_encode _ _ := rfl

/-! ## Composition -/

def prod (c : Codec α) (d : Codec β) : Codec (α × β) where
  encode p := c.encode p.1 ++ d.encode p.2
  decode l := (c.decode l).bind fun (a, l) => (d.decode l).map fun (b, tail) => ((a, b), tail)
  decode_encode p tail := by
    simp [c.decode_encode, d.decode_encode]

def sum (c : Codec α) (d : Codec β) : Codec (α ⊕ β) where
  encode
    | .inl a => 0 :: c.encode a
    | .inr b => 1 :: d.encode b
  decode
    | [] => none
    | tag :: l =>
      if tag = 0 then (c.decode l).map fun (a, tail) => (.inl a, tail)
      else (d.decode l).map fun (b, tail) => (.inr b, tail)
  decode_encode x tail := by
    cases x with
    | inl a => simp [c.decode_encode]
    | inr b => simp [d.decode_encode]

/-- A type represented in another: `pack` undoes `unpack`. -/
def map (c : Codec α) (pack : α → β) (unpack : β → α) (h : ∀ b, pack (unpack b) = b) :
    Codec β where
  encode b := c.encode (unpack b)
  decode l := (c.decode l).map fun (a, tail) => (pack a, tail)
  decode_encode b tail := by simp [c.decode_encode, h]

def decodeMany (c : Codec α) : Nat → List UInt8 → Option (List α × List UInt8)
  | 0, l => some ([], l)
  | k + 1, l =>
    (c.decode l).bind fun (a, l) => (decodeMany c k l).map fun (as, tail) => (a :: as, tail)

theorem decodeMany_flatMap (c : Codec α) (as : List α) (tail : List UInt8) :
    c.decodeMany as.length (as.flatMap c.encode ++ tail) = some (as, tail) := by
  induction as with
  | nil => rfl
  | cons a as ih =>
    rw [List.length_cons, decodeMany, List.flatMap_cons, List.append_assoc, c.decode_encode]
    simp [ih]

def list (c : Codec α) : Codec (List α) where
  encode as := nat.encode as.length ++ as.flatMap c.encode
  decode l := (nat.decode l).bind fun (k, l) => c.decodeMany k l
  decode_encode as tail := by
    simp [List.append_assoc, nat.decode_encode, decodeMany_flatMap]

end Codec
