import Subcoin.Script.Questions

/-!
# Subcoin — strict DER signatures

What `is_valid_signature_encoding` accepts is the grammar of BIP66: a sequence of two integers and
the hash type, with every length in its place. The code reads the two lengths from the signature
before it knows that they fit; `layout` is any signature cut at the lengths it names, and on it each
check says one thing about one part (`isValid_layout`).

* **`strictDer`** — the signatures that are accepted, and what is known of S under `LOW_S`.
-/

namespace Subcoin.Script

open Outcome

/-! ## The grammar -/

/-- A DER integer that is not negative and as short as can be. -/
structure IsDerInteger (l : List UInt8) : Prop where
  ne_nil : l ≠ []
  nonneg : ∀ first ∈ l.head?, signBit first = false
  minimal : ∀ second rest, l = 0 :: second :: rest → signBit second = true

def derSignature (r s : List UInt8) (hashtype : UInt8) : List UInt8 :=
  [0x30, UInt8.ofNat (r.length + s.length + 4), 0x02, UInt8.ofNat r.length] ++ r ++
    [0x02, UInt8.ofNat s.length] ++ s ++ [hashtype]

/-- A signature of the integers `r` and `s`. -/
def IsStrictDer (sig r s : List UInt8) : Prop :=
  (∃ hashtype, sig = derSignature r s hashtype) ∧ IsDerInteger r ∧ IsDerInteger s ∧
    9 ≤ sig.length ∧ sig.length ≤ 73

/-! ## Signatures cut at their lengths -/

/-- A signature whose integers are `r` and `s`, with any bytes around them. -/
def layout (id len idR lenR : UInt8) (r : List UInt8) (idS lenS : UInt8) (s : List UInt8)
    (hashtype : UInt8) : List UInt8 :=
  id :: len :: idR :: lenR :: (r ++ idS :: lenS :: (s ++ [hashtype]))

section

variable {ε : Type} {id len idR lenR idS lenS hashtype : UInt8} {r s sig l : List UInt8}

theorem length_layout :
    (layout id len idR lenR r idS lenS s hashtype).length = r.length + s.length + 7 := by
  simp only [layout, List.length_cons, List.length_append, List.length_nil]
  omega

theorem exists_layout {n k : Nat} (h : n + k + 7 = sig.length) :
    ∃ id len idR lenR r idS lenS s hashtype, r.length = n ∧ s.length = k ∧
      sig = layout id len idR lenR r idS lenS s hashtype := by
  have hcons : ∀ {l : List UInt8} {m : Nat}, m + 1 = l.length →
      ∃ a l', l = a :: l' ∧ m = l'.length := by
    intro l m hl
    obtain ⟨a, l', rfl⟩ := List.exists_cons_of_length_pos (show 0 < l.length by omega)
    exact ⟨a, l', rfl, Nat.succ.inj hl⟩
  obtain ⟨id, l1, rfl, h1⟩ := hcons h
  obtain ⟨len, l2, rfl, h2⟩ := hcons h1
  obtain ⟨idR, l3, rfl, h3⟩ := hcons h2
  obtain ⟨lenR, l4, rfl, h4⟩ := hcons h3
  have htail : k + 1 + 1 + 1 = (l4.drop n).length := by
    rw [List.length_drop]
    omega
  obtain ⟨idS, l5, hdrop, h5⟩ := hcons htail
  obtain ⟨lenS, l6, rfl, h6⟩ := hcons h5
  obtain ⟨hashtype, hlast⟩ : ∃ hashtype, l6.drop k = [hashtype] := by
    refine List.length_eq_one_iff.mp ?_
    rw [List.length_drop]
    omega
  refine ⟨id, len, idR, lenR, l4.take n, idS, lenS, l6.take k, hashtype, ?_, ?_, ?_⟩
  · rw [List.length_take]
    omega
  · rw [List.length_take]
    omega
  · rw [layout, ← hlast, List.take_append_drop, ← hdrop, List.take_append_drop]

/-- What stands where in a signature of this layout. -/
structure Cut (sig : List UInt8) (id len idR lenR : UInt8) (r : List UInt8) (idS lenS : UInt8)
    (s : List UInt8) : Prop where
  length : sig.length = r.length + s.length + 7
  at_id : sig[0]? = some id
  at_len : sig[1]? = some len
  at_idR : sig[2]? = some idR
  at_lenR : sig[3]? = some lenR
  at_r : ∀ i < r.length, sig[4 + i]? = r[i]?
  at_idS : sig[r.length + 4]? = some idS
  at_lenS : sig[5 + r.length]? = some lenS
  at_s : ∀ i < s.length, sig[r.length + 6 + i]? = s[i]?

theorem cut_layout :
    Cut (layout id len idR lenR r idS lenS s hashtype) id len idR lenR r idS lenS s := by
  have htail : ∀ i, (layout id len idR lenR r idS lenS s hashtype)[r.length + i + 4]? =
      (idS :: lenS :: (s ++ [hashtype]))[i]? := fun i =>
    (List.getElem?_append_right (Nat.le_add_right _ _)).trans (by rw [Nat.add_sub_cancel_left])
  refine ⟨length_layout, rfl, rfl, rfl, rfl, fun i hi => ?_, htail 0, ?_, fun i hi => ?_⟩
  · rw [Nat.add_comm]
    exact List.getElem?_append_left hi
  · rw [show 5 + r.length = r.length + 1 + 4 by omega]
    exact htail 1
  · rw [show r.length + 6 + i = r.length + (i + 2) + 4 by omega, htail]
    exact List.getElem?_append_left hi

theorem byteAt_eq_ok {i : Nat} {b : UInt8} :
    byteAt sig i = (.ok b : Outcome ε UInt8) ↔ sig[i]? = some b := by
  rw [byteAt]
  cases sig[i]? with
  | none => simp [expect]
  | some b' => simp [expect]

/-- The padding is that of the integer. -/
theorem tooMuchPadding_eq {offset : Nat} (h : ∀ i < l.length, sig[offset + i]? = l[i]?) :
    ∃ padded, (tooMuchPadding sig offset l.length : Outcome ε Bool) = .ok padded ∧
      (padded = false ↔ ∀ second rest, l = 0 :: second :: rest → signBit second = true) := by
  obtain _ | ⟨first, _ | ⟨second, rest⟩⟩ := l
  · exact ⟨false, rfl, by simp⟩
  · exact ⟨false, rfl, by simp⟩
  · have hfirst : (byteAt sig offset : Outcome ε UInt8) = .ok first :=
      byteAt_eq_ok.mpr (h 0 (Nat.succ_pos _))
    have hsecond : (byteAt sig (offset + 1) : Outcome ε UInt8) = .ok second :=
      byteAt_eq_ok.mpr (h 1 (Nat.succ_lt_succ (Nat.succ_pos _)))
    have hlen : 1 < (first :: second :: rest).length := Nat.succ_lt_succ (Nat.succ_pos _)
    rw [tooMuchPadding, if_pos hlen, hfirst]
    by_cases hzero : first = 0
    · refine ⟨!signBit second, ?_, by simp [hzero]⟩
      change (if first = 0 then _ else _ : Outcome ε Bool) = _
      rw [if_pos hzero, hsecond]
      rfl
    · refine ⟨false, ?_, by simp [hzero]⟩
      change (if first = 0 then _ else _ : Outcome ε Bool) = _
      rw [if_neg hzero]
      rfl

/-- The checks of one integer: that there is one, its first byte, and its padding. -/
theorem checkInteger_iff {offset : Nat} {length : UInt8} {P : Prop}
    (hlength : length.toNat = l.length) (h : ∀ i < l.length, sig[offset + i]? = l[i]?) :
    (¬ length = 0 ∧ ∃ first, byteAt sig offset = (.ok first : Outcome ε UInt8) ∧
      signBit first = false ∧ ∃ padded,
        tooMuchPadding sig offset l.length = (.ok padded : Outcome ε Bool) ∧ padded = false ∧ P) ↔
      IsDerInteger l ∧ P := by
  have hzero : ¬ length = 0 ↔ l ≠ [] := by
    rw [← UInt8.toNat_inj, hlength, UInt8.toNat_zero, List.length_eq_zero_iff]
  rw [hzero]
  obtain ⟨padded, hpadded, hmin⟩ : ∃ padded, (tooMuchPadding sig offset l.length :
    Outcome ε Bool) = .ok padded ∧ _ := tooMuchPadding_eq h
  constructor
  · rintro ⟨hne, first, hfirst, hsign, padded', hpadded', hnot, hP⟩
    cases hpadded.symm.trans hpadded'
    refine ⟨⟨hne, fun b hb => ?_, hmin.mp hnot⟩, hP⟩
    have hhead : l[0]? = some b := List.head?_eq_getElem? ▸ hb
    have hbyte : (byteAt sig offset : Outcome ε UInt8) = .ok b :=
      byteAt_eq_ok.mpr ((h 0 (List.length_pos_iff.mpr hne)).trans hhead)
    cases hbyte.symm.trans hfirst
    exact hsign
  · rintro ⟨hl, hP⟩
    obtain ⟨first, rest, rfl⟩ := List.exists_cons_of_ne_nil hl.ne_nil
    exact ⟨hl.ne_nil, first, byteAt_eq_ok.mpr (h 0 (Nat.succ_pos _)), hl.nonneg first rfl,
      padded, hpadded, hmin.mpr hl.minimal, hP⟩

/-- Each check of the code, on a signature that is cut where its lengths say. -/
theorem isValid_of_cut {e : EncodedS} (h : Cut sig id len idR lenR r idS lenS s)
    (hr : lenR.toNat = r.length) (hs : lenS.toNat = s.length) :
    isValidSignatureEncoding sig = .ok e ↔
      9 ≤ sig.length ∧ sig.length ≤ 73 ∧ id = 0x30 ∧ len.toNat = r.length + s.length + 4 ∧
        idR = 0x02 ∧ IsDerInteger r ∧ idS = 0x02 ∧ IsDerInteger s ∧
        e = ⟨r.length + 6, s.length⟩ := by
  have hbyte : ∀ {i b}, sig[i]? = some b →
      (byteAt sig i : Outcome SignatureEncodingError UInt8) = .ok b := byteAt_eq_ok.mpr
  have htotal : sig.length - 3 = r.length + s.length + 4 := by rw [h.length]; omega
  simp only [isValidSignatureEncoding, hr, hs, hbyte h.at_id, hbyte h.at_len, hbyte h.at_idR,
    hbyte h.at_lenR, hbyte h.at_idS, hbyte h.at_lenS, bind_eq_ok, errIf_eq_ok, Outcome.ok.injEq,
    exists_eq_left', exists_const, decide_eq_false_iff_not, not_not, ne_eq]
  rw [checkInteger_iff hs h.at_s, checkInteger_iff hr h.at_r, h.length]
  constructor
  · rintro ⟨hshort, hlong, hid, hlen, -, -, hidR, hintR, hidS, hintS, he⟩
    exact ⟨by omega, by omega, hid, by omega, hidR, hintR, hidS, hintS, (Outcome.ok.inj he).symm⟩
  · rintro ⟨hshort, hlong, hid, hlen, hidR, hintR, hidS, hintS, rfl⟩
    exact ⟨by omega, by omega, hid, by omega, by omega, rfl, hidR, hintR, hidS, hintS, rfl⟩

theorem derSignature_eq {r s : List UInt8} {hashtype : UInt8} : derSignature r s hashtype =
    layout 0x30 (UInt8.ofNat (r.length + s.length + 4)) 0x02 (UInt8.ofNat r.length) r 0x02
      (UInt8.ofNat s.length) s hashtype := by
  simp [derSignature, layout]

/-- What is accepted is the grammar. -/
theorem isValidSignatureEncoding_iff {e : EncodedS} :
    isValidSignatureEncoding sig = .ok e ↔
      ∃ r s, IsStrictDer sig r s ∧ e = ⟨r.length + 6, s.length⟩ := by
  constructor
  · intro hok
    obtain ⟨lenR, lenS, hlenR, hlenS, htotal⟩ : ∃ lenR lenS, sig[3]? = some lenR ∧
        sig[5 + lenR.toNat]? = some lenS ∧ lenR.toNat + lenS.toNat + 7 = sig.length := by
      simp only [isValidSignatureEncoding, bind_eq_ok, errIf_eq_ok] at hok
      obtain ⟨_, _, _, _, _, _, _, _, _, _, _, _, lenR, hlenR, _, _, lenS, hlenS, _, hsum, _⟩ := hok
      exact ⟨lenR, lenS, byteAt_eq_ok.mp hlenR, byteAt_eq_ok.mp hlenS, by simpa using hsum⟩
    obtain ⟨id, len, idR, lenR', r, idS, lenS', s, hashtype, hr, hs, rfl⟩ := exists_layout htotal
    have hcut := @cut_layout id len idR lenR' idS lenS' hashtype r s
    obtain rfl := Option.some.inj (hlenR.symm.trans hcut.at_lenR)
    rw [← hr] at hlenS
    obtain rfl := Option.some.inj (hlenS.symm.trans hcut.at_lenS)
    obtain ⟨hshort, hlong, rfl, hlen, rfl, hintR, rfl, hintS, he⟩ :=
      (isValid_of_cut hcut hr.symm hs.symm).mp hok
    refine ⟨r, s, ⟨⟨hashtype, ?_⟩, hintR, hintS, hshort, hlong⟩, he⟩
    rw [derSignature_eq, ← hlen, hr, hs, UInt8.ofNat_toNat, UInt8.ofNat_toNat, UInt8.ofNat_toNat]
  · rintro ⟨r, s, ⟨⟨hashtype, rfl⟩, hr, hs, hshort, hlong⟩, rfl⟩
    rw [derSignature_eq] at hshort hlong ⊢
    have hbound := hlong
    rw [length_layout] at hbound
    refine (isValid_of_cut cut_layout ?_ ?_).mpr ⟨hshort, hlong, rfl, ?_, rfl, hr, rfl, hs, rfl⟩
    · exact UInt8.toNat_ofNat_of_lt (show _ < 256 by omega)
    · exact UInt8.toNat_ofNat_of_lt (show _ < 256 by omega)
    · exact UInt8.toNat_ofNat_of_lt (show _ < 256 by omega)

/-! ## Low S -/

/-- The order of the group of secp256k1. -/
def groupOrder : Nat := 0xFFFFFFFFFFFFFFFFFFFFFFFFFFFFFFFEBAAEDCE6AF48A03BBFD25E8CD0364141

theorem sliceRange_derSignature :
    sliceRange (derSignature r s hashtype) (r.length + 6) (r.length + 6 + s.length) =
      (.ok s : Outcome ε (List UInt8)) := by
  have hsplit : derSignature r s hashtype =
      ([0x30, UInt8.ofNat (r.length + s.length + 4), 0x02, UInt8.ofNat r.length] ++ r ++
        [0x02, UInt8.ofNat s.length]) ++ (s ++ [hashtype]) := List.append_assoc ..
  have hbefore : ([0x30, UInt8.ofNat (r.length + s.length + 4), 0x02, UInt8.ofNat r.length] ++ r ++
      [0x02, UInt8.ofNat s.length]).length = r.length + 6 := by
    simp only [List.length_append, List.length_cons, List.length_nil]
    omega
  rw [sliceRange_of_le (Nat.le_add_right _ _), Nat.add_sub_cancel_left, hsplit,
    List.drop_left' hbefore, List.take_left]
  rw [derSignature_eq, length_layout]
  omega

theorem lowS_of_checkSignatureEncoding {flags : VerifyFlags} (hne : sig ≠ [])
    (hflag : flags.has .lowS = true) (h : checkSignatureEncoding flags sig = .ok ()) :
    ∃ r s, IsStrictDer sig r s ∧ 2 * ofLeBytes s.reverse ≤ groupOrder := by
  have hnonempty : ¬ sig.isEmpty = true := by simpa using hne
  rw [checkSignatureEncoding, if_neg hnonempty] at h
  simp only [bind_eq_ok, checkLowS, hflag, if_true, isLowDerSignature, mapErr_eq_ok] at h
  obtain ⟨_, _, _, ⟨e, he, bytes, hbytes, hlow⟩, _⟩ := h
  obtain ⟨r, s, hder, rfl⟩ := isValidSignatureEncoding_iff.mp he
  obtain ⟨⟨hashtype, rfl⟩, -⟩ := id hder
  have hs : s = bytes := Outcome.ok.inj (sliceRange_derSignature.symm.trans hbytes)
  rw [← hs, errIf_eq_ok, decide_eq_false_iff_not] at hlow
  have hle : ofLeBytes s.reverse ≤ groupOrder / 2 := Nat.not_lt.mp hlow
  exact ⟨r, s, hder, by omega⟩

end

/-- For every byte string: no read is out of bounds, what is accepted is strict DER and the answer
is where S stands; under `LOW_S` a signature that passes has an S of at most half the order. -/
theorem strictDer (sig : List UInt8) :
    (isValidSignatureEncoding sig).isPanic = false ∧
      (∀ e, isValidSignatureEncoding sig = .ok e ↔
        ∃ r s, IsStrictDer sig r s ∧ e = ⟨r.length + 6, s.length⟩) ∧
      (sig ≠ [] → ∀ flags : VerifyFlags, flags.has .lowS = true →
        checkSignatureEncoding flags sig = .ok () →
        ∃ r s, IsStrictDer sig r s ∧ 2 * ofLeBytes s.reverse ≤ groupOrder) :=
  ⟨(safe_isValidSignatureEncoding sig).isPanic, fun _ => isValidSignatureEncoding_iff,
    fun hne _ => lowS_of_checkSignatureEncoding hne⟩

/-- The shortest signature there is. -/
theorem strictDer_shortest :
    checkSignatureEncoding (.ofList [.lowS]) (derSignature [1] [1] 1) = .ok () ∧
      ∃ r s, IsStrictDer (derSignature [1] [1] 1) r s ∧ 2 * ofLeBytes s.reverse ≤ groupOrder := by
  have hok : checkSignatureEncoding (.ofList [.lowS]) (derSignature [1] [1] 1) = .ok () := by
    decide +kernel
  exact ⟨hok, (strictDer _).2.2 (by decide) _ (by decide) hok⟩

end Subcoin.Script
