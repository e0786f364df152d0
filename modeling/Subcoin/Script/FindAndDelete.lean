import Subcoin.Lib.Positions
import Subcoin.Script.Layout
import Subcoin.Script.Sig

/-!
# Subcoin — deleting signatures from the script code

The consensus rule deletes a signature from the script code of a pre-segwit check where the push of
it is an instruction of the script code. `find_and_delete` knows nothing of instructions: it deletes
a sequence of bytes wherever a scan over the bytes comes to it. `OP_CHECKSIG` gives it the signature
itself, `OP_CHECKMULTISIG` the push of it.

* **`findAndDelete_eq`** — what the scan removes, as ranges of positions, and how many.
* **`evalChecksigPreTapscript_base`**, **`dropSignatures_base`** — the two opcodes over them.
* **`findAndDelete_iff`** — for `OP_CHECKSIG` the ranges are those of the rule exactly when there is
  nothing to delete for either; for `OP_CHECKMULTISIG` exactly when, for each signature in turn,
  every occurrence of the push outside those of the rule starts inside one of them.
* **`signature_deleted_from_data`** — two script codes for which they differ.
-/

namespace Subcoin.Script

/-- The script without the bytes in the ranges, which are given by start and length. -/
def deleteRanges (script : List UInt8) (ranges : List (Nat × Nat)) : List UInt8 :=
  script.keepAt (fun i => ranges.all fun r => !(r.1 ≤ i && i < r.1 + r.2)) 0

/-- What `find_and_delete` removes. -/
def scannedRanges (script pattern : List UInt8) : List (Nat × Nat) :=
  if pattern.isEmpty then []
  else (List.scan pattern script).map fun p => (p, pattern.length)

/-- The positions at which an instruction starts with the pattern. -/
def boundaryPlaces (script pattern : List UInt8) : List Nat :=
  ((instructionIndices false script).items.filter fun item =>
    pattern.isPrefixOf (script.drop item.1)).map Prod.fst

/-- What the rule removes for a signature: its pushes at instruction boundaries. -/
def boundaryRanges (script sig : List UInt8) : List (Nat × Nat) :=
  (boundaryPlaces script (pushSlice sig)).map fun p => (p, (pushSlice sig).length)

section Deletion

variable {script pattern sig l : List UInt8}

/-! ## The scan -/

/-- Position `i` is neither skipped nor in an occurrence at one of the places. -/
def isKept (pattern : List UInt8) (stop : Nat) (places : List Nat) (i : Nat) : Bool :=
  stop ≤ i && places.all fun p => !(p ≤ i && i < p + pattern.length)

theorem isKept_cons {stop p i : Nat} {places : List Nat} : isKept pattern stop (p :: places) i =
    (!(p ≤ i && i < p + pattern.length) && isKept pattern stop places i) := by
  unfold isKept
  rw [List.all_cons, Bool.and_left_comm]

theorem isKept_of_lt {stop i : Nat} {places : List Nat} (h : i < stop) :
    isKept pattern stop places i = false := by
  simp [isKept, h]

theorem deleteFrom_eq (hne : pattern ≠ []) {pos skip : Nat} :
    deleteFrom pattern skip l =
      (l.keepAt (isKept pattern (pos + skip) (List.scanFrom pattern pos skip l)) pos,
        (List.scanFrom pattern pos skip l).length) := by
  have hlen : 0 < pattern.length := List.length_pos_iff.mpr hne
  induction l generalizing pos skip with
  | nil =>
    cases skip with
    | zero => rfl
    | succ skip => rfl
  | cons byte l ih =>
    rw [List.keepAt_cons]
    cases skip with
    | succ skip =>
      rw [deleteFrom, List.scanFrom, @ih (pos + 1) skip, isKept_of_lt (by omega),
        Nat.add_right_comm pos 1 skip]
      rfl
    | zero =>
      rw [deleteFrom, List.scanFrom]
      split
      · -- a match: it is dropped together with the bytes it covers
        have hkept : ∀ i, pos + 1 ≤ i →
            isKept pattern (pos + 1 + (pattern.length - 1))
              (List.scanFrom pattern (pos + 1) (pattern.length - 1) l) i =
            isKept pattern (pos + 0)
              (pos :: List.scanFrom pattern (pos + 1) (pattern.length - 1) l) i := by
          intro i hi
          rw [isKept_cons]
          unfold isKept
          rw [← Bool.and_assoc]
          congr 1
          rw [Bool.eq_iff_iff]
          simp only [Bool.and_eq_true, Bool.not_eq_true', Bool.and_eq_false_iff,
            decide_eq_true_eq, decide_eq_false_iff_not]
          omega
        rw [@ih (pos + 1) (pattern.length - 1), List.keepAt_congr hkept, isKept_cons]
        simp [hlen]
      · -- no match: the byte stays, since later places start after it
        have hbyte : isKept pattern (pos + 0) (List.scanFrom pattern (pos + 1) 0 l) pos = true := by
          simp only [isKept, Nat.add_zero, le_refl, decide_true, Bool.true_and, List.all_eq_true]
          intro p hp
          have hle := List.le_of_mem_scanFrom hp
          have hlt : ¬ p ≤ pos := by omega
          simp [hlt]
        have hkept : ∀ i, pos + 1 ≤ i →
            isKept pattern (pos + 1 + 0) (List.scanFrom pattern (pos + 1) 0 l) i =
            isKept pattern (pos + 0) (List.scanFrom pattern (pos + 1) 0 l) i := by
          intro i hi
          have hle : pos ≤ i := by omega
          simp [isKept, hi, hle]
        rw [@ih (pos + 1) 0, List.keepAt_congr hkept, hbyte]
        rfl

theorem findAndDelete_eq (script pattern : List UInt8) :
    findAndDelete script pattern =
      (deleteRanges script (scannedRanges script pattern),
        (scannedRanges script pattern).length) := by
  unfold findAndDelete scannedRanges
  cases hempty : pattern.isEmpty with
  | true =>
    have hall : deleteRanges script [] = script := List.keepAt_of_forall fun _ _ => rfl
    simp [hall]
  | false =>
    have hne : pattern ≠ [] := by
      rintro rfl
      cases hempty
    have hdelete : deleteFrom pattern 0 script =
        (deleteRanges script ((List.scan pattern script).map fun p => (p, pattern.length)),
          ((List.scan pattern script).map fun p => (p, pattern.length)).length) := by
      rw [@deleteFrom_eq pattern script hne 0 0, List.length_map]
      refine congrArg (fun bytes => (bytes, _)) (List.keepAt_congr fun i _ => ?_)
      rw [isKept, List.scan, List.all_map, Nat.add_zero, decide_eq_true (Nat.zero_le i),
        Bool.true_and]
      rfl
    simp only [Bool.false_or, Bool.false_eq_true, if_false, decide_eq_true_eq]
    split
    · -- a pattern longer than the script is not in it
      rename_i hshort
      have hnil : List.scan pattern script = [] := by
        refine (List.scan_eq_nil_iff hne).mpr fun hinside => ?_
        have := hinside.length_le
        omega
      have hall : deleteRanges script [] = script := List.keepAt_of_forall fun _ _ => rfl
      simp [hnil, hall]
    · exact hdelete

/-! ## Pushes at instruction boundaries -/

theorem nextPushDataLen_leBytes {k minPushLen : Nat} (h : sig.length < 256 ^ k) :
    nextPushDataLen false k minPushLen (leBytes k sig.length ++ sig ++ l) =
      .ok (.pushBytes sig, k + sig.length) := by
  have hvalue : ofLeBytes ((leBytes k sig.length ++ sig ++ l).take k) = sig.length := by
    rw [List.append_assoc, List.take_left' (length_leBytes k _), ofLeBytes_leBytes,
      Nat.mod_eq_of_lt h]
  have hdata : ((leBytes k sig.length ++ sig ++ l).drop k).take sig.length = sig := by
    rw [List.append_assoc, List.drop_left' (length_leBytes k _), List.take_left]
  unfold nextPushDataLen takeSlice
  rw [hvalue]
  dsimp only
  rw [hdata, if_neg (by simp), if_neg (by simp), if_neg (by simp)]

theorem nextInstruction_pushdata1 :
    nextInstruction false 0x4c l = nextPushDataLen false 1 76 l := rfl

theorem nextInstruction_pushdata2 :
    nextInstruction false 0x4d l = nextPushDataLen false 2 0x100 l := rfl

theorem nextInstruction_pushdata4 :
    nextInstruction false 0x4e l = nextPushDataLen false 4 0x10000 l := rfl

/-- The push of a signature reads as one instruction. -/
theorem nextInstruction_pushSlice (hlen : sig.length < 2 ^ 32) :
    ∃ byte rest, pushSlice sig = byte :: rest ∧
      nextInstruction false byte (rest ++ l) = .ok (.pushBytes sig, rest.length) := by
  unfold pushSlice
  split
  · rename_i h
    refine ⟨_, _, rfl, ?_⟩
    have hbyte : (UInt8.ofNat sig.length).toNat = sig.length := by
      rw [UInt8.toNat_ofNat']
      exact Nat.mod_eq_of_lt (by omega)
    have hle : UInt8.ofNat sig.length ≤ 0x4b := by
      rw [UInt8.le_iff_toNat_le, hbyte]
      exact Nat.le_of_lt_succ h
    unfold nextInstruction takeSlice
    rw [if_pos hle, hbyte]
    simp
  · -- the three `PUSHDATA`s, by the width of their length
    have hdata : ∀ k minPushLen, sig.length < 256 ^ k →
        nextPushDataLen false k minPushLen ((leBytes k sig.length ++ sig) ++ l) =
          .ok (.pushBytes sig, (leBytes k sig.length ++ sig).length) := by
      intro k minPushLen h
      rw [nextPushDataLen_leBytes h, List.length_append, length_leBytes]
    split
    · rename_i h
      refine ⟨0x4c, leBytes 1 sig.length ++ sig, List.cons_append, ?_⟩
      rw [nextInstruction_pushdata1, hdata 1 76 (by omega)]
    · split
      · rename_i h
        refine ⟨0x4d, leBytes 2 sig.length ++ sig, List.cons_append, ?_⟩
        rw [nextInstruction_pushdata2, hdata 2 0x100 (by omega)]
      · refine ⟨0x4e, leBytes 4 sig.length ++ sig, List.cons_append, ?_⟩
        rw [nextInstruction_pushdata4, hdata 4 0x10000 (by omega)]

/-- An instruction that starts with the push of a signature is that push. -/
theorem width_of_pushSlice (hlen : sig.length < 2 ^ 32) {item : Nat × Instruction}
    (hitem : item ∈ (instructionIndices false script).items)
    (hpush : pushSlice sig <+: script.drop item.1) :
    width script item = (pushSlice sig).length := by
  obtain ⟨byte, rest, n, hdrop, hnext⟩ := nextInstruction_of_mem hitem
  obtain ⟨t, ht⟩ := hpush
  obtain ⟨byte', rest', hslice, hread⟩ := @nextInstruction_pushSlice sig t hlen
  rw [hdrop, hslice, List.cons_append, List.cons.injEq] at ht
  obtain ⟨rfl, rfl⟩ := ht
  rw [hread, Except.ok.injEq, Prod.mk.injEq] at hnext
  rw [width, headerAt_of_drop hdrop, ← hnext.1, ← length_of_nextInstruction hread, hslice,
    List.length_cons]

theorem mem_boundaryPlaces {p : Nat} : p ∈ boundaryPlaces script pattern ↔
    (∃ instruction, (p, instruction) ∈ (instructionIndices false script).items) ∧
      pattern <+: script.drop p := by
  simp [boundaryPlaces, List.isPrefixOf_iff_prefix]

theorem separated_boundaryPlaces (hlen : sig.length < 2 ^ 32) :
    List.Separated (pushSlice sig) script (boundaryPlaces script (pushSlice sig)) := by
  refine ⟨fun p hp => (mem_boundaryPlaces.mp hp).2, ?_⟩
  obtain ⟨stop, hcontiguous, _⟩ := contiguous_instructionIndices false script
  refine List.pairwise_map.mpr ?_
  refine List.Pairwise.imp_of_mem ?_ (hcontiguous.pairwise.filter _)
  intro a b ha _ hle
  obtain ⟨hmem, hpush⟩ := List.mem_filter.mp ha
  have hstart := List.isPrefixOf_iff_prefix.mp hpush
  rw [width_of_pushSlice hlen hmem hstart] at hle
  exact hle

/-! ## The two opcodes -/

theorem pushSlice_ne_nil : pushSlice sig ≠ [] := by
  unfold pushSlice
  split
  · exact nofun
  · split
    · exact nofun
    · split
      · exact nofun
      · exact nofun

theorem infix_pushSlice : sig <:+: pushSlice sig := by
  unfold pushSlice
  split
  · exact (List.suffix_cons _ sig).isInfix
  · split
    · exact (List.suffix_append (0x4c :: leBytes 1 sig.length) sig).isInfix
    · split
      · exact (List.suffix_append (0x4d :: leBytes 2 sig.length) sig).isInfix
      · exact (List.suffix_append (0x4e :: leBytes 4 sig.length) sig).isInfix

theorem length_pushSlice : sig.length < (pushSlice sig).length := by
  unfold pushSlice
  split
  · simp
  · split
    · simp
    · split
      · simp
      · simp

/-- Ranges of different lengths are the same only when there are none. -/
theorem ranges_eq_iff {a b : Nat} (hne : a ≠ b) {places places' : List Nat} :
    (places.map fun p => (p, a)) = places'.map (fun p => (p, b)) ↔ places = [] ∧ places' = [] := by
  cases places with
  | nil =>
    cases places' with
    | nil => simp
    | cons q places' => simp
  | cons p places =>
    cases places' with
    | nil => simp
    | cons q places' => simp [hne]

theorem boundaryPlaces_of_not_infix (h : ¬ sig <:+: script) :
    boundaryPlaces script (pushSlice sig) = [] := by
  refine List.eq_nil_iff_forall_not_mem.mpr fun p hp => h ?_
  exact infix_pushSlice.trans (List.infix_of_prefix_drop (mem_boundaryPlaces.mp hp).2)

/-- The push of an empty signature is an `OP_0`. -/
theorem boundaryPlaces_nil : boundaryPlaces script (pushSlice []) = [] ↔
    ∀ item ∈ (instructionIndices false script).items, script[item.1]? ≠ some 0 := by
  have hstarts : ∀ p, pushSlice [] <+: script.drop p ↔ script[p]? = some 0 := by
    intro p
    rw [← List.head?_drop]
    cases script.drop p with
    | nil => simp [pushSlice]
    | cons byte rest => simp [pushSlice, List.cons_prefix_cons, eq_comm]
  rw [List.eq_nil_iff_forall_not_mem]
  constructor
  · rintro h ⟨p, instruction⟩ hitem hzero
    exact h p (mem_boundaryPlaces.mpr ⟨⟨instruction, hitem⟩, (hstarts p).mpr hzero⟩)
  · rintro h p hp
    obtain ⟨⟨instruction, hitem⟩, hpush⟩ := mem_boundaryPlaces.mp hp
    exact h (p, instruction) hitem ((hstarts p).mp hpush)

/-- `OP_CHECKSIG` gives the scan the signature, of which the rule knows nothing. -/
theorem scannedRanges_sig_iff : scannedRanges script sig = boundaryRanges script sig ↔
    (sig ≠ [] ∧ ¬ sig <:+: script) ∨
      (sig = [] ∧ ∀ item ∈ (instructionIndices false script).items, script[item.1]? ≠ some 0) := by
  unfold scannedRanges boundaryRanges
  by_cases hsig : sig = []
  · subst hsig
    rw [← boundaryPlaces_nil, List.isEmpty_nil, if_pos rfl, eq_comm, List.map_eq_nil_iff]
    simp
  · have hempty : sig.isEmpty = false := List.isEmpty_eq_false_iff.mpr hsig
    rw [hempty, if_neg Bool.false_ne_true, ranges_eq_iff length_pushSlice.ne,
      List.scan_eq_nil_iff hsig]
    constructor
    · exact fun h => Or.inl ⟨hsig, h.1⟩
    · rintro (⟨_, h⟩ | ⟨h, _⟩)
      · exact ⟨h, boundaryPlaces_of_not_infix h⟩
      · exact absurd h hsig

theorem scannedRanges_push_iff (hlen : sig.length < 2 ^ 32) :
    scannedRanges script (pushSlice sig) = boundaryRanges script sig ↔
      List.Covers (pushSlice sig) script (boundaryPlaces script (pushSlice sig)) := by
  have hempty : (pushSlice sig).isEmpty = false := List.isEmpty_eq_false_iff.mpr pushSlice_ne_nil
  have hinj : Function.Injective fun p : Nat => (p, (pushSlice sig).length) :=
    fun p q h => (Prod.mk.inj h).1
  unfold scannedRanges boundaryRanges
  rw [hempty, if_neg Bool.false_ne_true, (List.map_injective_iff.mpr hinj).eq_iff]
  exact List.scan_eq_iff pushSlice_ne_nil (separated_boundaryPlaces hlen)

/-! ## Checks with the signatures deleted -/

/-- The script code without the ranges, if there may be any. -/
def dropRanges (flags : VerifyFlags) (subscript : List UInt8) (ranges : List (Nat × Nat)) :
    Outcome CheckSigError (List UInt8) :=
  if 0 < ranges.length && flags.has .constScriptcode then .err .findAndDelete
  else .ok (deleteRanges subscript ranges)

/-- A pre-segwit `OP_CHECKSIG` over the script code without the ranges. -/
def checksigWithout (env : ScriptEnv) (flags : VerifyFlags) (checker : SignatureChecker)
    (subscript : List UInt8) (ranges : List (Nat × Nat)) (sig pubkey : List UInt8) :
    Outcome CheckSigError Bool := do
  let scriptCode ← dropRanges flags subscript ranges
  checkSignatureEncoding flags sig
  checkPubkeyEncoding flags .base pubkey
  let success ← checkEcdsaSignature env checker sig pubkey scriptCode .base
  Outcome.errIf (!success && flags.has .nullfail && !sig.isEmpty) .nullFail
  pure success

/-- Signatures deleted one after the other, each from what the ones before it leave. -/
def dropInTurn (find : List UInt8 → List UInt8 → List (Nat × Nat)) (flags : VerifyFlags) :
    List (List UInt8) → List UInt8 → Outcome CheckSigError (List UInt8)
  | [], subscript => .ok subscript
  | sig :: sigs, subscript =>
    dropRanges flags subscript (find subscript sig) >>= dropInTurn find flags sigs

/-- A property of the script code and the signature at each deletion by the rule. -/
def AtEachDeletion (P : List UInt8 → List UInt8 → Prop) : List (List UInt8) → List UInt8 → Prop
  | [], _ => True
  | sig :: sigs, subscript =>
    P subscript sig ∧ AtEachDeletion P sigs (deleteRanges subscript (boundaryRanges subscript sig))

/-- `OP_CHECKMULTISIG` gives the scan the push of the signature. -/
def pushedRanges (script sig : List UInt8) : List (Nat × Nat) :=
  scannedRanges script (pushSlice sig)

theorem dropSignature_base (flags : VerifyFlags) (subscript sig : List UInt8) :
    dropSignature flags .base subscript sig =
      dropRanges flags subscript (scannedRanges subscript sig) := by
  simp only [dropSignature, dropRanges, if_pos, findAndDelete_eq]

theorem pushedSignature_eq (hlen : sig.length < 2 ^ 32) :
    pushedSignature sig = .ok (pushSlice sig) := by
  unfold pushedSignature pushBytesBuf
  rw [if_pos hlen]
  rfl

theorem evalChecksigPreTapscript_base {env : ScriptEnv} {flags : VerifyFlags}
    {checker : SignatureChecker} {begincode : Nat} {subscript pubkey : List UInt8}
    (hsub : subscriptFrom script begincode = (.ok subscript : Outcome CheckSigError _)) :
    evalChecksigPreTapscript env flags checker .base script begincode sig pubkey =
      checksigWithout env flags checker subscript (scannedRanges subscript sig) sig pubkey := by
  unfold evalChecksigPreTapscript checksigWithout
  rw [hsub, Outcome.ok_bind, dropSignature_base]

theorem dropSignatures_base {flags : VerifyFlags} {sigs : List (List UInt8)}
    (hlens : ∀ sig ∈ sigs, sig.length < 2 ^ 32) (subscript : List UInt8) :
    dropSignatures flags .base sigs subscript = dropInTurn pushedRanges flags sigs subscript := by
  unfold dropSignatures Loop.forEnum
  generalize 0 = i
  induction sigs generalizing subscript i with
  | nil => rfl
  | cons sig sigs ih =>
    rw [Loop.forEnumFrom_cons, if_pos rfl, pushedSignature_eq (hlens sig List.mem_cons_self),
      Outcome.ok_bind, dropSignature_base, dropInTurn, pushedRanges]
    congr 1
    funext left
    exact ih (fun sig' h => hlens sig' (List.mem_cons_of_mem sig h)) left (i + 1)

/-- With the ranges of the rule at each deletion the loop is the rule's. -/
theorem dropInTurn_congr {find : List UInt8 → List UInt8 → List (Nat × Nat)} {flags : VerifyFlags}
    {sigs : List (List UInt8)} {subscript : List UInt8}
    (h : AtEachDeletion (fun script sig => find script sig = boundaryRanges script sig) sigs
      subscript) :
    dropInTurn find flags sigs subscript = dropInTurn boundaryRanges flags sigs subscript := by
  induction sigs generalizing subscript with
  | nil => rfl
  | cons sig sigs ih =>
    obtain ⟨hranges, hrest⟩ := h
    rw [dropInTurn, dropInTurn, hranges, dropRanges]
    split
    · rfl
    · exact ih hrest

theorem atEachDeletion_congr {P Q : List UInt8 → List UInt8 → Prop} {sigs : List (List UInt8)}
    {subscript : List UInt8} (h : ∀ sig ∈ sigs, ∀ script, P script sig ↔ Q script sig) :
    AtEachDeletion P sigs subscript ↔ AtEachDeletion Q sigs subscript := by
  induction sigs generalizing subscript with
  | nil => exact Iff.rfl
  | cons sig sigs ih =>
    exact and_congr (h sig List.mem_cons_self subscript)
      (ih fun sig' hmem => h sig' (List.mem_cons_of_mem sig hmem))

/-- **Signature deletion.** A pre-segwit `OP_CHECKSIG` checks over its script code without the
ranges that a scan for the signature gives, which are the rule's exactly when neither gives any.
`OP_CHECKMULTISIG` deletes, for one signature after the other, the ranges that a scan for the push
gives; these are the rule's exactly when at each deletion every occurrence of the push is at an
instruction boundary or starts inside one that is, and then the script code is the rule's too. -/
theorem findAndDelete_iff {begincode : Nat} {subscript : List UInt8} {sigs : List (List UInt8)}
    (hsub : subscriptFrom script begincode = (.ok subscript : Outcome CheckSigError _))
    (hlens : ∀ sig ∈ sigs, sig.length < 2 ^ 32) :
    (∀ script pattern, findAndDelete script pattern =
      (deleteRanges script (scannedRanges script pattern),
        (scannedRanges script pattern).length)) ∧
    ((∀ env flags checker pubkey,
        evalChecksigPreTapscript env flags checker .base script begincode sig pubkey =
          checksigWithout env flags checker subscript (scannedRanges subscript sig) sig pubkey) ∧
      (scannedRanges subscript sig = boundaryRanges subscript sig ↔
        (sig ≠ [] ∧ ¬ sig <:+: subscript) ∨
          (sig = [] ∧ ∀ item ∈ (instructionIndices false subscript).items,
            subscript[item.1]? ≠ some 0))) ∧
    ((∀ flags, dropSignatures flags .base sigs subscript =
        dropInTurn pushedRanges flags sigs subscript) ∧
      (AtEachDeletion (fun script sig => pushedRanges script sig = boundaryRanges script sig) sigs
          subscript ↔
        AtEachDeletion (fun script sig => List.Covers (pushSlice sig) script
          (boundaryPlaces script (pushSlice sig))) sigs subscript) ∧
      (AtEachDeletion (fun script sig => pushedRanges script sig = boundaryRanges script sig) sigs
          subscript →
        ∀ flags, dropSignatures flags .base sigs subscript =
          dropInTurn boundaryRanges flags sigs subscript)) := by
  refine ⟨findAndDelete_eq, ⟨?_, scannedRanges_sig_iff⟩, ?_, ?_, ?_⟩
  · intro env flags checker pubkey
    exact evalChecksigPreTapscript_base hsub
  · intro flags
    exact dropSignatures_base hlens subscript
  · exact atEachDeletion_congr fun sig hmem script => scannedRanges_push_iff (hlens sig hmem)
  · intro h flags
    rw [dropSignatures_base hlens, dropInTurn_congr h]

end Deletion

namespace DeletionSample

def sig : List UInt8 := [0x30, 0x01]

def otherSig : List UInt8 := [0x30, 0x02]

/-- The push of the signature, and `OP_CHECKSIG`. -/
def checksig : List UInt8 := [0x02, 0x30, 0x01, 0xac]

/-- A push of three bytes that are the push of the signature, and `OP_CHECKMULTISIG`. -/
def checkmultisig : List UInt8 := [0x03, 0x02, 0x30, 0x01, 0xae]

/-- `OP_CODESEPARATOR`, the pushes of both signatures, the first of them twice, and
`OP_CHECKMULTISIG`. -/
def separated : List UInt8 :=
  [0xab, 0x02, 0x30, 0x01, 0x02, 0x30, 0x02, 0x02, 0x30, 0x01, 0xae]

end DeletionSample

open DeletionSample in
/-- Three pushes go for two signatures. -/
theorem findAndDelete_two_signatures :
    dropSignatures ⟨0⟩ .base [sig, otherSig] (separated.drop 1) =
        dropInTurn boundaryRanges ⟨0⟩ [sig, otherSig] (separated.drop 1) ∧
      dropInTurn boundaryRanges ⟨0⟩ [sig, otherSig] (separated.drop 1) = .ok [0xae] :=
  have hiff := @findAndDelete_iff separated [0x30, 0x03] 1 (separated.drop 1) [sig, otherSig]
    rfl (by decide)
  ⟨hiff.2.2.2.2 ⟨by decide +kernel, by decide +kernel, trivial⟩ ⟨0⟩, by decide +kernel⟩

open DeletionSample in
/-- `OP_CHECKSIG` leaves the length byte of a push it should delete, and `OP_CHECKMULTISIG` deletes
from the data of another push. -/
theorem signature_deleted_from_data :
    dropSignature ⟨0⟩ .base checksig sig = .ok [0x02, 0xac] ∧
      findAndDelete checksig sig = ([0x02, 0xac], 1) ∧
      deleteRanges checksig (boundaryRanges checksig sig) = [0xac] ∧
      dropSignatures ⟨0⟩ .base [otherSig, sig] checkmultisig = .ok [0x03, 0xae] ∧
      dropInTurn boundaryRanges ⟨0⟩ [otherSig, sig] checkmultisig = .ok checkmultisig := by
  decide +kernel

end Subcoin.Script
