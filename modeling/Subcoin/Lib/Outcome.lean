import Mathlib.Tactic

/-!
# Outcomes of fallible code

A call into compiled code ends in one of three ways: it returns a value, it returns an error
value, or it panics. `Outcome ε α` keeps the three apart, because a caller can handle the second
and never the third. The module also owns the fixed-width arithmetic whose overflow behaviour
depends on the build: a build with overflow checks panics, one without wraps.
-/

/-- The result of a call: a value, an error value, or a panic with its message. -/
inductive Outcome (ε α : Type) where
  | ok (a : α)
  | err (e : ε)
  | panic (msg : String)
deriving DecidableEq, Repr

namespace Outcome

variable {ε ε' α β : Type}

protected def bind (x : Outcome ε α) (f : α → Outcome ε β) : Outcome ε β :=
  match x with
  | ok a => f a
  | err e => err e
  | panic msg => panic msg

instance : Monad (Outcome ε) where
  pure := ok
  bind := Outcome.bind

@[simp] theorem pure_eq_ok (a : α) : (pure a : Outcome ε α) = ok a := rfl

@[simp] theorem ok_bind (a : α) (f : α → Outcome ε β) : (ok a >>= f) = f a := rfl

@[simp] theorem err_bind (e : ε) (f : α → Outcome ε β) : (err e >>= f) = err e := rfl

@[simp] theorem panic_bind (msg : String) (f : α → Outcome ε β) :
    (panic msg >>= f) = panic msg := rfl

instance : LawfulMonad (Outcome ε) :=
  LawfulMonad.mk' _
    (fun x => by cases x <;> rfl)
    (fun _ _ => rfl)
    (fun x _ _ => by cases x <;> rfl)

variable {f : α → Outcome ε β} {x : Outcome ε α} {l : List α} {a : α}

variable {b : β}

theorem bind_eq_ok : (x >>= f) = ok b ↔ ∃ a, x = ok a ∧ f a = ok b := by
  cases x with
  | ok a => simp
  | err e => simp
  | panic msg => simp

theorem mapM_eq_ok {r : List β} : l.mapM f = ok r ↔ List.Forall₂ (fun a b => f a = ok b) l r := by
  induction l generalizing r with
  | nil => simp [eq_comm]
  | cons a l ih =>
    simp only [List.mapM_cons, bind_eq_ok, pure_eq_ok, ok.injEq, List.forall₂_cons_left_iff, ih]
    constructor
    · rintro ⟨b, hb, l', hl', rfl⟩
      exact ⟨b, l', hb, hl', rfl⟩
    · rintro ⟨b, l', hb, hl', rfl⟩
      exact ⟨b, hb, l', hl', rfl⟩

theorem mapM_eq_ok_map {g : α → β} (h : ∀ a ∈ l, f a = ok (g a)) : l.mapM f = ok (l.map g) := by
  induction l with
  | nil => rfl
  | cons a l ih =>
    rw [List.forall_mem_cons] at h
    rw [List.mapM_cons, h.1, ih h.2]
    rfl

def okOr (x : Option α) (e : ε) : Outcome ε α :=
  match x with
  | some a => ok a
  | none => err e

@[simp] theorem okOr_some (a : α) (e : ε) : okOr (some a) e = ok a := rfl

@[simp] theorem okOr_none (e : ε) : okOr (none : Option α) e = err e := rfl

variable {e : ε}

theorem okOr_eq_ok {x : Option α} : okOr x e = ok a ↔ x = some a := by
  cases x with
  | none => simp
  | some b => simp

def expect (x : Option α) (msg : String) : Outcome ε α :=
  match x with
  | some a => ok a
  | none => panic msg

@[simp] theorem expect_some (a : α) (msg : String) : (expect (some a) msg : Outcome ε α) = ok a :=
  rfl

@[simp] theorem expect_none (msg : String) : (expect none msg : Outcome ε α) = panic msg := rfl

theorem expect_eq_ok {x : Option α} {msg : String} :
    (expect x msg : Outcome ε α) = ok a ↔ x = some a := by
  cases x with
  | none => simp
  | some b => simp

/-- The same call with its error values translated; a panic passes through (`map_err`). -/
def mapErr (f : ε → ε') (x : Outcome ε α) : Outcome ε' α :=
  match x with
  | ok a => ok a
  | err e => err (f e)
  | panic msg => panic msg

@[simp] theorem mapErr_ok (f : ε → ε') (a : α) : mapErr f (ok a : Outcome ε α) = ok a := rfl

@[simp] theorem mapErr_err (f : ε → ε') (e : ε) : mapErr f (err e : Outcome ε α) = err (f e) := rfl

theorem mapErr_eq_ok {f : ε → ε'} : mapErr f x = ok a ↔ x = ok a := by
  cases x with
  | ok b => simp
  | err e => simp
  | panic msg => simp [mapErr]

def errIf (c : Bool) (e : ε) : Outcome ε Unit :=
  if c then err e else ok ()

@[simp] theorem errIf_false (e : ε) : errIf false e = ok () := rfl

@[simp] theorem errIf_true (e : ε) : errIf true e = err e := rfl

theorem errIf_eq_ok {c : Bool} {u : Unit} : errIf c e = ok u ↔ c = false := by
  cases c with
  | false => simp [errIf]
  | true => simp [errIf]

/-- An assertion of the source. -/
def assertTrue (c : Bool) (msg : String) : Outcome ε Unit :=
  if c then ok () else panic msg

@[simp] theorem assertTrue_true (msg : String) : (assertTrue true msg : Outcome ε Unit) = ok () :=
  rfl

@[simp] theorem assertTrue_false (msg : String) :
    (assertTrue false msg : Outcome ε Unit) = panic msg := rfl

def isOk : Outcome ε α → Bool
  | ok _ => true
  | _ => false

theorem isOk_eq_true : x.isOk = true ↔ ∃ a, x = ok a := by
  cases x with
  | ok a => simp [isOk]
  | err e => simp [isOk]
  | panic msg => simp [isOk]

/-- A value is returned, and passes a test. -/
def anyOk (p : α → Bool) : Outcome ε α → Bool
  | ok a => p a
  | _ => false

theorem anyOk_eq_true {p : α → Bool} : x.anyOk p = true ↔ ∃ a, x = ok a ∧ p a = true := by
  cases x with
  | ok a => simp [anyOk]
  | err e => simp [anyOk]
  | panic msg => simp [anyOk]

def isPanic : Outcome ε α → Bool
  | panic _ => true
  | _ => false

@[simp] theorem isPanic_ok (a : α) : (ok a : Outcome ε α).isPanic = false := rfl

@[simp] theorem isPanic_err (e : ε) : (err e : Outcome ε α).isPanic = false := rfl

@[simp] theorem isPanic_panic (msg : String) : (panic msg : Outcome ε α).isPanic = true := rfl

@[simp] theorem isPanic_errIf (c : Bool) (e : ε) : (errIf c e).isPanic = false := by
  cases c with
  | false => rfl
  | true => rfl

theorem isPanic_bind (hx : x.isPanic = false) (hf : ∀ a, (f a).isPanic = false) :
    (x >>= f).isPanic = false := by
  cases x with
  | ok a => exact hf a
  | err e => rfl
  | panic msg => cases hx

theorem isPanic_bind_eq_false :
    (x >>= f).isPanic = false ↔ x.isPanic = false ∧ ∀ a, x = ok a → (f a).isPanic = false := by
  cases x with
  | ok a => simp
  | err e => simp
  | panic msg => simp

@[simp] theorem isPanic_okOr (x : Option α) (e : ε) : (okOr x e).isPanic = false := by
  cases x with
  | none => rfl
  | some a => rfl

@[simp] theorem isPanic_mapErr (f : ε → ε') (x : Outcome ε α) :
    (mapErr f x).isPanic = x.isPanic := by
  cases x with
  | ok a => rfl
  | err e => rfl
  | panic msg => rfl

/-- A call that cannot panic, with its error values translated. -/
def ofExcept (f : ε' → ε) (x : Except ε' α) : Outcome ε α :=
  match x with
  | .ok a => ok a
  | .error e => err (f e)

@[simp] theorem ofExcept_ok (f : ε' → ε) (a : α) : ofExcept f (.ok a) = ok a := rfl

@[simp] theorem ofExcept_error (f : ε' → ε) (e : ε') :
    (ofExcept f (.error e) : Outcome ε α) = err (f e) := rfl

theorem ofExcept_eq_ok {f : ε' → ε} {x : Except ε' α} : ofExcept f x = ok a ↔ x = .ok a := by
  cases x with
  | ok b => simp
  | error e => simp

theorem except_bind_eq_ok {x : Except ε α} {f : α → Except ε β} :
    x >>= f = .ok b ↔ ∃ a, x = .ok a ∧ f a = .ok b := by
  cases x with
  | ok a => simp [bind, Except.bind]
  | error e => simp [bind, Except.bind]

theorem mapError_eq_ok {f : ε → ε'} {x : Except ε α} : x.mapError f = .ok a ↔ x = .ok a := by
  cases x with
  | ok b => simp [Except.mapError]
  | error e => simp [Except.mapError]

@[simp] theorem isPanic_ofExcept (f : ε' → ε) (x : Except ε' α) :
    (ofExcept f x).isPanic = false := by
  cases x with
  | ok a => rfl
  | error e => rfl

/-- What every round of a loop preserves holds when the loop returns. -/
theorem foldlM_invariant {I : β → Prop} {f : β → α → Outcome ε β}
    (hstep : ∀ {b a b'}, a ∈ l → I b → f b a = ok b' → I b') {b' : β} (hI : I b)
    (h : l.foldlM f b = ok b') : I b' := by
  induction l generalizing b with
  | nil =>
    cases h
    exact hI
  | cons a l ih =>
    rw [List.foldlM_cons, bind_eq_ok] at h
    obtain ⟨b1, h1, h⟩ := h
    exact ih (fun ha => hstep (List.mem_cons_of_mem a ha)) (hstep List.mem_cons_self hI h1) h

end Outcome

/-! ## Fixed-width arithmetic -/

def wrappingAdd (w x y : Nat) : Nat := (x + y) % 2 ^ w

def wrappingSub (w x y : Nat) : Nat := (x + (2 ^ w - y % 2 ^ w)) % 2 ^ w

/-- The part of a build profile that decides what an arithmetic overflow does. -/
structure Build where
  overflowChecks : Bool
deriving DecidableEq, Repr

namespace Build

variable {ε : Type}

def checked : Build := ⟨true⟩

def add (b : Build) (w x y : Nat) : Outcome ε Nat :=
  if x + y < 2 ^ w then .ok (x + y)
  else if b.overflowChecks then .panic "attempt to add with overflow"
  else .ok (wrappingAdd w x y)

def sub (b : Build) (w x y : Nat) : Outcome ε Nat :=
  if y ≤ x then .ok (x - y)
  else if b.overflowChecks then .panic "attempt to subtract with overflow"
  else .ok (wrappingSub w x y)

variable {b : Build} {w y : Nat}

def mul (b : Build) (w x y : Nat) : Outcome ε Nat :=
  if x * y < 2 ^ w then .ok (x * y)
  else if b.overflowChecks then .panic "attempt to multiply with overflow"
  else .ok (x * y % 2 ^ w)

variable {x : Nat}

theorem add_of_lt (h : x + y < 2 ^ w) : (b.add w x y : Outcome ε Nat) = .ok (x + y) := by
  simp [add, h]

theorem add_ne_err : (b.add w x y : Outcome ε Nat) ≠ .err e := by
  unfold add
  split
  · simp
  · split
    · simp
    · simp

theorem sub_of_le (h : y ≤ x) : (b.sub w x y : Outcome ε Nat) = .ok (x - y) := by
  simp [sub, h]

theorem sub_eq_ok_congr {ε' : Type} {z : Nat} :
    (b.sub w x y : Outcome ε Nat) = .ok z ↔ (b.sub w x y : Outcome ε' Nat) = .ok z := by
  unfold sub
  split
  · simp
  · split
    · simp
    · simp

theorem add_eq_ok {z : Nat} :
    (b.add w x y : Outcome ε Nat) = .ok z ↔
      (x + y < 2 ^ w ∨ b.overflowChecks = false) ∧ z = wrappingAdd w x y := by
  unfold add wrappingAdd
  by_cases h : x + y < 2 ^ w
  · rw [if_pos h, Nat.mod_eq_of_lt h, Outcome.ok.injEq]
    exact ⟨fun hz => ⟨Or.inl h, hz.symm⟩, fun hz => hz.2.symm⟩
  · rw [if_neg h]
    cases b.overflowChecks with
    | true => simp [h]
    | false => simp [@eq_comm _ z]

end Build
