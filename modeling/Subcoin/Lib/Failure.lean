import Subcoin.Lib.Safety
import Subcoin.Lib.SignedInt

/-!
# Computations that fail for a reason

`FailsWith bad x` says that `x` ends with an error value for which `bad` holds. A sequence of
computations fails so when one of them does and those before it returned; a loop fails so when a
step of its trace does.
-/

namespace Outcome

variable {ε ε' α β : Type} {bad : ε → Prop}

def FailsWith (bad : ε → Prop) (x : Outcome ε α) : Prop := ∃ e, x = .err e ∧ bad e

@[simp] theorem not_failsWith_ok {a : α} : ¬ FailsWith bad (ok a : Outcome ε α) := by
  rintro ⟨e, he, _⟩
  cases he

@[simp] theorem not_failsWith_pure {a : α} : ¬ FailsWith bad (pure a : Outcome ε α) :=
  not_failsWith_ok

variable {e : ε} {msg : String} {f : α → Outcome ε β} {x : Outcome ε α} {build : Build}

@[simp] theorem failsWith_err : FailsWith bad (err e : Outcome ε α) ↔ bad e := by
  simp [FailsWith]

@[simp] theorem not_failsWith_panic : ¬ FailsWith bad (panic msg : Outcome ε α) := by
  rintro ⟨e, he, _⟩
  cases he

theorem not_failsWith_of_forall (h : ∀ e, ¬ bad e) (x : Outcome ε α) : ¬ FailsWith bad x := by
  rintro ⟨e, _, he⟩
  exact h e he

theorem failsWith_bind :
    FailsWith bad (x >>= f) ↔ FailsWith bad x ∨ ∃ a, x = ok a ∧ FailsWith bad (f a) := by
  cases x with
  | ok a => simp
  | err e => simp
  | panic msg => simp

/-- What comes before does not fail so. -/
theorem failsWith_bind_of_not (hx : ¬ FailsWith bad x) :
    FailsWith bad (x >>= f) ↔ ∃ a, x = ok a ∧ FailsWith bad (f a) := by
  rw [failsWith_bind, or_iff_right hx]

/-- What follows does not fail so. -/
theorem failsWith_bind_left (hf : ∀ a, ¬ FailsWith bad (f a)) :
    FailsWith bad (x >>= f) ↔ FailsWith bad x := by
  rw [failsWith_bind, or_iff_left]
  rintro ⟨a, _, ha⟩
  exact hf a ha

theorem not_failsWith_bind (hx : ¬ FailsWith bad x) (hf : ∀ a, ¬ FailsWith bad (f a)) :
    ¬ FailsWith bad (x >>= f) := by
  rw [failsWith_bind_left hf]
  exact hx

@[simp] theorem failsWith_errIf {c : Bool} : FailsWith bad (errIf c e) ↔ c = true ∧ bad e := by
  cases c with
  | false => simp
  | true => simp

@[simp] theorem failsWith_okOr {x : Option α} : FailsWith bad (okOr x e) ↔ x = none ∧ bad e := by
  cases x with
  | none => simp
  | some a => simp

@[simp] theorem not_failsWith_expect {x : Option α} :
    ¬ FailsWith bad (expect x msg : Outcome ε α) := by
  cases x with
  | none => simp
  | some a => simp

@[simp] theorem not_failsWith_assertTrue {c : Bool} :
    ¬ FailsWith bad (assertTrue c msg : Outcome ε Unit) := by
  cases c with
  | false => simp
  | true => simp

@[simp] theorem failsWith_mapErr {bad : ε' → Prop} {f : ε → ε'} :
    FailsWith bad (mapErr f x) ↔ FailsWith (fun e => bad (f e)) x := by
  cases x with
  | ok a => simp
  | err e => simp
  | panic msg => simp [mapErr]

theorem not_failsWith_mapM (hf : ∀ a, ¬ FailsWith bad (f a)) (l : List α) :
    ¬ FailsWith bad (l.mapM f) := by
  induction l with
  | nil => simp
  | cons a l ih =>
    rw [List.mapM_cons]
    exact not_failsWith_bind (hf a) fun _ => not_failsWith_bind ih fun _ => not_failsWith_pure

theorem not_failsWith_foldlM {f : β → α → Outcome ε β} (hf : ∀ b a, ¬ FailsWith bad (f b a))
    (l : List α) (b : β) : ¬ FailsWith bad (l.foldlM f b) := by
  induction l generalizing b with
  | nil => simp
  | cons a l ih =>
    rw [List.foldlM_cons]
    exact not_failsWith_bind (hf b a) ih

@[simp] theorem not_failsWith_signed {x : Int} :
    ¬ FailsWith bad (build.signed msg x : Outcome ε Int) := by
  unfold Build.signed
  split
  · simp
  · split
    · simp
    · simp

@[simp] theorem not_failsWith_divSigned {x y : Int} :
    ¬ FailsWith bad (divSigned x y : Outcome ε Int) := by
  unfold divSigned
  split
  · simp
  · split
    · simp
    · simp

@[simp] theorem not_failsWith_add {w x y : Nat} :
    ¬ FailsWith bad (build.add w x y : Outcome ε Nat) := by
  rintro ⟨e, he, _⟩
  exact Build.add_ne_err he

@[simp] theorem not_failsWith_sub {w x y : Nat} :
    ¬ FailsWith bad (build.sub w x y : Outcome ε Nat) := by
  unfold Build.sub
  split
  · simp
  · split
    · simp
    · simp

end Outcome
