import Subcoin.Lib.Loop

/-!
# Computations that do not panic

`Safe P x` says that `x` does not panic and that what it returns satisfies `P`; an error value is
allowed. `Post P x` allows a panic as well. The rules follow the program, as those of a Hoare logic
do.

For loops there is the trace: the states a loop comes to, each with the item it is about to handle.
-/

namespace Outcome

variable {ε ε' α β : Type} {P Q : α → Prop}

def Safe (P : α → Prop) : Outcome ε α → Prop
  | ok a => P a
  | err _ => True
  | panic _ => False

@[simp] theorem safe_ok {a : α} : Safe P (ok a : Outcome ε α) ↔ P a := Iff.rfl

@[simp] theorem safe_err {e : ε} : Safe P (err e : Outcome ε α) := trivial

@[simp] theorem not_safe_panic {msg : String} : ¬ Safe P (panic msg : Outcome ε α) := id

variable {x : Outcome ε α}

theorem safe_iff : Safe P x ↔ x.isPanic = false ∧ ∀ a, x = ok a → P a := by
  cases x with
  | ok a => simp
  | err e => simp
  | panic msg => simp

theorem Safe.isPanic (h : Safe P x) : x.isPanic = false := (safe_iff.mp h).1

theorem Safe.mono (h : Safe P x) (hPQ : ∀ a, P a → Q a) : Safe Q x := by
  cases x with
  | ok a => exact hPQ a h
  | err e => trivial
  | panic msg => exact h

theorem Safe.bind {R : β → Prop} {f : α → Outcome ε β} (hx : Safe P x)
    (hf : ∀ a, P a → Safe R (f a)) : Safe R (x >>= f) := by
  cases x with
  | ok a => exact hf a hx
  | err e => trivial
  | panic msg => exact hx

theorem safe_errIf {c : Bool} {e : ε} : Safe (fun _ => c = false) (errIf c e) := by
  cases c with
  | false => rfl
  | true => trivial

@[simp] theorem safe_mapErr {f : ε → ε'} : Safe P (mapErr f x) ↔ Safe P x := by
  cases x with
  | ok a => rfl
  | err e => rfl
  | panic msg => rfl

/-! ## Partial correctness -/

/-- What `x` returns, if it returns, satisfies `P`. -/
def Post (P : α → Prop) (x : Outcome ε α) : Prop := ∀ a, x = ok a → P a

@[simp] theorem post_ok {a : α} : Post P (ok a : Outcome ε α) ↔ P a := by
  simp [Post]

theorem Post.bind {R : β → Prop} {f : α → Outcome ε β} (hx : Post P x)
    (hf : ∀ a, P a → Post R (f a)) : Post R (x >>= f) := by
  intro b hb
  obtain ⟨a, ha, hfa⟩ := bind_eq_ok.mp hb
  exact hf a (hx a ha) b hfa

theorem post_self : Post (fun a => x = ok a) x := fun _ h => h

end Outcome

namespace Loop

open Outcome

variable {ε σ α : Type} {body : σ → Nat → α → Outcome ε σ}

/-! ## Traces -/

/-- The steps of a loop: the state before each and its item, up to the first that fails. -/
def traceFrom (body : σ → Nat → α → Outcome ε σ) : Nat → List α → σ → List (σ × α)
  | _, [], _ => []
  | i, a :: l, s =>
    (s, a) ::
      match body s i a with
      | .ok s' => traceFrom body (i + 1) l s'
      | _ => []

def trace (body : σ → Nat → α → Outcome ε σ) (l : List α) (s : σ) : List (σ × α) :=
  traceFrom body 0 l s

variable {i : Nat} {l : List α} {s s' : σ}

/-- A loop that returns came to every item. -/
theorem map_snd_traceFrom (hrun : forEnumFrom body i l s = .ok s') :
    (traceFrom body i l s).map Prod.snd = l := by
  induction l generalizing i s with
  | nil => rfl
  | cons a l ih =>
    rw [forEnumFrom_cons, bind_eq_ok] at hrun
    obtain ⟨s1, hbody, hrest⟩ := hrun
    rw [traceFrom, hbody, List.map_cons, ih hrest]

/-- What every step that returns tells about its state and item holds along the trace. -/
theorem forall_mem_traceFrom {P : σ → α → Prop} (hstep : ∀ s i a s', body s i a = .ok s' → P s a)
    (hrun : forEnumFrom body i l s = .ok s') : ∀ p ∈ traceFrom body i l s, P p.1 p.2 := by
  induction l generalizing i s with
  | nil => simp [traceFrom]
  | cons a l ih =>
    rw [forEnumFrom_cons, bind_eq_ok] at hrun
    obtain ⟨s1, hbody, hrest⟩ := hrun
    rw [traceFrom, hbody]
    intro p hp
    rcases List.mem_cons.mp hp with rfl | hp
    · exact hstep s i a s1 hbody
    · exact ih hrest p hp

theorem traceFrom_split_of (Inv : List (σ × α) → σ → Prop)
    (hstep : ∀ pre s i a rest s', l = pre.map Prod.snd ++ a :: rest → Inv pre s → body s i a = .ok
      s' → Inv (pre ++ [(s, a)]) s') :
    ∀ {i : Nat} {rest : List α} {s : σ} {before pre post : List (σ × α)} {p : σ × α},
      l = before.map Prod.snd ++ rest → Inv before s →
      traceFrom body i rest s = pre ++ p :: post →
      Inv (before ++ pre) p.1 ∧ ∃ after, l = (before ++ pre).map Prod.snd ++ p.2 :: after := by
  intro i rest
  induction rest generalizing i with
  | nil =>
    intro s before pre post p _ _ hsplit
    simp [traceFrom] at hsplit
  | cons a rest ih =>
    intro s before pre post p hl hinv hsplit
    rw [traceFrom] at hsplit
    cases pre with
    | nil =>
      obtain ⟨rfl, _⟩ := List.cons.inj hsplit
      rw [List.append_nil]
      exact ⟨hinv, rest, hl⟩
    | cons q pre =>
      obtain ⟨rfl, hrest⟩ := List.cons.inj hsplit
      cases hbody : body s i a with
      | ok s1 =>
        rw [hbody] at hrest
        have hl1 : l = (before ++ [(s, a)]).map Prod.snd ++ rest := by simp [hl]
        simpa using ih hl1 (hstep before s i a rest s1 hl hinv hbody) hrest
      | err e => simp [hbody] at hrest
      | panic msg => simp [hbody] at hrest

/-- An invariant about the steps so far holds before each step of a trace, and the items of the
steps are the first items of the loop. -/
theorem trace_split (Inv : List (σ × α) → σ → Prop) (hinit : Inv [] s)
    (hstep : ∀ pre s i a rest s', l = pre.map Prod.snd ++ a :: rest → Inv pre s → body s i a = .ok
      s' → Inv (pre ++ [(s, a)]) s') {pre post : List (σ × α)} {p : σ × α}
    (hsplit : trace body l s = pre ++ p :: post) :
    Inv pre p.1 ∧ ∃ after, l = pre.map Prod.snd ++ p.2 :: after :=
  traceFrom_split_of Inv hstep (List.nil_append l).symm hinit hsplit

/-- A quantity that each step raises by its cost. -/
theorem sum_cost_traceFrom (measure : σ → Nat) (cost : σ → α → Nat)
    (hstep : ∀ s i a s', body s i a = .ok s' → measure s' = measure s + cost s a)
    (hrun : forEnumFrom body i l s = .ok s') :
    measure s' = measure s + ((traceFrom body i l s).map fun p => cost p.1 p.2).sum := by
  induction l generalizing i s with
  | nil =>
    rw [forEnumFrom_nil, ok.injEq] at hrun
    simp [traceFrom, hrun]
  | cons a l ih =>
    rw [forEnumFrom_cons, bind_eq_ok] at hrun
    obtain ⟨s1, hbody, hrest⟩ := hrun
    rw [traceFrom, hbody, List.map_cons, List.sum_cons, ih hrest, hstep s i a s1 hbody,
      Nat.add_assoc]

/-! ## Safe loops -/

variable {Inv : List α → σ → Prop} {C : σ → α → Prop}

end Loop
