import Subcoin.Lib.Outcome

/-!
# Computations with a state

`Stateful σ ε α` is a computation on a state it holds by mutable reference: what it has written
stays written when it returns an error. A panic leaves no state that anything could read.

`Meets x s Q E` says what holds when `x`, started in `s`, returns a value or an error; `Leaves` is
the relation between the state before and the state after, whichever of the two it was.
-/

/-- A computation on a state, which survives its errors. -/
def Stateful (σ ε α : Type) : Type := σ → Outcome (ε × σ) (α × σ)

namespace Stateful

variable {σ τ ε ε' α β : Type}

instance : Monad (Stateful σ ε) where
  pure a := fun s => .ok (a, s)
  bind x f := fun s => x s >>= fun r => f r.1 r.2

def get : Stateful σ ε σ := fun s => .ok (s, s)

def modify (f : σ → σ) : Stateful σ ε Unit := fun s => .ok ((), f s)

def fail (e : ε) : Stateful σ ε α := fun s => .err (e, s)

/-- A computation that does not touch the state. -/
def lift (x : Outcome ε α) : Stateful σ ε α := fun s =>
  match x with
  | .ok a => .ok (a, s)
  | .err e => .err (e, s)
  | .panic msg => .panic msg

/-- A computation that replaces the state when it returns. -/
def update (f : σ → Outcome ε σ) : Stateful σ ε Unit := fun s =>
  match f s with
  | .ok s' => .ok ((), s')
  | .err e => .err (e, s)
  | .panic msg => .panic msg

/-- A computation on a part of the state. -/
def zoom (view : σ → τ) (put : τ → σ → σ) (x : Stateful τ ε α) : Stateful σ ε α := fun s =>
  match x (view s) with
  | .ok (a, t) => .ok (a, put t s)
  | .err (e, t) => .err (e, put t s)
  | .panic msg => .panic msg

/-- A computation whose error is handled, in the state it left. -/
def rescue (x : Stateful σ ε α) (handler : ε → Stateful σ ε' α) : Stateful σ ε' α := fun s =>
  match x s with
  | .ok r => .ok r
  | .err (e, s') => handler e s'
  | .panic msg => .panic msg

/-- The loop `for a in l { body(a)?; }`. -/
def forEach (body : α → Stateful σ ε Unit) : List α → Stateful σ ε Unit
  | [] => pure ()
  | a :: l => do
    body a
    forEach body l

/-- The loop with an accumulator. -/
def fold (body : β → α → Stateful σ ε β) : β → List α → Stateful σ ε β
  | b, [] => pure b
  | b, a :: l => do
    let b ← body b a
    fold body b l

/-- What a computation returns, without the state. -/
def eval (x : Stateful σ ε α) (s : σ) : Outcome ε α :=
  match x s with
  | .ok (a, _) => .ok a
  | .err (e, _) => .err e
  | .panic msg => .panic msg

/-- The state after a computation, for one that does not panic. -/
def after (x : Stateful σ ε α) (s : σ) : σ :=
  match x s with
  | .ok (_, s') => s'
  | .err (_, s') => s'
  | .panic _ => s

/-! ## What a computation leaves -/

/-- `s'` is the state after `x`, whether it returned or failed. -/
def Leaves (x : Stateful σ ε α) (s s' : σ) : Prop :=
  (∃ a, x s = .ok (a, s')) ∨ ∃ e, x s = .err (e, s')

/-- Started in `s`, what `x` returns satisfies `Q` and what it fails with satisfies `E`. -/
structure Meets (x : Stateful σ ε α) (s : σ) (Q : α → σ → Prop) (E : ε → σ → Prop) : Prop where
  ok : ∀ {a s'}, x s = .ok (a, s') → Q a s'
  err : ∀ {e s'}, x s = .err (e, s') → E e s'

variable {x : Stateful σ ε α} {f : α → Stateful σ ε β} {s s' : σ} {Q Q' : α → σ → Prop}
  {E E' : ε → σ → Prop} {R : β → σ → Prop}

theorem Meets.leaves {P : σ → Prop} (h : Meets x s (fun _ => P) fun _ => P) (hs : Leaves x s s') :
    P s' := by
  rcases hs with ⟨a, ha⟩ | ⟨e, he⟩
  · exact h.ok ha
  · exact h.err he

variable {a : α} {e : ε} {y : Outcome ε α}

theorem eval_eq_ok : x.eval s = .ok a ↔ ∃ s', x s = .ok (a, s') := by
  unfold eval
  cases x s with
  | ok r =>
    constructor
    · intro h
      cases h
      exact ⟨r.2, rfl⟩
    · rintro ⟨s', h⟩
      cases h
      rfl
  | err r => exact iff_of_false (fun h => by cases h) fun ⟨_, h⟩ => by cases h
  | panic msg => exact iff_of_false (fun h => by cases h) fun ⟨_, h⟩ => by cases h

theorem eval_bind_ok (h : x s = .ok (a, s')) : (x >>= f).eval s = (f a).eval s' := by
  simp only [eval, bind, h]
  rfl

theorem eval_bind_err (h : x s = .err (e, s')) : (x >>= f).eval s = .err e := by
  simp only [eval, bind, h]
  rfl

theorem eval_bind_congr {y : Stateful σ ε α} (h : x s = y s') :
    (x >>= f).eval s = (y >>= f).eval s' := by
  simp only [eval, bind, h]

theorem eval_lift_bind : (lift y >>= f).eval s = y >>= fun a => (f a).eval s := by
  cases y with
  | ok a => rfl
  | err e => rfl
  | panic msg => rfl

theorem eval_bind_lift {g : α → Outcome ε β} :
    (x >>= fun a => lift (g a)).eval s = x.eval s >>= g := by
  simp only [eval, bind]
  cases x s with
  | ok r =>
    change eval (lift (g r.1)) r.2 = g r.1
    cases hg : g r.1 with
    | ok b => rfl
    | err e => rfl
    | panic msg => rfl
  | err r => rfl
  | panic msg => rfl

/-- When the first part does not return, the whole fails as it does. -/
theorem eval_bind_eq_err (h : ∀ r, x s ≠ .ok r) :
    (x >>= f).eval s = .err e ↔ x.eval s = .err e := by
  simp only [eval, bind]
  cases hx : x s with
  | ok r => exact absurd hx (h r)
  | err r =>
    change (.err r.1 : Outcome ε β) = .err e ↔ (.err r.1 : Outcome ε α) = .err e
    rw [Outcome.err.injEq, Outcome.err.injEq]
  | panic msg => exact iff_of_false (fun h => by cases h) fun h => by cases h

theorem eval_bind_of_eval (h : x.eval s = .err e) : (x >>= f).eval s = .err e := by
  refine (eval_bind_eq_err fun r hr => ?_).mpr h
  rw [eval, hr] at h
  cases h

theorem eval_zoom {view : τ → σ} {put : σ → τ → τ} {t : τ} :
    (zoom view put x).eval t = x.eval (view t) := by
  simp only [zoom, eval]
  cases x (view t) with
  | ok r => rfl
  | err r => rfl
  | panic msg => rfl

theorem Meets.after {P : σ → Prop} (h : Meets x s (fun _ => P) fun _ => P) (hs : P s) :
    P (x.after s) := by
  unfold Stateful.after
  cases hx : x s with
  | ok r => exact h.ok hx
  | err r => exact h.err hx
  | panic msg => exact hs

theorem Meets.mono (h : Meets x s Q E) (hQ : ∀ a s', Q a s' → Q' a s')
    (hE : ∀ e s', E e s' → E' e s') : Meets x s Q' E' :=
  ⟨fun hx => hQ _ _ (h.ok hx), fun hx => hE _ _ (h.err hx)⟩

theorem meets_pure (h : Q a s) : Meets (pure a : Stateful σ ε α) s Q E := by
  constructor
  · intro a' s' hx
    cases hx
    exact h
  · intro e s' hx
    cases hx

theorem Meets.bind (hx : Meets x s Q E) (hf : ∀ a s', Q a s' → Meets (f a) s' R E) :
    Meets (x >>= f) s R E := by
  have hbind : (x >>= f) s = x s >>= fun r => f r.1 r.2 := rfl
  constructor
  · intro b s' h
    rw [hbind, Outcome.bind_eq_ok] at h
    obtain ⟨r, hr, h⟩ := h
    exact (hf r.1 r.2 (hx.ok hr)).ok h
  · intro e s' h
    rw [hbind] at h
    cases hr : x s with
    | ok r =>
      rw [hr] at h
      exact (hf r.1 r.2 (hx.ok hr)).err h
    | err r =>
      rw [hr] at h
      cases h
      exact hx.err hr
    | panic msg =>
      rw [hr] at h
      cases h

theorem meets_modify {g : σ → σ} {P : Unit → σ → Prop} (hs : P () (g s)) :
    Meets (modify g : Stateful σ ε Unit) s P E := by
  constructor
  · intro a s' hx
    cases hx
    exact hs
  · intro e s' hx
    cases hx

theorem meets_fail (he : E e s) : Meets (fail e : Stateful σ ε α) s Q E := by
  constructor
  · intro a s' hx
    cases hx
  · intro e' s' hx
    cases hx
    exact he

theorem meets_lift (hok : ∀ a, y = .ok a → Q a s) (herr : ∀ e, y = .err e → E e s) :
    Meets (lift y) s Q E := by
  cases y with
  | ok a =>
    constructor
    · intro a' s' hx
      cases hx
      exact hok a rfl
    · intro e s' hx
      cases hx
  | err e =>
    constructor
    · intro a s' hx
      cases hx
    · intro e' s' hx
      cases hx
      exact herr e rfl
  | panic msg =>
    constructor
    · intro a s' hx
      cases hx
    · intro e s' hx
      cases hx

/-! Sequences that start with one of the basic computations, whose effect is known. -/

theorem Meets.get_bind {f : σ → Stateful σ ε β} (h : Meets (f s) s R E) : Meets (get >>= f) s R E :=
  ⟨h.ok, h.err⟩

theorem Meets.modify_bind {g : σ → σ} {f : Unit → Stateful σ ε β} (h : Meets (f ()) (g s) R E) :
    Meets (modify g >>= f) s R E :=
  ⟨h.ok, h.err⟩

theorem Meets.pure_bind (h : Meets (f a) s R E) : Meets (pure a >>= f) s R E :=
  ⟨h.ok, h.err⟩

theorem Meets.lift_bind (hok : ∀ a, y = .ok a → Meets (f a) s R E)
    (herr : ∀ e, y = .err e → E e s) : Meets (lift y >>= f) s R E := by
  refine .bind (Q := fun a s' => y = .ok a ∧ s = s') (meets_lift (fun a ha => ⟨ha, rfl⟩) herr) ?_
  rintro a _ ⟨ha, rfl⟩
  exact hok a ha

/-- A computation on a part of the state meets what it meets there. -/
theorem Meets.zoom {y : Stateful τ ε α} {view : σ → τ} {put : τ → σ → σ}
    (h : Meets y (view s) (fun a t => Q a (put t s)) fun e t => E e (put t s)) :
    Meets (Stateful.zoom view put y) s Q E := by
  unfold Stateful.zoom
  cases hy : y (view s) with
  | ok r =>
    constructor
    · intro a s' hx
      simp only [hy] at hx
      cases hx
      exact h.ok hy
    · intro e s' hx
      simp only [hy] at hx
      cases hx
  | err r =>
    constructor
    · intro a s' hx
      simp only [hy] at hx
      cases hx
    · intro e s' hx
      simp only [hy] at hx
      cases hx
      exact h.err hy
  | panic msg =>
    constructor
    · intro a s' hx
      simp only [hy] at hx
      cases hx
    · intro e s' hx
      simp only [hy] at hx
      cases hx

/-- The handler takes over in a state that the failure left. -/
theorem Meets.rescue {handler : ε → Stateful σ ε' α} {F : ε' → σ → Prop} (hx : Meets x s Q E)
    (hhandler : ∀ e s', E e s' → Meets (handler e) s' Q F) :
    Meets (Stateful.rescue x handler) s Q F := by
  unfold Stateful.rescue
  cases hs : x s with
  | ok r =>
    constructor
    · intro a s' h
      simp only [hs] at h
      cases h
      exact hx.ok hs
    · intro e s' h
      simp only [hs] at h
      cases h
  | err r =>
    have hr := hhandler r.1 r.2 (hx.err hs)
    constructor
    · intro a s' h
      simp only [hs] at h
      exact hr.ok h
    · intro e s' h
      simp only [hs] at h
      exact hr.err h
  | panic msg =>
    constructor
    · intro a s' h
      simp only [hs] at h
      cases h
    · intro e s' h
      simp only [hs] at h
      cases h

theorem meets_update {g : σ → Outcome ε σ} {P : Unit → σ → Prop}
    (hok : ∀ s', g s = .ok s' → P () s') (herr : ∀ e, g s = .err e → E e s) :
    Meets (update g) s P E := by
  unfold update
  cases hg : g s with
  | ok s1 =>
    constructor
    · intro a s' h
      simp only [hg] at h
      cases h
      exact hok s1 hg
    · intro e s' h
      simp only [hg] at h
      cases h
  | err e =>
    constructor
    · intro a s' h
      simp only [hg] at h
      cases h
    · intro e' s' h
      simp only [hg] at h
      cases h
      exact herr e hg
  | panic msg =>
    constructor
    · intro a s' h
      simp only [hg] at h
      cases h
    · intro e s' h
      simp only [hg] at h
      cases h

variable {body : β → α → Stateful σ ε β}

/-- A loop meets at its end what every round preserves of the accumulator, the elements still to
come and the state. -/
theorem Meets.fold {I : β → List α → σ → Prop}
    (hstep : ∀ {b a l s}, I b (a :: l) s → Meets (body b a) s (fun b' s' => I b' l s') E)
    {l : List α} {b : β} (h : I b l s) : Meets (fold body b l) s (fun b' s' => I b' [] s') E := by
  induction l generalizing b s with
  | nil => exact meets_pure h
  | cons a l ih => exact (hstep h).bind fun b' s' h' => ih h'

theorem Meets.forEach {body : α → Stateful σ ε Unit} {I : List α → σ → Prop}
    (hstep : ∀ {a l s}, I (a :: l) s → Meets (body a) s (fun _ s' => I l s') E)
    {l : List α} (h : I l s) : Meets (forEach body l) s (fun _ s' => I [] s') E := by
  induction l generalizing s with
  | nil => exact meets_pure h
  | cons a l ih => exact (hstep h).bind fun _ s' h' => ih h'

/-! ## Frames -/

/-- Whatever it returns, `x` takes a state to a related one. -/
def Preserves (R : σ → σ → Prop) (x : Stateful σ ε α) : Prop :=
  ∀ s, Meets x s (fun _ s' => R s s') fun _ s' => R s s'

section

variable {R : σ → σ → Prop}

theorem preserves_lift (hrefl : ∀ s, R s s) : Preserves R (lift y) :=
  fun s => meets_lift (fun _ _ => hrefl s) fun _ _ => hrefl s

theorem preserves_pure (hrefl : ∀ s, R s s) : Preserves R (pure a : Stateful σ ε α) :=
  fun s => meets_pure (hrefl s)

variable (htrans : ∀ {s1 s2 s3}, R s1 s2 → R s2 s3 → R s1 s3)
include htrans

theorem Preserves.bind (hx : Preserves R x) (hf : ∀ a, Preserves R (f a)) :
    Preserves R (x >>= f) := by
  intro s
  refine (hx s).bind fun a s1 h1 => ?_
  exact (hf a s1).mono (fun _ _ h2 => htrans h1 h2) fun _ _ h2 => htrans h1 h2

theorem Preserves.fold (hrefl : ∀ s, R s s) (hbody : ∀ b a, Preserves R (body b a)) (b : β)
    (l : List α) : Preserves R (fold body b l) := by
  induction l generalizing b with
  | nil => exact preserves_pure hrefl
  | cons a l ih => exact .bind htrans (hbody b a) fun b' => ih b'

end

end Stateful
