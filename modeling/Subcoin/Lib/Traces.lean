import Mathlib.Data.List.Basic

/-!
# Traces of a machine

A machine that always answers: an operation takes a state to an answer and the next state. Its trace
is the list of operations with their answers. What every step does, every element of the trace does
(`forall_mem`). An obligation that a step creates, that lasts until some step clears it, and that
keeps another thing from happening, separates the two in the trace (`exists_between`).
-/

namespace Trace

universe u

variable {σ α : Type} {ω : Type u} {step : ω → σ → α × σ} {s : σ} {ops : List ω}

/-- The operations with their answers. -/
def trace (step : ω → σ → α × σ) : σ → List ω → List (ω × α)
  | _, [] => []
  | s, op :: ops => (op, (step op s).1) :: trace step (step op s).2 ops

theorem forall_mem {P : ω × α → Prop} (h : ∀ op s, P (op, (step op s).1)) :
    ∀ x ∈ trace step s ops, P x := by
  induction ops generalizing s with
  | nil => exact nofun
  | cons op ops ih =>
    intro x hx
    rcases List.mem_cons.mp hx with rfl | hrest
    · exact h op s
    · exact ih x hrest

variable {post pre mid : List (ω × α)}

/-- What follows an element of the trace is the trace from the state that it leaves. -/
theorem exists_state {x : ω × α} (h : trace step s ops = pre ++ x :: post) :
    ∃ s' ops', x.2 = (step x.1 s').1 ∧ post = trace step (step x.1 s').2 ops' := by
  induction ops generalizing s pre with
  | nil => simp [trace] at h
  | cons op ops ih =>
    cases pre with
    | nil =>
      obtain ⟨hx, hpost⟩ := List.cons.inj h
      subst hx
      exact ⟨s, ops, rfl, hpost.symm⟩
    | cons y pre => exact ih (List.cons.inj h).2

/-- The obligation holds at the start: what it excludes comes only after it has been cleared. -/
theorem exists_clear {H : σ → Prop} {clears : ω → Prop} {asks : ω × α → Prop}
    (hkeep : ∀ op s, H s → ¬ clears op → H (step op s).2)
    (hno : ∀ op s, H s → ¬ asks (op, (step op s).1)) (hs : H s) {y : ω × α}
    (h : trace step s ops = mid ++ y :: post) (hy : asks y) : ∃ z ∈ mid, clears z.1 := by
  induction mid generalizing s ops with
  | nil =>
    cases ops with
    | nil => cases h
    | cons op ops =>
      obtain ⟨hx, -⟩ := List.cons.inj h
      subst hx
      exact absurd hy (hno op s hs)
  | cons z mid ih =>
    cases ops with
    | nil => cases h
    | cons op ops =>
      obtain ⟨hz, hrest⟩ := List.cons.inj h
      by_cases hclear : clears op
      · exact ⟨z, List.mem_cons_self, hz ▸ hclear⟩
      · obtain ⟨w, hw, hclears⟩ := ih (hkeep op s hs hclear) hrest
        exact ⟨w, List.mem_cons_of_mem z hw, hclears⟩

/-- A step creates an obligation, and a later one does what the obligation excludes: in between it
has been cleared. -/
theorem exists_between (H : σ → Prop) (clears : ω → Prop) (asks : ω × α → Prop) {x y : ω × α}
    (h : trace step s ops = pre ++ x :: (mid ++ y :: post))
    (hx : ∀ s, x.2 = (step x.1 s).1 → H (step x.1 s).2)
    (hkeep : ∀ op s, H s → ¬ clears op → H (step op s).2)
    (hno : ∀ op s, H s → ¬ asks (op, (step op s).1)) (hy : asks y) : ∃ z ∈ mid, clears z.1 := by
  obtain ⟨s', ops', hanswer, hrest⟩ := exists_state h
  exact exists_clear hkeep hno (hx s' hanswer) hrest.symm hy

end Trace
