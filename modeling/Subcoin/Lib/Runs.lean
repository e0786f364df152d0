import Mathlib.Logic.Relation
import Subcoin.Lib.Outcome

/-!
# Runs of a machine

A machine has a state and operations on it; an operation returns a value and the next state, or
panics. `Runs init apply cond` are the states that operations reach one after the other, where each
operation meets the condition `cond` in the state it finds. An invariant of the machine is proved
by `Runs.invariant`: it holds at the start, and every operation keeps it.
-/

universe u

variable {σ ε α : Type} {ω : Type u}

/-- The states that operations reach from an initial one. -/
inductive Runs (init : σ → Prop) (apply : ω → σ → Outcome ε (α × σ)) (cond : ω → σ → Prop) :
    σ → Prop where
  | init {s : σ} : init s → Runs init apply cond s
  | step {s s' : σ} {a : α} (op : ω) : Runs init apply cond s → cond op s →
      apply op s = .ok (a, s') → Runs init apply cond s'

namespace Runs

variable {init : σ → Prop} {apply : ω → σ → Outcome ε (α × σ)} {cond cond' : ω → σ → Prop} {s : σ}

/-- The induction over a run: an operation may use everything that is known of the run so far. -/
theorem invariant {I : σ → Prop} (hinit : ∀ {s}, init s → I s)
    (hstep : ∀ {op s a s'}, Runs init apply cond s → cond op s → I s →
      apply op s = .ok (a, s') → I s') (h : Runs init apply cond s) : I s := by
  induction h with
  | init hs => exact hinit hs
  | step op hrun hcond happly ih => exact hstep hrun hcond ih happly

theorem mono (hcond : ∀ {op s}, cond op s → cond' op s) (h : Runs init apply cond s) :
    Runs init apply cond' s := by
  induction h with
  | init hs => exact .init hs
  | step op _ hop happly ih => exact ih.step op (hcond hop) happly

/-- What holds of every run holds of the states that the operations of a run find. -/
theorem and_of_runs {I : σ → Prop} (hinv : ∀ {s}, Runs init apply cond s → I s)
    (h : Runs init apply cond s) : Runs init apply (fun op s => cond op s ∧ I s) s := by
  induction h with
  | init hs => exact .init hs
  | step op hrun hop happly ih => exact ih.step op ⟨hop, hinv hrun⟩ happly

/-- The state that a list of operations leaves, unless one of them panics. -/
def exec (apply : ω → σ → Outcome ε (α × σ)) : List ω → σ → Option σ
  | [], s => some s
  | op :: ops, s =>
    match apply op s with
    | .ok (_, s') => exec apply ops s'
    | _ => none

variable {ops : List ω}

/-- A run that has been evaluated. -/
theorem of_exec {s' : σ} (h : Runs init apply cond s) (hcond : ∀ op ∈ ops, ∀ s, cond op s)
    (hexec : exec apply ops s = some s') : Runs init apply cond s' := by
  induction ops generalizing s with
  | nil =>
    cases hexec
    exact h
  | cons op ops ih =>
    unfold exec at hexec
    split at hexec
    · rename_i a s1 happly
      refine ih (h.step op (hcond op List.mem_cons_self s) happly) ?_ hexec
      exact fun op' hop' => hcond op' (List.mem_cons_of_mem _ hop')
    · cases hexec

/-- A run that has been evaluated, with a property of the state it leaves. -/
theorem exists_of_exec {P : σ → Bool} (hinit : init s) (hcond : ∀ op ∈ ops, ∀ s, cond op s)
    (hexec : (exec apply ops s).any P = true) : ∃ s', Runs init apply cond s' ∧ P s' = true := by
  rw [Option.any_eq_true] at hexec
  obtain ⟨s', hs', hP⟩ := hexec
  exact ⟨s', (Runs.init hinit).of_exec hcond hs', hP⟩

/-- A run whose conditions have been evaluated too. -/
theorem exists_of_checked {check : ω → σ → Bool} {P : σ → Bool} (h : Runs init apply cond s)
    (hcheck : ∀ op s, check op s = true → cond op s)
    (hexec : (exec (fun op s => if check op s = true then apply op s else .panic "not allowed")
      ops s).any P = true) : ∃ s', Runs init apply cond s' ∧ P s' = true := by
  induction ops generalizing s with
  | nil => exact ⟨s, h, hexec⟩
  | cons op ops ih =>
    unfold exec at hexec
    split at hexec
    · rename_i a s1 happly
      split at happly
      · rename_i hop
        exact ih (h.step op (hcheck op s hop) happly) hexec
      · cases happly
    · cases hexec

end Runs
