import Subcoin.Lib.Loop

/-!
# The last write to a cell

A log of operations seen from one cell. An operation may write a value to the cell (`write`) and it
may clear it (`clears`); one that does both clears first. What the log leaves there is the last
value written and not cleared since (`after_eq_some`).
-/

namespace LastWrite

variable {α β : Type}

/-- What a log leaves in a cell that held `x`. -/
def after (write : α → Option β) (clears : α → Prop) [DecidablePred clears] (l : List α)
    (x : Option β) : Option β :=
  l.foldl (fun x a => (write a).or (if clears a then none else x)) x

variable {write write' : α → Option β} {clears : α → Prop} [DecidablePred clears]

@[simp] theorem after_nil (x : Option β) : after write clears [] x = x := rfl

theorem after_append (l1 l2 : List α) (x : Option β) :
    after write clears (l1 ++ l2) x = after write clears l2 (after write clears l1 x) :=
  List.foldl_append

theorem after_snoc (l : List α) (a : α) (x : Option β) :
    after write clears (l ++ [a]) x =
      (write a).or (if clears a then none else after write clears l x) :=
  after_append l [a] x

theorem after_map {γ : Type} (f : γ → α) (l : List γ) (x : Option β) :
    after write clears (l.map f) x = after (fun c => write (f c)) (fun c => clears (f c)) l x :=
  List.foldl_map

theorem after_congr {l : List α} (h : ∀ a ∈ l, write a = write' a) (x : Option β) :
    after write clears l x = after write' clears l x := by
  refine List.foldl_ext _ _ x ?_
  intro y a ha
  rw [h a ha]

/-- The cell holds the value it held before, untouched, or the last one written to it, untouched
since. -/
theorem after_eq_some {l : List α} {x : Option β} {v : β} :
    after write clears l x = some v ↔
      (x = some v ∧ ∀ a ∈ l, ¬ clears a ∧ write a = none) ∨
        ∃ pre a post, l = pre ++ a :: post ∧ write a = some v ∧
          ∀ b ∈ post, ¬ clears b ∧ write b = none := by
  induction l using List.reverseRecOn with
  | nil => simp
  | append_singleton l a ih =>
    have hall : (∀ b ∈ l ++ [a], ¬ clears b ∧ write b = none) ↔
        (∀ b ∈ l, ¬ clears b ∧ write b = none) ∧ ¬ clears a ∧ write a = none := by
      simp only [List.forall_mem_append, List.forall_mem_singleton]
    rw [after_snoc, hall, Loop.exists_split_snoc]
    -- a value the last operation writes hides everything before it; a value it clears is gone
    cases hwrite : write a with
    | some v' => simp
    | none =>
      by_cases hclears : clears a
      · simp [hclears]
      · rw [Option.none_or, if_neg hclears, ih]
        simp [hclears]

end LastWrite
