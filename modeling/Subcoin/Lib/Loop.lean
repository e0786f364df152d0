import Subcoin.Lib.Outcome

/-!
# Loops over a list, with an index

`forEnum body l s` is the loop `for (i, a) in l.iter().enumerate() { s = body(s, i, a)? }`: the
state is threaded through the items and the first error or panic ends it. The rules below are
stated with the *processed prefix* `pre` of the list, whose length is the running index, so that
an invariant can speak about everything the loop has seen.
-/

namespace Loop

open Outcome

variable {ε σ α : Type}

def forEnumFrom (body : σ → Nat → α → Outcome ε σ) : Nat → List α → σ → Outcome ε σ
  | _, [], s => .ok s
  | i, a :: l, s => body s i a >>= forEnumFrom body (i + 1) l

def forEnum (body : σ → Nat → α → Outcome ε σ) (l : List α) (s : σ) : Outcome ε σ :=
  forEnumFrom body 0 l s

@[simp] theorem forEnumFrom_nil (body : σ → Nat → α → Outcome ε σ) (i : Nat) (s : σ) :
    forEnumFrom body i [] s = .ok s := rfl

@[simp] theorem forEnumFrom_cons (body : σ → Nat → α → Outcome ε σ) (i : Nat) (a : α)
    (l : List α) (s : σ) :
    forEnumFrom body i (a :: l) s = body s i a >>= forEnumFrom body (i + 1) l := rfl

theorem forEnumFrom_append (body : σ → Nat → α → Outcome ε σ) (i : Nat) (l1 l2 : List α) (s : σ) :
    forEnumFrom body i (l1 ++ l2) s =
      forEnumFrom body i l1 s >>= forEnumFrom body (i + l1.length) l2 := by
  induction l1 generalizing i s with
  | nil => simp
  | cons a l1 ih =>
    simp only [List.cons_append, forEnumFrom_cons, List.length_cons, bind_assoc]
    congr 1
    funext s'
    rw [ih, show i + (l1.length + 1) = i + 1 + l1.length from by omega]

theorem forEnum_append (body : σ → Nat → α → Outcome ε σ) (l1 l2 : List α) (s : σ) :
    forEnum body (l1 ++ l2) s = forEnum body l1 s >>= forEnumFrom body l1.length l2 := by
  simpa [forEnum] using forEnumFrom_append body 0 l1 l2 s

/-! ## Splits of a list that grows at its end -/

variable {a : α} {l pre : List α} {body : σ → Nat → α → Outcome ε σ} {s s' : σ}

theorem split_snoc {post : List α} {b : α} (h : l ++ [a] = pre ++ b :: post) :
    (pre = l ∧ b = a ∧ post = []) ∨ ∃ post', post = post' ++ [a] ∧ l = pre ++ b :: post' := by
  rcases List.eq_nil_or_concat post with rfl | ⟨post', c, rfl⟩
  · obtain ⟨hl, hb⟩ := List.append_inj' h rfl
    simp only [List.cons.injEq, and_true] at hb
    exact Or.inl ⟨hl.symm, hb.symm, rfl⟩
  · have hassoc : pre ++ b :: (post' ++ [c]) = (pre ++ b :: post') ++ [c] := by simp
    rw [List.concat_eq_append, hassoc] at h
    obtain ⟨hl, ha⟩ := List.append_inj' h rfl
    simp only [List.cons.injEq, and_true] at ha
    exact Or.inr ⟨post', by rw [List.concat_eq_append, ha], hl⟩

/-- The last item with `P`, followed by items with `Q` only, is the last one of all or was there
before. -/
theorem exists_split_snoc {P Q : α → Prop} :
    (∃ pre b post, l ++ [a] = pre ++ b :: post ∧ P b ∧ ∀ x ∈ post, Q x) ↔
      P a ∨ (Q a ∧ ∃ pre b post, l = pre ++ b :: post ∧ P b ∧ ∀ x ∈ post, Q x) := by
  constructor
  · rintro ⟨pre, b, post, hsplit, hb, hpost⟩
    rcases split_snoc hsplit with ⟨_, rfl, _⟩ | ⟨post', rfl, hl⟩
    · exact Or.inl hb
    · exact Or.inr ⟨hpost a (by simp), pre, b, post', hl, hb, fun x hx => hpost x (by simp [hx])⟩
  · rintro (ha | ⟨ha, pre, b, post, rfl, hb, hpost⟩)
    · exact ⟨l, a, [], rfl, ha, by simp⟩
    · refine ⟨pre, b, post ++ [a], by simp, hb, ?_⟩
      intro x hx
      rcases List.mem_append.mp hx with hx | hx
      · exact hpost x hx
      · rw [List.mem_singleton] at hx
        exact hx ▸ ha

/-! ## Invariants on the processed prefix -/

variable {body' : σ → Nat → α → Outcome ε σ}

theorem forEnumFrom_transfer (Inv : List α → σ → Prop)
    (hstep : ∀ pre a post s s', l = pre ++ a :: post → Inv pre s → body s pre.length a = .ok s' →
      body' s pre.length a = .ok s' ∧ Inv (pre ++ [a]) s') :
    ∀ {pre post : List α} {s s' : σ}, l = pre ++ post → Inv pre s →
      forEnumFrom body pre.length post s = .ok s' →
      forEnumFrom body' pre.length post s = .ok s' ∧ Inv l s' := by
  -- on what is left to process: the step is taken at the position `pre.length`
  intro pre post
  induction post generalizing pre with
  | nil =>
    intro s s' hl hinv hrun
    refine ⟨hrun, ?_⟩
    rw [forEnumFrom_nil, Outcome.ok.injEq] at hrun
    simpa [hl, hrun] using hinv
  | cons a post ih =>
    intro s s' hl hinv hrun
    rw [forEnumFrom_cons, bind_eq_ok] at hrun
    obtain ⟨s1, hbody, hrest⟩ := hrun
    obtain ⟨hbody', hinv1⟩ := hstep pre a post s s1 hl hinv hbody
    have hlen : (pre ++ [a]).length = pre.length + 1 := by simp
    obtain ⟨hrest', hinv'⟩ := ih (show l = (pre ++ [a]) ++ post by simp [hl]) hinv1
      (by rw [hlen]; exact hrest)
    refine ⟨?_, hinv'⟩
    rw [forEnumFrom_cons, hbody', ok_bind, ← hlen]
    exact hrest'

/-- A run of one loop is a run of another when each of its steps is a step of the other; the
invariant that shows this holds at the end as well. -/
theorem forEnum_transfer (Inv : List α → σ → Prop) (hinit : Inv [] s)
    (hstep : ∀ pre a post s s', l = pre ++ a :: post → Inv pre s → body s pre.length a = .ok s' →
      body' s pre.length a = .ok s' ∧ Inv (pre ++ [a]) s') (hrun : forEnum body l s = .ok s') :
    forEnum body' l s = .ok s' ∧ Inv l s' :=
  forEnumFrom_transfer Inv hstep (List.nil_append l).symm hinit hrun

/-- What each step preserves, the whole loop preserves. The step may use where in the list it
happens. -/
theorem forEnum_invariant (Inv : List α → σ → Prop) (hinit : Inv [] s)
    (hstep : ∀ pre a post s s', l = pre ++ a :: post → Inv pre s → body s pre.length a = .ok s' →
      Inv (pre ++ [a]) s') (hrun : forEnum body l s = .ok s') : Inv l s' :=
  (forEnum_transfer Inv hinit
    (fun pre a post s s' hl hinv hbody => ⟨hbody, hstep pre a post s s' hl hinv hbody⟩) hrun).2

theorem forEnum_snoc {s1 s2 : σ} (hpre : forEnum body pre s = .ok s1)
    (hbody : body s1 pre.length a = .ok s2) : forEnum body (pre ++ [a]) s = .ok s2 := by
  rw [forEnum_append, hpre, ok_bind, forEnumFrom_cons, hbody]
  rfl

/-- The invariant rule for properties that speak about the run so far. -/
theorem forEnum_run_invariant (Inv : List α → σ → Prop) (hinit : Inv [] s)
    (hstep : ∀ pre a post s1 s2, l = pre ++ a :: post → forEnum body pre s = .ok s1 → Inv pre s1 →
      body s1 pre.length a = .ok s2 → Inv (pre ++ [a]) s2) (hrun : forEnum body l s = .ok s') :
    Inv l s' := by
  refine (forEnum_invariant (fun pre s1 => forEnum body pre s = .ok s1 ∧ Inv pre s1)
    ⟨rfl, hinit⟩ ?_ hrun).2
  rintro pre a post s1 s2 hl ⟨hpre, hinv⟩ hbody
  exact ⟨forEnum_snoc hpre hbody, hstep pre a post s1 s2 hl hpre hinv hbody⟩

/-- A loop that returns went through every item: the run splits at each of them. -/
theorem forEnum_split {post : List α} (hrun : forEnum body (pre ++ a :: post) s = .ok s') :
    ∃ s1 s2, forEnum body pre s = .ok s1 ∧ body s1 pre.length a = .ok s2 ∧
      forEnumFrom body (pre.length + 1) post s2 = .ok s' := by
  rw [forEnum_append, bind_eq_ok] at hrun
  obtain ⟨s1, hpre, hrest⟩ := hrun
  rw [forEnumFrom_cons, bind_eq_ok] at hrest
  obtain ⟨s2, hbody, hpost⟩ := hrest
  exact ⟨s1, s2, hpre, hbody, hpost⟩

theorem forEnumFrom_total (Inv : List α → σ → Prop)
    (hstep : ∀ pre a post s, l = pre ++ a :: post → Inv pre s → ∃ s', body s pre.length a = .ok s'
      ∧ Inv (pre ++ [a]) s') :
    ∀ {pre post : List α} {s : σ}, l = pre ++ post → Inv pre s →
      ∃ s', forEnumFrom body pre.length post s = .ok s' ∧ Inv l s' := by
  intro pre post
  induction post generalizing pre with
  | nil =>
    intro s hl hinv
    exact ⟨s, rfl, by simpa [hl] using hinv⟩
  | cons a post ih =>
    intro s hl hinv
    obtain ⟨s1, hbody, hinv1⟩ := hstep pre a post s hl hinv
    obtain ⟨s', hrun, hinv'⟩ := ih (show l = (pre ++ [a]) ++ post by simp [hl]) hinv1
    refine ⟨s', ?_, hinv'⟩
    rw [forEnumFrom_cons, hbody, ok_bind]
    simpa using hrun

/-- A loop whose steps all return under the invariant returns, and the invariant holds at its
end. -/
theorem forEnum_total (Inv : List α → σ → Prop) (hinit : Inv [] s)
    (hstep : ∀ pre a post s, l = pre ++ a :: post → Inv pre s → ∃ s', body s pre.length a = .ok s'
      ∧ Inv (pre ++ [a]) s') : ∃ s', forEnum body l s = .ok s' ∧ Inv l s' :=
  forEnumFrom_total Inv hstep (List.nil_append l).symm hinit

end Loop
