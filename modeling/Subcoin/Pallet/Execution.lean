import Subcoin.Lib.LastWrite
import Subcoin.Pallet.Bitcoin

/-!
# Subcoin — executing the transactions of a block

The runtime executes a block one transaction at a time. Seen from one outpoint this is a fold:
each transaction may take the coin there and may insert a new one (`coinAfter`). The fold says what
every lookup gives after the block (`coin_executePrefix`), and it says when execution returns
(`executeBlock_total`).
-/

namespace Subcoin.Pallet

variable {SE : Type} {env : Env SE} {height : Nat}

/-- What a sequence of transactions leaves at an outpoint that held `x`. -/
def coinAfter (env : Env SE) (height : Nat) (txs : List Subcoin.Transaction) (o : OutPoint)
    (x : Option Coin) : Option Coin :=
  txs.foldl
    (fun x tx =>
      (insertedCoin env height tx o).or (if o ∈ takenOutPoints tx then none else x)) x

@[simp] theorem coinAfter_nil (o : OutPoint) (x : Option Coin) :
    coinAfter env height [] o x = x := rfl

@[simp] theorem coinAfter_snoc (txs : List Subcoin.Transaction) (tx : Subcoin.Transaction)
    (o : OutPoint) (x : Option Coin) :
    coinAfter env height (txs ++ [tx]) o x =
      (insertedCoin env height tx o).or
        (if o ∈ takenOutPoints tx then none else coinAfter env height txs o x) := by
  simp [coinAfter]

/-! ## Execution -/

variable {txs : List Subcoin.Transaction}

theorem coin_executePrefix {st : State} (hlen : ∀ tx ∈ txs, tx.output.length ≤ 2 ^ 32)
    {st' : State} (h : executeBlock env height txs st = .ok st') (o : OutPoint) :
    st'.coin o = coinAfter env height txs o (st.coin o) := by
  refine Loop.forEnum_invariant
    (fun pre s => ∀ o, s.coin o = coinAfter env height pre o (st.coin o)) (fun _ => rfl) ?_ h o
  intro pre tx post s s' hsplit hinv hstep o
  have htx : tx.output.length ≤ 2 ^ 32 := hlen tx (by simp [hsplit])
  rw [coin_processBitcoinTransaction htx hstep, coinAfter_snoc, hinv o]

theorem executeBlock_total {st : State} (hlen : ∀ tx ∈ txs, tx.output.length ≤ 2 ^ 32) :
    (∃ st', executeBlock env height txs st = .ok st') ↔
      ∀ pre tx post, txs = pre ++ tx :: post →
        (takenOutPoints tx).Nodup ∧
          ∀ o ∈ takenOutPoints tx, (coinAfter env height pre o (st.coin o)).isSome = true := by
  constructor
  · rintro ⟨st', hrun⟩ pre tx post hsplit
    subst hsplit
    obtain ⟨s1, s2, hpre, hstep, _⟩ := Loop.forEnum_split hrun
    obtain ⟨hnodup, hpresent⟩ := processBitcoinTransaction_total.mp ⟨s2, hstep⟩
    refine ⟨hnodup, fun o ho => ?_⟩
    have hcoin := coin_executePrefix (fun t ht => hlen t (by simp [ht])) hpre o
    rw [← hcoin]
    exact hpresent o ho
  · intro hall
    -- Each step finds the coins it takes in the state the invariant describes.
    have hstep : ∀ pre tx post s, txs = pre ++ tx :: post →
        (∀ o, s.coin o = coinAfter env height pre o (st.coin o)) →
        ∃ s', processBitcoinTransaction env height s tx = .ok s' ∧
          ∀ o, s'.coin o = coinAfter env height (pre ++ [tx]) o (st.coin o) := by
      intro pre tx post s hsplit hinv
      obtain ⟨hnodup, hpresent⟩ := hall pre tx post hsplit
      have htotal : ∃ s', processBitcoinTransaction env height s tx = .ok s' :=
        processBitcoinTransaction_total.mpr
          ⟨hnodup, fun o ho => by rw [hinv o]; exact hpresent o ho⟩
      obtain ⟨s', hs'⟩ := htotal
      refine ⟨s', hs', fun o => ?_⟩
      have htx : tx.output.length ≤ 2 ^ 32 := hlen tx (by simp [hsplit])
      rw [coin_processBitcoinTransaction htx hs', coinAfter_snoc, hinv o]
    have hloop : ∃ st', executeBlock env height txs st = .ok st' ∧
        ∀ o, st'.coin o = coinAfter env height txs o (st.coin o) :=
      Loop.forEnum_total (fun pre (s : State) =>
        ∀ o, s.coin o = coinAfter env height pre o (st.coin o)) (fun _ => rfl) hstep
    obtain ⟨st', hrun, _⟩ := hloop
    exact ⟨st', hrun⟩

/-! ## The fold -/

theorem isSome_coinAfter_of_not_taken {o : OutPoint} {x : Option Coin}
    (h : ∀ tx ∈ txs, o ∉ takenOutPoints tx) :
    (coinAfter env height txs o x).isSome = true ↔
      x.isSome = true ∨ ∃ tx ∈ txs, (insertedCoin env height tx o).isSome = true := by
  induction txs using List.reverseRecOn with
  | nil => simp
  | append_singleton txs tx ih =>
    have hrest := ih fun t ht => h t (by simp [ht])
    have htx : o ∉ takenOutPoints tx := h tx (by simp)
    rw [coinAfter_snoc, if_neg htx, Option.isSome_or, Bool.or_eq_true, hrest]
    simp only [List.mem_append, List.mem_singleton]
    constructor
    · rintro (hins | hx | ⟨t, ht, hins⟩)
      · exact Or.inr ⟨tx, Or.inr rfl, hins⟩
      · exact Or.inl hx
      · exact Or.inr ⟨t, Or.inl ht, hins⟩
    · rintro (hx | ⟨t, ht | rfl, hins⟩)
      · exact Or.inr (Or.inl hx)
      · exact Or.inr (Or.inr ⟨t, ht, hins⟩)
      · exact Or.inl hins

theorem coinAfter_eq_after (txs : List Subcoin.Transaction) (o : OutPoint) (x : Option Coin) :
    coinAfter env height txs o x =
      LastWrite.after (fun tx => insertedCoin env height tx o) (fun tx => o ∈ takenOutPoints tx)
        txs x := rfl

/-- The coin at an outpoint after the transactions is the one that was there, untouched, or the
last one inserted, untouched since. -/
theorem coinAfter_eq_some {o : OutPoint} {x : Option Coin} {c : Coin} :
    coinAfter env height txs o x = some c ↔
      (x = some c ∧ ∀ tx ∈ txs, o ∉ takenOutPoints tx ∧ insertedCoin env height tx o = none) ∨
        ∃ pre tx post, txs = pre ++ tx :: post ∧ insertedCoin env height tx o = some c ∧
          ∀ t ∈ post, o ∉ takenOutPoints t ∧ insertedCoin env height t o = none :=
  LastWrite.after_eq_some

end Subcoin.Pallet
