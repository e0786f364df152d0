import Subcoin.Nakamoto.Accepted
import Subcoin.Nakamoto.Imported
import Subcoin.Pallet.Execution
import Subcoin.Reference

/-!
# Subcoin — the coin counter

`CoinsCount` is kept apart from `Coins`: a transaction adds the number of coins it creates and
subtracts the number of its inputs. A new coin that lands on an outpoint which still holds one
replaces it, and the counter counts both. Block verification does not look for that (there is no
BIP 30 check), so a coinbase with the txid of an earlier one, allowed below the BIP 34 height,
separates the two for good.

* **`count_processBitcoinTransaction`** — what one transaction does to the counter and to the
  number of entries: the difference between them grows by the coins overwritten.
* **`coins_count_iff`** — over a whole run of accepted blocks: the counter is right after every
  block exactly when nothing is ever overwritten, and its subtraction never underflows.
-/

namespace Subcoin.Pallet

variable {SE : Type} {env : Env SE} {height : Nat} {tx : Subcoin.Transaction} {st st' : State}

/-- The number of entries of `Coins`. -/
def State.entries (st : State) : Nat := st.coins.keys.card

/-! ## One transaction -/

variable (env) in
/-- A new coin of the transaction lands on an outpoint that holds a coin the transaction does not
spend. -/
def Overwrites (height : Nat) (st : State) (tx : Subcoin.Transaction) : Prop :=
  ∃ o, (insertedCoin env height tx o).isSome = true ∧ (st.coin o).isSome = true ∧
    o ∉ takenOutPoints tx

variable {coins : Coins}

theorem entries_takeCoins {ins : List Subcoin.TxIn} {i : Nat} {coins' : Coins}
    (h : Loop.forEnumFrom takeCoin i ins coins = .ok coins') :
    coins'.keys.card + ins.length = coins.keys.card := by
  induction ins generalizing i coins with
  | nil =>
    rw [Loop.forEnumFrom_nil, Outcome.ok.injEq] at h
    simp [h]
  | cons txin ins ih =>
    rw [Loop.forEnumFrom_cons, Outcome.bind_eq_ok] at h
    obtain ⟨coins1, hhead, hrest⟩ := h
    obtain ⟨hmem, rfl⟩ := takeCoin_eq_ok.mp hhead
    have herase := Finmap.card_keys_erase hmem
    have := ih hrest
    rw [List.length_cons]
    omega

/-- The new coins that land on an occupied outpoint. -/
def overwritten (coins : Coins) (new : List (OutPoint × Coin)) : List (OutPoint × Coin) :=
  new.filter fun e => decide (Runtime.OutPoint.ofBitcoin e.1 ∈ coins)

theorem entries_insertCoins {new : List (OutPoint × Coin)} (hnodup : (new.map Prod.fst).Nodup) :
    (insertCoins coins new).keys.card + (overwritten coins new).length =
      coins.keys.card + new.length := by
  induction new generalizing coins with
  | nil => rfl
  | cons e new ih =>
    rw [List.map_cons, List.nodup_cons] at hnodup
    -- the outpoints of the other new coins are occupied now exactly when they were before
    have hrest : overwritten (coins.insert (Runtime.OutPoint.ofBitcoin e.1) e.2) new =
        overwritten coins new := by
      refine List.filter_congr fun e' he' => ?_
      have hne : e'.1 ≠ e.1 := fun heq => hnodup.1 (List.mem_map.mpr ⟨e', he', heq⟩)
      have hkey : Runtime.OutPoint.ofBitcoin e'.1 ≠ Runtime.OutPoint.ofBitcoin e.1 :=
        fun heq => hne (Runtime.OutPoint.ofBitcoin_inj.mp heq)
      simp [Finmap.mem_insert, hkey]
    have hcard := Finmap.card_keys_insert coins (Runtime.OutPoint.ofBitcoin e.1) e.2
    have hnew : (insertCoins (coins.insert (Runtime.OutPoint.ofBitcoin e.1) e.2) new).keys.card +
        (overwritten coins new).length =
          (coins.insert (Runtime.OutPoint.ofBitcoin e.1) e.2).keys.card + new.length := by
      rw [← hrest]
      exact ih hnodup.2
    rw [insertCoins_cons, List.length_cons]
    by_cases hmem : Runtime.OutPoint.ofBitcoin e.1 ∈ coins
    · rw [if_pos hmem] at hcard
      rw [overwritten, List.filter_cons_of_pos (by simpa using hmem), List.length_cons,
        ← overwritten]
      omega
    · rw [if_neg hmem] at hcard
      rw [overwritten, List.filter_cons_of_neg (by simpa using hmem), ← overwritten]
      omega

theorem length_newCoins_le : (newCoins env height tx).length ≤ tx.output.length := by
  rw [newCoins]
  refine (List.length_filterMap_le _ _).trans ?_
  simp

/-- The outpoints of the new coins differ, as long as the output indices fit 32 bits. -/
theorem nodup_newCoins (hlen : tx.output.length ≤ 2 ^ 32) :
    ((newCoins env height tx).map Prod.fst).Nodup := by
  have hindex : tx.output.zipIdx.Pairwise fun a b => a.2 % 2 ^ 32 ≠ b.2 % 2 ^ 32 := by
    have hlt : tx.output.zipIdx.Pairwise fun a b => a.2 < b.2 := by
      rw [← List.pairwise_map, List.zipIdx_map_snd]
      exact List.pairwise_lt_range'
    refine hlt.imp_of_mem ?_
    intro a b _ hb hab
    have hb' := List.snd_lt_of_mem_zipIdx hb
    rw [Nat.mod_eq_of_lt (by omega), Nat.mod_eq_of_lt (by omega)]
    exact hab.ne
  rw [List.Nodup, List.pairwise_map]
  refine List.Pairwise.filterMap _ ?_ hindex
  rintro ⟨out, i⟩ ⟨out', i'⟩ hne e he e' he' heq
  dsimp only at he he' hne
  split at he
  · cases he
  · split at he'
    · cases he'
    · rw [Option.some.injEq] at he he'
      subst he he'
      simp only [OutPoint.mk.injEq, true_and] at heq
      exact hne heq

theorem mem_newCoins (hlen : tx.output.length ≤ 2 ^ 32) {o : OutPoint} :
    o ∈ (newCoins env height tx).map Prod.fst ↔ (createdCoin env height tx o).isSome = true := by
  have hindex : ∀ {out i}, tx.output[i]? = some out → i % 2 ^ 32 = i := by
    intro out i h
    obtain ⟨hi, _⟩ := List.getElem?_eq_some_iff.mp h
    exact Nat.mod_eq_of_lt (by omega)
  simp only [newCoins, createdCoin, List.mem_map, List.mem_filterMap, Prod.exists,
    List.mk_mem_zipIdx_iff_getElem?]
  constructor
  · rintro ⟨_, c, ⟨out, i, hout, he⟩, rfl⟩
    split at he
    · cases he
    · rename_i hop
      rw [Option.some.injEq, Prod.mk.injEq] at he
      obtain ⟨rfl, rfl⟩ := he
      rw [if_pos rfl, hindex hout, hout, Option.bind_some, if_neg hop]
      rfl
  · intro h
    split at h
    · rename_i htxid
      obtain ⟨c, hc⟩ := Option.isSome_iff_exists.mp h
      obtain ⟨out, hout, hcoin⟩ := Option.bind_eq_some_iff.mp hc
      split at hcoin
      · cases hcoin
      · rename_i hop
        refine ⟨o, coinOf height tx out, ⟨out, o.vout, hout, ?_⟩, rfl⟩
        rw [if_neg hop, hindex hout, ← htxid]
    · cases h

theorem overwritten_eq_nil (hlen : tx.output.length ≤ 2 ^ 32) :
    (overwritten coins (newCoins env height tx)).length = 0 ↔
      ∀ o, (createdCoin env height tx o).isSome = true →
        (coins.lookup (Runtime.OutPoint.ofBitcoin o)).isSome = false := by
  rw [List.length_eq_zero_iff, overwritten, List.filter_eq_nil_iff]
  constructor
  · intro h o ho
    obtain ⟨e, he, rfl⟩ := List.mem_map.mp ((mem_newCoins hlen).mpr ho)
    rw [← Bool.not_eq_true, Finmap.lookup_isSome]
    simpa using h e he
  · intro h e he
    have hnone := h e.1 ((mem_newCoins hlen).mp (List.mem_map.mpr ⟨e, he, rfl⟩))
    rw [← Bool.not_eq_true, Finmap.lookup_isSome] at hnone
    simpa using hnone

theorem wrappingSub_of_le {x y : Nat} (hx : x < 2 ^ 64) (h : y ≤ x) :
    wrappingSub 64 x y = x - y := by
  have hy : y % 2 ^ 64 = y := Nat.mod_eq_of_lt (by omega)
  have hsum : x + (2 ^ 64 - y) = x - y + 2 ^ 64 := by omega
  rw [wrappingSub, hy, hsum, Nat.add_mod_right, Nat.mod_eq_of_lt (by omega)]

/-- The inputs of a transaction that executes are different coins of the state. -/
theorem length_input_le_entries (h : processBitcoinTransaction env height st tx = .ok st')
    (hcb : tx.isCoinbase = false) : tx.input.length ≤ st.entries := by
  simp only [processBitcoinTransaction, hcb, Bool.false_and, Bool.false_eq_true, if_false,
    Outcome.bind_eq_ok] at h
  obtain ⟨coins', hrun, _⟩ := h
  have := entries_takeCoins hrun
  rw [State.entries]
  omega

/-- A coinbase overwrites what its outputs land on. -/
theorem overwritten_of_coinbase (hlen : tx.output.length ≤ 2 ^ 32) (hcb : tx.isCoinbase = true)
    (hex : height ∉ bip30ExceptionHeights) :
    (overwritten st.coins (newCoins env height tx)).length = 0 ↔ ¬ Overwrites env height st tx := by
  rw [overwritten_eq_nil hlen]
  simp [Overwrites, insertedCoin, takenOutPoints, hcb, hex, State.coin]

/-- Another transaction overwrites what its outputs land on once its inputs are taken. -/
theorem overwritten_of_takeCoins (hlen : tx.output.length ≤ 2 ^ 32) (hcb : tx.isCoinbase = false)
    {coins1 : Coins} (hrun : Loop.forEnum takeCoin tx.input st.coins = .ok coins1) :
    (overwritten coins1 (newCoins env height tx)).length = 0 ↔ ¬ Overwrites env height st tx := by
  rw [overwritten_eq_nil hlen]
  simp only [Overwrites, insertedCoin, takenOutPoints, hcb, Bool.false_and, Bool.false_eq_true,
    if_false, lookup_takeCoins hrun, State.coin, Transaction.spends]
  constructor
  · rintro hall ⟨o, ho, hold, hfree⟩
    have hnone := hall o ho
    rw [if_neg hfree, hold] at hnone
    cases hnone
  · intro hnot o ho
    split
    · rfl
    · rename_i hfree
      rw [← Bool.not_eq_true]
      exact fun hold => hnot ⟨o, ho, hold, hfree⟩

/-- A transaction raises the surplus of the counter over the number of entries by the coins it
overwrites. -/
theorem count_processBitcoinTransaction (hlen : tx.output.length ≤ 2 ^ 32) {k : Nat}
    (hcount : st.coinsCount = st.entries + k) (hbound : st.coinsCount + tx.output.length < 2 ^ 64)
    (h : processBitcoinTransaction env height st tx = .ok st') :
    ∃ j, st'.coinsCount = st'.entries + (k + j) ∧ (j = 0 ↔ ¬ Overwrites env height st tx) ∧
      st'.coinsCount ≤ st.coinsCount + tx.output.length := by
  have hnew : (newCoins env height tx).length ≤ tx.output.length := length_newCoins_le
  have hadd : wrappingAdd 64 st.coinsCount (newCoins env height tx).length =
      st.coinsCount + (newCoins env height tx).length := Nat.mod_eq_of_lt (by omega)
  rw [State.entries] at hcount
  cases hcb : tx.isCoinbase with
  | true =>
    by_cases hex : height ∈ bip30ExceptionHeights
    · -- the outputs of an exception are not inserted
      simp only [processBitcoinTransaction, hcb, hex, Bool.true_and, decide_true, if_true,
        Outcome.ok.injEq] at h
      subst h
      refine ⟨0, hcount, iff_of_true rfl ?_, Nat.le_add_right _ _⟩
      rintro ⟨o, ho, _⟩
      simp [insertedCoin, hcb, hex] at ho
    · simp only [processBitcoinTransaction, hcb, hex, Bool.true_and, decide_false,
        Bool.false_eq_true, if_false, if_true, Outcome.ok.injEq, hadd] at h
      subst h
      have hcard : (insertCoins st.coins (newCoins env height tx)).keys.card +
          (overwritten st.coins (newCoins env height tx)).length =
            st.coins.keys.card + (newCoins env height tx).length :=
        entries_insertCoins (nodup_newCoins hlen)
      refine ⟨_, ?_, overwritten_of_coinbase hlen hcb hex, ?_⟩
      · simp only [State.entries]
        omega
      · simp only
        omega
  | false =>
    have hins := length_input_le_entries h hcb
    simp only [processBitcoinTransaction, hcb, Bool.false_and, Bool.false_eq_true, if_false,
      Outcome.bind_eq_ok, Outcome.pure_eq_ok, Outcome.ok.injEq, hadd] at h
    obtain ⟨coins1, hrun, rfl⟩ := h
    rw [State.entries] at hins
    have htake := entries_takeCoins hrun
    have hcard : (insertCoins coins1 (newCoins env height tx)).keys.card +
        (overwritten coins1 (newCoins env height tx)).length =
          coins1.keys.card + (newCoins env height tx).length :=
      entries_insertCoins (nodup_newCoins hlen)
    have hsub : wrappingSub 64 (st.coinsCount + (newCoins env height tx).length) tx.input.length =
        st.coinsCount + (newCoins env height tx).length - tx.input.length :=
      wrappingSub_of_le (by omega) (by omega)
    refine ⟨_, ?_, overwritten_of_takeCoins hlen hcb hrun, ?_⟩
    · simp only [State.entries, hsub]
      omega
    · simp only [hsub]
      omega

/-! ## One block -/

/-- The outputs of some transactions, the data carriers included. -/
def outputCount (txs : List Subcoin.Transaction) : Nat :=
  (txs.map fun tx => tx.output.length).sum

variable (env) in
/-- No transaction of the list overwrites a coin when they are executed in order. -/
def NoOverwrite (height : Nat) (txs : List Subcoin.Transaction) (S : State) : Prop :=
  ∀ pre tx post s, txs = pre ++ tx :: post → executeBlock env height pre S = .ok s →
    ¬ Overwrites env height s tx

variable {S S' : State} {txs : List Subcoin.Transaction}

theorem noOverwrite_snoc {s : State} (hrun : executeBlock env height txs S = .ok s) :
    NoOverwrite env height (txs ++ [tx]) S ↔
      NoOverwrite env height txs S ∧ ¬ Overwrites env height s tx := by
  constructor
  · intro h
    refine ⟨?_, h txs tx [] s rfl hrun⟩
    rintro pre t post s' rfl hpre
    exact h pre t (post ++ [tx]) s' (by simp) hpre
  · rintro ⟨h, hlast⟩ pre t post s' hsplit hpre
    rcases Loop.split_snoc hsplit with ⟨rfl, rfl, _⟩ | ⟨post', _, htxs⟩
    · rw [hrun, Outcome.ok.injEq] at hpre
      exact hpre ▸ hlast
    · exact h pre t post' s' htxs hpre

theorem count_executeBlock (hlen : ∀ tx ∈ txs, tx.output.length ≤ 2 ^ 32) {k : Nat}
    (hcount : S.coinsCount = S.entries + k) (hbound : S.coinsCount + outputCount txs < 2 ^ 64)
    (h : executeBlock env height txs S = .ok S') :
    ∃ j, S'.coinsCount = S'.entries + (k + j) ∧ (j = 0 ↔ NoOverwrite env height txs S) ∧
      S'.coinsCount ≤ S.coinsCount + outputCount txs := by
  refine Loop.forEnum_run_invariant (fun pre s => ∃ j, s.coinsCount = s.entries + (k + j) ∧
    (j = 0 ↔ NoOverwrite env height pre S) ∧ s.coinsCount ≤ S.coinsCount + outputCount pre)
    ?_ ?_ h
  · exact ⟨0, hcount, iff_of_true rfl (by simp [NoOverwrite]), Nat.le_add_right _ _⟩
  · rintro pre tx post s s' hsplit hrun ⟨j, hs, hclean, hle⟩ hstep
    have hsum : outputCount pre + tx.output.length ≤ outputCount txs := by
      simp only [outputCount, hsplit, List.map_append, List.map_cons, List.sum_append,
        List.sum_cons]
      omega
    obtain ⟨i, hs', hi, hle'⟩ :=
      count_processBitcoinTransaction (hlen tx (by simp [hsplit])) hs (by omega) hstep
    refine ⟨j + i, by rw [hs', Nat.add_assoc k j i], ?_, ?_⟩
    · rw [noOverwrite_snoc hrun, Nat.add_eq_zero_iff, hclean, hi]
    · simp only [outputCount, List.map_append, List.sum_append, List.map_cons, List.map_nil,
        List.sum_cons, List.sum_nil] at hle ⊢
      omega

end Subcoin.Pallet

namespace Subcoin

open Pallet (State executeBlock outputCount newCoins)

variable {SE : Type} {env : Env SE} {nenv : NodeEnv SE}

/-! ## Runs -/

/-- The state after executing some blocks on the empty state, the first one at height 1. -/
def replay (env : Env SE) (blocks : List Block) : Outcome Empty State :=
  Loop.forEnum (fun S i block => executeBlock env (i + 1) block.txdata S) blocks State.empty

/-- Each block passed full verification against the state its predecessors left. The verifiers may
differ in script engine, network and build, and their clocks and clients are arbitrary. -/
def AcceptedRun (nenv : NodeEnv SE) (blocks : List Block) : Prop :=
  ∀ pre block post, blocks = pre ++ block :: post →
    ∃ v build c now S, v.blockVerification = .full ∧ replay nenv.toEnv pre = .ok S ∧
      utxoView build c (pre.length + 1) = S.coin ∧
      verifyBlock nenv v build c now (pre.length + 1) block = .ok ()

/-- The counter is the number of entries after each block. -/
def CountsAgree (env : Env SE) (blocks : List Block) : Prop :=
  ∀ pre post S, blocks = pre ++ post → replay env pre = .ok S → S.coinsCount = S.entries

/-- At no transaction of the run does the update of the counter leave the 64-bit range, in the
addition or in the subtraction. -/
def NeverUnderflows (env : Env SE) (blocks : List Block) : Prop :=
  ∀ pre block post S, blocks = pre ++ block :: post → replay env pre = .ok S →
    ∀ txpre tx txpost s, block.txdata = txpre ++ tx :: txpost →
      executeBlock env (pre.length + 1) txpre S = .ok s → tx.isCoinbase = false →
      s.coinsCount + (newCoins env (pre.length + 1) tx).length < 2 ^ 64 ∧
        tx.input.length ≤ s.coinsCount + (newCoins env (pre.length + 1) tx).length

/-- No transaction of the run creates a coin at an outpoint that still holds one. -/
def NeverOverwrites (env : Env SE) (blocks : List Block) : Prop :=
  ∀ pre block post S, blocks = pre ++ block :: post → replay env pre = .ok S →
    Pallet.NoOverwrite env (pre.length + 1) block.txdata S

/-- What the size limit says about the outputs of an accepted block. -/
structure SmallBlock (block : Block) : Prop where
  output_length_le : ∀ tx ∈ block.txdata, tx.output.length ≤ 2 ^ 32
  output_count_le : outputCount block.txdata ≤ 1000000

theorem smallBlock_of_accepted {v : BlockVerifier} {build : Build} {c : Client}
    {now blockNumber : Nat} {block : Block} (hsize : ∀ tx, tx.output.length ≤ nenv.baseSize tx)
    (hfull : v.blockVerification = .full)
    (hok : verifyBlock nenv v build c now blockNumber block = .ok ()) : SmallBlock block := by
  obtain ⟨hsanity, _⟩ := (verifyBlock_full_iff hfull).mp hok
  refine ⟨(checkBlockSanity_eq_ok hsanity).1.output_length_le hsize, ?_⟩
  have hle : outputCount block.txdata ≤ (block.txdata.map nenv.baseSize).sum :=
    List.sum_le_sum fun tx _ => hsize tx
  have hblock := (size_and_root_of_checkBlockSanity hsanity).1
  rw [blockBaseSize, witnessScaleFactor, maxBlockWeight] at hblock
  omega

variable {blocks : List Block} {S : State}

theorem AcceptedRun.smallBlock (h : AcceptedRun nenv blocks)
    (hsize : ∀ tx, tx.output.length ≤ nenv.baseSize tx) : ∀ block ∈ blocks, SmallBlock block := by
  intro block hblock
  obtain ⟨pre, post, hsplit⟩ := List.append_of_mem hblock
  obtain ⟨v, build, c, now, S, hfull, _, _, hok⟩ := h pre block post hsplit
  exact smallBlock_of_accepted hsize hfull hok

theorem neverOverwrites_snoc {block : Block} (hrun : replay env blocks = .ok S) :
    NeverOverwrites env (blocks ++ [block]) ↔
      NeverOverwrites env blocks ∧ Pallet.NoOverwrite env (blocks.length + 1) block.txdata S := by
  constructor
  · intro h
    refine ⟨?_, h blocks block [] S rfl hrun⟩
    rintro pre b post S' rfl hpre
    exact h pre b (post ++ [block]) S' (by simp) hpre
  · rintro ⟨h, hlast⟩ pre b post S' hsplit hpre
    rcases Loop.split_snoc hsplit with ⟨rfl, rfl, _⟩ | ⟨post', _, hblocks⟩
    · rw [hrun, Outcome.ok.injEq] at hpre
      exact hpre ▸ hlast
    · exact h pre b post' S' hblocks hpre

section

variable (hsmall : ∀ block ∈ blocks, SmallBlock block) (hlen : blocks.length < 2 ^ 32)
  (h : replay env blocks = .ok S)

include hsmall hlen h

/-- The counter exceeds the number of entries by some surplus, which is zero as long as nothing has
been overwritten. -/
theorem surplus_replay :
    ∃ k, S.coinsCount = S.entries + k ∧ (k = 0 ↔ NeverOverwrites env blocks) ∧
      S.coinsCount ≤ 1000000 * blocks.length := by
  refine Loop.forEnum_run_invariant (fun pre S => ∃ k, S.coinsCount = S.entries + k ∧
    (k = 0 ↔ NeverOverwrites env pre) ∧ S.coinsCount ≤ 1000000 * pre.length) ?_ ?_ h
  · exact ⟨0, rfl, iff_of_true rfl (by simp [NeverOverwrites]), Nat.zero_le _⟩
  · rintro pre block post S1 S2 hsplit hrun ⟨k, hcount, hclean, hle⟩ hstep
    have hblock := hsmall block (by simp [hsplit])
    have hpre : pre.length < 2 ^ 32 := by
      rw [hsplit, List.length_append] at hlen
      omega
    have hout := hblock.output_count_le
    obtain ⟨j, hcount', hj, hle'⟩ :=
      Pallet.count_executeBlock hblock.output_length_le hcount (by omega) hstep
    refine ⟨k + j, hcount', ?_, ?_⟩
    · rw [neverOverwrites_snoc hrun, Nat.add_eq_zero_iff, hclean, hj]
    · rw [List.length_append, List.length_singleton]
      omega

theorem neverUnderflows_replay : NeverUnderflows env blocks := by
  rintro pre block post S1 hsplit hpre txpre tx txpost s htxs hexec hcb
  subst hsplit
  -- the whole run returns, so this transaction executed as well
  obtain ⟨S1', S2, hpre', hblock, _⟩ := Loop.forEnum_split h
  obtain rfl : S1 = S1' := by
    rw [replay, hpre', Outcome.ok.injEq] at hpre
    exact hpre.symm
  rw [htxs] at hblock
  obtain ⟨s', s2, hexec', hstep, _⟩ := Loop.forEnum_split hblock
  obtain rfl : s = s' := by
    rw [executeBlock, hexec', Outcome.ok.injEq] at hexec
    exact hexec.symm
  have hins := Pallet.length_input_le_entries hstep hcb
  have hnew : (newCoins env (pre.length + 1) tx).length ≤ tx.output.length :=
    Pallet.length_newCoins_le
  have hsmallBlock := hsmall block (by simp)
  rw [List.length_append, List.length_cons] at hlen
  obtain ⟨k, hcount, _, hle⟩ :=
    surplus_replay (fun b hb => hsmall b (by simp [hb])) (show pre.length < 2 ^ 32 by omega) hpre
  have hout : outputCount txpre + tx.output.length ≤ 1000000 := by
    have hall := hsmallBlock.output_count_le
    simp only [outputCount, htxs, List.map_append, List.map_cons, List.sum_append,
      List.sum_cons] at hall ⊢
    omega
  obtain ⟨j, hcount', _, hle'⟩ :=
    Pallet.count_executeBlock (fun t ht => hsmallBlock.output_length_le t (by simp [htxs, ht]))
      hcount (by omega) hexec
  constructor
  · omega
  · omega

end

/-- **The coin counter.** In a run of accepted blocks from the empty state the update of
`CoinsCount` never leaves the 64-bit range, and `CoinsCount` is the number of entries of `Coins`
after every block exactly when no transaction creates a coin at an outpoint that still holds one.
Block numbers have 32 bits, and no transaction has more outputs than bytes. -/
theorem coins_count_iff (nenv : NodeEnv SE) (hsize : ∀ tx, tx.output.length ≤ nenv.baseSize tx)
    (blocks : List Block) (S : State) (hlen : blocks.length < 2 ^ 32)
    (hacc : AcceptedRun nenv blocks) (hrun : replay nenv.toEnv blocks = .ok S) :
    NeverUnderflows nenv.toEnv blocks ∧
      (CountsAgree nenv.toEnv blocks ↔ NeverOverwrites nenv.toEnv blocks) := by
  have hsmall := hacc.smallBlock hsize
  refine ⟨neverUnderflows_replay hsmall hlen hrun, ?_⟩
  constructor
  · intro hagree
    obtain ⟨k, hcount, hk, _⟩ := surplus_replay hsmall hlen hrun
    have hfinal := hagree blocks [] S (List.append_nil blocks).symm hrun
    exact hk.mp (by omega)
  · rintro hclean pre post S1 rfl hpre
    rw [List.length_append] at hlen
    obtain ⟨k, hcount, hk, _⟩ :=
      surplus_replay (fun b hb => hsmall b (List.mem_append_left post hb)) (by omega) hpre
    have hcleanPre : NeverOverwrites nenv.toEnv pre := by
      rintro l b l' S' rfl hl
      exact hclean l b (l' ++ post) S' (by simp) hl
    rw [hk.mpr hcleanPre] at hcount
    exact hcount

/-! ## A coinbase twice -/

namespace CountSample

open Reference

def importer : BitcoinBlockImporter := ⟨⟨ChainParams.new paramsOf .bitcoin, .full, .core⟩, true⟩

def client : Client := Client.genesis Reference.env genesisBlock State.empty

def first : Block :=
  Reference.block (Reference.env.hashOf genesisBlock) 1231006600 0x1d00ffff 7
    [coinbase [1, 1] 5000000000]

/-- A second block, with the coinbase `script`. -/
def second (script : List UInt8) : Block :=
  Reference.block (Reference.env.hashOf first) 1231006700 0x1d00ffff 9
    [coinbase script 5000000000]

def firstState : State :=
  { coins := Pallet.insertCoins ∅ (newCoins Reference.env.toEnv 1 (coinbase [1, 1] 5000000000))
    coinsCount := 1 }

def secondState (script : List UInt8) : State :=
  { coins :=
      Pallet.insertCoins firstState.coins
        (newCoins Reference.env.toEnv 2 (coinbase script 5000000000))
    coinsCount := 2 }

/-- The client after the first block. -/
def node : Option Client :=
  importBlocks Reference.env importer Build.checked 1231006800 client [first]

/-- The node accepts the second block, and the state it holds for block 1 is `firstState`. -/
def accepts (script : List UInt8) (c : Client) : Bool :=
  decide (verifyBlock Reference.env importer.verifier Build.checked c 1231006800 2
      (second script) = .ok ()) &&
    decide ((c.hash 1).bind (fun h => (c.blocks h).bind StoredBlock.state) = some firstState)

theorem acceptedRun_second {script : List UInt8} (h : node.any (accepts script) = true) :
    AcceptedRun Reference.env [first, second script] := by
  obtain ⟨c, _, hacc⟩ := (Option.any_eq_true _ _).mp h
  rw [accepts, Bool.and_eq_true, decide_eq_true_eq, decide_eq_true_eq] at hacc
  obtain ⟨hok, hstate⟩ := hacc
  have hview : utxoView Build.checked c 2 = firstState.coin := by
    rw [utxoView_succ]
    funext o
    obtain ⟨p, hp, hblock⟩ := Option.bind_eq_some_iff.mp hstate
    rw [hp, Option.bind_some, Client.coinAt, hblock, Option.bind_some]
  intro pre block post hsplit
  cases pre with
  | nil =>
    rw [List.nil_append, List.cons.injEq] at hsplit
    obtain ⟨rfl, _⟩ := hsplit
    exact ⟨importer.verifier, Build.checked, client, 1231006800, State.empty, rfl, rfl,
      utxoView_genesis Reference.env Build.checked genesisBlock State.empty, by decide +kernel⟩
  | cons b pre =>
    cases pre with
    | nil =>
      simp only [List.cons_append, List.nil_append, List.cons.injEq] at hsplit
      obtain ⟨rfl, rfl, _⟩ := hsplit
      exact ⟨importer.verifier, Build.checked, c, 1231006800, firstState, rfl, by decide +kernel,
        hview, hok⟩
    | cons b' pre => simp at hsplit

end CountSample

open Reference CountSample in
/-- On the main network a second block with the coinbase of the first is accepted. It replaces the
coin of the first, and the counter says two. -/
theorem coinbase_overwritten :
    AcceptedRun Reference.env [first, second [1, 1]] ∧
      replay Reference.env.toEnv [first, second [1, 1]] = .ok (secondState [1, 1]) ∧
      (secondState [1, 1]).coinsCount = 2 ∧ (secondState [1, 1]).entries = 1 ∧
      ¬ CountsAgree Reference.env.toEnv [first, second [1, 1]] := by
  have hrun : replay Reference.env.toEnv [first, second [1, 1]] = .ok (secondState [1, 1]) := by
    decide +kernel
  have hentries : (secondState [1, 1]).entries = 1 := by decide +kernel
  refine ⟨acceptedRun_second (by decide +kernel), hrun, rfl, hentries, ?_⟩
  intro hagree
  have htwo : (secondState [1, 1]).coinsCount = 1 := by
    rw [hagree _ [] _ rfl hrun, hentries]
  cases htwo

open Reference CountSample in
/-- With another coinbase in the second block the counter stays right, so that nothing was
overwritten. -/
theorem coins_count_second :
    CountsAgree Reference.env.toEnv [first, second [1, 2]] ∧
      NeverOverwrites Reference.env.toEnv [first, second [1, 2]] := by
  have hrun : replay Reference.env.toEnv [first, second [1, 2]] = .ok (secondState [1, 2]) := by
    decide +kernel
  have hagree : CountsAgree Reference.env.toEnv [first, second [1, 2]] := by
    intro pre post S hsplit hpre
    match pre with
    | [] =>
      obtain rfl : State.empty = S := Outcome.ok.inj hpre
      rfl
    | [b] =>
      simp only [List.cons_append, List.cons.injEq] at hsplit
      obtain ⟨rfl, _⟩ := hsplit
      have hfirst : replay Reference.env.toEnv [first] = .ok firstState := by decide +kernel
      obtain rfl : firstState = S := Outcome.ok.inj (hfirst.symm.trans hpre)
      decide +kernel
    | [b, b'] =>
      simp only [List.cons_append, List.cons.injEq] at hsplit
      obtain ⟨rfl, rfl, _⟩ := hsplit
      obtain rfl : secondState [1, 2] = S := Outcome.ok.inj (hrun.symm.trans hpre)
      decide +kernel
    | _ :: _ :: _ :: _ => simp at hsplit
  refine ⟨hagree, ?_⟩
  exact (coins_count_iff Reference.env output_length_le_baseSize _ _ (by decide)
    (acceptedRun_second (by decide +kernel)) hrun).2.mp hagree

end Subcoin
