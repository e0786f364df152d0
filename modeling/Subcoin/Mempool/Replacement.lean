import Subcoin.Mempool.Aggregates
import Subcoin.Mempool.Orphans
import Subcoin.Mempool.PackageRules

/-!
# Subcoin — replacement by fee

What BIP 125 promises, and what `check_rbf_policy` makes of it. The rule on the fee is tested in
step 6 of `pre_checks`, which fills in the fee in step 14: a replacement is tested with a fee of
zero and never gets in. The rule on unconfirmed inputs is tested the wrong way round: it lets an
input through exactly when the entry it spends is to be replaced.

* **`replacement_iff`** — what the rules promise is kept only where they promise nothing.
* **`independent_iff`** — a replacement that passes, with whatever fee, is independent of what it
  replaces if and only if it spends no entry at all, and its other inputs exist.
-/

namespace Subcoin.Mempool

variable {SE : Type} {env : PoolEnv SE} {build : Build} {options : MemPoolOptions} {m : Moment}
  {p p' : MemPool} {inner : MemPoolInner} {tx : Transaction} {ws : ValidationWorkspace}
  {chain : H256 → Option Pallet.State} {block : H256} {k : EntryId} {set : ConflictSet}

/-! ## What the rules promise -/

/-- The entry spends an outpoint that the transaction spends. -/
def ConflictsWith (inner : MemPoolInner) (tx : Transaction) (k : EntryId) : Prop :=
  ∃ e, inner.get k = some e ∧ ∃ o ∈ tx.spends, o ∈ e.tx.spends

open Classical in
/-- The entries that a replacement has to evict: its conflicts, and what descends from them. -/
noncomputable def evicted (env : PoolEnv SE) (inner : MemPoolInner) (tx : Transaction) :
    Finset EntryId :=
  inner.arena.entries.keys.toFinset.filter (Descends env inner (ConflictsWith inner tx))

theorem mem_evicted : k ∈ evicted env inner tx ↔
    (∃ e, inner.get k = some e) ∧ Descends env inner (ConflictsWith inner tx) k := by
  classical
  rw [evicted, Finset.mem_filter, List.mem_toFinset, mem_keys_iff]

/-- The fee of the transaction exceeds the fees of what it evicts by the relay fee for its own size
and for the evicted size. -/
structure PaysForReplacement (chain : H256 → Option Pallet.State) (env : PoolEnv SE)
    (options : MemPoolOptions) (p : MemPool) (tx : Transaction)
    (found : List (OutPoint × PoolCoin)) (own replaced : Nat) : Prop where
  inputs : coinsOf (coinIn chain p.coinsCache) tx = some found
  ownFee : options.minRelayFeeRate.getFee (toSigned 64 (toVbytesCeil (env.txWeight tx))) =
    (.ok own : Outcome MempoolError Nat)
  replacedFee : options.minRelayFeeRate.getFee
    (sumOver p.inner TxMemPoolEntry.vsize (evicted env p.inner tx)) =
    (.ok replaced : Outcome MempoolError Nat)
  pays : sumOver p.inner (fun e => e.modifiedFee) (evicted env p.inner tx) + max own replaced +
    tx.outputValue ≤ (found.map fun q => q.2.output.value).sum
  more : sumOver p.inner (fun e => e.modifiedFee) (evicted env p.inner tx) + tx.outputValue <
    (found.map fun q => q.2.output.value).sum

/-- The rules of a replacement. -/
structure RbfRules (chain : H256 → Option Pallet.State) (env : PoolEnv SE)
    (options : MemPoolOptions) (p : MemPool) (tx : Transaction) : Prop where
  enabled : options.enableRbf = true
  signals : ∀ k e, p.inner.get k = some e → ConflictsWith p.inner tx k → e.signalsRbf = true
  confirmed : ∀ k e, p.inner.get k = some e → ¬ Names env tx e.tx
  count : (evicted env p.inner tx).card ≤ options.maxReplacementTxs
  fee : ∃ found own replaced, PaysForReplacement chain env options p tx found own replaced

/-- The transaction would be accepted if what it evicts were not there. -/
def OtherwiseAcceptable (env : PoolEnv SE) (build : Build) (options : MemPoolOptions) (m : Moment)
    (p : MemPool) (tx : Transaction) : Prop :=
  ∃ ids p₀, (∀ k, k ∈ ids ↔ k ∈ evicted env p.inner tx) ∧ Swept env build m p ids id p₀ ∧
    ∃ p₁, MemPool.acceptSingleTransaction env build options m tx p₀ = .ok ((), p₁)

/-- A transaction that keeps to the rules gets in and evicts what it has to, another one does
not. -/
structure ReplacementKept (chain : H256 → Option Pallet.State) (env : PoolEnv SE) (build : Build)
    (options : MemPoolOptions) (m : Moment) (p : MemPool) (tx : Transaction) : Prop where
  accepts : RbfRules chain env options p tx → OtherwiseAcceptable env build options m p tx →
    ∃ p', MemPool.acceptSingleTransaction env build options m tx p = .ok ((), p') ∧
      ∀ t, HasTx p'.inner t ↔
        t = tx ∨ ∃ k e, p.inner.get k = some e ∧ e.tx = t ∧ k ∉ evicted env p.inner tx
  rejects : ¬ RbfRules chain env options p tx →
    ∀ p', MemPool.acceptSingleTransaction env build options m tx p ≠ .ok ((), p')

/-- Nothing that conflicts with an entry gets in. -/
theorem not_accepted_of_conflict (hspends : NoDoubleSpends env p.inner)
    (hconflict : ConflictsWith p.inner tx k) :
    MemPool.acceptSingleTransaction env build options m tx p ≠ .ok ((), p') := by
  intro hok
  obtain ⟨ws, hadmits, _⟩ := meets_acceptSingleTransaction.ok hok
  obtain ⟨ws', hws', htx⟩ := hadmits.complete tx (by simp)
  have hunspent := (hadmits.vetting.vets.admissible ws' hws').unspent
  obtain ⟨e, he, o, ho, ho'⟩ := hconflict
  exact hspends.not_spent (hunspent o (htx.symm ▸ ho)) he ho'

/-- What the rules promise about a transaction in conflict with entries is kept if and only if they
do not promise to let it in. -/
theorem replacement_iff (hp : Reachable env build options (OffersDisjoint env) p)
    (hconflict : ConflictsWith p.inner tx k) :
    ReplacementKept chain env build options m p tx ↔
      ¬ (RbfRules chain env options p tx ∧ OtherwiseAcceptable env build options m p tx) := by
  have hnever : ∀ p', MemPool.acceptSingleTransaction env build options m tx p ≠ .ok ((), p') :=
    fun _ => not_accepted_of_conflict (noDoubleSpends_of_disjoint_run hp) hconflict
  constructor
  · intro hkept hpromised
    obtain ⟨p', hok, _⟩ := hkept.accepts hpromised.1 hpromised.2
    exact hnever p' hok
  · intro hnot
    constructor
    · intro hrules hacceptable
      exact absurd ⟨hrules, hacceptable⟩ hnot
    · intro _
      exact hnever

/-! ## What a replacement may spend -/

/-- No input of the replacement is an output of what it replaces, and every input that no direct
conflict spent is a coin of the chain. -/
structure Independent (chain : H256 → Option Pallet.State) (env : PoolEnv SE) (block : H256)
    (inner : MemPoolInner) (tx : Transaction) (set : ConflictSet) : Prop where
  outputs : ∀ k ∈ set.allConflicts, ∀ e, inner.get k = some e → ¬ Spends env tx e.tx
  confirmed : ∀ o ∈ tx.spends,
    (∀ k ∈ set.directConflicts, ∀ e, inner.get k = some e → o ∉ e.tx.spends) →
    InChain chain block o

/-- The inputs that no direct conflict spent exist, in the chain or in the mempool. -/
def OthersExist (chain : H256 → Option Pallet.State) (env : PoolEnv SE) (block : H256)
    (inner : MemPoolInner) (tx : Transaction) : Prop :=
  ∀ o ∈ tx.spends, (∀ k ∈ collectConflicts inner tx, ∀ e, inner.get k = some e → o ∉ e.tx.spends) →
    InChain chain block o ∨ HasOutput env inner o

theorem checkRbfPolicy_eq_ok (h : checkRbfPolicy env build options m inner ws = .ok set) :
    set.directConflicts = collectConflicts inner ws.tx ∧
      ∀ id ∈ inner.arena.parentIds ws.tx, id ∈ set.allConflicts := by
  simp only [checkRbfPolicy, Outcome.bind_eq_ok, Outcome.errIf_eq_ok] at h
  obtain ⟨_, _, _, _, _, _, replaced, _, _, hparents, _, _, _, _, _, _, _, _, _, _, _, _, h⟩ := h
  obtain rfl := Outcome.ok.inj h
  refine ⟨rfl, fun id hid => ?_⟩
  rw [List.any_eq_false] at hparents
  simpa using hparents id hid

/-- Of a replacement that passes with any fee: it is independent of what it replaces if and only if
it spends no output of an entry and its other inputs exist. -/
theorem independent_iff {cond : Moment → Call → MemPool → Prop}
    (hp : Reachable env build options cond p)
    (h : checkRbfPolicy env build options m p.inner ws = .ok set) :
    Independent chain env block p.inner ws.tx set ↔
      (∀ k e, p.inner.get k = some e → ¬ Spends env ws.tx e.tx) ∧
        OthersExist chain env block p.inner ws.tx := by
  obtain ⟨hdirect, hparents⟩ := checkRbfPolicy_eq_ok h
  constructor
  · intro hindependent
    constructor
    · -- an entry it spends is to be replaced: that is how the rule is tested
      intro k e he hspends
      have hmem : k ∈ p.inner.arena.parentIds ws.tx :=
        (byTxid_reachable hp).mem_parentIds.mpr ⟨e, he, hspends.names⟩
      exact hindependent.outputs k (hparents k hmem) e he hspends
    · intro o ho hunspent
      exact Or.inl (hindependent.confirmed o ho (hdirect ▸ hunspent))
  · intro hcond
    constructor
    · intro k _ e he
      exact hcond.1 k e he
    · intro o ho hunspent
      rcases hcond.2 o ho (hdirect ▸ hunspent) with hchain | ⟨k, e, he, hsome⟩
      · exact hchain
      · exact absurd ⟨o, ho, vout_of_outputAt hsome⟩ (hcond.1 k e he)

/-! ## Samples -/

namespace Reference

/-- A transaction that can be replaced. -/
def replaceable : Transaction :=
  { spendOf (coinAt 0) 90000 with
    input := [{ Subcoin.Reference.input (coinAt 0) unlockScript with sequence := 0xfffffffd }] }

/-- It pays forty thousand more. -/
def replacing : Transaction := spendOf (coinAt 0) 50000

/-- A replacement that spends the output of what it replaces. -/
def dependent : Transaction :=
  Subcoin.Reference.transaction
    [Subcoin.Reference.input (coinAt 0) unlockScript,
      Subcoin.Reference.input (outputOf replaceable) unlockScript] [⟨50000, lockScript⟩]

/-- `replacing` offered after an entry has been removed. -/
def offeredWithout (k : EntryId) (p : MemPool) :
    Outcome (MempoolError × MemPool) (Unit × MemPool) :=
  (MemPool.removeWithCoins Reference.env .checked moment (HashSet.empty.insert k) p).bind
    fun r => MemPool.acceptSingleTransaction Reference.env .checked .default moment replacing r.2

/-- The entry and the coins that let `replacing` keep to the rules. -/
structure Replaceable (p : MemPool) (k : EntryId) (e : TxMemPoolEntry)
    (found : List (OutPoint × PoolCoin)) : Prop where
  only : p.inner.arena.entries.keys = [k]
  entry : p.inner.get k = some e
  tx : e.tx = replaceable
  fee : e.modifiedFee = 10000
  size : e.vsize = 85
  coins : coinsOf (coinIn Reference.states p.coinsCache) replacing = some found
  value : (found.map fun q => q.2.output.value).sum = 100000
  offered : (offeredWithout k p).isOk = true

/-- The only entry of the mempool is `replaceable`, and nothing but it stands in the way. -/
def holdsReplaceable (p : MemPool) : Bool :=
  match p.inner.arena.entries.keys with
  | [k] =>
    (p.inner.get k).any
      (fun e => decide (e.tx = replaceable ∧ e.modifiedFee = 10000 ∧ e.vsize = 85)) &&
    (coinsOf (coinIn Reference.states p.coinsCache) replacing).any
      (fun found => decide ((found.map fun q => q.2.output.value).sum = 100000)) &&
    (offeredWithout k p).isOk
  | _ => false

theorem replaceable_of_holds (h : holdsReplaceable p = true) :
    ∃ k e found, Replaceable p k e found := by
  unfold holdsReplaceable at h
  split at h
  · rename_i k hkeys
    rw [Bool.and_eq_true, Bool.and_eq_true, Option.any_eq_true, Option.any_eq_true] at h
    obtain ⟨⟨⟨e, he, hentry⟩, found, hfound, hvalue⟩, hoffered⟩ := h
    obtain ⟨htx, hfee, hsize⟩ := of_decide_eq_true hentry
    exact ⟨k, e, found, hkeys, he, htx, hfee, hsize, hfound, of_decide_eq_true hvalue, hoffered⟩
  · cases h

section

variable {e : TxMemPoolEntry} {found : List (OutPoint × PoolCoin)}

section

variable (h : Replaceable p k e found)

include h

theorem Replaceable.conflicts : ConflictsWith p.inner replacing k := by
  refine ⟨e, h.entry, coinAt 0, by decide +kernel, ?_⟩
  rw [h.tx]
  decide +kernel

theorem Replaceable.eq_key {k' : EntryId} {e' : TxMemPoolEntry} (he' : p.inner.get k' = some e') :
    k' = k := by
  have hmem : k' ∈ p.inner.arena.entries.keys := mem_keys_iff.mpr ⟨e', he'⟩
  rw [h.only] at hmem
  exact List.mem_singleton.mp hmem

theorem Replaceable.eq_entry {k' : EntryId} {e' : TxMemPoolEntry} (he' : p.inner.get k' = some e') :
    e' = e := by
  obtain rfl := h.eq_key he'
  exact Option.some.inj (he'.symm.trans h.entry)

theorem Replaceable.evicted_eq : evicted Reference.env p.inner replacing = {k} := by
  ext k'
  rw [mem_evicted, Finset.mem_singleton]
  constructor
  · intro hk'
    obtain ⟨⟨e', he'⟩, _⟩ := hk'
    exact h.eq_key he'
  · intro hk'
    subst hk'
    exact ⟨⟨e, h.entry⟩, _, h.conflicts, .refl⟩

theorem Replaceable.rules : RbfRules Reference.states Reference.env .default p replacing := by
  have hevicted := h.evicted_eq
  have hout : replacing.outputValue = 50000 := by decide +kernel
  constructor
  · rfl
  · intro k' e' he' _
    rw [h.eq_entry he', TxMemPoolEntry.signalsRbf, h.tx]
    decide +kernel
  · intro k' e' he'
    rw [h.eq_entry he', h.tx]
    decide +kernel
  · rw [hevicted, Finset.card_singleton]
    decide
  · refine ⟨found, 85, 85, h.coins, by decide +kernel, ?_, ?_, ?_⟩
    · rw [hevicted, sumOver_singleton h.entry, h.size]
      rfl
    · rw [hevicted, sumOver_singleton h.entry, h.fee, h.value, hout]
      omega
    · rw [hevicted, sumOver_singleton h.entry, h.fee, h.value, hout]
      omega

theorem Replaceable.acceptable :
    OtherwiseAcceptable Reference.env .checked .default moment p replacing := by
  obtain ⟨⟨_, p₁⟩, hok⟩ := Outcome.isOk_eq_true.mp h.offered
  obtain ⟨⟨_, p₀⟩, hremove, haccept⟩ := Outcome.bind_eq_ok.mp hok
  refine ⟨HashSet.empty.insert k, p₀, fun k' => ?_, meets_removeWithCoins.ok hremove, p₁, haccept⟩
  rw [h.evicted_eq]
  simp

end

end

/-- The mempool with `replaceable`. -/
theorem exists_replaceable :
    ∃ p, Reachable Reference.env .checked .default (OffersDisjoint Reference.env) p ∧
      ∃ k e found, Replaceable p k e found := by
  have hrun : (run Reference.env .checked .default [(moment, .acceptSingleTransaction replaceable)]
      (.new client)).any holdsReplaceable = true := by decide +kernel
  have hdisjoint : OffersDisjoint Reference.env moment (.acceptSingleTransaction replaceable)
      (.new client) := by
    have hspends : ∀ a ∈ [replaceable], ∀ b ∈ [replaceable], ∀ o ∈ a.spends,
        o ∈ b.spends → Reference.env.computeTxid a = Reference.env.computeTxid b := by
      decide +kernel
    exact hspends
  obtain ⟨p, hp, hholds⟩ := exists_step (.new client) hdisjoint hrun
  exact ⟨p, hp, replaceable_of_holds hholds⟩

/-- The rules ask for a fee that has not been looked at. -/
theorem not_replacementKept :
    ∃ p, Reachable Reference.env .checked .default (OffersDisjoint Reference.env) p ∧
      ¬ ReplacementKept Reference.states Reference.env .checked .default moment p replacing := by
  obtain ⟨p, hp, k, e, found, h⟩ := exists_replaceable
  refine ⟨p, hp, fun hkept => ?_⟩
  obtain ⟨p', hok, _⟩ := hkept.accepts h.rules h.acceptable
  exact not_accepted_of_conflict (noDoubleSpends_of_disjoint_run hp) h.conflicts hok

/-- What spends the coin of `replaceable` for a lower fee. -/
def underpaying : Transaction := spendOf (coinAt 0) 95000

/-- A transaction that pays less than what it conflicts with stays out, as it should. -/
theorem replacementKept_of_underpaying :
    ∃ p, Reachable Reference.env .checked .default (OffersDisjoint Reference.env) p ∧
      ¬ RbfRules Reference.states Reference.env .default p underpaying ∧
      ReplacementKept Reference.states Reference.env .checked .default moment p underpaying := by
  obtain ⟨p, hp, k, e, found, h⟩ := exists_replaceable
  have hspends : underpaying.spends = replacing.spends := by decide +kernel
  have hconflict : ConflictsWith p.inner underpaying k := by
    rw [ConflictsWith, hspends]
    exact h.conflicts
  have hevicted : evicted Reference.env p.inner underpaying =
      evicted Reference.env p.inner replacing := by
    unfold evicted ConflictsWith
    rw [hspends]
  have hout : underpaying.outputValue = 95000 := by decide +kernel
  have hnot : ¬ RbfRules Reference.states Reference.env .default p underpaying := by
    intro hrules
    obtain ⟨found', own, replaced, hpays⟩ := hrules.fee
    -- both spend the same coin, of a hundred thousand
    have hfound : some found' = some found := by
      rw [← hpays.inputs, ← h.coins, coinsOf, coinsOf, hspends]
    have hmore := hpays.more
    rw [Option.some.inj hfound, hevicted, h.evicted_eq, sumOver_singleton h.entry, h.fee, h.value,
      hout] at hmore
    omega
  exact ⟨p, hp, hnot, (replacement_iff hp hconflict).mpr fun hpromised => hnot hpromised.1⟩

/-- The workspace of a transaction whose fee has been filled in. -/
def workspaceOf (tx : Transaction) : ValidationWorkspace :=
  { ValidationWorkspace.new Reference.env tx with modifiedFee := 100000 }

/-- `replacing` spends a coin of the chain and nothing of what it replaces. -/
theorem independent_replacing :
    ∃ p, Reachable Reference.env .checked .default (fun _ _ _ => True) p ∧
      ∃ set, checkRbfPolicy Reference.env .checked .default moment p.inner
          (workspaceOf replacing) = .ok set ∧
        Independent Reference.states Reference.env client.bestHash p.inner replacing set := by
  have hrun : (run Reference.env .checked .default [(moment, .acceptSingleTransaction replaceable)]
      (.new client)).any (fun p => holdsReplaceable p &&
        (checkRbfPolicy Reference.env .checked .default moment p.inner
          (workspaceOf replacing)).isOk) = true := by decide +kernel
  obtain ⟨p, hp, h⟩ := exists_reachable hrun
  rw [Bool.and_eq_true, Outcome.isOk_eq_true] at h
  obtain ⟨hholds, set, hset⟩ := h
  obtain ⟨k, e, found, h⟩ := replaceable_of_holds hholds
  refine ⟨p, hp, set, hset, ?_⟩
  refine (independent_iff hp hset).mpr ⟨?_, ?_⟩
  · intro k' e' he'
    rw [h.eq_entry he', h.tx]
    decide +kernel
  · intro o ho _
    have hcoins : ∀ o ∈ replacing.spends, ((Reference.states client.bestHash).bind
        fun state => state.coin o).isSome = true := by decide +kernel
    left
    obtain ⟨coin, hcoin⟩ := Option.isSome_iff_exists.mp (hcoins o ho)
    obtain ⟨state, hstate, hcoin⟩ := Option.bind_eq_some_iff.mp hcoin
    exact ⟨coin, state, hstate, hcoin⟩

/-- The policy lets a transaction replace the entry whose output it spends. -/
def replacesItsParent (p : MemPool) : Bool :=
  match checkRbfPolicy Reference.env .checked .default moment p.inner (workspaceOf dependent) with
  | .ok set => (set.allConflicts.iter moment.order).any fun k =>
    (p.inner.get k).any fun e => decide (Spends Reference.env dependent e.tx)
  | _ => false

theorem not_independent_dependent :
    ∃ p, Reachable Reference.env .checked .default (fun _ _ _ => True) p ∧
      ∃ set, checkRbfPolicy Reference.env .checked .default moment p.inner
          (workspaceOf dependent) = .ok set ∧
        ¬ Independent Reference.states Reference.env client.bestHash p.inner dependent set := by
  have hrun : (run Reference.env .checked .default [(moment, .acceptSingleTransaction replaceable)]
      (.new client)).any replacesItsParent = true := by decide +kernel
  obtain ⟨p, hp, h⟩ := exists_reachable hrun
  unfold replacesItsParent at h
  split at h
  · rename_i set hset
    rw [List.any_eq_true] at h
    obtain ⟨k, hk, h⟩ := h
    rw [Option.any_eq_true] at h
    obtain ⟨e, he, hspends⟩ := h
    refine ⟨p, hp, set, hset, fun hindependent => ?_⟩
    exact hindependent.outputs k (HashSet.mem_iter.mp hk) e he (of_decide_eq_true hspends)
  · cases h

end Reference

end Subcoin.Mempool
