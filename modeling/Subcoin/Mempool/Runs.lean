import Subcoin.Mempool.Admission

/-!
# Subcoin — runs of the mempool

What a call does: an acceptance inserts some of the transactions it is offered, a removal takes
away the sets of entries it stages (`Stages`), with or without the coins they created. `Effect`
lists it for every call, and every invariant of the mempool is derived from that list.

* **`meets_exec`** — every call has one of the effects.
* **`pool_invariant`**, **`inner_invariant`** — what the effects preserve holds in every state of a
  run; for the entries alone it is enough to look at acceptances and stages.
-/

namespace Subcoin.Mempool

open Outcome Stateful MemPool

variable {ε SE : Type} {env : PoolEnv SE} {build : Build} {options : MemPoolOptions} {m : Moment}

/-- The transactions a call wants to have accepted. -/
def Call.offered : Call → List Transaction
  | .acceptSingleTransaction tx => [tx]
  | .acceptPackage transactions => transactions
  | _ => []

/-- The states between the rounds of `trim_to_size`. -/
inductive TrimRound (env : PoolEnv SE) (build : Build) (order : HashOrder) (maxSize : Nat)
    (inner : MemPoolInner) : MemPoolInner → Prop where
  | start : TrimRound env build order maxSize inner inner
  | round {u u' : MemPoolInner} {first : Indexed DescendantScoreKey}
      {rest : List (Indexed DescendantScoreKey)} :
      TrimRound env build order maxSize inner u → maxSize < u.totalTxSize →
      u.arena.byDescendantScore.elems = first :: rest →
      u.removeStaged env build order (u.arena.calculateDescendants order .empty first.id) false =
        (.ok u' : Outcome MempoolError MemPoolInner) →
      TrimRound env build order maxSize inner u'

variable {maxSize : Nat} {order : HashOrder} {cond : Moment → Call → MemPool → Prop} {p : MemPool}

/-- A trim that goes on has been called with too much in the mempool, and its rounds only remove
entries. -/
theorem TrimRound.start_spec {inner u : MemPoolInner}
    (h : TrimRound env build order maxSize inner u) :
    (maxSize < u.totalTxSize → maxSize < inner.totalTxSize) ∧
      ∀ {k e}, u.get k = some e → inner.get k = some e := by
  induction h with
  | start => exact ⟨fun h => h, fun h => h⟩
  | round _ hsize _ hremove ih =>
    refine ⟨fun _ => ih.1 hsize, fun {k e} hk => ih.2 ?_⟩
    rw [(removeStaged_spec hremove).get] at hk
    split at hk
    · cases hk
    · exact hk

/-- A call that finds the state `inner` stages a set of entries for removal, in the state `u`. Only
`trim_to_size` stages more than one, each in the state that the one before it left. -/
inductive Stages (env : PoolEnv SE) (build : Build) (m : Moment) (inner : MemPoolInner) :
    Call → MemPoolInner → HashSet EntryId → Prop where
  | trim {maxSize : Nat} {u : MemPoolInner} {first : Indexed DescendantScoreKey}
      {rest : List (Indexed DescendantScoreKey)} :
      TrimRound env build m.order maxSize inner u → maxSize < u.totalTxSize →
      u.arena.byDescendantScore.elems = first :: rest →
      Stages env build m inner (.trimToSize maxSize) u
        (u.arena.calculateDescendants m.order .empty first.id)
  | expire {maxAge cutoff : Int} {ids : List EntryId} :
      build.subSigned (MemPool.currentTime m) maxAge =
        (.ok cutoff : Outcome MempoolError Int) →
      MemPoolInner.expired inner.arena cutoff inner.arena.byEntryTime.elems =
        (.ok ids : Outcome MempoolError (List EntryId)) →
      Stages env build m inner (.expire maxAge) inner (HashSet.empty.extend ids)
  | block {confirmed : List Transaction} {block : H256} :
      Stages env build m inner (.removeForBlock confirmed block) inner
        (MemPool.expand m.order inner.arena (MemPool.confirmedIds env m inner confirmed))
  | conflicts {txs : List Transaction} :
      Stages env build m inner (.removeConflicts txs) inner
        (MemPool.expand m.order inner.arena (MemPool.conflictIds m inner txs))
  | reorg {height : Nat} {block : H256} {toRemove : HashSet EntryId} :
      MemPool.reorgIds env m inner height block = .ok toRemove →
      Stages env build m inner (.removeForReorg height block) inner
        (MemPool.expand m.order inner.arena toRemove)

/-! ## Removals -/

section

variable {p p' : MemPool} {inner u u' : MemPoolInner} {ids : HashSet EntryId}

variable {bad : ε → Prop}

theorem not_failsWith_indexAll {κ : Type} {l : List (Indexed κ)} :
    ¬ Outcome.FailsWith bad (u.arena.indexAll l) := by
  induction l with
  | nil => exact not_failsWith_pure
  | cons k l ih =>
    exact not_failsWith_bind not_failsWith_expect fun _ =>
      not_failsWith_bind ih fun _ => not_failsWith_pure

theorem not_failsWith_removeEntry {id : EntryId} :
    ¬ Outcome.FailsWith bad (u.removeEntry env build id) := by
  unfold MemPoolInner.removeEntry
  split
  · exact not_failsWith_pure
  · exact not_failsWith_bind not_failsWith_sub fun _ => not_failsWith_pure

theorem not_failsWith_updateSurvivors {metadata : List SurvivingChildMetadata} :
    ¬ Outcome.FailsWith bad (u.updateSurvivors env build order metadata) := by
  refine not_failsWith_bind (not_failsWith_foldlM (fun arena child => ?_) _ _)
    fun _ => not_failsWith_pure
  refine not_failsWith_bind not_failsWith_signed fun _ =>
    not_failsWith_bind not_failsWith_signed fun _ =>
      not_failsWith_bind not_failsWith_signed fun _ =>
        not_failsWith_bind not_failsWith_signed fun _ => ?_
  exact not_failsWith_bind not_failsWith_updateAncestorState fun _ =>
    not_failsWith_foldlM (fun _ _ => not_failsWith_updateAncestorState) _ _

/-- A removal returns or panics. -/
theorem not_failsWith_removeStaged :
    ¬ Outcome.FailsWith bad (u.removeStaged env build order ids false) :=
  not_failsWith_bind not_failsWith_pure fun _ =>
    not_failsWith_bind
      (not_failsWith_foldlM (fun _ _ => not_failsWith_removeEntry) _ _) fun _ =>
        not_failsWith_bind not_failsWith_updateSurvivors fun _ =>
          not_failsWith_bind not_failsWith_indexAll fun _ => not_failsWith_pure

/-- The rounds of a trim that returns. -/
theorem trimRound_of_ok {rounds : Nat} (hround : TrimRound env build order maxSize inner u)
    (h : u.trimRounds env build order maxSize rounds = (.ok u' : Outcome MempoolError _)) :
    TrimRound env build order maxSize inner u' := by
  induction rounds generalizing u with
  | zero => cases h
  | succ rounds ih =>
    rw [MemPoolInner.trimRounds] at h
    split at h
    · rename_i hsize
      split at h
      · cases h
        exact hround
      · rename_i first rest helems
        simp only [bind_eq_ok] at h
        obtain ⟨_, _, u1, hremove, h⟩ := h
        exact ih (hround.round hsize helems hremove) h
    · cases h
      exact hround

/-- The transactions of a set of entries. -/
def stagedTxs (m : Moment) (inner : MemPoolInner) (ids : HashSet EntryId) : List Transaction :=
  ((ids.iter m.order).filterMap inner.get).map TxMemPoolEntry.tx

/-- The removal of a set of entries, with the coins they created. -/
structure Swept (env : PoolEnv SE) (build : Build) (m : Moment) (p : MemPool)
    (ids : HashSet EntryId) (connect : CoinsViewCache → CoinsViewCache) (p' : MemPool) :
    Prop where
  inner : p.inner.removeStaged env build m.order ids false =
    (.ok p'.inner : Outcome MempoolError MemPoolInner)
  coins : p'.coinsCache = connect
    ((stagedTxs m p.inner ids).foldl (CoinsViewCache.removeMempoolTx env) p.coinsCache)

theorem meets_removeWithCoins :
    Stateful.Meets (removeWithCoins env build m ids) p
      (fun _ p' => Swept env build m p ids id p') fun _ _ => False := by
  refine meets_update (fun p' h => ?_) fun e h => ?_
  · simp only [bind_eq_ok] at h
    obtain ⟨inner, h, heq⟩ := h
    cases heq
    exact ⟨h, rfl⟩
  · have hfails : Outcome.FailsWith (fun _ => True) _ := ⟨e, h, trivial⟩
    exact not_failsWith_bind not_failsWith_removeStaged
      (fun _ => not_failsWith_pure) hfails

theorem meets_removeForBlock {confirmed : List Transaction} {block : H256} :
    Stateful.Meets (removeForBlock env build m confirmed block) p
      (fun _ p' => Swept env build m p
        (expand m.order p.inner.arena (confirmedIds env m p.inner confirmed))
        (CoinsViewCache.onBlockConnected · block) p') fun _ _ => False := by
  refine .get_bind (.bind meets_removeWithCoins fun _ p1 h1 => ?_)
  refine .modify_bind (meets_modify ⟨h1.inner, ?_⟩)
  show CoinsViewCache.onBlockConnected p1.coinsCache block = _
  rw [h1.coins]
  rfl

theorem meets_removeConflicts {txs : List Transaction} :
    Stateful.Meets (removeConflicts env build m txs) p
      (fun _ p' => Swept env build m p
        (expand m.order p.inner.arena (conflictIds m p.inner txs)) id p')
      fun _ _ => False := by
  refine .get_bind (.bind meets_removeWithCoins fun _ p1 h1 => ?_)
  exact meets_modify ⟨h1.inner, h1.coins⟩

/-- The entries that are no longer valid go with their descendants, if there are any. -/
theorem meets_removeForReorg {height : Nat} {block : H256} :
    Stateful.Meets (removeForReorg env build m height block) p
      (fun _ p' => ∃ toRemove, reorgIds env m p.inner height block = .ok toRemove ∧
        (toRemove.isEmpty = true ∧ p'.inner = p.inner ∧
            p'.coinsCache = p.coinsCache.onBlockConnected block ∨
          Swept env build m p (expand m.order p.inner.arena toRemove)
            (CoinsViewCache.onBlockConnected · block) p'))
      fun _ p' => p' = p := by
  refine .get_bind (.lift_bind (fun toRemove hids => ?_) fun _ _ => rfl)
  split
  · rename_i hempty
    exact meets_modify ⟨toRemove, hids, Or.inl ⟨hempty, rfl, rfl⟩⟩
  · refine .bind (meets_removeWithCoins.mono (fun _ _ h => h) fun _ _ h => h.elim)
      fun _ p1 h1 => .modify_bind (meets_modify ⟨toRemove, hids, Or.inr ⟨h1.inner, ?_⟩⟩)
    show CoinsViewCache.onBlockConnected p1.coinsCache block = _
    rw [h1.coins]
    rfl

theorem meets_onInner {f : MemPoolInner → Outcome MempoolError MemPoolInner} :
    Stateful.Meets (onInner f) p
      (fun _ p' => f p.inner = .ok p'.inner ∧ p'.coinsCache = p.coinsCache) fun _ p' => p' = p := by
  refine meets_update (fun p' h => ?_) fun _ _ => rfl
  simp only [bind_eq_ok] at h
  obtain ⟨inner, h, heq⟩ := h
  cases heq
  exact ⟨h, rfl⟩

end

/-! ## What a call does -/

/-- The tip that a call moves the coins to. -/
def Call.connect : Call → CoinsViewCache → CoinsViewCache
  | .removeForBlock _ block, coins => coins.onBlockConnected block
  | .removeForReorg _ block, coins => coins.onBlockConnected block
  | _, coins => coins

/-- What a call does to the entries and the coins, whatever it returns. -/
inductive Effect (env : PoolEnv SE) (build : Build) (options : MemPoolOptions) (m : Moment)
    (p : MemPool) : Call → MemPool → Prop where
  | admitted {call : Call} {wss : List ValidationWorkspace} {p' : MemPool}
      (admits : Admits env build options m p call.offered wss p') :
      Effect env build options m p call p'
  | failed {call : Call} {p' : MemPool}
      (fails : Fails env build options m p call.offered p') :
      Effect env build options m p call p'
  | trimmed {maxSize : Nat} {p' : MemPool}
      (rounds : TrimRound env build m.order maxSize p.inner p'.inner)
      (coins : p'.coinsCache = p.coinsCache) :
      Effect env build options m p (.trimToSize maxSize) p'
  | expired {maxAge : Int} {ids : HashSet EntryId} {p' : MemPool}
      (stages : Stages env build m p.inner (.expire maxAge) p.inner ids)
      (inner : p.inner.removeStaged env build m.order ids false =
        (.ok p'.inner : Outcome MempoolError MemPoolInner))
      (coins : p'.coinsCache = p.coinsCache) :
      Effect env build options m p (.expire maxAge) p'
  | swept {call : Call} {ids : HashSet EntryId} {p' : MemPool}
      (stages : Stages env build m p.inner call p.inner ids)
      (swept : Swept env build m p ids call.connect p') :
      Effect env build options m p call p'
  | moved {height : Nat} {block : H256} {p' : MemPool} (inner : p'.inner = p.inner)
      (coins : p'.coinsCache = p.coinsCache.onBlockConnected block) :
      Effect env build options m p (.removeForReorg height block) p'
  | kept {call : Call} {unbroadcast : HashSet Txid} {p' : MemPool}
      (inner : p'.inner = { p.inner with unbroadcast := unbroadcast })
      (coins : p'.coinsCache = p.coinsCache) :
      Effect env build options m p call p'

section

variable {p p' : MemPool} {call : Call}

theorem meets_exec : Stateful.Meets (exec env build options m call) p
    (fun _ p' => Effect env build options m p call p')
    fun _ p' => Effect env build options m p call p' := by
  have hsame : ∀ {call p'}, p' = p → Effect env build options m p call p' := by
    rintro call _ rfl
    exact .kept rfl rfl
  cases call with
  | acceptSingleTransaction tx =>
    refine meets_acceptSingleTransaction.mono ?_ fun _ p' h => .failed h
    rintro _ p' ⟨ws, h, _⟩
    exact .admitted h
  | acceptPackage transactions =>
    refine .bind (meets_acceptPackage.mono ?_ fun _ p' h => .failed h)
      fun _ p' h => meets_pure h
    rintro _ p' ⟨wss, h⟩
    exact .admitted h
  | trimToSize maxSize =>
    rw [exec, trimToSize]
    refine meets_onInner.mono ?_ fun _ _ h => hsame h
    rintro _ p' ⟨h, hcoins⟩
    exact .trimmed (trimRound_of_ok .start h) hcoins
  | expire maxAge =>
    rw [exec, expire]
    refine meets_onInner.mono ?_ fun _ _ h => hsame h
    rintro _ p' ⟨h, hcoins⟩
    simp only [MemPoolInner.expire, bind_eq_ok] at h
    obtain ⟨cutoff, hcutoff, ids, hids, h⟩ := h
    split at h
    · exact .kept (Outcome.ok.inj h).symm hcoins
    · exact .expired (.expire hcutoff hids) h hcoins
  | removeForBlock confirmed block =>
    exact meets_removeForBlock.mono (fun _ p' h => .swept .block h) fun _ _ h => h.elim
  | removeConflicts txs =>
    exact meets_removeConflicts.mono (fun _ p' h => .swept .conflicts h) fun _ _ h => h.elim
  | removeForReorg height block =>
    refine meets_removeForReorg.mono ?_ fun _ _ h => hsame h
    rintro _ p' ⟨toRemove, hids, ⟨_, hinner, hcoins⟩ | h⟩
    · exact .moved hinner hcoins
    · exact .swept (.reorg hids) h
  | markBroadcastTxs txids => exact meets_modify (.kept rfl rfl)

/-- An invariant of the entries and the coins holds in every state of a run, when every effect of
a call that meets the condition of the run preserves it. -/
theorem pool_invariant {I : MemPool → Prop} (hnew : ∀ client, I (.new client))
    (hstep : ∀ {m call p p'}, Reachable env build options cond p → cond m call p → I p → Effect
      env build options m p call p' → I p') (h : Reachable env build options cond p) : I p := by
  induction h with
  | new client => exact hnew client
  | step m call hp hcond hexec ih => exact hstep hp hcond ih (meets_exec.leaves hexec)

theorem Reachable.mono {cond' : Moment → Call → MemPool → Prop}
    (h : Reachable env build options cond p)
    (hcond : ∀ {m call p}, cond m call p → cond' m call p) :
    Reachable env build options cond' p := by
  induction h with
  | new client => exact .new client
  | step m call _ hc hexec ih => exact ih.step m call (hcond hc) hexec

end

/-! ## Invariants of the entries -/

/-- An invariant that survives the removal of every set a call stages. -/
def SurvivesStages (env : PoolEnv SE) (build : Build) (m : Moment) (call : Call)
    (inner : MemPoolInner) (I : MemPoolInner → Prop) : Prop :=
  ∀ {u ids u'}, Stages env build m inner call u ids → I u →
    u.removeStaged env build m.order ids false = (.ok u' : Outcome MempoolError MemPoolInner) →
    I u'

section

variable {I : MemPoolInner → Prop}

theorem trimRound_survives {inner u : MemPoolInner}
    (hstages : SurvivesStages env build m (.trimToSize maxSize) inner I) (hI : I inner)
    (h : TrimRound env build m.order maxSize inner u) : I u := by
  induction h with
  | start => exact hI
  | round hround hsize helems hremove ih => exact hstages (.trim hround hsize helems) ih hremove

/-- An invariant of the entries after a call. -/
theorem inner_of_effect {call : Call} {p' : MemPool} (hI : I p.inner)
    (haccept : ∀ {wss inner'}, Accepted env build options m p.inner call.offered wss inner' → I
      inner') (hstages : SurvivesStages env build m call p.inner I)
    (hmark : ∀ {u : MemPoolInner} {unbroadcast}, I u → I { u with unbroadcast := unbroadcast })
    (h : Effect env build options m p call p') : I p'.inner := by
  cases h with
  | admitted h => exact haccept h.accepted
  | failed h =>
    obtain ⟨wss, h⟩ := h.accepted
    exact haccept h
  | trimmed rounds _ => exact trimRound_survives hstages hI rounds
  | expired stages inner _ => exact hstages stages hI inner
  | swept stages swept => exact hstages stages hI swept.inner
  | moved inner _ => exact inner ▸ hI
  | kept inner _ => exact inner ▸ hmark hI

/-- An invariant of the entries holds in every state of a run, when acceptances and removals that
meet the condition of the run preserve it. -/
theorem inner_invariant (hnew : I .new)
    (haccept : ∀ {m call p wss inner'}, cond m call p → I p.inner → Accepted env build options m
      p.inner call.offered wss inner' → I inner')
    (hstages : ∀ {m call p}, cond m call p → SurvivesStages env build m call p.inner I)
    (hmark : ∀ {u : MemPoolInner} {unbroadcast}, I u → I { u with unbroadcast := unbroadcast })
    (h : Reachable env build options cond p) : I p.inner :=
  pool_invariant (I := fun p => I p.inner) (fun _ => hnew)
    (fun _ hcond hI => inner_of_effect hI (haccept hcond hI) (hstages hcond) hmark) h

end

/-! ## Runs that can be evaluated -/

/-- The state that calls leave, one after the other, unless one of them does not pass the check or
panics. -/
def runIf (env : PoolEnv SE) (build : Build) (options : MemPoolOptions)
    (check : Moment → Call → MemPool → Bool) : List (Moment × Call) → MemPool → Option MemPool
  | [], p => some p
  | (m, call) :: calls, p =>
    if check m call p then
      match exec env build options m call p with
      | .ok (_, p') => runIf env build options check calls p'
      | .err (_, p') => runIf env build options check calls p'
      | .panic _ => none
    else none

def run (env : PoolEnv SE) (build : Build) (options : MemPoolOptions) :
    List (Moment × Call) → MemPool → Option MemPool :=
  runIf env build options fun _ _ _ => true

variable {calls : List (Moment × Call)} {P : MemPool → Bool}

/-- Calls that meet a condition because they pass a check, to a state with a property that can be
evaluated. -/
theorem exists_runIf {check : Moment → Call → MemPool → Bool}
    (hcheck : ∀ {m call p}, (m, call) ∈ calls → check m call p = true → cond m call p)
    (hp : Reachable env build options cond p)
    (h : (runIf env build options check calls p).any P = true) :
    ∃ p', Reachable env build options cond p' ∧ P p' = true := by
  induction calls generalizing p with
  | nil => exact ⟨p, hp, h⟩
  | cons head calls ih =>
    obtain ⟨m, call⟩ := head
    have hrest : ∀ {m' call' p'}, (m', call') ∈ calls → check m' call' p' = true →
        cond m' call' p' := fun hmem => hcheck (List.mem_cons_of_mem _ hmem)
    unfold runIf at h
    split at h
    · rename_i hpasses
      have hcond := hcheck List.mem_cons_self hpasses
      split at h
      · rename_i r p1 hexec
        exact ih hrest (hp.step m call hcond (Or.inl ⟨r, hexec⟩)) h
      · rename_i e p1 hexec
        exact ih hrest (hp.step m call hcond (Or.inr ⟨e, hexec⟩)) h
      · cases h
    · cases h

/-- A run that ends in a state with a property that can be evaluated. -/
theorem exists_reachable {client : Client}
    (h : (run env build options calls (.new client)).any P = true) :
    ∃ p, Reachable env build options (fun _ _ _ => True) p ∧ P p = true :=
  exists_runIf (fun _ _ => trivial) (.new client) h

/-- One call under a condition, to such a state. -/
theorem exists_step {m : Moment} {call : Call}
    (hp : Reachable env build options cond p) (hcond : cond m call p)
    (h : (run env build options [(m, call)] p).any P = true) :
    ∃ p', Reachable env build options cond p' ∧ P p' = true := by
  unfold run runIf at h
  rw [if_pos rfl] at h
  split at h
  · rename_i r p1 hexec
    exact ⟨p1, hp.step m call hcond (Or.inl ⟨r, hexec⟩), h⟩
  · rename_i e p1 hexec
    exact ⟨p1, hp.step m call hcond (Or.inr ⟨e, hexec⟩), h⟩
  · cases h

end Subcoin.Mempool
