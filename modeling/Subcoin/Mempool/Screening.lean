import Subcoin.Mempool.Links

/-!
# Subcoin — where the entries come from

Every entry records a transaction that a call of the run was offered and that passed the checks in
the state which that call found: against the entries of that state, at the moment of the call, and
with the coins of that state and the outputs of the members of its package vetted before it. No
other call of the mempool, and no call that fails half way, puts an entry there.

* **`screened_of_history`** — so it is after every run of calls.
-/

namespace Subcoin.Mempool

variable {SE : Type} {env : PoolEnv SE} {build : Build} {options : MemPoolOptions}
  {past : List (Moment × Call × MemPool)}

/-- A run of calls to a state, with the moment of each call, the call and the state it found. -/
inductive History (env : PoolEnv SE) (build : Build) (options : MemPoolOptions) :
    List (Moment × Call × MemPool) → MemPool → Prop where
  | new (client : Client) : History env build options [] (MemPool.new client)
  | step {past : List (Moment × Call × MemPool)} {p p' : MemPool} (m : Moment) (call : Call) :
      History env build options past p → (exec env build options m call).Leaves p p' →
      History env build options ((m, call, p) :: past) p'

theorem Reachable.exists_history {cond : Moment → Call → MemPool → Prop} {p : MemPool}
    (h : Reachable env build options cond p) : ∃ past, History env build options past p := by
  induction h with
  | new client => exact ⟨[], .new client⟩
  | step m call _ _ hexec ih =>
    obtain ⟨past, hpast⟩ := ih
    exact ⟨_, hpast.step m call hexec⟩

/-- A call at moment `m` that finds the state `q` vets `ws`, a transaction it is offered, with the
coins of `q` and those that the offered transactions vetted before it add. -/
def VettedIn (env : PoolEnv SE) (build : Build) (options : MemPoolOptions) (m : Moment)
    (call : Call) (q : MemPool) (ws : ValidationWorkspace) : Prop :=
  ws.tx ∈ call.offered ∧ ∃ before coins, (∀ other ∈ before, other.tx ∈ call.offered) ∧
    VetsAll env build options m m.client.bestNumber (MemPool.mtpAt env m q.coinsCache.bestBlock)
      q.inner q.coinsCache before coins ∧
    Vetted env build options m m.client.bestNumber (MemPool.mtpAt env m q.coinsCache.bestBlock)
      q.inner coins ws.tx ws

/-- Every entry is as it was recorded for a transaction that a call of the run vetted. -/
def Screened (env : PoolEnv SE) (build : Build) (options : MemPoolOptions)
    (past : List (Moment × Call × MemPool)) (inner : MemPoolInner) : Prop :=
  ∀ k e, inner.get k = some e → ∃ m call q, (m, call, q) ∈ past ∧
    ∃ ws ctx, VettedIn env build options m call q ws ∧ e.record = recordOf env ws ctx

theorem Vetting.vettedIn {m : Moment} {call : Call} {q : MemPool} {all : List ValidationWorkspace}
    {coins : CoinsViewCache} {ws : ValidationWorkspace}
    (h : Vetting env build options m q call.offered all coins) (hws : ws ∈ all) :
    VettedIn env build options m call q ws := by
  obtain ⟨before, after, coins1, hsplit, hbefore, hvetted⟩ := h.vets.vetted hws
  refine ⟨h.mem ws hws, before, coins1, fun other hother => h.mem other ?_, hbefore, hvetted⟩
  rw [hsplit]
  exact List.mem_append_left _ hother

theorem Screened.cons {inner : MemPoolInner} (h : Screened env build options past inner)
    (found : Moment × Call × MemPool) : Screened env build options (found :: past) inner := by
  intro k e hk
  obtain ⟨m, call, q, hmem, hvetted⟩ := h k e hk
  exact ⟨m, call, q, List.mem_cons_of_mem found hmem, hvetted⟩

/-- What an acceptance inserts it has vetted. -/
theorem Screened.inserts {m : Moment} {call : Call} {p : MemPool}
    {all done : List ValidationWorkspace} {coins : CoinsViewCache} {inner' : MemPoolInner}
    (hI : Screened env build options past p.inner)
    (hvetting : Vetting env build options m p call.offered all coins) (hdone : done ⊆ all)
    (h : InsertsAll env build m p.inner done inner') :
    Screened env build options ((m, call, p) :: past) inner' := by
  refine (insertsAll_induction (I := fun u rest =>
    rest ⊆ all ∧ Screened env build options ((m, call, p) :: past) u) ?_ h
    ⟨hdone, hI.cons (m, call, p)⟩).2
  rintro u ws rest ctx u' ⟨hrest, hu⟩ hinserted
  obtain ⟨hws, hrest⟩ := List.cons_subset.mp hrest
  refine ⟨hrest, fun k e hk => ?_⟩
  obtain ⟨id, hid⟩ := hinserted.insertedAt
  rcases hid.record_new hk with ⟨_, hrecord⟩ | ⟨e0, he0, hrecord⟩
  · exact ⟨m, call, p, List.mem_cons_self, ws, ctx, hvetting.vettedIn hws, hrecord⟩
  · rw [hrecord]
    exact hu k e0 he0

/-- **No unchecked entries.** After every run of calls, failed ones included, every entry is as it
was recorded for a transaction that passed `check_transaction`, the limits on its relatives, the
pre-checks and the scripts under both sets of flags in the state that one of the calls found. -/
theorem screened_of_history (env : PoolEnv SE) (build : Build) (options : MemPoolOptions)
    (past : List (Moment × Call × MemPool)) (p : MemPool) (h : History env build options past p) :
    Screened env build options past p.inner := by
  induction h with
  | new client =>
    intro k e hk
    cases hk
  | @step past p p' m call _ hexec hI =>
    -- what a removal leaves was there before
    have hremoved : ∀ {ids}, p.inner.removeStaged env build m.order ids false =
        (.ok p'.inner : Outcome MempoolError MemPoolInner) →
        Screened env build options ((m, call, p) :: past) p'.inner := by
      intro ids hremove k e hk
      rw [(removeStaged_spec hremove).get] at hk
      split at hk
      · cases hk
      · exact hI.cons _ k e hk
    cases meets_exec.leaves hexec with
    | admitted h => exact hI.inserts h.vetting (List.Subset.refl _) h.inserts
    | failed h =>
      obtain ⟨all, coins, done, hvetting, hdone, hinserts⟩ := h.inserts
      exact hI.inserts hvetting hdone.subset hinserts
    | trimmed rounds _ => exact fun k e hk => hI.cons _ k e (rounds.start_spec.2 hk)
    | expired _ inner _ => exact hremoved inner
    | swept _ swept => exact hremoved swept.inner
    | moved inner _ => exact inner ▸ hI.cons _
    | kept inner _ => exact inner ▸ hI.cons _

/-- A parent, a child of it, and a package that fails. -/
theorem Reference.screened_child : ∃ past p, History Reference.env .checked .default past p ∧
    p.inner.arena.entries.keys.length = 2 ∧
    Screened Reference.env .checked .default past p.inner := by
  have hrun : (run Reference.env .checked .default
      [(moment, .acceptSingleTransaction parent), (moment, .acceptSingleTransaction child),
        (moment, .acceptPackage [grandchild, spendOf (coinAt 1) 1])]
      (.new client)).any (·.inner.arena.entries.keys.length = 2) = true := by decide +kernel
  obtain ⟨p, hp, hlength⟩ := exists_reachable hrun
  obtain ⟨past, hpast⟩ := hp.exists_history
  exact ⟨past, p, hpast, of_decide_eq_true hlength, screened_of_history _ _ _ past p hpast⟩

end Subcoin.Mempool
