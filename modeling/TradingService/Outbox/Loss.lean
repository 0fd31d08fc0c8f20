import TradingService.Outbox.Relay

/-!
# Events that are lost

An event is still to be published as long as its row is pending: a worker that meets no
failure works off the rows before it, and then reads it. A row that was marked never becomes
pending again. So an event is lost exactly if its row was marked without its being published.
-/

namespace TradingService.OutboxState

variable {W : Type} [DecidableEq W]

def Selects (s : OutboxState W) (id : Uuid) : Prop :=
  ∃ listed, s.table.Lists listed ∧ ∃ event ∈ listed.take OutboxWorker.batchSize, event.id = id

/-- The event was published, or its row is still selected in some continuation. -/
def NotLost (s : OutboxState W) (id : Uuid) : Prop :=
  id ∈ s.publishedIds ∨ ∃ s', Runs.Reaches step s s' ∧ s'.Selects id

/-- No row of the table is lost, and none that was ever in it. -/
structure NoEventLost (s : OutboxState W) : Prop where
  rows : ∀ event ∈ s.table.rows, s.NotLost event.id
  inserted : ∀ event ∈ s.inserted, s.NotLost event.id

def IsPending (s : OutboxState W) (id : Uuid) : Prop := ∃ event ∈ s.table.pending, event.id = id

instance (s : OutboxState W) (id : Uuid) : Decidable (s.IsPending id) :=
  inferInstanceAs (Decidable (∃ event ∈ s.table.pending, event.id = id))

omit [DecidableEq W] in
theorem isPending_of_selects {s : OutboxState W} {id : Uuid} (h : s.Selects id) : s.IsPending id := by
  obtain ⟨listed, hlists, event, hmem, hid⟩ := h
  exact ⟨event, hlists.perm.subset (List.mem_of_mem_take hmem), hid⟩

section Rested

structure Rested (id : Uuid) (s : OutboxState W) : Prop where
  inserted : id ∈ s.insertedIds
  not_pending : ¬ s.IsPending id

theorem rested_step {id : Uuid} {s s' : OutboxState W} {a : OutboxAction W} (h : s.Rested id)
    (hstep : s.step a = some s') : s'.Rested id := by
  cases a with
  | commit events startedAt =>
    obtain ⟨hnew, table, htable, rfl⟩ := commit_eq_some hstep
    refine ⟨?_, ?_⟩
    · rw [insertedIds_commit]
      exact List.mem_append_left _ h.inserted
    · rintro ⟨row, hrow, rfl⟩
      rw [OutboxTable.pending_insertEvents htable] at hrow
      rcases List.mem_append.mp hrow with hrow | hrow
      · exact hnew row (List.mem_reverse.mp hrow) h.inserted
      · exact h.not_pending ⟨row, hrow, rfl⟩
  | cleanupProcessed before =>
    obtain rfl := Option.some.inj hstep
    refine ⟨h.inserted, ?_⟩
    unfold IsPending
    rw [OutboxTable.pending_cleanupProcessed]
    exact h.not_pending
  | worker w a =>
    cases works_of_work hstep with
    | processed hphase =>
      refine ⟨h.inserted, ?_⟩
      rintro ⟨row, hrow, hid⟩
      rw [OutboxTable.pending_markProcessed] at hrow
      exact h.not_pending ⟨row, List.mem_of_mem_filter hrow, hid⟩
    | failed hphase =>
      refine ⟨h.inserted, ?_⟩
      rintro ⟨row, hrow, hid⟩
      rw [OutboxTable.pending_markFailed] at hrow
      exact h.not_pending ⟨row, List.mem_of_mem_filter hrow, hid⟩
    | read | acknowledged | unacknowledged | undelivered | gaveUp =>
      exact ⟨h.inserted, h.not_pending⟩

theorem not_selects_of_rested {id : Uuid} {s s' : OutboxState W} (h : s.Rested id)
    (hreach : Runs.Reaches step s s') : ¬ s'.Selects id := by
  have hrested : s'.Rested id := hreach.of_invariant (fun _ _ _ hr hstep => rested_step hr hstep) h
  exact fun hselects => hrested.not_pending (isPending_of_selects hselects)

end Rested

section Turn

/-- A worker gives up what it holds, reads a batch, publishes the first row of it and gives
up the rest. -/
theorem reaches_turn (s : OutboxState W) (w : W) {first : OutboxEvent Event} {listed : List (OutboxEvent Event)}
    (hlists : s.table.Lists (first :: listed)) :
    ∃ s', Runs.Reaches step s s' ∧ s'.table = s.table.markProcessed first.id 0 := by
  let s₁ := s.setPhase w (.relaying [])
  let s₂ := s₁.setPhase w (.relaying ((first :: listed).take OutboxWorker.batchSize))
  let rest := listed.take (OutboxWorker.batchSize - 1)
  let s₃ := { s₂.setPhase w (.published first rest) with bus := s.bus ++ [first] }
  let s₄ := { s₃.setPhase w (.relaying rest) with table := s.table.markProcessed first.id 0 }
  have h₁ : s.step (.worker w .giveUp) = some s₁ := work_giveUp s w
  have h₂ : s₁.step (.worker w (.getPendingEvents (first :: listed))) = some s₂ := by
    simp [step, work, s₁, s₂, setPhase, OutboxTable.getPendingEvents, hlists]
  have h₃ : s₂.step (.worker w (.publish .acknowledged)) = some s₃ := by
    simp [step, work, s₁, s₂, s₃, rest, setPhase, OutboxWorker.batchSize]
  have h₄ : s₃.step (.worker w (.mark 0)) = some s₄ := by
    simp [step, work, s₁, s₂, s₃, s₄, setPhase]
  exact ⟨s₄, .tail (.tail (.tail (.single ⟨_, h₁⟩) ⟨_, h₂⟩) ⟨_, h₃⟩) ⟨_, h₄⟩, rfl⟩

/-- In a finite number of turns the pending rows before it are worked off. -/
theorem reaches_selects [Nonempty W] {id : Uuid} (s : OutboxState W) (h : s.IsPending id) :
    ∃ s', Runs.Reaches step s s' ∧ s'.Selects id := by
  induction hn : s.table.pending.length using Nat.strong_induction_on generalizing s with
  | _ n ih =>
    obtain ⟨row, hrow, rfl⟩ := h
    obtain ⟨w⟩ := ‹Nonempty W›
    have hlists := OutboxTable.lists_mergeSort s.table
    cases hlisted : s.table.pending.mergeSort OutboxTable.oldestFirst with
    | nil =>
      rw [hlisted] at hlists
      exact absurd (hlists.perm.symm.subset hrow) List.not_mem_nil
    | cons first listed =>
      rw [hlisted] at hlists
      by_cases hid : row.id = first.id
      · refine ⟨s, .refl, first :: listed, hlists, first, ?_, hid.symm⟩
        simp [OutboxWorker.batchSize]
      obtain ⟨s₁, hreach, htable⟩ := s.reaches_turn w hlists
      have hpending : s₁.table.pending = s.table.pending.filter (·.id ≠ first.id) := by
        rw [htable, OutboxTable.pending_markProcessed]
      have hless : s₁.table.pending.length < n := by
        rw [hpending, ← hn, List.length_filter_lt_length_iff_exists]
        exact ⟨first, hlists.perm.subset (List.mem_cons_self ..), by simp⟩
      have hstill : s₁.IsPending row.id := by
        refine ⟨row, ?_, rfl⟩
        rw [hpending]
        exact List.mem_filter.mpr ⟨hrow, by simpa using hid⟩
      obtain ⟨s', hrest, hselects⟩ := ih _ hless s₁ hstill rfl
      exact ⟨s', hreach.trans hrest, hselects⟩

end Turn

/-- Whether an event is lost can be read off its row. -/
theorem notLost_iff [Nonempty W] {s : OutboxState W} {id : Uuid} (h : id ∈ s.insertedIds) :
    s.NotLost id ↔ id ∈ s.publishedIds ∨ s.IsPending id := by
  refine or_congr_right ⟨?_, s.reaches_selects⟩
  rintro ⟨s', hreach, hselects⟩
  by_contra hpending
  exact not_selects_of_rested ⟨h, hpending⟩ hreach hselects

section Runs

/-- No row is marked failed whose event was never published. -/
def FailsOnlyPublished (s : OutboxState W) : OutboxAction W → Prop
  | .worker w (.mark _) => ∀ event ∈ (s.phase w).refusedEvent, event.id ∈ s.publishedIds
  | _ => True

instance (s : OutboxState W) (a : OutboxAction W) : Decidable (s.FailsOnlyPublished a) :=
  match a with
  | .commit .. => instDecidableTrue
  | .cleanupProcessed _ => instDecidableTrue
  | .worker _ (.getPendingEvents _) => instDecidableTrue
  | .worker _ (.publish _) => instDecidableTrue
  | .worker w (.mark _) =>
    inferInstanceAs (Decidable (∀ event ∈ (s.phase w).refusedEvent, event.id ∈ s.publishedIds))
  | .worker _ .giveUp => instDecidableTrue

structure Kept (s : OutboxState W) : Prop where
  rows : ∀ row ∈ s.table.rows, row.id ∈ s.insertedIds
  inserted : ∀ id ∈ s.insertedIds, id ∈ s.publishedIds ∨ s.IsPending id
  published : ∀ w event todo, s.phase w = .published event todo → event.id ∈ s.publishedIds

omit [DecidableEq W] in
theorem kept_start : (start : OutboxState W).Kept where
  rows := by simp [start, KeyedTable.empty]
  inserted := by simp [start, insertedIds, inserted]
  published := by simp [start]

theorem published_setPhase {s : OutboxState W} (h : s.Kept) {w : W} {phase : WorkerPhase}
    (hphase : ∀ event todo, phase = .published event todo → event.id ∈ s.publishedIds) :
    ∀ v event todo, (s.setPhase w phase).phase v = .published event todo →
      event.id ∈ s.publishedIds := by
  intro v event todo hv
  by_cases hvw : v = w
  · rw [hvw] at hv
    exact hphase event todo (by simpa [setPhase] using hv)
  · exact h.published v event todo (by simpa [setPhase, hvw] using hv)

/-- To mark a published row, either way, keeps every event. -/
theorem Kept.mark {s : OutboxState W} (h : s.Kept) {w : W} {id : Uuid} {todo : List (OutboxEvent Event)}
    {table : OutboxTable Event} (hid : id ∈ s.publishedIds)
    (hrows : ∀ row ∈ table.rows, ∃ row' ∈ s.table.rows, row'.id = row.id)
    (hpending : table.pending = s.table.pending.filter (·.id ≠ id)) :
    ({ s.setPhase w (.relaying todo) with table := table } : OutboxState W).Kept where
  rows row hrow := by
    obtain ⟨row', hrow', hsame⟩ := hrows row hrow
    exact hsame ▸ h.rows row' hrow'
  inserted id' hid' := by
    by_cases hsame : id' = id
    · exact .inl (hsame ▸ hid)
    · refine (h.inserted id' hid').imp_right ?_
      rintro ⟨row, hrow, rfl⟩
      refine ⟨row, ?_, rfl⟩
      change row ∈ table.pending
      rw [hpending]
      exact List.mem_filter.mpr ⟨hrow, by simpa using hsame⟩
  published := published_setPhase h (by simp)

theorem Kept.publish {s : OutboxState W} (h : s.Kept) {w : W} {event : OutboxEvent Event}
    {phase : WorkerPhase} (hphase : ∀ e todo, phase = .published e todo → e = event) :
    ({ s.setPhase w phase with bus := s.bus ++ [event] } : OutboxState W).Kept := by
  have hgrows : ∀ id, id ∈ s.publishedIds ∨ id = event.id →
      id ∈ (s.bus ++ [event]).map (·.id) := fun id hid => by simpa [publishedIds] using hid
  refine ⟨h.rows, fun id hid => (h.inserted id hid).imp_left fun hp => hgrows id (.inl hp), ?_⟩
  intro v e todo hv
  by_cases hvw : v = w
  · rw [hvw] at hv
    have he := hphase e todo (by simpa [setPhase] using hv)
    exact hgrows e.id (.inr (congrArg _ he))
  · exact hgrows e.id (.inl (h.published v e todo (by simpa [setPhase, hvw] using hv)))

theorem kept_step {s s' : OutboxState W} {a : OutboxAction W} (h : s.Kept) (ha : s.FailsOnlyPublished a)
    (hstep : s.step a = some s') : s'.Kept := by
  cases a with
  | commit events startedAt =>
    obtain ⟨_, table, htable, rfl⟩ := commit_eq_some hstep
    have hrows := OutboxTable.insertEvents_eq_some htable
    have hpending := OutboxTable.pending_insertEvents htable
    refine ⟨fun row hrow => ?_, fun id hid => ?_, h.published⟩
    · rw [insertedIds_commit, List.mem_append]
      have hcases := List.mem_append.mp (hrows ▸ hrow)
      exact hcases.symm.imp (h.rows row) fun hnew => List.mem_map_of_mem (List.mem_reverse.mp hnew)
    · rw [insertedIds_commit, List.mem_append] at hid
      rcases hid with hid | hid
      · refine (h.inserted id hid).imp_right ?_
        rintro ⟨row, hrow, rfl⟩
        exact ⟨row, hpending ▸ List.mem_append_right _ hrow, rfl⟩
      · obtain ⟨row, hrow, rfl⟩ := List.mem_map.mp hid
        exact .inr ⟨row, hpending ▸ List.mem_append_left _ (List.mem_reverse.mpr hrow), rfl⟩
  | cleanupProcessed before =>
    obtain rfl := Option.some.inj hstep
    refine ⟨fun row hrow => h.rows row (List.mem_of_mem_filter hrow), fun id hid => ?_, h.published⟩
    unfold IsPending
    rw [OutboxTable.pending_cleanupProcessed]
    exact h.inserted id hid
  | worker w a =>
    cases works_of_work hstep with
    | read hphase hlists => exact ⟨h.rows, h.inserted, published_setPhase h (by simp)⟩
    | acknowledged hphase => exact h.publish fun e todo he => (WorkerPhase.published.inj he).1.symm
    | unacknowledged hphase => exact h.publish (by simp)
    | undelivered hphase => exact ⟨h.rows, h.inserted, published_setPhase h (by simp)⟩
    | processed hphase =>
      refine h.mark (h.published w _ _ hphase) (fun row hrow => ?_) (OutboxTable.pending_markProcessed ..)
      obtain ⟨row', hrow', rfl⟩ := List.mem_map.mp hrow
      exact ⟨row', hrow', by split_ifs <;> rfl⟩
    | failed hphase =>
      refine h.mark (ha _ (by rw [hphase]; rfl)) (fun row hrow => ?_) (OutboxTable.pending_markFailed ..)
      obtain ⟨row', hrow', rfl⟩ := List.mem_map.mp hrow
      exact ⟨row', hrow', by split_ifs <;> rfl⟩
    | gaveUp => exact ⟨h.rows, h.inserted, published_setPhase h (by simp)⟩

theorem Kept.noEventLost [Nonempty W] {s : OutboxState W} (h : s.Kept) : s.NoEventLost where
  rows event hevent :=
    (notLost_iff (h.rows event hevent)).mpr (h.inserted event.id (h.rows event hevent))
  inserted event hevent :=
    have hid := List.mem_map_of_mem hevent
    (notLost_iff hid).mpr (h.inserted event.id hid)

/-- In every run of any number of workers in which no row is marked failed without its event
having been published, no event is lost. -/
theorem no_event_is_lost [Nonempty W] (as : List (OutboxAction W))
    (has : Runs.AllSteps step FailsOnlyPublished (start : OutboxState W) as) :
    Runs.AllStates step NoEventLost (start : OutboxState W) as := by
  have hkept : Runs.AllStates step Kept (start : OutboxState W) as :=
    Runs.AllStates.of_allSteps (fun _ _ _ hs ha hstep => kept_step hs ha hstep) kept_start has
  exact hkept.mono fun _ hs => hs.noEventLost

end Runs

/-- An event is inserted, and one worker reads it, does not get it published and marks it. -/
def refusedRun (delivery : Delivery) : List (OutboxAction (Fin 1)) :=
  [.commit [(1, .triggerExecution 2)] 0,
    .worker 0 (.getPendingEvents [.ofEvent 1 (.triggerExecution 2) 0]),
    .worker 0 (.publish delivery), .worker 0 (.mark 5)]

theorem no_event_is_lost_unacknowledged :
    Runs.AllStates step NoEventLost (start : OutboxState (Fin 1)) (refusedRun .unacknowledged) :=
  no_event_is_lost (refusedRun .unacknowledged) (by decide)

/-- A publish fails, and the event is neither on the bus nor ever read again. -/
theorem refused_event_is_lost :
    ¬ Runs.AllStates step NoEventLost (start : OutboxState (Fin 1)) (refusedRun .undelivered) := by
  intro h
  obtain ⟨s, hrun, hinserted, hpublished, hpending⟩ :
      ∃ s ∈ (refusedRun .undelivered).foldlM step (start : OutboxState (Fin 1)),
        .ofEvent 1 (.triggerExecution 2) 0 ∈ s.inserted ∧ 1 ∉ s.publishedIds ∧ ¬ s.IsPending 1 := by
    decide
  have hkept : s.NotLost 1 := (h.last hrun).inserted _ hinserted
  rcases (notLost_iff (List.mem_map_of_mem hinserted)).mp hkept with h1 | h1
  · exact hpublished h1
  · exact hpending h1

end TradingService.OutboxState
