import TradingService.Lib.Precedence
import TradingService.Outbox.Loss

/-!
# The order of the events on the bus

Where every publish succeeds, two events that concern each other reach the bus in the order
of their commits, as long as the time at which the transaction of the later one started is
later than that of the earlier one, or the earlier one is on the bus by then, and as long
as no event is published again after one that follows it.
-/

namespace TradingService.OutboxState

variable {W : Type} [DecidableEq W]

def PublishSucceeds : OutboxAction W → Prop
  | .worker _ (.publish delivery) => delivery = .acknowledged
  | _ => True

instance (a : OutboxAction W) : Decidable (PublishSucceeds a) :=
  match a with
  | .commit .. => instDecidableTrue
  | .cleanupProcessed _ => instDecidableTrue
  | .worker _ (.getPendingEvents _) => instDecidableTrue
  | .worker _ (.publish delivery) => inferInstanceAs (Decidable (delivery = .acknowledged))
  | .worker _ (.mark _) => instDecidableTrue
  | .worker _ .giveUp => instDecidableTrue

variable (concerns : OutboxEvent Event → OutboxEvent Event → Bool)

/-- Two events that concern each other, of transactions that committed one after the other. -/
structure Follows (commits : List (List (OutboxEvent Event))) (first second : OutboxEvent Event) :
    Prop where
  committed : ∃ earlier ∈ commits, ∃ later ∈ commits,
    commits.Precedes earlier later ∧ first ∈ earlier ∧ second ∈ later
  concerns : concerns first second

instance (commits : List (List (OutboxEvent Event))) (first second : OutboxEvent Event) :
    Decidable (Follows concerns commits first second) :=
  decidable_of_iff
    ((∃ earlier ∈ commits, ∃ later ∈ commits,
      commits.Precedes earlier later ∧ first ∈ earlier ∧ second ∈ later) ∧ concerns first second)
    ⟨fun h => ⟨h.1, h.2⟩, fun h => ⟨h.1, h.2⟩⟩

/-- An event is committed later than it could be listed before an earlier one that concerns
it, and is not published again after one that follows it. -/
def KeepsBusOrder (s : OutboxState W) : OutboxAction W → Prop
  | .commit events startedAt =>
    ∀ row ∈ OutboxEvent.ofTransaction events startedAt, ∀ earlier ∈ s.inserted, concerns earlier row →
      earlier ∈ s.bus ∨ earlier.createdAt < startedAt
  | .worker w (.publish _) =>
    ∀ event ∈ (s.phase w).nextEvent, event ∈ s.bus →
      ∀ later ∈ s.inserted, Follows concerns s.commits event later → later ∉ s.bus
  | _ => True

instance (s : OutboxState W) (a : OutboxAction W) : Decidable (s.KeepsBusOrder concerns a) :=
  match a with
  | .commit events startedAt =>
    inferInstanceAs (Decidable (∀ row ∈ OutboxEvent.ofTransaction events startedAt,
      ∀ earlier ∈ s.inserted, concerns earlier row →
        earlier ∈ s.bus ∨ earlier.createdAt < startedAt))
  | .cleanupProcessed _ => instDecidableTrue
  | .worker _ (.getPendingEvents _) => instDecidableTrue
  | .worker w (.publish _) =>
    inferInstanceAs (Decidable (∀ event ∈ (s.phase w).nextEvent, event ∈ s.bus →
      ∀ later ∈ s.inserted, Follows concerns s.commits event later → later ∉ s.bus))
  | .worker _ (.mark _) => instDecidableTrue
  | .worker _ .giveUp => instDecidableTrue

/-- What the table, the workers and the bus hold was committed, and the order of the commits
is theirs as well. -/
structure BusInOrder (s : OutboxState W) : Prop where
  kept : s.Kept
  unrefused : ∀ w event todo, s.phase w ≠ .refused event todo
  ids : s.insertedIds.Nodup
  pending : ∀ event ∈ s.table.pending, event ∈ s.inserted
  todo : ∀ w, ∀ event ∈ (s.phase w).todo, event ∈ s.inserted
  bus : ∀ event ∈ s.bus, event ∈ s.inserted
  todo_nodup : ∀ w, (s.phase w).todo.Nodup
  /-- A worker that has the second to publish has the first before it. -/
  ready : ∀ w first second, Follows concerns s.commits first second → second ∈ (s.phase w).todo →
    first ∈ s.bus ∨ (s.phase w).todo.Precedes first second
  older : ∀ first second, Follows concerns s.commits first second →
    first ∈ s.bus ∨ first.createdAt < second.createdAt
  published : ∀ first second, Follows concerns s.commits first second → second ∈ s.bus → first ∈ s.bus
  ordered : ∀ first second, Follows concerns s.commits first second → ¬ s.bus.Precedes second first

variable {concerns} {s s' : OutboxState W}

section Follows

variable {commits : List (List (OutboxEvent Event))} {first second : OutboxEvent Event}

theorem Follows.precedes (h : Follows concerns commits first second) :
    commits.flatten.Precedes first second := by
  obtain ⟨_, _, _, _, hprec, hfirst, hsecond⟩ := h.committed
  exact hprec.flatten hfirst hsecond

theorem follows_concat {rows : List (OutboxEvent Event)} :
    Follows concerns (commits ++ [rows]) first second ↔
      Follows concerns commits first second ∨
        first ∈ commits.flatten ∧ second ∈ rows ∧ concerns first second := by
  constructor
  · rintro ⟨⟨earlier, _, later, _, hprec, hfirst, hsecond⟩, hconcerns⟩
    rcases List.precedes_concat.mp hprec with hold | ⟨hearlier, rfl⟩
    · exact .inl ⟨⟨earlier, hold.mem_left, later, hold.mem_right, hold, hfirst, hsecond⟩, hconcerns⟩
    · exact .inr ⟨List.mem_flatten_of_mem hearlier hfirst, hsecond, hconcerns⟩
  · rintro (⟨⟨earlier, hearlier, later, hlater, hprec, hfirst, hsecond⟩, hconcerns⟩ |
      ⟨hfirst, hsecond, hconcerns⟩)
    · exact ⟨⟨earlier, List.mem_append_left _ hearlier, later, List.mem_append_left _ hlater,
        List.precedes_concat.mpr (.inl hprec), hfirst, hsecond⟩, hconcerns⟩
    · obtain ⟨earlier, hearlier, hfirst⟩ := List.mem_flatten.mp hfirst
      exact ⟨⟨earlier, List.mem_append_left _ hearlier, rows, List.mem_concat_self,
        List.precedes_concat.mpr (.inr ⟨hearlier, rfl⟩), hfirst, hsecond⟩, hconcerns⟩

end Follows

omit [DecidableEq W] in
theorem busInOrder_start : (start : OutboxState W).BusInOrder concerns where
  kept := kept_start
  unrefused := by simp [start]
  ids := List.nodup_nil
  pending := by simp [start, OutboxTable.pending, KeyedTable.empty]
  todo := by simp [start, WorkerPhase.todo]
  bus := by simp [start]
  todo_nodup := by simp [start, WorkerPhase.todo]
  ready := by simp [start, WorkerPhase.todo]
  older _ _ h := absurd h.precedes.mem_left List.not_mem_nil
  published := by simp [start]
  ordered _ _ h := absurd h.precedes.mem_left List.not_mem_nil

theorem BusInOrder.commit (h : s.BusInOrder concerns) {events : List (Uuid × Event)} {startedAt : ℤ}
    (hkeeps : s.KeepsBusOrder concerns (.commit events startedAt))
    (hstep : s.step (.commit events startedAt) = some s') : s'.BusInOrder concerns := by
  have hkept : s'.Kept := kept_step (a := .commit events startedAt) h.kept trivial hstep
  obtain ⟨hnew, table, htable, rfl⟩ := commit_eq_some hstep
  let rows := OutboxEvent.ofTransaction events startedAt
  have hrow : ∀ row ∈ rows, row ∉ s.inserted := fun row hrow hmem => hnew row hrow (List.mem_map_of_mem hmem)
  have hgrows : ∀ e ∈ s.inserted, e ∈ s.inserted ++ rows := fun e he => List.mem_append_left _ he
  have hold : ∀ first second, Follows concerns (s.commits ++ [rows]) first second →
      second ∈ s.inserted → Follows concerns s.commits first second :=
    fun first second hfollows hsecond => (follows_concat.mp hfollows).resolve_right
      fun hlast => hrow second hlast.2.1 hsecond
  exact
    { kept := hkept
      unrefused := h.unrefused
      ids := by
        rw [insertedIds_commit, List.nodup_append]
        refine ⟨h.ids, ?_, fun a ha b hb hab => ?_⟩
        · have hkeys := table.keys_nodup
          rw [OutboxTable.insertEvents_eq_some htable, List.map_append, List.nodup_append,
            List.map_reverse, List.nodup_reverse] at hkeys
          exact hkeys.1
        · obtain ⟨row, hmem, rfl⟩ := List.mem_map.mp hb
          exact hnew row hmem (hab ▸ ha)
      pending := by
        intro e he
        rw [inserted_commit]
        change e ∈ table.pending at he
        rw [OutboxTable.pending_insertEvents htable] at he
        rcases List.mem_append.mp he with he | he
        · exact List.mem_append_right _ (List.mem_reverse.mp he)
        · exact hgrows e (h.pending e he)
      todo := by
        rw [inserted_commit]
        exact fun w e he => hgrows e (h.todo w e he)
      bus := by
        rw [inserted_commit]
        exact fun e he => hgrows e (h.bus e he)
      todo_nodup := h.todo_nodup
      ready := fun w first second hfollows hsecond =>
        h.ready w first second (hold first second hfollows (h.todo w second hsecond)) hsecond
      older := by
        intro first second hfollows
        rcases follows_concat.mp hfollows with hf | ⟨hfirst, hsecond, hconcerns⟩
        · exact h.older first second hf
        · have hstarted : second.createdAt = startedAt := by
            obtain ⟨e, _, rfl⟩ := List.mem_map.mp hsecond
            rfl
          exact hstarted ▸ hkeeps second hsecond first hfirst hconcerns
      published := fun first second hfollows hsecond =>
        h.published first second (hold first second hfollows (h.bus second hsecond)) hsecond
      ordered := fun first second hfollows hprec =>
        h.ordered first second (hold first second hfollows (h.bus second hprec.mem_left)) hprec }

theorem BusInOrder.goOn (h : s.BusInOrder concerns) {w : W} {todo : List (OutboxEvent Event)}
    {table : OutboxTable Event}
    (hkept : ({ s.setPhase w (.relaying todo) with table := table } : OutboxState W).Kept)
    (hpending : ∀ event ∈ table.pending, event ∈ s.table.pending)
    (htodo : ∀ event ∈ todo, event ∈ s.inserted) (hnodup : todo.Nodup)
    (hready : ∀ first second, Follows concerns s.commits first second → second ∈ todo →
      first ∈ s.bus ∨ todo.Precedes first second) :
    ({ s.setPhase w (.relaying todo) with table := table } : OutboxState W).BusInOrder concerns := by
  have hphase : ∀ v, (s.setPhase w (.relaying todo)).phase v = .relaying todo ∨
      (s.setPhase w (.relaying todo)).phase v = s.phase v := by
    intro v
    rw [phase_setPhase]
    split_ifs
    · exact .inl rfl
    · exact .inr rfl
  exact
    { kept := hkept
      unrefused := fun v => (hphase v).elim (fun hv => by simp [hv]) fun hv => by
        simpa [hv] using h.unrefused v
      ids := h.ids
      pending := fun e he => h.pending e (hpending e he)
      todo := fun v => (hphase v).elim (fun hv => by simpa [hv, WorkerPhase.todo, inserted] using htodo)
        fun hv => by simpa [hv, inserted] using h.todo v
      bus := h.bus
      todo_nodup := fun v => (hphase v).elim (fun hv => by simpa [hv, WorkerPhase.todo] using hnodup)
        fun hv => by simpa [hv] using h.todo_nodup v
      ready := fun v => (hphase v).elim (fun hv => by simpa [hv, WorkerPhase.todo] using hready)
        fun hv => by simpa [hv] using h.ready v
      older := h.older
      published := h.published
      ordered := h.ordered }

omit [DecidableEq W] in
/-- What was committed has been published or is pending. -/
theorem BusInOrder.settled (h : s.BusInOrder concerns) {event : OutboxEvent Event}
    (hevent : event ∈ s.inserted) : event ∈ s.bus ∨ event ∈ s.table.pending := by
  have hunique : ∀ other ∈ s.inserted, other.id = event.id → other = event :=
    fun other hother hid => List.inj_on_of_nodup_map h.ids hother hevent hid
  rcases h.kept.inserted event.id (List.mem_map_of_mem hevent) with hpublished | hpending
  · obtain ⟨other, hother, hid⟩ := List.mem_map.mp hpublished
    exact .inl (hunique other (h.bus other hother) hid ▸ hother)
  · obtain ⟨other, hother, hid⟩ := hpending
    exact .inr (hunique other (h.pending other hother) hid ▸ hother)

theorem BusInOrder.read (h : s.BusInOrder concerns) {w : W} {listed : List (OutboxEvent Event)}
    (hlists : s.table.Lists listed)
    (hkept : (s.setPhase w (.relaying (listed.take OutboxWorker.batchSize))).Kept) :
    (s.setPhase w (.relaying (listed.take OutboxWorker.batchSize))).BusInOrder concerns := by
  have hnodup : listed.Nodup := by
    refine hlists.perm.nodup_iff.mpr (List.Nodup.of_map OutboxEvent.id ?_)
    exact (List.filter_sublist.map _).nodup s.table.keys_nodup
  have htake : ∀ event ∈ listed.take OutboxWorker.batchSize, event ∈ s.inserted :=
    fun event hevent => h.pending event (hlists.perm.subset (List.mem_of_mem_take hevent))
  refine h.goOn hkept (fun _ he => he) htake ((List.take_sublist _ _).nodup hnodup) ?_
  intro first second hfollows hsecond
  by_cases hbus : first ∈ s.bus
  · exact .inl hbus
  have holder := (h.older first second hfollows).resolve_left hbus
  have hfirst : first ∈ listed :=
    hlists.perm.symm.subset ((h.settled hfollows.precedes.mem_left).resolve_left hbus)
  have hnot : ¬ listed.Precedes second first := by
    intro hprec
    have hle : second.createdAt ≤ first.createdAt := hlists.sorted.of_precedes hprec
    omega
  have hmem := List.mem_take_of_not_precedes hfirst hsecond hnot
  have hne : first ≠ second := by
    rintro rfl
    omega
  refine .inr ((List.precedes_or_precedes hmem hsecond hne).resolve_right fun hprec => hnot ?_)
  exact hprec.sublist (List.take_sublist _ _)

theorem BusInOrder.publish (h : s.BusInOrder concerns) {w : W} {event : OutboxEvent Event}
    {todo : List (OutboxEvent Event)} (hphase : s.phase w = .relaying (event :: todo))
    (hkeeps : s.KeepsBusOrder concerns (.worker w (.publish .acknowledged)))
    (hkept : ({ s.setPhase w (.published event todo) with bus := s.bus ++ [event] } : OutboxState W).Kept) :
    ({ s.setPhase w (.published event todo) with bus := s.bus ++ [event] } : OutboxState W).BusInOrder
      concerns := by
  have htodo : ∀ e ∈ event :: todo, e ∈ s.inserted := by simpa [hphase, WorkerPhase.todo] using h.todo w
  have hnodup : (event :: todo).Nodup := by simpa [hphase, WorkerPhase.todo] using h.todo_nodup w
  have hready : ∀ first second, Follows concerns s.commits first second → second ∈ event :: todo →
      first ∈ s.bus ∨ (event :: todo).Precedes first second := by
    simpa [hphase, WorkerPhase.todo] using h.ready w
  have hgrows : ∀ e ∈ s.bus, e ∈ s.bus ++ [event] := fun e he => List.mem_append_left _ he
  have hevent : event ∉ todo := (List.nodup_cons.mp hnodup).1
  exact
    { kept := hkept
      unrefused := fun v e rest => by
        rw [phase_setPhase]
        split_ifs
        · simp
        · exact h.unrefused v e rest
      ids := h.ids
      pending := h.pending
      todo := fun v e he => by
        rw [phase_setPhase] at he
        split_ifs at he
        · exact htodo e (List.mem_cons_of_mem _ he)
        · exact h.todo v e he
      bus := fun e he => (List.mem_append.mp he).elim (h.bus e) fun hlast =>
        htodo e (List.mem_singleton.mp hlast ▸ List.mem_cons_self ..)
      todo_nodup := fun v => by
        rw [phase_setPhase]
        split_ifs
        · exact (List.nodup_cons.mp hnodup).2
        · exact h.todo_nodup v
      ready := fun v first second hf hsecond => by
        rw [phase_setPhase] at hsecond ⊢
        split_ifs at hsecond ⊢
        · rcases hready first second hf (List.mem_cons_of_mem _ hsecond) with hbus | hprec
          · exact .inl (hgrows first hbus)
          · rcases List.precedes_cons.mp hprec with ⟨rfl, _⟩ | hprec
            · exact .inl (List.mem_append_right _ (List.mem_singleton.mpr rfl))
            · exact .inr hprec
        · exact (h.ready v first second hf hsecond).imp_left (hgrows first)
      older := fun first second hf =>
        (h.older first second hf).imp_left (hgrows first)
      published := fun first second hf hsecond => by
        rcases List.mem_append.mp hsecond with hsecond | hlast
        · exact hgrows first (h.published first second hf hsecond)
        · obtain rfl := List.mem_singleton.mp hlast
          rcases hready first second hf (List.mem_cons_self ..) with hbus | hprec
          · exact hgrows first hbus
          · rcases List.precedes_cons.mp hprec with ⟨_, hmem⟩ | hprec
            · exact absurd hmem hevent
            · exact absurd hprec.mem_right hevent
      ordered := fun first second hf hprec => by
        rcases List.precedes_concat.mp hprec with hprec | ⟨hsecond, rfl⟩
        · exact h.ordered first second hf hprec
        · have hagain : first ∈ s.bus := h.published first second hf hsecond
          have hnext : first ∈ (s.phase w).nextEvent := by rw [hphase]; rfl
          exact hkeeps first hnext hagain second (h.bus second hsecond) hf hsecond }

theorem busInOrder_step {a : OutboxAction W} (h : s.BusInOrder concerns) (hpublish : PublishSucceeds a)
    (hkeeps : s.KeepsBusOrder concerns a) (hstep : s.step a = some s') : s'.BusInOrder concerns := by
  have hfails : s.FailsOnlyPublished a := by
    cases a with
    | worker w a =>
      cases a with
      | mark now =>
        intro event hrefused
        cases hphase : s.phase w with
        | refused e todo => exact absurd hphase (h.unrefused w e todo)
        | relaying todo => simp [hphase, WorkerPhase.refusedEvent] at hrefused
        | published e todo => simp [hphase, WorkerPhase.refusedEvent] at hrefused
      | getPendingEvents | publish | giveUp => trivial
    | commit | cleanupProcessed => trivial
  have hkept := kept_step h.kept hfails hstep
  cases a with
  | commit events startedAt => exact h.commit hkeeps hstep
  | cleanupProcessed before =>
    obtain rfl := Option.some.inj hstep
    exact { h with
      kept := hkept
      pending := fun e he => h.pending e (by rwa [OutboxTable.pending_cleanupProcessed] at he) }
  | worker w a =>
    cases works_of_work hstep with
    | read hphase hlists => exact h.read hlists hkept
    | acknowledged hphase => exact h.publish hphase hkeeps hkept
    | unacknowledged hphase => cases hpublish
    | undelivered hphase => cases hpublish
    | @processed event todo now hphase =>
      have htodo := h.todo w
      have hnodup := h.todo_nodup w
      have hready := h.ready w
      rw [hphase] at htodo hnodup hready
      refine h.goOn hkept (fun e he => ?_) htodo hnodup hready
      rw [OutboxTable.pending_markProcessed] at he
      exact List.mem_of_mem_filter he
    | failed hphase => exact absurd hphase (h.unrefused w _ _)
    | gaveUp => exact h.goOn hkept (fun _ he => he) (by simp) List.nodup_nil (by simp)

end TradingService.OutboxState
