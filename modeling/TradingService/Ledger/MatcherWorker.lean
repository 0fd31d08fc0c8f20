import TradingService.Ledger.Upkeep
import TradingService.Ledger.Replicas
import TradingService.Lib.Notify

/-!
# The matcher's loop

The matcher is one of the workers over the database. Between two of its cycles it waits
for a request or for the tick of its interval; the orders that a request is made for are
committed before it. A request that comes at any other time leaves a permit behind, so
while the worker waits no order is left that its last cycle could not have read.
-/

namespace TradingService

/-- Where the worker stands in its loop. In `selecting` the future of `cycle_requested` is
polled next, and in `ticking` the one of the interval. -/
inductive MatcherPhase
  | selecting
  | ticking
  | debouncing
  | cycling
  deriving DecidableEq

structure MatcherState (R : Type) where
  /-- The database, and where each worker stands in its cycle. -/
  market : State R
  wake : Notify
  phase : MatcherPhase
  /-- The orders whose requests have returned. -/
  requested : List Uuid
  /-- The database when the reads of the last cycle began. -/
  readFrom : Option Database

inductive MatcherAction (R : Type)
  | others (a : Action R)
  | requestCycle (ids : List Uuid)
  | pollRequested
  | pollTick (ready : Bool)
  | slept
  | cycle (a : JobStep)

def Action.isOf {R : Type} [DecidableEq R] (r : R) : Action R → Bool
  | .statement _ => false
  | .worker q _ => q = r

theorem Move.retains {db db' : Database} {phase phase' : Phase} {a : JobStep}
    (h : Move db phase a db' phase') : Database.Retains db db' := by
  cases h with
  | readBuys kind => exact .refl
  | readSells kind buys topology nowNs => exact .refl
  | persisted _ hcommit => exact (Database.persistMatchedTrade_upkeeps hcommit).retains
  | givenUp _ _ => exact .refl
  | swept _ _ hwritten => exact (Database.updateFilledAmountWithEvent_upkeeps hwritten).retains
  | stopped => exact .refl

def JobStep.isMatching : JobStep → Bool
  | .readBuys kind => kind = .matching
  | _ => true

def Phase.isIdle : Phase → Bool
  | .idle => true
  | _ => false

def Database.Committed (db : Database) (id : Uuid) : Prop := ∃ o ∈ db.orders.rows, o.id = id

instance (db : Database) (id : Uuid) : Decidable (db.Committed id) :=
  inferInstanceAs (Decidable (∃ o ∈ db.orders.rows, o.id = id))

namespace MatcherState

variable {R : Type} (debounce : Option ℕ)

/-- The top of the loop, which waits for requests only if there is a debounce. -/
def loopTop : MatcherPhase := if debounce.isSome then .selecting else .ticking

def start (db : Database) : MatcherState R := ⟨.start db, .new, loopTop debounce, [], none⟩

def runMatchingCycle (s : MatcherState R) : MatcherState R :=
  { s with phase := .cycling, readFrom := some s.market.db }

def step [DecidableEq R] (self : R) (s : MatcherState R) : MatcherAction R → Option (MatcherState R)
  | .others a =>
    if a.isOf self then none else (s.market.step a).map fun market => { s with market := market }
  | .requestCycle ids =>
    if ∀ id ∈ ids, s.market.db.Committed id then
      some { s with wake := s.wake.notifyOne, requested := ids ++ s.requested }
    else none
  | .pollRequested =>
    if s.phase = .selecting then
      let polled := { s with wake := s.wake.poll.2 }
      if s.wake.poll.1 then
        -- A debounce of zero does not sleep.
        if debounce = some 0 then some polled.runMatchingCycle
        else some { polled with phase := .debouncing }
      else some { polled with phase := .ticking }
    else none
  | .pollTick ready =>
    if s.phase = .ticking then
      -- The branch that wins drops the other future; else both wait, and are polled again.
      if ready then some (runMatchingCycle { s with wake := s.wake.drop })
      else some { s with phase := loopTop debounce }
    else none
  | .slept => if s.phase = .debouncing then some s.runMatchingCycle else none
  | .cycle a =>
    if s.phase = .cycling ∧ a.isMatching then
      (s.market.step (.worker self a)).map fun market =>
        { s with
          market := market
          phase := if (market.phase self).isIdle then loopTop debounce else .cycling }
    else none

def Waiting (s : MatcherState R) : Prop :=
  (s.phase = .selecting ∨ s.phase = .ticking) ∧ s.wake.waiter ≠ some true

/-- The order was committed before the reads of the last cycle began. -/
def CommittedBeforeReads (s : MatcherState R) (id : Uuid) : Prop :=
  ∃ db ∈ s.readFrom, db.Committed id

/-- There is a cycle to come for the requests that have been made. -/
def Owed (s : MatcherState R) : Prop := s.wake.Signalled ∨ s.phase = .debouncing

structure Inv (s : MatcherState R) : Prop where
  sound : s.wake.Sound
  committed : ∀ id ∈ s.requested, s.market.db.Committed id
  served : s.Owed ∨ ∀ id ∈ s.requested, s.CommittedBeforeReads id
  /-- A future is registered only while the worker waits. -/
  waiter : s.phase = .debouncing ∨ s.phase = .cycling → s.wake.waiter = none

theorem committed_step [DecidableEq R] {market market' : State R} {a : Action R}
    (h : market.step a = some market') {id : Uuid} (hid : market.db.Committed id) :
    market'.db.Committed id := by
  have hretains : Database.Retains market.db market'.db := by
    cases a with
    | statement st =>
      obtain ⟨db', hexec, rfl⟩ := Option.map_eq_some_iff.mp h
      exact Database.exec_retains hexec
    | worker r b =>
      obtain ⟨⟨db', phase'⟩, hstep, rfl⟩ := Option.map_eq_some_iff.mp h
      exact (Phase.move_of_step hstep).retains
  obtain ⟨o, ho, rfl⟩ := hid
  obtain ⟨o', ho', hup⟩ := hretains o ho
  exact ⟨o', ho', hup.terms.id⟩

variable {debounce} {self : R} {s s' : MatcherState R}

theorem loopTop_waits : loopTop debounce ≠ .debouncing ∧ loopTop debounce ≠ .cycling := by
  unfold loopTop
  split_ifs <;> simp

theorem inv_start (db : Database) : (start debounce db : MatcherState R).Inv where
  sound := Notify.sound_new
  committed := by simp [start]
  served := .inr (by simp [start])
  waiter _ := rfl

theorem inv_runMatchingCycle (hsound : s.wake.Sound)
    (hcommitted : ∀ id ∈ s.requested, s.market.db.Committed id) (hwaiter : s.wake.waiter = none) :
    s.runMatchingCycle.Inv where
  sound := hsound
  committed := hcommitted
  served := .inr fun id hid => ⟨_, rfl, hcommitted id hid⟩
  waiter _ := hwaiter

/-- The market moves on, and the worker with it, but for its wait. -/
theorem Inv.of_market (h : s.Inv) {market : State R} {phase : MatcherPhase}
    (hmarket : ∀ id, s.market.db.Committed id → market.db.Committed id)
    (hdebouncing : phase = .debouncing ↔ s.phase = .debouncing)
    (hcycling : phase = .cycling → s.phase = .cycling) :
    Inv { s with market := market, phase := phase } where
  sound := h.sound
  committed id hid := hmarket id (h.committed id hid)
  served := h.served.imp_left (Or.imp_right hdebouncing.mpr)
  waiter hphase := h.waiter (hphase.imp hdebouncing.mp hcycling)

theorem Inv.requestCycle (h : s.Inv) {ids : List Uuid} (hids : ∀ id ∈ ids, s.market.db.Committed id) :
    Inv { s with wake := s.wake.notifyOne, requested := ids ++ s.requested } where
  sound := h.sound.notifyOne
  committed := List.forall_mem_append.mpr ⟨hids, h.committed⟩
  served := .inl (.inl (Notify.signalled_notifyOne _))
  waiter hphase := Notify.waiter_notifyOne (h.waiter hphase)

/-- A poll that does not complete finds nothing owed. -/
theorem Inv.pollPending (h : s.Inv) (hphase : s.phase = .selecting) (hpoll : s.wake.poll.1 = false) :
    Inv { s with wake := s.wake.poll.2, phase := .ticking } where
  sound := h.sound.poll
  committed := h.committed
  served := by
    refine .inr (h.served.resolve_left ?_)
    rintro (hsignalled | hdebouncing)
    · rw [← h.sound.poll_iff, hpoll] at hsignalled
      cases hsignalled
    · rw [hphase] at hdebouncing
      cases hdebouncing
  waiter hother := by rcases hother with hother | hother <;> cases hother

theorem inv_step [DecidableEq R] {a : MatcherAction R} (h : s.Inv)
    (hstep : s.step debounce self a = some s') : s'.Inv := by
  cases a with
  | others a =>
    unfold step at hstep
    dsimp only at hstep
    split_ifs at hstep
    obtain ⟨market, hmarket, rfl⟩ := Option.map_eq_some_iff.mp hstep
    exact h.of_market (fun _ => committed_step hmarket) Iff.rfl id
  | requestCycle ids =>
    unfold step at hstep
    dsimp only at hstep
    split_ifs at hstep with hids
    obtain rfl := Option.some.inj hstep
    exact h.requestCycle hids
  | pollRequested =>
    unfold step at hstep
    dsimp only at hstep
    split_ifs at hstep with hphase hready hzero
    · obtain rfl := Option.some.inj hstep
      exact inv_runMatchingCycle h.sound.poll h.committed (Notify.poll_ready hready)
    · obtain rfl := Option.some.inj hstep
      exact ⟨h.sound.poll, h.committed, .inl (.inr rfl), fun _ => Notify.poll_ready hready⟩
    · obtain rfl := Option.some.inj hstep
      exact h.pollPending hphase (eq_false_of_ne_true hready)
  | pollTick ready =>
    unfold step at hstep
    dsimp only at hstep
    split_ifs at hstep with hphase hready
    · obtain rfl := Option.some.inj hstep
      exact inv_runMatchingCycle h.sound.drop h.committed (Notify.waiter_drop _)
    · obtain rfl := Option.some.inj hstep
      exact h.of_market (fun _ => id) (by simp [hphase, loopTop_waits.1]) fun htop =>
        absurd htop loopTop_waits.2
  | slept =>
    unfold step at hstep
    dsimp only at hstep
    split_ifs at hstep with hphase
    obtain rfl := Option.some.inj hstep
    exact inv_runMatchingCycle h.sound h.committed (h.waiter (.inl hphase))
  | cycle a =>
    unfold step at hstep
    dsimp only at hstep
    split_ifs at hstep with hphase
    obtain ⟨market, hmarket, rfl⟩ := Option.map_eq_some_iff.mp hstep
    refine h.of_market (fun _ => committed_step hmarket) ?_ fun _ => hphase.1
    rw [hphase.1]
    split_ifs <;> simp [loopTop_waits.1]

/-- What was requested and not read is a stored permit, a future that was notified, or a
debounce that ends in a cycle. -/
theorem Inv.owed (h : s.Inv) {id : Uuid} (hid : id ∈ s.requested) (hread : ¬s.CommittedBeforeReads id) :
    s.Owed := h.served.resolve_right fun hall => hread (hall id hid)

/-- In realtime mode, in every state of every run: while the worker waits and no permit is
stored, every order whose request has returned was committed before the reads of the last
cycle began; and at most one permit is stored, however many requests have come. -/
theorem no_wake_up_lost [DecidableEq R] (debounce : ℕ) (self : R) (db : Database)
    (as : List (MatcherAction R)) :
    Runs.AllStates (step (some debounce) self)
      (fun s => (s.Waiting → s.wake.permits = 0 → ∀ id ∈ s.requested, s.CommittedBeforeReads id) ∧
        s.wake.permits ≤ 1)
      (start (some debounce) db) as := by
  have hruns : Runs.AllStates (step (some debounce) self) Inv (start (some debounce) db) as :=
    Runs.AllStates.of_invariant (fun _ _ _ h hstep => inv_step h hstep) (inv_start db) as
  refine hruns.mono fun s h => ⟨fun hwaiting hnone id hid => ?_, h.sound.permits_le⟩
  by_contra hread
  rcases h.owed hid hread with (hpermit | hnotified) | hdebouncing
  · exact hpermit.ne' hnone
  · exact hwaiting.2 hnotified
  · rcases hwaiting.1 with hphase | hphase <;> rw [hphase] at hdebouncing <;> cases hdebouncing

-- A request comes in between the two polls, and the tick wins: the permit outlives the future.
example :
    ([.others (.statement (.insertOrder (.placed 1 .buy 5 1))), .pollRequested, .requestCycle [1],
        .pollTick true].foldlM (step (some 5) ()) (start (some 5) .empty)).map
      (fun s => (s.phase, s.wake)) = some (.cycling, ⟨1, none⟩) := by decide +kernel

/-- An order that comes too late for the cycle that is running leaves one permit behind. -/
theorem permit_left_behind [DecidableEq R] (self : R) (db : Database) (as : List (MatcherAction R)) :
    Runs.AllStates (step debounce self)
      (fun s => s.phase = .cycling → ∀ id ∈ s.requested, ¬s.CommittedBeforeReads id → s.wake.permits = 1)
      (start debounce db) as := by
  have hruns : Runs.AllStates (step debounce self) Inv (start debounce db) as :=
    Runs.AllStates.of_invariant (fun _ _ _ h hstep => inv_step h hstep) (inv_start db) as
  refine hruns.mono fun s h hphase id hid hread => ?_
  rcases h.owed hid hread with (hpermit | hnotified) | hdebouncing
  · exact le_antisymm h.sound.permits_le hpermit
  · rw [h.waiter (.inr hphase)] at hnotified
    cases hnotified
  · rw [hphase] at hdebouncing
    cases hdebouncing

end MatcherState

end TradingService
