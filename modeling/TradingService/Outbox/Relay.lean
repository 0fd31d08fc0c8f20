import TradingService.Ledger.Rows
import TradingService.Lib.KeyedTable
import TradingService.Lib.Runs

/-!
# The outbox

Business transactions leave their events in a table. Workers read the pending rows in
batches, oldest first, publish them one by one and write down how that went. A worker can
die at any point, and any of its writes can fail; a batch is then given up.

A row that was marked failed is not read again, so an event is lost exactly if it is marked
failed without having been published.
-/

namespace TradingService

inductive OutboxStatus
  | pending
  | processed
  | failed
  deriving DecidableEq, Repr

structure OutboxEvent (Payload : Type) where
  id : Uuid
  payload : Payload
  status : OutboxStatus
  attempts : ℕ
  lastAttemptAt : Option ℤ
  createdAt : ℤ
  deriving DecidableEq

variable {Payload : Type}

def OutboxEvent.ofEvent (id : Uuid) (payload : Payload) (startedAt : ℤ) : OutboxEvent Payload where
  id := id
  payload := payload
  status := .pending
  attempts := 0
  lastAttemptAt := none
  createdAt := startedAt

/-- The rows of a transaction. The default of `created_at` is the time at which the
transaction started, so they have one time. -/
def OutboxEvent.ofTransaction (events : List (Uuid × Payload)) (startedAt : ℤ) :
    List (OutboxEvent Payload) :=
  events.map fun e => .ofEvent e.1 e.2 startedAt

abbrev OutboxTable (Payload : Type) := KeyedTable (@OutboxEvent.id Payload)

namespace OutboxTable

variable (t : OutboxTable Payload)

/-- The `insert_event_in_tx` of a transaction, as of its commit. -/
def insertEvents (rows : List (OutboxEvent Payload)) : Option (OutboxTable Payload) :=
  rows.foldlM (fun t row => t.insert? row) t

def pending : List (OutboxEvent Payload) := t.rows.filter (·.status = .pending)

/-- `WHERE status = 'PENDING' ORDER BY created_at ASC`, which leaves the order of equal times
to the database. -/
structure Lists (listed : List (OutboxEvent Payload)) : Prop where
  perm : listed.Perm t.pending
  sorted : listed.Pairwise fun a b => a.createdAt ≤ b.createdAt

instance [DecidableEq Payload] (listed : List (OutboxEvent Payload)) : Decidable (t.Lists listed) :=
  decidable_of_iff (listed.Perm t.pending ∧ listed.Pairwise fun a b => a.createdAt ≤ b.createdAt)
    ⟨fun h => ⟨h.1, h.2⟩, fun h => ⟨h.1, h.2⟩⟩

def getPendingEvents [DecidableEq Payload] (limit : ℕ) (listed : List (OutboxEvent Payload)) :
    Option (List (OutboxEvent Payload)) :=
  if t.Lists listed then some (listed.take limit) else none

def markProcessed (id : Uuid) (now : ℤ) : OutboxTable Payload :=
  t.modify id (fun r => { r with status := .processed, lastAttemptAt := some now }) fun _ => rfl

def markFailed (id : Uuid) (now : ℤ) : OutboxTable Payload :=
  t.modify id
    (fun r => { r with status := .failed, attempts := r.attempts + 1, lastAttemptAt := some now })
    fun _ => rfl

def cleanupProcessed (before : ℤ) : OutboxTable Payload :=
  t.delete fun r => r.status = .processed ∧ r.createdAt < before

section Pending

variable {t : OutboxTable Payload}

/-- However a row was marked, it is not pending any more, and only it is not. -/
@[simp] theorem pending_markProcessed (id : Uuid) (now : ℤ) :
    (t.markProcessed id now).pending = t.pending.filter (·.id ≠ id) :=
  KeyedTable.filter_modify fun _ => rfl

@[simp] theorem pending_markFailed (id : Uuid) (now : ℤ) :
    (t.markFailed id now).pending = t.pending.filter (·.id ≠ id) :=
  KeyedTable.filter_modify fun _ => rfl

@[simp] theorem pending_cleanupProcessed (before : ℤ) : (t.cleanupProcessed before).pending = t.pending := by
  unfold pending cleanupProcessed KeyedTable.delete
  rw [List.filter_filter]
  apply List.filter_congr
  intro r _
  cases hr : r.status <;> simp [hr]

theorem insertEvents_eq_some {rows : List (OutboxEvent Payload)} {t' : OutboxTable Payload}
    (h : t.insertEvents rows = some t') : t'.rows = rows.reverse ++ t.rows := by
  unfold insertEvents at h
  induction rows generalizing t with
  | nil =>
    obtain rfl := Option.some.inj h
    rfl
  | cons row rows ih =>
    rw [List.foldlM_cons] at h
    obtain ⟨t₁, hrow, hrest⟩ := Option.bind_eq_some_iff.mp h
    rw [ih hrest, (KeyedTable.insert?_eq_some hrow).2, List.reverse_cons, List.append_assoc]
    rfl

theorem pending_insertEvents {events : List (Uuid × Payload)} {startedAt : ℤ}
    {t' : OutboxTable Payload} (h : t.insertEvents (OutboxEvent.ofTransaction events startedAt) = some t') :
    t'.pending = (OutboxEvent.ofTransaction events startedAt).reverse ++ t.pending := by
  unfold pending
  rw [insertEvents_eq_some h, List.filter_append, List.filter_eq_self.mpr]
  intro row hrow
  obtain ⟨e, _, rfl⟩ := List.mem_map.mp (List.mem_reverse.mp hrow)
  rfl

def oldestFirst (a b : OutboxEvent Payload) : Bool := a.createdAt ≤ b.createdAt

theorem lists_mergeSort (t : OutboxTable Payload) : t.Lists (t.pending.mergeSort oldestFirst) where
  perm := List.mergeSort_perm _ _
  sorted := by
    have htrans : ∀ a b c : OutboxEvent Payload, oldestFirst a b → oldestFirst b c → oldestFirst a c := by
      intro a b c
      simp only [oldestFirst, decide_eq_true_eq]
      omega
    have htotal : ∀ a b : OutboxEvent Payload, oldestFirst a b || oldestFirst b a := by
      intro a b
      simp only [oldestFirst, Bool.or_eq_true, decide_eq_true_eq]
      omega
    simpa [oldestFirst] using List.pairwise_mergeSort htrans htotal t.pending

end Pending

end OutboxTable

/-- What becomes of a message and of the answer to it. -/
inductive Delivery
  | acknowledged
  | unacknowledged
  | undelivered
  deriving DecidableEq, Repr

inductive WorkerPhase
  | relaying (todo : List (OutboxEvent Event))
  | published (event : OutboxEvent Event) (todo : List (OutboxEvent Event))
  | refused (event : OutboxEvent Event) (todo : List (OutboxEvent Event))
  deriving DecidableEq

def WorkerPhase.todo : WorkerPhase → List (OutboxEvent Event)
  | .relaying todo => todo
  | .published _ todo => todo
  | .refused _ todo => todo

def WorkerPhase.nextEvent : WorkerPhase → Option (OutboxEvent Event)
  | .relaying todo => todo.head?
  | _ => none

def WorkerPhase.refusedEvent : WorkerPhase → Option (OutboxEvent Event)
  | .refused event _ => some event
  | _ => none

inductive WorkerAction
  | getPendingEvents (listed : List (OutboxEvent Event))
  | publish (delivery : Delivery)
  | mark (now : ℤ)
  /-- The event cannot be read, the write fails, or the process ends. -/
  | giveUp
  deriving DecidableEq

inductive OutboxAction (W : Type)
  /-- A transaction that leaves these events. -/
  | commit (events : List (Uuid × Event)) (startedAt : ℤ)
  | cleanupProcessed (before : ℤ)
  | worker (w : W) (a : WorkerAction)

/-- The table, the workers, and, in their order, the events that the bus has taken and the
rows of each commit. The service keeps no record of the last two. -/
structure OutboxState (W : Type) where
  table : OutboxTable Event
  phase : W → WorkerPhase
  bus : List (OutboxEvent Event)
  commits : List (List (OutboxEvent Event))

def OutboxWorker.batchSize : ℕ := 100

namespace OutboxState

variable {W : Type} [DecidableEq W]

def start : OutboxState W := ⟨KeyedTable.empty, fun _ => .relaying [], [], []⟩

def publishedIds (s : OutboxState W) : List Uuid := s.bus.map (·.id)

def inserted (s : OutboxState W) : List (OutboxEvent Event) := s.commits.flatten

def insertedIds (s : OutboxState W) : List Uuid := s.inserted.map (·.id)

def setPhase (s : OutboxState W) (w : W) (phase : WorkerPhase) : OutboxState W :=
  { s with phase := Function.update s.phase w phase }

section SetPhase

variable (s : OutboxState W) (w : W) (phase : WorkerPhase)

@[simp] theorem setPhase_table : (s.setPhase w phase).table = s.table := rfl
@[simp] theorem setPhase_bus : (s.setPhase w phase).bus = s.bus := rfl
@[simp] theorem setPhase_commits : (s.setPhase w phase).commits = s.commits := rfl

theorem phase_setPhase (v : W) :
    (s.setPhase w phase).phase v = if v = w then phase else s.phase v := by
  simp [setPhase, Function.update_apply]

end SetPhase

def work (s : OutboxState W) (w : W) (a : WorkerAction) : Option (OutboxState W) :=
  match s.phase w, a with
  | .relaying [], .getPendingEvents listed =>
    (s.table.getPendingEvents OutboxWorker.batchSize listed).map fun events =>
      s.setPhase w (.relaying events)
  | .relaying (event :: todo), .publish .acknowledged =>
    some { s.setPhase w (.published event todo) with bus := s.bus ++ [event] }
  | .relaying (event :: todo), .publish .unacknowledged =>
    some { s.setPhase w (.refused event todo) with bus := s.bus ++ [event] }
  | .relaying (event :: todo), .publish .undelivered => some (s.setPhase w (.refused event todo))
  | .published event todo, .mark now =>
    some { s.setPhase w (.relaying todo) with table := s.table.markProcessed event.id now }
  | .refused event todo, .mark now =>
    some { s.setPhase w (.relaying todo) with table := s.table.markFailed event.id now }
  | _, .giveUp => some (s.setPhase w (.relaying []))
  | _, _ => none

def step (s : OutboxState W) : OutboxAction W → Option (OutboxState W)
  | .commit events startedAt =>
    let rows := OutboxEvent.ofTransaction events startedAt
    if ∃ row ∈ rows, row.id ∈ s.insertedIds then none
    else
      (s.table.insertEvents rows).map fun table => { s with table := table, commits := s.commits ++ [rows] }
  | .cleanupProcessed before => some { s with table := s.table.cleanupProcessed before }
  | .worker w a => s.work w a

theorem commit_eq_some {s s' : OutboxState W} {events : List (Uuid × Event)} {startedAt : ℤ}
    (h : s.step (.commit events startedAt) = some s') :
    (∀ row ∈ OutboxEvent.ofTransaction events startedAt, row.id ∉ s.insertedIds) ∧ ∃ table,
      s.table.insertEvents (OutboxEvent.ofTransaction events startedAt) = some table ∧
        s' = { s with
          table := table
          commits := s.commits ++ [OutboxEvent.ofTransaction events startedAt] } := by
  unfold step at h
  dsimp only at h
  split_ifs at h with hused
  obtain ⟨table, htable, rfl⟩ := Option.map_eq_some_iff.mp h
  exact ⟨fun row hrow hid => hused ⟨row, hrow, hid⟩, table, htable, rfl⟩

section Commit

variable (s : OutboxState W) (table : OutboxTable Event) (rows : List (OutboxEvent Event))

omit [DecidableEq W] in
@[simp] theorem inserted_commit :
    ({ s with table := table, commits := s.commits ++ [rows] } : OutboxState W).inserted =
      s.inserted ++ rows := by
  simp [inserted]

omit [DecidableEq W] in
@[simp] theorem insertedIds_commit :
    ({ s with table := table, commits := s.commits ++ [rows] } : OutboxState W).insertedIds =
      s.insertedIds ++ rows.map (·.id) := by
  simp [insertedIds]

end Commit

theorem work_giveUp (s : OutboxState W) (w : W) :
    s.work w .giveUp = some (s.setPhase w (.relaying [])) := by
  unfold work
  cases s.phase w with
  | relaying todo => cases todo <;> rfl
  | published event todo => rfl
  | refused event todo => rfl

inductive Works (s : OutboxState W) (w : W) : WorkerAction → OutboxState W → Prop
  | read {listed : List (OutboxEvent Event)} (hphase : s.phase w = .relaying []) (hlists : s.table.Lists listed) :
      Works s w (.getPendingEvents listed)
        (s.setPhase w (.relaying (listed.take OutboxWorker.batchSize)))
  | acknowledged {event : OutboxEvent Event} {todo : List (OutboxEvent Event)}
      (hphase : s.phase w = .relaying (event :: todo)) :
      Works s w (.publish .acknowledged)
        { s.setPhase w (.published event todo) with bus := s.bus ++ [event] }
  | unacknowledged {event : OutboxEvent Event} {todo : List (OutboxEvent Event)}
      (hphase : s.phase w = .relaying (event :: todo)) :
      Works s w (.publish .unacknowledged)
        { s.setPhase w (.refused event todo) with bus := s.bus ++ [event] }
  | undelivered {event : OutboxEvent Event} {todo : List (OutboxEvent Event)}
      (hphase : s.phase w = .relaying (event :: todo)) :
      Works s w (.publish .undelivered) (s.setPhase w (.refused event todo))
  | processed {event : OutboxEvent Event} {todo : List (OutboxEvent Event)} {now : ℤ}
      (hphase : s.phase w = .published event todo) :
      Works s w (.mark now)
        { s.setPhase w (.relaying todo) with table := s.table.markProcessed event.id now }
  | failed {event : OutboxEvent Event} {todo : List (OutboxEvent Event)} {now : ℤ}
      (hphase : s.phase w = .refused event todo) :
      Works s w (.mark now)
        { s.setPhase w (.relaying todo) with table := s.table.markFailed event.id now }
  | gaveUp : Works s w .giveUp (s.setPhase w (.relaying []))

theorem works_of_work {s s' : OutboxState W} {w : W} {a : WorkerAction} (h : s.work w a = some s') :
    s.Works w a s' := by
  unfold work at h
  split at h
  case h_1 listed hphase =>
    obtain ⟨events, hevents, rfl⟩ := Option.map_eq_some_iff.mp h
    unfold OutboxTable.getPendingEvents at hevents
    split_ifs at hevents with hlists
    obtain rfl := Option.some.inj hevents
    exact .read hphase hlists
  case h_2 hphase => obtain rfl := Option.some.inj h; exact .acknowledged hphase
  case h_3 hphase => obtain rfl := Option.some.inj h; exact .unacknowledged hphase
  case h_4 hphase => obtain rfl := Option.some.inj h; exact .undelivered hphase
  case h_5 hphase => obtain rfl := Option.some.inj h; exact .processed hphase
  case h_6 hphase => obtain rfl := Option.some.inj h; exact .failed hphase
  case h_7 => obtain rfl := Option.some.inj h; exact .gaveUp
  case h_8 => cases h

end OutboxState

end TradingService
