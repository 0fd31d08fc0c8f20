import TradingService.Lib.Runs
import TradingService.Settlement.Gateway
import TradingService.Settlement.Repository

/-!
# Settlement workers

`settle_claimed` as a list of tasks, one for each statement of the database and each
call of the gateway. Any number of workers do their tasks, and between two tasks the
others may do theirs, rows may be reclaimed and the process may restart. The answers
of the database and the chain are in the actions. `landed` and `reported` record what
has been swapped and what a gateway call has returned.
-/

namespace TradingService

open Database (Statement HasStatus KeepsOutside Trade)

def maxSettlementRetries : ℤ := 5

def staleProcessingSecs : ℤ := 300

inductive Task
  | checkPlacement (claimed : List (Settlement Numeric))
  | checkExpiry (claimed : List (Settlement Numeric))
  | send (claimed : List (Settlement Numeric))
  | park (id : Uuid) (reason : String)
  | complete (id : Uuid) (signature : String)
  | completePlain (id : Uuid) (signature : String)
  | release (ids : List Uuid) (reason : String)

namespace Task

def ids : Task → List Uuid
  | .checkPlacement claimed => claimed.map (·.id)
  | .checkExpiry claimed => claimed.map (·.id)
  | .send claimed => claimed.map (·.id)
  | .park id _ => [id]
  | .complete id _ => [id]
  | .completePlain id _ => [id]
  | .release ids _ => ids

def IsCompletion : Task → Prop
  | .complete _ _ => True
  | .completePlain _ _ => True
  | _ => False

end Task

def idsOf (tasks : List Task) : List Uuid := tasks.flatMap Task.ids

def unplacedReason (s : Settlement Numeric) : String :=
  let buy := s.buyOrderId.display
  let sell := s.sellOrderId.display
  s!"order never placed on-chain (buy {buy} / sell {sell} — one has no order_pda); placement is not retried by any worker, so this settlement can never succeed"

/-- The failure that came first is carried along. -/
def lapsedReason (s : Settlement Numeric) : String :=
  let buy := s.buyOrderId.display
  let sell := s.sellOrderId.display
  let attempts := s.retryCount
  let reason := s!"order expired before settlement (buy {buy} / sell {sell}); on-chain settlement would be rejected OrderExpired"
  match s.errorMessage with
  | none => reason
  | some prior =>
    s!"{reason}; earlier failure after {attempts} attempt(s), which is the cause to investigate: {prior}"

def rejectedReason (reason : String) : String :=
  s!"deterministic on-chain rejection, not retried: {reason}"

/-- The answer of the database to a statement, or what a gateway call meets. -/
inductive Answer
  | done
  | failed
  | called (env : Surroundings)

/-- What a task leaves: the database, the tasks that take its place, and what its
gateway call landed and returned. -/
structure Outcome where
  db : Database
  tasks : List Task
  landed : List Uuid
  reported : List Uuid

/-- An empty batch is returned at once. -/
def unlessEmpty (task : List (Settlement Numeric) → Task) (claimed : List (Settlement Numeric)) :
    List Task :=
  if claimed.isEmpty then [] else [task claimed]

/-- A pre-flight: the settlements that a query names are parked, the others go on. -/
def preflight (named : List Uuid) (reason : Settlement Numeric → String)
    (next : List (Settlement Numeric) → Task) (claimed : List (Settlement Numeric)) : List Task :=
  (claimed.filter (·.id ∈ named)).map (fun s => .park s.id (reason s)) ++
    unlessEmpty next (claimed.filter (·.id ∉ named))

/-- What follows an error of the gateway. A batch that the program rejected is settled
again one by one, and a single settlement is parked. -/
def afterError (claimed : List (Settlement Numeric)) (reason : String) : List Task :=
  if isDeterministicChainRejection reason then
    match claimed with
    | [single] => [.park single.id (rejectedReason reason)]
    | _ => claimed.map fun s => .checkPlacement [s]
  else [.release (claimed.map (·.id)) reason]

def afterResults (claimed : List (Settlement Numeric)) (txs : List SettlementTransaction) :
    List Task :=
  let unminted := (claimed.map (·.id)).filter (· ∉ txs.map (·.settlementId))
  txs.map (fun tx => .complete tx.settlementId tx.signature) ++
    if unminted.isEmpty then [] else [.release unminted "not included in on-chain batch result"]

def Task.run (db : Database) (now : ℤ) : Task → Answer → Option Outcome
  | .checkPlacement claimed, .done =>
    let missing := db.settlementsMissingOrderPda (claimed.map (·.id))
    some ⟨db, preflight missing unplacedReason .checkExpiry claimed, [], []⟩
  -- A query that fails lets every settlement pass.
  | .checkPlacement claimed, .failed => some ⟨db, [.checkExpiry claimed], [], []⟩
  | .checkExpiry claimed, .done =>
    let lapsed := db.settlementsWithLapsedOrders (claimed.map (·.id)) now
    some ⟨db, preflight lapsed lapsedReason .send claimed, [], []⟩
  | .checkExpiry claimed, .failed => some ⟨db, [.send claimed], [], []⟩
  | .send claimed, .called env =>
    let landed := env.landed db claimed
    match env.executeBatchedSettlements db claimed with
    | .error reason => some ⟨db, afterError claimed reason, landed, []⟩
    | .ok txs => some ⟨db, afterResults claimed txs, landed, txs.map (·.settlementId)⟩
  | .park id reason, .done =>
    some ⟨db.updateSettlementStatus id .permanentlyFailed none (some reason) now [], [], [], []⟩
  | .complete id signature, .done =>
    some ⟨db.updateSettlementStatus id .completed (some signature) none now
      [.settlementProcessed id signature], [], [], []⟩
  | .complete id signature, .failed => some ⟨db, [.completePlain id signature], [], []⟩
  | .completePlain id signature, .done =>
    some ⟨db.updateSettlementStatus id .completed (some signature) none now [], [], [], []⟩
  | .release ids reason, .done =>
    some ⟨db.resetSettlementsForRetry ids maxSettlementRetries (some reason) now, [], [], []⟩
  -- The error of any other write is dropped or only logged.
  | .park _ _, .failed => some ⟨db, [], [], []⟩
  | .completePlain _ _, .failed => some ⟨db, [], [], []⟩
  | .release _ _, .failed => some ⟨db, [], [], []⟩
  | _, _ => none

structure SettlementState (W : Type) where
  db : Database
  tasks : W → List Task
  landed : List Uuid
  reported : List Uuid

inductive SettlementAction (W : Type)
  | order (st : Statement)
  | trade (t : Trade)
  | claim (w : W) (ids : List Uuid) (now : ℤ)
  | reclaim (now : ℤ)
  | run (w : W) (now : ℤ) (answer : Answer)
  /-- The process restarts; `landed` is what an unfinished gateway call had landed. -/
  | restart (w : W) (landed : List Uuid)

namespace SettlementState

variable {W : Type}

/-- The settlements that a worker has claimed and is not done with. -/
def held (s : SettlementState W) (w : W) : List Uuid := idsOf (s.tasks w)

def sending (s : SettlementState W) (w : W) : List (Settlement Numeric) :=
  match s.tasks w with
  | .send claimed :: _ => claimed
  | _ => []

variable [DecidableEq W]

def step (s : SettlementState W) : SettlementAction W → Option (SettlementState W)
  | .order st => (s.db.exec st).map fun db => { s with db := db }
  | .trade t =>
    match s.db.persistMatchedTrade t.settlement t.orderMatch t.event t.buyer t.seller with
    | .committed db => some { s with db := db }
    | _ => none
  | .claim w ids now =>
    if (s.tasks w).isEmpty then
      let (db, claimed) := s.db.claimSettlementsForProcessing ids now
      some { s with
        db := db, tasks := Function.update s.tasks w (unlessEmpty .checkPlacement claimed) }
    else none
  | .reclaim now =>
    some { s with db := s.db.reclaimStaleProcessing staleProcessingSecs maxSettlementRetries now }
  | .run w now answer =>
    match s.tasks w with
    | [] => none
    | task :: rest =>
      (task.run s.db now answer).bind fun out =>
        -- The nullifier lets no settlement land twice.
        if ∀ id ∈ out.landed, id ∉ s.landed then
          some
            { db := out.db
              tasks := Function.update s.tasks w (out.tasks ++ rest)
              landed := out.landed ++ s.landed
              reported := out.reported ++ s.reported }
        else none
  | .restart w landed =>
    if ∀ id ∈ landed, id ∈ (s.sending w).map (·.id) ∧ id ∉ s.landed then
      some { s with tasks := Function.update s.tasks w [], landed := landed ++ s.landed }
    else none

inductive Move (s : SettlementState W) : SettlementAction W → SettlementState W → Prop
  | other {db : Database} (a : SettlementAction W)
      (hrows : ∀ row ∈ s.db.settlements.rows, row ∈ db.settlements.rows) :
    Move s a { s with db := db }
  | claim (w : W) (ids : List Uuid) (now : ℤ) (hidle : s.tasks w = []) :
    Move s (.claim w ids now) { s with
      db := (s.db.claimSettlementsForProcessing ids now).1
      tasks := Function.update s.tasks w
        (unlessEmpty .checkPlacement (s.db.claimSettlementsForProcessing ids now).2) }
  | reclaim (now : ℤ) :
    Move s (.reclaim now) { s with
      db := s.db.reclaimStaleProcessing staleProcessingSecs maxSettlementRetries now }
  | run {w : W} {now : ℤ} {answer : Answer} {task : Task} {rest : List Task} {out : Outcome}
      (htasks : s.tasks w = task :: rest) (hrun : task.run s.db now answer = some out) :
    Move s (.run w now answer)
      { db := out.db
        tasks := Function.update s.tasks w (out.tasks ++ rest)
        landed := out.landed ++ s.landed
        reported := out.reported ++ s.reported }
  | restart (w : W) {landed : List Uuid} (hlanded : ∀ id ∈ landed, id ∈ (s.sending w).map (·.id)) :
    Move s (.restart w landed)
      { s with tasks := Function.update s.tasks w [], landed := landed ++ s.landed }

section Inversion

variable {s s' : SettlementState W}

theorem committed_of_step {t : Trade} (h : s.step (.trade t) = some s') :
    ∃ db, s.db.persistMatchedTrade t.settlement t.orderMatch t.event t.buyer t.seller =
      .committed db ∧ s' = { s with db := db } := by
  unfold step at h
  dsimp only at h
  split at h
  next db hcommitted => exact ⟨db, hcommitted, (Option.some.inj h).symm⟩
  · cases h

theorem claimed_of_step {w : W} {ids : List Uuid} {now : ℤ} (h : s.step (.claim w ids now) = some s') :
    s.tasks w = [] ∧ s' = { s with
      db := (s.db.claimSettlementsForProcessing ids now).1
      tasks := Function.update s.tasks w
        (unlessEmpty .checkPlacement (s.db.claimSettlementsForProcessing ids now).2) } := by
  unfold step at h
  dsimp only at h
  split_ifs at h with hidle
  exact ⟨List.isEmpty_iff.mp hidle, (Option.some.inj h).symm⟩

theorem run_of_step {w : W} {now : ℤ} {answer : Answer} (h : s.step (.run w now answer) = some s') :
    ∃ task rest out, s.tasks w = task :: rest ∧ task.run s.db now answer = some out ∧
      s' =
        { db := out.db
          tasks := Function.update s.tasks w (out.tasks ++ rest)
          landed := out.landed ++ s.landed
          reported := out.reported ++ s.reported } := by
  unfold step at h
  dsimp only at h
  split at h
  · cases h
  next task rest htasks =>
    obtain ⟨out, hrun, h⟩ := Option.bind_eq_some_iff.mp h
    split_ifs at h
    exact ⟨task, rest, out, htasks, hrun, (Option.some.inj h).symm⟩

theorem restarted_of_step {w : W} {landed : List Uuid} (h : s.step (.restart w landed) = some s') :
    (∀ id ∈ landed, id ∈ (s.sending w).map (·.id)) ∧
      s' = { s with tasks := Function.update s.tasks w [], landed := landed ++ s.landed } := by
  unfold step at h
  dsimp only at h
  split_ifs at h with hlanded
  exact ⟨fun id hid => (hlanded id hid).1, (Option.some.inj h).symm⟩

theorem move_of_step {a : SettlementAction W} (h : s.step a = some s') : s.Move a s' := by
  cases a with
  | order st =>
    obtain ⟨db, hexec, rfl⟩ := Option.map_eq_some_iff.mp h
    exact .other _ fun row hrow => by rwa [Database.exec_settlements hexec]
  | trade t =>
    obtain ⟨db, hcommitted, rfl⟩ := committed_of_step h
    exact .other _ (Database.mem_settlements_of_trade hcommitted)
  | claim w ids now =>
    obtain ⟨hidle, rfl⟩ := claimed_of_step h
    exact .claim w ids now hidle
  | reclaim now =>
    obtain rfl := Option.some.inj h
    exact .reclaim now
  | run w now answer =>
    obtain ⟨task, rest, out, htasks, hrun, rfl⟩ := run_of_step h
    exact .run htasks hrun
  | restart w landed =>
    obtain ⟨hlanded, rfl⟩ := restarted_of_step h
    exact .restart w hlanded

end Inversion

end SettlementState

end TradingService
