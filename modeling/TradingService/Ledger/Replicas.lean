import TradingService.Ledger.Matching
import TradingService.Lib.Runs

/-!
# Replicas over one database

Any number of workers read the active orders, run an engine on what they read and
write its matches one transaction at a time. The sells are read after the buys, and
every other party may get in between any two of these steps. The environment decides
which step comes next, what the clock says, which ids are drawn and which
transactions fail.
-/

namespace TradingService

open Database (Statement)

/-- Where a worker stands in its cycle. -/
inductive Phase
  | idle
  | reading (kind : JobKind) (buys : List OrderRow)
  | writing (job : Job)

def Phase.pending : Phase → List MatchResult
  | .writing job => job.pending
  | _ => []

inductive JobStep
  | readBuys (kind : JobKind)
  | readSells (topology : TopologySnapshot) (nowNs : I64)
  | persist (ids : TradeIds) (rates : ChargeRates)
  | persistError
  | sweep
  | stop

/-- The warning branch of `persist_matches`. -/
def Job.giveUp (job : Job) (m : MatchResult) (rest : List MatchResult) : Job :=
  { job with pending := rest, refused := m :: job.refused }

def Phase.step (db : Database) : Phase → JobStep → Option (Database × Phase)
  | .idle, .readBuys kind => some (db, .reading kind (kind.select (db.activeOrders .buy)))
  | .reading kind buys, .readSells topology nowNs =>
    some (db, .writing (kind.run buys (kind.select (db.activeOrders .sell)) topology nowNs))
  | .writing job, .persist ids rates =>
    match job.pending with
    | [] => none
    | m :: rest =>
      match job.persistMatch db m ids rates with
      | .committed db' => some (db', .writing { job with pending := rest })
      | .refused => some (db, .writing (job.giveUp m rest))
      | .failed => some (db, .writing (job.giveUp m rest))
  | .writing job, .persistError =>
    match job.pending with
    | [] => none
    | m :: rest => some (db, .writing (job.giveUp m rest))
  | .writing job, .sweep =>
    match job.pending, job.sweep with
    | [], o :: rest =>
      -- An error leaves the cycle, and the rest is not swept.
      match cancelIocRemainder db o with
      | some db' => some (db', .writing { job with sweep := rest })
      | none => some (db, .idle)
    | _, _ => none
  | _, .stop => some (db, .idle)
  | _, _ => none

inductive Move (db : Database) : Phase → JobStep → Database → Phase → Prop
  | readBuys (kind : JobKind) :
    Move db .idle (.readBuys kind) db (.reading kind (kind.select (db.activeOrders .buy)))
  | readSells (kind : JobKind) (buys : List OrderRow) (topology : TopologySnapshot) (nowNs : I64) :
    Move db (.reading kind buys) (.readSells topology nowNs) db
      (.writing (kind.run buys (kind.select (db.activeOrders .sell)) topology nowNs))
  | persisted {job : Job} {m : MatchResult} {rest : List MatchResult} {ids : TradeIds}
      {rates : ChargeRates} {db' : Database} (hpending : job.pending = m :: rest)
      (h : job.persistMatch db m ids rates = .committed db') :
    Move db (.writing job) (.persist ids rates) db' (.writing { job with pending := rest })
  | givenUp {job : Job} {m : MatchResult} {rest : List MatchResult} (a : JobStep)
      (hpending : job.pending = m :: rest) :
    Move db (.writing job) a db (.writing (job.giveUp m rest))
  | swept {job : Job} {o : FastOrder} {rest : List FastOrder} {db' : Database}
      (hpending : job.pending = []) (hsweep : job.sweep = o :: rest)
      (h : cancelIocRemainder db o = some db') :
    Move db (.writing job) .sweep db' (.writing { job with sweep := rest })
  | stopped (phase : Phase) (a : JobStep) (h : a = .stop ∨ phase.pending = []) : Move db phase a db .idle

theorem Phase.move_of_step {db db' : Database} {phase phase' : Phase} {a : JobStep}
    (h : phase.step db a = some (db', phase')) : Move db phase a db' phase' := by
  unfold Phase.step at h
  split at h
  · obtain ⟨rfl, rfl⟩ := Prod.mk.inj (Option.some.inj h)
    exact .readBuys _
  · obtain ⟨rfl, rfl⟩ := Prod.mk.inj (Option.some.inj h)
    exact .readSells _ _ _ _
  · split at h
    · cases h
    next hpending =>
      split at h <;> obtain ⟨rfl, rfl⟩ := Prod.mk.inj (Option.some.inj h)
      next hcommit => exact .persisted hpending hcommit
      · exact .givenUp _ hpending
      · exact .givenUp _ hpending
  · split at h
    · cases h
    next hpending =>
      obtain ⟨rfl, rfl⟩ := Prod.mk.inj (Option.some.inj h)
      exact .givenUp _ hpending
  · split at h
    next hpending hsweep =>
      split at h <;> obtain ⟨rfl, rfl⟩ := Prod.mk.inj (Option.some.inj h)
      next hwritten => exact .swept hpending hsweep hwritten
      · exact .stopped _ _ (.inr hpending)
    · cases h
  · obtain ⟨rfl, rfl⟩ := Prod.mk.inj (Option.some.inj h)
    exact .stopped _ _ (.inl rfl)
  · cases h

def Phase.nextMatch : Phase → Option MatchResult
  | .writing job => job.pending.head?
  | _ => none

section Snapshots

variable {db db' : Database} {buys : List OrderRow}

theorem select_sublist (kind : JobKind) (side : OrderSide) :
    (kind.select (db.activeOrders side)).Sublist db.orders.rows := by
  cases kind <;> exact List.filter_sublist.trans List.filter_sublist

def JobKind.Takes (kind : JobKind) (o : OrderRow) : Prop :=
  match kind with
  | .matching => o.marketSegment = .realtime
  | .clearing epochId => o.marketSegment = .interval ∧ o.epochId = some epochId

theorem JobKind.mem_select {kind : JobKind} {orders : List OrderRow} {o : OrderRow} :
    o ∈ kind.select orders ↔ o ∈ orders ∧ kind.Takes o := by
  cases kind with
  | matching => simp [JobKind.select, JobKind.Takes]
  | clearing epochId => simp [JobKind.select, JobKind.Takes]

theorem side_of_mem_select {kind : JobKind} {side : OrderSide} {o : OrderRow}
    (h : o ∈ kind.select (db.activeOrders side)) : o.side = side := by
  have hactive : o ∈ db.activeOrders side := by cases kind <;> exact List.mem_of_mem_filter h
  exact (of_decide_eq_true (List.mem_filter.mp hactive).2).1

theorem select_ids_nodup (kind : JobKind) (side : OrderSide) :
    ((kind.select (db.activeOrders side)).map (·.id)).Nodup :=
  ((select_sublist kind side).map _).nodup db.orders.keys_nodup

structure BuySnapshot (db : Database) (buys : List OrderRow) : Prop where
  ids : (buys.map (·.id)).Nodup
  side : ∀ b ∈ buys, b.side = .buy
  known : ∀ b ∈ buys, ∃ o ∈ db.orders.rows, b.SameTerms o

theorem BuySnapshot.select (kind : JobKind) :
    BuySnapshot db (kind.select (db.activeOrders .buy)) where
  ids := select_ids_nodup kind .buy
  side _ hb := side_of_mem_select hb
  known b hb := ⟨b, (select_sublist kind .buy).subset hb, .refl b⟩

theorem BuySnapshot.mono {buys : List OrderRow} (h : BuySnapshot db buys) (hext : Database.Extends db db') :
    BuySnapshot db' buys where
  ids := h.ids
  side := h.side
  known b hb := by
    obtain ⟨o, ho, hterms⟩ := h.known b hb
    obtain ⟨o', ho', hterms'⟩ := hext o ho
    exact ⟨o', ho', hterms.trans hterms'⟩

/-- Orders do not change sides, so buys and sells that were read at different times
are different orders. -/
theorem BuySnapshot.ids_append (h : BuySnapshot db buys) (kind : JobKind) :
    ((buys ++ kind.select (db.activeOrders .sell)).map (·.id)).Nodup := by
  rw [List.map_append, List.nodup_append]
  refine ⟨h.ids, select_ids_nodup kind .sell, fun x hx y hy heq => ?_⟩
  obtain ⟨b, hb, rfl⟩ := List.mem_map.mp hx
  obtain ⟨s, hs, rfl⟩ := List.mem_map.mp hy
  obtain ⟨o, ho, hterms⟩ := h.known b hb
  obtain rfl := KeyedTable.row_unique ho ((select_sublist kind .sell).subset hs)
    (hterms.id.trans heq)
  have hside := hterms.side
  rw [side_of_mem_select hs, h.side b hb] at hside
  cases hside

theorem Job.Decided.ne {sells : List OrderRow} {job : Job} (h : job.Decided buys sells)
    (hids : ((buys ++ sells).map (·.id)).Nodup) :
    ∀ m ∈ job.pending, m.buyOrderId ≠ m.sellOrderId := by
  intro m hm
  obtain ⟨b, hb, hbid⟩ := h.buy_mem m hm
  obtain ⟨s, hs, hsid⟩ := h.sell_mem m hm
  rw [List.map_append, List.nodup_append] at hids
  rw [← hbid, ← hsid]
  exact hids.2.2 _ (List.mem_map_of_mem hb) _ (List.mem_map_of_mem hs)

end Snapshots

structure State (R : Type) where
  db : Database
  phase : R → Phase

inductive Action (R : Type)
  | statement (st : Statement)
  | worker (r : R) (a : JobStep)

variable {R : Type} [DecidableEq R]

def State.start (db : Database) : State R := ⟨db, fun _ => .idle⟩

def State.step (s : State R) : Action R → Option (State R)
  | .statement st => (s.db.exec st).map fun db => { s with db := db }
  | .worker r a => ((s.phase r).step s.db a).map fun out =>
      { db := out.1, phase := Function.update s.phase r out.2 }

/-- A property of the database and of every worker is kept by a step, if the step's
own worker gets it and no step takes it from the other workers. -/
theorem State.step_induction {s s' : State R} {a : Action R} {I : Database → Phase → Prop}
    (hI : ∀ r, I s.db (s.phase r))
    (hstatement : ∀ st db', a = .statement st → s.db.exec st = some db' →
      ∀ r, I s.db (s.phase r) → I db' (s.phase r))
    (hworker : ∀ r b db' phase', a = .worker r b → Move s.db (s.phase r) b db' phase' →
      I db' phase' ∧ ∀ q, q ≠ r → I s.db (s.phase q) → I db' (s.phase q))
    (h : s.step a = some s') : ∀ r, I s'.db (s'.phase r) := by
  cases a with
  | statement st =>
    obtain ⟨db', hexec, rfl⟩ := Option.map_eq_some_iff.mp h
    exact fun r => hstatement st db' rfl hexec r (hI r)
  | worker r b =>
    obtain ⟨⟨db', phase'⟩, hstep, rfl⟩ := Option.map_eq_some_iff.mp h
    obtain ⟨hown, hothers⟩ := hworker r b db' phase' rfl (Phase.move_of_step hstep)
    exact (Function.forall_update_iff s.phase fun _ phase => I db' phase).mpr
      ⟨hown, fun q hq => hothers q hq (hI q)⟩

end TradingService
