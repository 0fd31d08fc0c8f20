import TradingService.Ledger.Bounds
import TradingService.Ledger.OrderChange

/-!
# Immediate orders after a cycle

Any number of replicas read an immediate order and decide about it. A cycle that leaves it
short sweeps it, and one that fills it is done with it after its last match, whatever the
others write in between. So no match may be lost: the engine counts a match that is then
given up, and the order is neither swept nor filled. A fill-or-kill buy needs more, since
it must not be ended between two matches of another replica either.
-/

namespace TradingService

variable {db db' : Database} {id : Uuid}

/-- The stored order is terminal, and a fill-or-kill buy has the fill that it was read
with or all of its energy. -/
def OrderRow.EndsIn (row o : OrderRow) : Prop :=
  o.status.isLive = false ∧
    (row.timeInForce = .fok → row.side = .buy → o.filled = row.filled ∨ o.filled = o.energy)

def Phase.EndsImmediate (db : Database) (id : Uuid) : Phase → Prop
  | .writing job => job.pending = [] → job.sweep = [] →
      ∀ row ∈ job.owners, row.id = id → row.ImmediateAt job.nowNs →
        ∃ o ∈ db.orders.rows, o.id = id ∧ row.EndsIn o
  | _ => True

def Phase.sweepIds : Phase → List Uuid
  | .writing job => job.sweep.map (·.id)
  | _ => []

namespace Database

def FillsOrKills (db : Database) (id : Uuid) : Prop := ∃ o ∈ db.orders.rows, o.id = id ∧ o.FillsOrKills

def Short (db : Database) (id : Uuid) : Prop :=
  ∀ o ∈ db.orders.rows, o.id = id → o.status.isLive → o.filled < o.energy

end Database

namespace State

variable {R : Type}

def EndsImmediate (id : Uuid) (s : State R) : Prop := ∀ r, (s.phase r).EndsImmediate s.db id

def Owes (id : Uuid) (s : State R) : Prop := ∃ r, ∃ m ∈ (s.phase r).pending, m.names id

/-- The step gives up no match of the order while it is live, unless the worker is still going
to sweep it. -/
def WritesEach (id : Uuid) (s : State R) : Action R → Prop
  | .worker r a => s.db.Live id → ∀ m ∈ (s.phase r).nextMatch, m.names id →
      (∃ p ∈ (s.phase r).step s.db a, p.2.refusals = m :: (s.phase r).refusals) →
        id ∈ (s.phase r).sweepIds
  | .statement _ => True

/-- A trade of the order finds room, and while a match of the order is to be written, it is not
ended otherwise and the worker does not stop. -/
def WritesWhole (id : Uuid) (s : State R) : Action R → Prop
  | .statement st => s.Owes id → s.db.Live id → ∀ db' ∈ s.db.exec st, db'.Live id
  | .worker r a => match a with
    | .persist ids rates => (∃ m ∈ (s.phase r).nextMatch, m.names id) →
        s.HasRoom (.worker r (.persist ids rates))
    | .sweep => s.Owes id → s.db.Live id → ∀ o ∈ (s.phase r).nextSweep, o.id ≠ id
    | .stop => ∀ m ∈ (s.phase r).pending, ¬m.names id
    | _ => True

/-- A step that loses no match of the order. -/
def LosesNone (id : Uuid) (s : State R) (a : Action R) : Prop :=
  s.WritesEach id a ∧ (s.db.FillsOrKills id → s.WritesWhole id a)

end State

section Decide

variable {R : Type} [Fintype R]

instance (row o : OrderRow) : Decidable (row.EndsIn o) :=
  inferInstanceAs (Decidable (_ ∧ (_ → _ → _ ∨ _)))

instance (db : Database) (id : Uuid) (phase : Phase) : Decidable (phase.EndsImmediate db id) := by
  unfold Phase.EndsImmediate
  split <;> infer_instance

instance (db : Database) (id : Uuid) : Decidable (db.FillsOrKills id) :=
  inferInstanceAs (Decidable (∃ o ∈ db.orders.rows, _))

instance (db : Database) (id : Uuid) : Decidable (db.Short id) :=
  inferInstanceAs (Decidable (∀ o ∈ db.orders.rows, _))

instance (id : Uuid) (s : State R) : Decidable (s.EndsImmediate id) :=
  inferInstanceAs (Decidable (∀ r, (s.phase r).EndsImmediate s.db id))

instance (id : Uuid) (s : State R) : Decidable (s.Owes id) :=
  inferInstanceAs (Decidable (∃ r, ∃ m ∈ (s.phase r).pending, m.names id))

instance (id : Uuid) (s : State R) : (a : Action R) → Decidable (s.WritesEach id a)
  | .worker r b => inferInstanceAs (Decidable (_ → ∀ m ∈ (s.phase r).nextMatch, m.names id →
      (∃ p ∈ (s.phase r).step s.db b, p.2.refusals = m :: (s.phase r).refusals) → _ ∈ _))
  | .statement _ => .isTrue trivial

instance (id : Uuid) (s : State R) : (a : Action R) → Decidable (s.WritesWhole id a)
  | .statement st => inferInstanceAs (Decidable (_ → _ → ∀ db' ∈ s.db.exec st, _))
  | .worker r (.persist ids rates) => inferInstanceAs (Decidable
      ((∃ m ∈ (s.phase r).nextMatch, m.names id) → s.HasRoom (.worker r (.persist ids rates))))
  | .worker r .sweep => inferInstanceAs (Decidable (_ → _ → ∀ o ∈ (s.phase r).nextSweep, o.id ≠ id))
  | .worker r .stop => inferInstanceAs (Decidable (∀ m ∈ (s.phase r).pending, ¬m.names id))
  | .worker _ (.readBuys _) => .isTrue trivial
  | .worker _ (.readSells _ _) => .isTrue trivial
  | .worker _ .persistError => .isTrue trivial

instance (id : Uuid) (s : State R) (a : Action R) : Decidable (s.LosesNone id a) :=
  inferInstanceAs (Decidable (_ ∧ (_ → _)))

end Decide

def OrderRow.AllOrNothing (o : OrderRow) (x : Decimal) (owes : Prop) : Prop :=
  o.filled = o.energy ∨ o.filled = x ∨ o.status.isLive ∧ owes

structure Job.Settling (job : Job) (owes : Prop) (row o : OrderRow) : Prop where
  ends : row.ImmediateAt job.nowNs → o.status.isLive → (∃ f ∈ job.sweep, f.id = row.id) ∨
    (0 < tradedAmount job.pending row.id ∧ o.energy ≤ o.filled + tradedAmount job.pending row.id)
  whole : row.FillsOrKills → (∃ m ∈ job.pending, m.names row.id) → (∀ f ∈ job.sweep, f.id ≠ row.id) ∧
    (o.status.isLive → o.energy ≤ o.filled + tradedAmount job.pending row.id)
  kills : row.FillsOrKills → o.AllOrNothing row.filled owes

def Phase.Settling (db : Database) (id : Uuid) (owes : Prop) : Phase → Prop
  | .idle => True
  | .reading kind buys => BuySnapshot db buys ∧ (∀ b ∈ buys, kind.Takes b) ∧
      ∀ b ∈ buys, b.id = id → ∃ o ∈ db.orders.rows, b.Upkeep o ∧
        (o.status.isLive → b.filled ≤ o.filled) ∧ (b.FillsOrKills → o.AllOrNothing b.filled owes)
  | .writing job => job.Prepared ∧ ∀ row ∈ job.owners, row.id = id →
      ∃ o ∈ db.orders.rows, row.Upkeep o ∧ job.Settling owes row o

section Orders

variable {owes owes' : Prop} {o o' row : OrderRow} {job job' : Job}

/-- How a stored order goes through a step: it loses no fill while it is live, and a
fill-or-kill buy stays all or nothing. -/
structure OrderRow.Passes (owes owes' : Prop) (o o' : OrderRow) : Prop where
  upkeep : o.Upkeep o'
  le : o'.status.isLive → o.filled ≤ o'.filled
  kills : o.FillsOrKills → ∀ x, o.AllOrNothing x owes → o'.AllOrNothing x owes'

theorem OrderRow.Upkeep.fillsOrKills_iff (h : row.Upkeep o) : o.FillsOrKills ↔ row.FillsOrKills := by
  unfold FillsOrKills
  rw [h.terms.timeInForce, h.terms.side, h.marketSegment]

theorem OrderRow.AllOrNothing.filled_eq {x : Decimal} (h : o.AllOrNothing x owes) (hshort : o.filled < o.energy)
    (hnone : ¬owes) : o.filled = x := by
  rcases h with hfull | hsame | ⟨_, howes⟩
  · exact absurd hfull hshort.ne
  · exact hsame
  · exact absurd howes hnone

/-- A step of another worker, or of nobody's. -/
theorem Job.Settling.passes (h : job.Settling owes row o) (hup : row.Upkeep o) (hpass : o.Passes owes owes' o') :
    job.Settling owes' row o' where
  ends himm hlive := by
    rw [hpass.upkeep.terms.energy]
    refine (h.ends himm (hpass.upkeep.live hlive)).imp_right fun ⟨hpos, hfull⟩ => ⟨hpos, hfull.trans ?_⟩
    exact add_le_add_left (hpass.le hlive) _
  whole hfok hpending := by
    obtain ⟨hnone, hfull⟩ := h.whole hfok hpending
    refine ⟨hnone, fun hlive => ?_⟩
    rw [hpass.upkeep.terms.energy]
    exact (hfull (hpass.upkeep.live hlive)).trans (add_le_add_left (hpass.le hlive) _)
  kills hfok := hpass.kills (hup.fillsOrKills_iff.mpr hfok) row.filled (h.kills hfok)

theorem Phase.Settling.passes {phase : Phase} (h : phase.Settling db id owes)
    (hext : Database.Extends db db')
    (hrows : ∀ o ∈ db.orders.rows, o.id = id → ∃ o' ∈ db'.orders.rows, o.Passes owes owes' o') :
    phase.Settling db' id owes' := by
  cases phase with
  | idle => trivial
  | reading kind buys =>
    obtain ⟨hsnapshot, htakes, hread⟩ := h
    refine ⟨hsnapshot.mono hext, htakes, fun b hb hid => ?_⟩
    obtain ⟨o, ho, hup, hle, hkills⟩ := hread b hb hid
    obtain ⟨o', ho', hpass⟩ := hrows o ho (hup.terms.id.trans hid)
    exact ⟨o', ho', hup.trans hpass.upkeep,
      fun hlive => (hle (hpass.upkeep.live hlive)).trans (hpass.le hlive),
      fun hfok => hpass.kills (hup.fillsOrKills_iff.mpr hfok) b.filled (hkills hfok)⟩
  | writing job =>
    refine ⟨h.1, fun row hrow hid => ?_⟩
    obtain ⟨o, ho, hup, hsettling⟩ := h.2 row hrow hid
    obtain ⟨o', ho', hpass⟩ := hrows o ho (hup.terms.id.trans hid)
    exact ⟨o', ho', hup.trans hpass.upkeep, hsettling.passes hup hpass⟩

theorem Phase.settling_of_mem (h : (Phase.writing job).Settling db o.id owes) (ho : o ∈ db.orders.rows)
    (hrow : row ∈ job.owners) (hid : row.id = o.id) : row.Upkeep o ∧ job.Settling owes row o := by
  obtain ⟨o₂, ho₂, hup, hsettling⟩ := h.2 row hrow hid
  obtain rfl := KeyedTable.row_unique ho₂ ho (hup.terms.id.trans hid)
  exact ⟨hup, hsettling⟩

theorem Phase.Settling.prepared {phase : Phase} (h : phase.Settling db id owes) : phase.Prepared := by
  cases phase with
  | writing job => exact h.1
  | _ => trivial

theorem exists_named_of_tradedAmount_pos {results : List MatchResult} {id : Uuid}
    (h : 0 < tradedAmount results id) : ∃ m ∈ results, m.names id := by
  by_contra hnone
  push Not at hnone
  rw [tradedAmount_of_not_named hnone] at h
  exact absurd h (lt_irrefl 0)

/-- A match that is written moves its amount from what is pending to the fill. -/
theorem Job.Settling.traded {m : MatchResult} {rest : List MatchResult} (h : job.Settling owes row o)
    (hpending : job.pending = m :: rest) (hname : m.names row.id) (hterms : o.SameTerms o')
    (hlive : o.status.isLive) (hfilled : o'.filled = o.filled + m.matchAmount)
    (hshort : o'.status.isLive ↔ o'.filled < o'.energy)
    (hkills : row.FillsOrKills → o'.AllOrNothing row.filled owes') :
    Job.Settling { job with pending := rest } owes' row o' where
  ends himm hlive' := by
    refine (h.ends himm hlive).imp_right fun ⟨_, hfull⟩ => ?_
    rw [hpending, tradedAmount_cons, if_pos hname] at hfull
    have hleft := hshort.mp hlive'
    rw [hterms.energy] at hleft ⊢
    change 0 < tradedAmount rest row.id ∧ o.energy ≤ o'.filled + tradedAmount rest row.id
    constructor <;> linarith
  whole hfok _ := by
    obtain ⟨hnone, hfull⟩ := h.whole hfok ⟨m, hpending ▸ List.mem_cons_self, hname⟩
    refine ⟨hnone, fun _ => ?_⟩
    have hfull' := hfull hlive
    rw [hpending, tradedAmount_cons, if_pos hname] at hfull'
    rw [hterms.energy]
    change o.energy ≤ o'.filled + tradedAmount rest row.id
    linarith
  kills := hkills

theorem Job.Settling.skipped {m : MatchResult} {rest : List MatchResult} (h : job.Settling owes row o)
    (hpending : job.pending = m :: rest) (hname : ¬m.names row.id) (hjob' : job'.pending = rest)
    (hsweep : job'.sweep = job.sweep) (hnow : job'.nowNs = job.nowNs) : job'.Settling owes row o := by
  have hsame : tradedAmount job.pending row.id = tradedAmount job'.pending row.id := by
    rw [hpending, hjob', tradedAmount_cons, if_neg hname, zero_add]
  constructor
  · rw [hnow, hsweep, ← hsame]
    exact h.ends
  · rintro hfok ⟨m', hm', hname'⟩
    rw [hsweep, ← hsame]
    exact h.whole hfok ⟨m', hpending ▸ List.mem_cons_of_mem _ (hjob' ▸ hm'), hname'⟩
  · exact h.kills

end Orders

section Decisions

variable {owes : Prop} {buys : List OrderRow}

theorem runMatchingCycle_owners {sells : List OrderRow} (topology : TopologySnapshot) (nowNs : I64) :
    (runMatchingCycle buys sells topology nowNs).owners = buys ++ sells := by
  unfold runMatchingCycle
  split_ifs with hempty
  · rw [hempty.1, hempty.2]
    rfl
  · rfl

theorem runMatchingCycle_nowNs {sells : List OrderRow} (topology : TopologySnapshot) (nowNs : I64) :
    (runMatchingCycle buys sells topology nowNs).nowNs = nowNs := by
  unfold runMatchingCycle
  split_ifs <;> rfl

theorem runEpochClearing_owners {sells : List OrderRow} (h : ¬(buys = [] ∨ sells = []))
    (topology : TopologySnapshot) (nowNs : I64) :
    (runEpochClearing buys sells topology nowNs).owners = buys ++ sells := by
  rw [runEpochClearing, if_neg h]

theorem Phase.Settling.stored {kind : JobKind} (h : (Phase.reading kind buys).Settling db id owes) :
    ∀ row ∈ buys ++ kind.select (db.activeOrders .sell), row.id = id →
      ∃ o ∈ db.orders.rows, row.Upkeep o ∧ (o.status.isLive → row.filled ≤ o.filled) ∧
        (row.FillsOrKills → o.AllOrNothing row.filled owes) := by
  intro row hrow hid
  rcases List.mem_append.mp hrow with hbuy | hsell
  · exact h.2.2 row hbuy hid
  · exact ⟨row, (select_sublist kind .sell).subset hsell, .refl row, fun _ => le_rfl,
      fun _ => .inr (.inl rfl)⟩

/-- A clearing reads no order that is immediate. -/
theorem Phase.Settling.readSells_clearing {epochId : Uuid}
    (h : (Phase.reading (.clearing epochId) buys).Settling db id owes) (topology : TopologySnapshot)
    (nowNs : I64) :
    (Phase.writing (runEpochClearing buys ((JobKind.clearing epochId).select (db.activeOrders .sell))
      topology nowNs)).Settling db id owes := by
  have hids := h.1.ids_append (.clearing epochId)
  have hinterval : ∀ row ∈ buys ++ (JobKind.clearing epochId).select (db.activeOrders .sell),
      row.marketSegment ≠ .realtime := by
    intro row hrow hrealtime
    have htaken : (JobKind.clearing epochId).Takes row := by
      rcases List.mem_append.mp hrow with hbuy | hsell
      · exact h.2.1 row hbuy
      · exact (JobKind.mem_select.mp hsell).2
    exact absurd (hrealtime.symm.trans htaken.1) (by decide)
  by_cases hempty : buys = [] ∨ (JobKind.clearing epochId).select (db.activeOrders .sell) = []
  · rw [runEpochClearing, if_pos hempty]
    exact ⟨Job.prepared_empty nowNs, fun row hrow => by cases hrow⟩
  have howners := runEpochClearing_owners hempty topology nowNs
  refine ⟨((JobKind.clearing epochId).decided_run topology nowNs hids).prepared hids howners
    fun f _ row hrow _ hfok => absurd hfok.2.2 (hinterval row (howners ▸ hrow)), fun row hrow hid => ?_⟩
  rw [howners] at hrow
  obtain ⟨o, ho, hup, _, hkills⟩ := h.stored row hrow hid
  exact ⟨o, ho, hup, fun himm => absurd himm.realtime (hinterval row hrow),
    fun hfok => absurd hfok.2.2 (hinterval row hrow), hkills⟩

theorem Phase.Settling.readSells_matching (h : (Phase.reading .matching buys).Settling db id owes)
    (hshort : db.Short id) (topology : TopologySnapshot) (nowNs : I64) :
    (Phase.writing (runMatchingCycle buys (JobKind.matching.select (db.activeOrders .sell))
      topology nowNs)).Settling db id owes := by
  have hids := h.1.ids_append .matching
  have hsells : ∀ s ∈ JobKind.matching.select (db.activeOrders .sell), s.side = .sell :=
    fun s hs => side_of_mem_select hs
  have howners : (runMatchingCycle buys (JobKind.matching.select (db.activeOrders .sell)) topology
      nowNs).owners = buys ++ JobKind.matching.select (db.activeOrders .sell) :=
    runMatchingCycle_owners topology nowNs
  refine ⟨(JobKind.matching.decided_run topology nowNs hids).prepared hids howners
    fun f hf row hrow hid hfok => ?_, fun row hrow hid => ?_⟩
  · exact (sweep_unmatched topology hids hsells (howners ▸ hrow) hfok hf hid.symm).1
  rw [howners] at hrow
  obtain ⟨o, ho, hup, hle, hkills⟩ := h.stored row hrow hid
  have henergy := hup.terms.energy
  refine ⟨o, ho, hup, fun himm hlive => ?_, fun hfok hnamed => ?_, hkills⟩
  · refine (em _).imp_right fun hnone => ?_
    rw [runMatchingCycle_nowNs] at himm
    have hfull := not_lt.mp (mt (exists_sweep topology hids hrow himm) hnone)
    have hleft := hshort o ho (hup.terms.id.trans hid) hlive
    have hbefore := hle hlive
    constructor <;> linarith
  · obtain ⟨m, hm, hname⟩ := hnamed
    rcases whole_or_unmatched topology hids hsells hrow hfok with hnone | hwhole
    · exact absurd hname (hnone m hm)
    refine ⟨fun f hf hfid => ?_, fun hlive => ?_⟩
    · exact (sweep_unmatched topology hids hsells hrow hfok hf hfid).2 m hm hname
    · have hbefore := hle hlive
      linarith

/-- The cycle of a worker that has read its buys is on its way. -/
theorem Phase.Settling.readSells {kind : JobKind} (h : (Phase.reading kind buys).Settling db id owes)
    (hshort : db.Short id) (topology : TopologySnapshot) (nowNs : I64) :
    (Phase.writing (kind.run buys (kind.select (db.activeOrders .sell)) topology nowNs)).Settling db id owes := by
  cases kind with
  | clearing epochId => exact h.readSells_clearing topology nowNs
  | matching => exact h.readSells_matching hshort topology nowNs

end Decisions

section Steps

variable {R : Type} {s s' : State R}

/-- A statement takes no fill away, and no match of a fill-or-kill buy loses its order. -/
theorem State.passes_statement {st : Database.Statement} (hlose : s.LosesNone id (.statement st))
    (hexec : s.db.exec st = some db') :
    ∀ o ∈ s.db.orders.rows, o.id = id → ∃ o' ∈ db'.orders.rows, o.Passes (s.Owes id) (s.Owes id) o' := by
  intro o ho hid
  obtain ⟨o', ho', hup⟩ := Database.exec_retains hexec o ho
  obtain ⟨o₂, ho₂, hterms, hfilled⟩ := (Database.exec_keeps hexec).mem o ho
  obtain rfl := KeyedTable.row_unique ho₂ ho' (hterms.id.trans hup.terms.id.symm)
  refine ⟨o₂, ho₂, hup, fun _ => hfilled.ge, fun hfok x hwhole => ?_⟩
  unfold OrderRow.AllOrNothing
  rw [hfilled, hterms.energy]
  refine hwhole.imp_right (Or.imp_right fun ⟨hlive, howes⟩ => ⟨?_, howes⟩)
  obtain ⟨o₃, ho₃, hid₃, hlive₃⟩ := hlose.2 ⟨o, ho, hid, hfok⟩ howes ⟨o, ho, hid, hlive⟩ db' hexec
  obtain rfl := KeyedTable.row_unique ho₃ ho₂ (hid₃.trans (hterms.id.trans hid).symm)
  exact hlive₃

variable [DecidableEq R]

/-- A fill-or-kill buy that has a match is not going to be swept. -/
theorem Phase.Settling.not_mem_sweepIds {phase : Phase} {owes : Prop} {o : OrderRow} {m : MatchResult}
    (hphase : phase.Settling db o.id owes) (ho : o ∈ db.orders.rows) (hfok : o.FillsOrKills)
    (hm : m ∈ phase.pending) (hname : m.names o.id) : o.id ∉ phase.sweepIds := by
  intro hswept
  cases phase with
  | idle => cases hswept
  | reading kind buys => cases hswept
  | writing job =>
    obtain ⟨row, hrow, hrid⟩ := hphase.1.owned m hm _ hname
    obtain ⟨hrup, hsettling⟩ := Phase.settling_of_mem hphase ho hrow hrid
    obtain ⟨f, hf, hfid⟩ := List.mem_map.mp hswept
    have hrfok := hrup.fillsOrKills_iff.mp hfok
    exact (hsettling.whole hrfok ⟨m, hm, hrid ▸ hname⟩).1 f hf (hfid.trans hrid.symm)

/-- A fill-or-kill buy that is short after a match has another one to come. -/
theorem Phase.Settling.exists_rest {job : Job} {owes : Prop} {o : OrderRow} {m : MatchResult}
    {rest : List MatchResult} (hphase : (Phase.writing job).Settling db o.id owes)
    (ho : o ∈ db.orders.rows) (hfok : o.FillsOrKills) (hlive : o.status.isLive)
    (hpending : job.pending = m :: rest) (hname : m.names o.id)
    (hleft : o.filled + m.matchAmount < o.energy) : ∃ m' ∈ rest, m'.names o.id := by
  have hm : m ∈ job.pending := hpending ▸ List.mem_cons_self
  obtain ⟨row, hrow, hrid⟩ := hphase.1.owned m hm _ hname
  obtain ⟨hrup, hsettling⟩ := Phase.settling_of_mem hphase ho hrow hrid
  have hrfok := hrup.fillsOrKills_iff.mp hfok
  have hfull := (hsettling.whole hrfok ⟨m, hm, hrid ▸ hname⟩).2 hlive
  rw [hpending, tradedAmount_cons, if_pos (hrid ▸ hname), hrid] at hfull
  exact exists_named_of_tradedAmount_pos (by linarith)

/-- A fill-or-kill buy that is swept, and owed no match, has the fill that the sweep writes. -/
theorem Phase.Settling.filled_of_sweep {job : Job} {owes : Prop} {o : OrderRow} {f : FastOrder}
    (hphase : (Phase.writing job).Settling db o.id owes) (ho : o ∈ db.orders.rows) (hfok : o.FillsOrKills)
    (hf : f ∈ job.sweep) (hfid : f.id = o.id) (hroom : o.filled < o.energy) (hnone : ¬owes) :
    f.filledAmount = o.filled := by
  obtain ⟨row, hrow, hrid⟩ := hphase.1.sweep_owned f hf
  obtain ⟨hrup, hsettling⟩ := Phase.settling_of_mem hphase ho hrow (hrid.trans hfid)
  have hrfok := hrup.fillsOrKills_iff.mp hfok
  have hread := (hsettling.kills hrfok).filled_eq hroom hnone
  have hwritten := hphase.1.unmatched f hf row hrow hrid hrfok
  exact hwritten.trans hread.symm

theorem State.passes_worker {r : R} {a : JobStep} {phase' : Phase} (hlose : s.LosesNone id (.worker r a))
    (hshort : s.db.Short id) (hphase : (s.phase r).Settling s.db id (s.Owes id))
    (h : (s.phase r).step s.db a = some (db', phase')) :
    ∀ o ∈ s.db.orders.rows, o.id = id → ∃ o' ∈ db'.orders.rows,
      o.Passes (s.Owes id) (State.Owes id ⟨db', Function.update s.phase r phase'⟩) o' := by
  intro o ho hid
  subst hid
  obtain ⟨o', ho', hup, hchange⟩ := (Phase.move_of_step h).change hphase.prepared ho
  refine ⟨o', ho', hup, ?_, ?_⟩
  · intro hlive
    cases hchange with
    | kept heq => rw [heq]
    | traded job m rest ids rates hphase₀ hpending _ _ _ _ _ hfilled =>
      rw [hphase₀] at hphase
      have hpos := hphase.1.amount_pos m (hpending ▸ List.mem_cons_self)
      linarith
    | swept _ _ _ _ _ _ _ _ _ _ hdead => simp [hdead] at hlive
  intro hfok x hwhole
  have hwhole' := hlose.2 ⟨o, ho, rfl, hfok⟩
  cases hchange with
  | kept heq hpending =>
    subst heq
    refine hwhole.imp_right (Or.imp_right fun ⟨hlive, q, m, hm, hname⟩ => ⟨hlive, q, m, ?_, hname⟩)
    by_cases hq : q = r
    · subst hq
      change m ∈ (Function.update s.phase q phase' q).pending
      rw [Function.update_self]
      rcases hpending m hm hname with hm' | rfl | ⟨hnext, hrefused⟩
      · exact hm'
      · exact absurd hname (hwhole' m hm)
      · exact absurd (hlose.1 ⟨o', ho, rfl, hlive⟩ m hnext hname ⟨_, h, hrefused⟩)
          (hphase.not_mem_sweepIds ho hfok hm hname)
    · change m ∈ (Function.update s.phase r phase' q).pending
      rw [Function.update_of_ne hq]
      exact hm
  | traded job m rest ids rates hphase₀ hpending ha hphase' hname hboth hlive hfilled hleft =>
    rw [hphase₀] at hphase
    have hnext : m ∈ (s.phase r).nextMatch := by simp [hphase₀, Phase.nextMatch, hpending]
    have henergy := hup.terms.energy
    subst ha
    by_cases hlive' : o'.status.isLive
    · have hroom := hleft.mp hlive'
      obtain ⟨m', hm', hname'⟩ := hphase.exists_rest ho hfok hlive hpending hname (by linarith)
      refine .inr (.inr ⟨hlive', r, m', ?_, hname'⟩)
      change m' ∈ (Function.update s.phase r phase' r).pending
      rw [Function.update_self, hphase']
      exact hm'
    · left
      have hroom := hwhole' ⟨m, hnext, hname⟩ m hnext hboth.1 hboth.2 o ho hname
      have hfull := not_lt.mp (mt hleft.mpr hlive')
      linarith
  | swept job f rest hphase₀ hpending hsweep ha hfid hlive hfilled hdead =>
    rw [hphase₀] at hphase
    have hnext : f ∈ (s.phase r).nextSweep := by simp [hphase₀, Phase.nextSweep, hpending, hsweep]
    subst ha
    have hnone : ¬s.Owes o.id := fun howes => hwhole' howes ⟨o, ho, rfl, hlive⟩ f hnext hfid
    have hroom := hshort o ho rfl hlive
    right
    left
    rw [hfilled, hphase.filled_of_sweep ho hfok (hsweep ▸ List.mem_cons_self) hfid hroom hnone]
    exact hwhole.filled_eq hroom hnone

theorem Phase.Settling.own {owes owes' : Prop} {phase phase' : Phase} {a : JobStep}
    (hphase : phase.Settling db id owes) (hshort : db.Short id)
    (hwrites : db.Live id → ∀ m ∈ phase.nextMatch, m.names id →
      (∃ p ∈ phase.step db a, p.2.refusals = m :: phase.refusals) → id ∈ phase.sweepIds)
    (h : phase.step db a = some (db', phase'))
    (hpasses : ∀ o ∈ db.orders.rows, o.id = id → ∃ o' ∈ db'.orders.rows, o.Passes owes owes' o') :
    phase'.Settling db' id owes' := by
  have hmove := Phase.move_of_step h
  cases hmove with
  | readBuys kind =>
    refine ⟨.select kind, fun b hb => (JobKind.mem_select.mp hb).2, fun b hb _ => ?_⟩
    exact ⟨b, (select_sublist kind .buy).subset hb, .refl b, fun _ => le_rfl, fun _ => .inr (.inl rfl)⟩
  | readSells kind buys topology nowNs => exact (hphase.passes .refl hpasses).readSells hshort topology nowNs
  | @persisted job m rest ids rates _ hpending hcommit =>
    have hm : m ∈ job.pending := hpending ▸ List.mem_cons_self
    refine ⟨hphase.1.of_subset (fun m' hm' => hpending ▸ List.mem_cons_of_mem _ hm') (fun _ hf => hf) rfl,
      fun row hrow hid => ?_⟩
    obtain ⟨o, ho, hup, hsettling⟩ := hphase.2 row hrow hid
    obtain ⟨o', ho', hpass⟩ := hpasses o ho (hup.terms.id.trans hid)
    refine ⟨o', ho', hup.trans hpass.upkeep, ?_⟩
    obtain ⟨o₂, ho₂, hchange⟩ := Job.persistMatch_mem (hphase.1.ne m hm) (hphase.1.amount_mem m hm) hcommit ho
    rcases hchange with ⟨rfl, hname⟩ | ⟨hname, hterms, hlive, hfilled, hleft⟩
    · rw [hup.terms.id] at hname
      exact (hsettling.passes hup hpass).skipped hpending hname rfl rfl rfl
    · obtain rfl := KeyedTable.row_unique ho₂ ho' (hterms.id.trans hpass.upkeep.terms.id.symm)
      rw [hup.terms.id] at hname
      exact hsettling.traded hpending hname hterms hlive hfilled hleft
        fun hfok => hpass.kills (hup.fillsOrKills_iff.mpr hfok) row.filled (hsettling.kills hfok)
  | @givenUp job m rest _ hpending =>
    refine ⟨hphase.1.of_subset (fun m' hm' => hpending ▸ List.mem_cons_of_mem _ hm') (fun _ hf => hf) rfl,
      fun row hrow hid => ?_⟩
    obtain ⟨o, ho, hup, hsettling⟩ := (hphase.passes .refl hpasses).2 row hrow hid
    refine ⟨o, ho, hup, ?_⟩
    by_cases hname : m.names row.id
    swap
    · exact hsettling.skipped hpending hname rfl rfl rfl
    have hnext : m ∈ (Phase.writing job).nextMatch := by simp [Phase.nextMatch, hpending]
    have hswept : o.status.isLive → ∃ f ∈ job.sweep, f.id = row.id := by
      intro hlive
      have hmem := hwrites ⟨o, ho, hup.terms.id.trans hid, hlive⟩ m hnext (hid ▸ hname) ⟨_, h, rfl⟩
      obtain ⟨f, hf, hfid⟩ := List.mem_map.mp hmem
      exact ⟨f, hf, hfid.trans hid.symm⟩
    refine ⟨fun _ hlive => .inl (hswept hlive), fun hfok _ => ?_, hsettling.kills⟩
    have hnone := (hsettling.whole hfok ⟨m, hpending ▸ List.mem_cons_self, hname⟩).1
    refine ⟨hnone, fun hlive => ?_⟩
    obtain ⟨f, hf, hfid⟩ := hswept hlive
    exact absurd hfid (hnone f hf)
  | @swept job f rest _ hpending hsweep hwritten =>
    refine ⟨hphase.1.of_subset (fun _ hm => hm) (fun f' hf' => hsweep ▸ List.mem_cons_of_mem _ hf') rfl,
      fun row hrow hid => ?_⟩
    have hext : Database.Extends db db' := (Database.updateFilledAmountWithEvent_upkeeps hwritten).retains.extends
    obtain ⟨o, ho, hup, hsettling⟩ := (hphase.passes hext hpasses).2 row hrow hid
    refine ⟨o, ho, hup, fun himm hlive => ?_, fun _ hexists => ?_, hsettling.kills⟩
    · rcases hsettling.ends himm hlive with ⟨f', hf', hfid⟩ | ⟨hpos, _⟩
      · rw [hsweep] at hf'
        rcases List.mem_cons.mp hf' with rfl | hf'
        · exact absurd ⟨o, ho, hup.terms.id.trans hfid.symm, hlive⟩
            (Database.not_live_of_cancelIocRemainder hwritten)
        · exact .inl ⟨f', hf', hfid⟩
      · rw [hpending, tradedAmount_nil] at hpos
        exact absurd hpos (lt_irrefl 0)
    · obtain ⟨m, hm, _⟩ := hexists
      change m ∈ job.pending at hm
      rw [hpending] at hm
      cases hm
  | stopped => trivial

theorem State.short_step {a : Action R} (hshort : s.db.Short id)
    (hphase : ∀ r, (s.phase r).Settling s.db id (s.Owes id)) (h : s.step a = some s') : s'.db.Short id := by
  intro o' ho' hid hlive
  cases a with
  | statement st =>
    obtain ⟨db', hexec, rfl⟩ := Option.map_eq_some_iff.mp h
    rcases (Database.exec_keeps hexec).exists_of_mem o' ho' with ⟨o, ho, hterms, hfilled⟩ | ⟨hfilled, hpos, _⟩
    · obtain ⟨o₂, ho₂, hup⟩ := Database.exec_retains hexec o ho
      obtain rfl := KeyedTable.row_unique ho₂ ho' (hup.terms.id.trans hterms.id.symm)
      rw [hfilled, hterms.energy]
      exact hshort o ho (hterms.id.symm.trans hid) (hup.live hlive)
    · rw [hfilled]
      exact hpos
  | worker r b =>
    obtain ⟨⟨db', phase'⟩, hstep, rfl⟩ := Option.map_eq_some_iff.mp h
    have hmove := Phase.move_of_step hstep
    obtain ⟨o, ho, hup⟩ := hmove.upkeeps.back o' ho'
    obtain ⟨o₂, ho₂, hup₂, hchange⟩ := hmove.change (hphase r).prepared ho
    obtain rfl := KeyedTable.row_unique ho₂ ho' (hup₂.terms.id.trans hup.terms.id.symm)
    cases hchange with
    | kept heq =>
      rw [heq] at hlive hid ⊢
      exact hshort o ho hid hlive
    | traded _ _ _ _ _ _ _ _ _ _ _ _ _ hleft => exact hleft.mp hlive
    | swept _ _ _ _ _ _ _ _ _ _ hdead => simp [hdead] at hlive

theorem State.settling_step {a : Action R} (hlose : s.LosesNone id a) (hshort : s.db.Short id)
    (hphase : ∀ r, (s.phase r).Settling s.db id (s.Owes id)) (h : s.step a = some s') :
    ∀ r, (s'.phase r).Settling s'.db id (s'.Owes id) := by
  cases a with
  | statement st =>
    obtain ⟨db', hexec, rfl⟩ := Option.map_eq_some_iff.mp h
    exact fun r => (hphase r).passes (Database.exec_keeps hexec).extends (State.passes_statement hlose hexec)
  | worker r b =>
    obtain ⟨⟨db', phase'⟩, hstep, rfl⟩ := Option.map_eq_some_iff.mp h
    have hpasses := State.passes_worker hlose hshort (hphase r) hstep
    have hext : Database.Extends s.db db' := (Phase.move_of_step hstep).upkeeps.retains.extends
    refine (Function.forall_update_iff s.phase fun _ phase => phase.Settling db' id _).mpr ⟨?_, fun q _ => ?_⟩
    · exact (hphase r).own hshort hlose.1 hstep hpasses
    · exact (hphase q).passes hext hpasses

end Steps

theorem Phase.Settling.endsImmediate {owes : Prop} {phase : Phase} (h : phase.Settling db id owes) :
    phase.EndsImmediate db id := by
  cases phase with
  | idle => trivial
  | reading kind buys => trivial
  | writing job =>
    intro hpending hsweep row hrow hid himm
    obtain ⟨o, ho, hup, hsettling⟩ := h.2 row hrow hid
    have hdead : ¬o.status.isLive := by
      intro hlive
      rcases hsettling.ends himm hlive with ⟨f, hf, _⟩ | ⟨hpos, _⟩
      · rw [hsweep] at hf
        cases hf
      · rw [hpending, tradedAmount_nil] at hpos
        exact absurd hpos (lt_irrefl 0)
    refine ⟨o, ho, hup.terms.id.trans hid, by simpa using hdead, fun hfok hbuy => ?_⟩
    rcases hsettling.kills ⟨hfok, hbuy, himm.realtime⟩ with hfull | hsame | ⟨hlive, _⟩
    · exact .inr hfull
    · exact .inl hsame
    · exact absurd hlive hdead

/-- In every run of any number of replicas that loses no match of the order, each matching
cycle that read it as an immediate order has ended it when it is completed. -/
theorem State.immediate_orders_end {R : Type} [DecidableEq R] (db : Database) (id : Uuid)
    (hdb : db.Short id) (as : List (Action R))
    (has : Runs.AllSteps State.step (State.LosesNone id) (State.start db) as) :
    Runs.AllStates State.step (State.EndsImmediate id) (State.start db : State R) as := by
  have hinv : Runs.AllStates State.step
      (fun s : State R => s.db.Short id ∧ ∀ r, (s.phase r).Settling s.db id (s.Owes id)) (State.start db) as := by
    apply Runs.AllStates.of_allSteps (C := State.LosesNone id) _ ⟨hdb, fun _ => trivial⟩ has
    rintro s a s' ⟨hshort, hphase⟩ hlose hstep
    exact ⟨State.short_step hshort hphase hstep, State.settling_step hlose hshort hphase hstep⟩
  exact hinv.mono fun s h r => (h.2 r).endsImmediate

/-- A fill-or-kill buy of 10 is matched with a sell of 4 and a sell of 6. The transaction
of the second match fails. -/
def partlyWrittenRun : List (Action Unit) :=
  [.statement (.insertOrder { OrderRow.placed 1 .buy 10 10 with timeInForce := .fok }),
    .statement (.insertOrder (.placed 2 .sell 5 4)),
    .statement (.insertOrder (.placed 3 .sell 6 6)),
    .worker () (.readBuys .matching),
    .worker () (.readSells (.freeGrid fun _ _ => 100) (BoundedInt.saturate 0)),
    .worker () (.persist ⟨4, 5, 6, 0⟩ ⟨0, 0, 0⟩),
    .worker () .persistError]

/-- The buy is left live with a fill of 4. -/
theorem State.partly_written_rests :
    ¬Runs.AllStates State.step (State.EndsImmediate 1) (State.start .empty) partlyWrittenRun := by
  decide +kernel

/-- One replica finds no sell for a fill-or-kill buy and is going to sweep it. Before it does, two
sells come in, and the other replica matches the buy and writes both matches. -/
def overtakenSweepRun : List (Action Bool) :=
  [.statement (.insertOrder { OrderRow.placed 1 .buy 10 10 with timeInForce := .fok }),
    .worker true (.readBuys .matching),
    .worker true (.readSells (.freeGrid fun _ _ => 100) (BoundedInt.saturate 0)),
    .statement (.insertOrder (.placed 2 .sell 5 4)),
    .statement (.insertOrder (.placed 3 .sell 6 6)),
    .worker false (.readBuys .matching),
    .worker false (.readSells (.freeGrid fun _ _ => 100) (BoundedInt.saturate 1)),
    .worker false (.persist ⟨4, 5, 6, 0⟩ ⟨0, 0, 0⟩),
    .worker false (.persist ⟨7, 8, 9, 0⟩ ⟨0, 0, 0⟩),
    .worker true .sweep]

/-- The buy is filled, and both cycles are completed. -/
theorem State.immediate_orders_end_overtaken :
    (overtakenSweepRun.foldlM State.step (State.start .empty)).map (fun s =>
        (s.db.orders.rows.map fun o => (o.id, o.filled), (s.phase true).sweepIds)) =
        some ([(3, 6), (2, 4), (1, 10)], []) ∧
      Runs.AllStates State.step (State.EndsImmediate 1) (State.start .empty) overtakenSweepRun :=
  ⟨by decide +kernel, State.immediate_orders_end .empty 1 (by decide) overtakenSweepRun (by decide +kernel)⟩

end TradingService
