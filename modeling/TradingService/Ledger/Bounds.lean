import TradingService.Ledger.Replicas

/-!
# Fills within bounds

The fill statement of a trade is guarded on the status of the order and not on its
fill. Whether an order is overfilled is decided when a trade of an older snapshot
meets a newer fill: `HasRoom` is the comparison that the statement leaves out.
-/

namespace TradingService

open MatchingEngine (InBounds)
open Database (Extends Keeps Rewrites Trades)

variable {R : Type} {db db' : Database}

namespace State

def FillsInBounds (s : State R) : Prop := ∀ o ∈ s.db.orders.rows, o.InBounds

/-- A trade that is about to be written, both of whose orders are live, finds at
least its amount unfilled in each of them. -/
def HasRoom (s : State R) : Action R → Prop
  | .worker r (.persist _ _) => ∀ m ∈ (s.phase r).nextMatch,
      s.db.Live m.buyOrderId → s.db.Live m.sellOrderId →
        ∀ o ∈ s.db.orders.rows, m.names o.id → o.filled + m.matchAmount ≤ o.energy
  | _ => True

instance (s : State R) : Decidable s.FillsInBounds :=
  inferInstanceAs (Decidable (∀ o ∈ s.db.orders.rows, o.InBounds))

instance (s : State R) (a : Action R) : Decidable (s.HasRoom a) := by
  unfold HasRoom
  split <;> infer_instance

end State

structure Job.Bounded (db : Database) (job : Job) : Prop where
  amount_pos : ∀ m ∈ job.pending, 0 < m.matchAmount
  amount_mem : ∀ m ∈ job.pending, m.matchAmount ∈ Numeric.grid
  ne : ∀ m ∈ job.pending, m.buyOrderId ≠ m.sellOrderId
  inBounds : ∀ o ∈ job.sweep, InBounds o
  onGrid : ∀ o ∈ job.sweep, o.filledAmount ∈ Numeric.grid
  known : ∀ o ∈ job.sweep, ∃ row ∈ db.orders.rows, row.id = o.id ∧ row.energy = o.energyAmount

def Phase.Bounded (db : Database) : Phase → Prop
  | .idle => True
  | .reading _ buys => BuySnapshot db buys ∧ ∀ b ∈ buys, b.InBounds
  | .writing job => job.Bounded db

theorem Job.Bounded.mono {job : Job} (h : job.Bounded db) (hext : Extends db db') :
    job.Bounded db' :=
  { h with
    known := fun o ho => by
      obtain ⟨row, hrow, hid, henergy⟩ := h.known o ho
      obtain ⟨row', hrow', hterms⟩ := hext row hrow
      exact ⟨row', hrow', hterms.id.trans hid,
        hterms.energy.trans henergy⟩ }

theorem Phase.Bounded.mono {phase : Phase} (h : phase.Bounded db) (hext : Extends db db') :
    phase.Bounded db' := by
  cases phase with
  | idle => trivial
  | reading kind buys => exact ⟨h.1.mono hext, h.2⟩
  | writing job => exact Job.Bounded.mono h hext

theorem Job.Decided.bounded {buys sells : List OrderRow} {job : Job} (h : job.Decided buys sells)
    (hids : ((buys ++ sells).map (·.id)).Nodup) (hrows : ∀ row ∈ buys ++ sells, row.InBounds)
    (hknown : ∀ row ∈ buys ++ sells, ∃ o ∈ db.orders.rows, row.SameTerms o) : job.Bounded db where
  amount_pos := h.amount_pos
  amount_mem := h.amount_mem
  ne := h.ne hids
  inBounds := h.inBounds hrows
  onGrid := h.sweep_onGrid
  known o ho := by
    obtain ⟨row, hrow, hid, henergy, _⟩ := h.sweep_mem o ho
    obtain ⟨row', hrow', hterms⟩ := hknown row hrow
    exact ⟨row', hrow', hterms.id.trans hid,
      hterms.energy.trans henergy.symm⟩

section Writes

theorem inBounds_of_trades {buyOrderId sellOrderId : Uuid} {amount : Decimal}
    (h : Trades db db' buyOrderId sellOrderId amount) (hpos : 0 < amount)
    (hne : buyOrderId ≠ sellOrderId) (hrows : ∀ o ∈ db.orders.rows, o.InBounds)
    (hroom : ∀ o ∈ db.orders.rows, buyOrderId = o.id ∨ sellOrderId = o.id →
      o.filled + amount ≤ o.energy) : ∀ o ∈ db'.orders.rows, o.InBounds := by
  intro o' ho'
  obtain ⟨o, ho, hterms, hfilled⟩ := (h.fills_of_ne hne).exists_of_mem ho'
  have henergy : o'.energy = o.energy := hterms.energy
  have hbefore := hrows o ho
  by_cases hnamed : buyOrderId = o.id ∨ sellOrderId = o.id
  · rw [if_pos hnamed] at hfilled
    refine ⟨?_, ?_⟩
    · rw [hfilled]
      exact add_nonneg hbefore.filled_nonneg hpos.le
    · rw [hfilled, henergy]
      exact hroom o ho hnamed
  · rw [if_neg hnamed, add_zero] at hfilled
    exact ⟨hfilled ▸ hbefore.filled_nonneg, by rw [hfilled, henergy]; exact hbefore.filled_le⟩

theorem inBounds_of_sweep {o : FastOrder} (ho : InBounds o) (hgrid : o.filledAmount ∈ Numeric.grid)
    (hknown : ∃ row ∈ db.orders.rows, row.id = o.id ∧ row.energy = o.energyAmount)
    (hrows : ∀ row ∈ db.orders.rows, row.InBounds) (h : cancelIocRemainder db o = some db') :
    Extends db db' ∧ ∀ row ∈ db'.orders.rows, row.InBounds := by
  rcases Database.updateFilledAmountWithEvent_eq_some hgrid h with ⟨rfl, _⟩ | ⟨_, hrw, _⟩
  · exact ⟨.refl, hrows⟩
  refine ⟨hrw.extends, fun row' hrow' => ?_⟩
  obtain ⟨row, hrow, hterms, hfilled⟩ := hrw.exists_of_mem hrow'
  have henergy : row'.energy = row.energy := hterms.energy
  by_cases hid : row.id = o.id
  · obtain ⟨row₀, hrow₀, hid₀, henergy₀⟩ := hknown
    obtain rfl := KeyedTable.row_unique hrow hrow₀ (hid.trans hid₀.symm)
    rw [if_pos hid] at hfilled
    exact ⟨hfilled ▸ ho.filled_nonneg, by rw [hfilled, henergy, henergy₀]; exact ho.filled_le⟩
  · rw [if_neg hid] at hfilled
    exact ⟨hfilled ▸ (hrows row hrow).filled_nonneg,
      by rw [hfilled, henergy]; exact (hrows row hrow).filled_le⟩

theorem inBounds_of_keeps (h : Keeps db db') (hrows : ∀ o ∈ db.orders.rows, o.InBounds) :
    ∀ o ∈ db'.orders.rows, o.InBounds := by
  intro o' ho'
  rcases h.exists_of_mem o' ho' with ⟨o, ho, hterms, hfilled⟩ | ⟨hfilled, hpos, _⟩
  · have henergy : o'.energy = o.energy := hterms.energy
    exact ⟨hfilled ▸ (hrows o ho).filled_nonneg,
      by rw [hfilled, henergy]; exact (hrows o ho).filled_le⟩
  · exact ⟨hfilled.ge, hfilled.le.trans hpos.le⟩

end Writes

/-- A step of a worker keeps all fills within bounds, if a trade that it writes has
room. -/
theorem Move.bounded {phase phase' : Phase} {a : JobStep} (h : Move db phase a db' phase')
    (hphase : phase.Bounded db) (hrows : ∀ o ∈ db.orders.rows, o.InBounds)
    (hroom : ∀ ids rates, a = .persist ids rates → ∀ m ∈ phase.nextMatch,
      db.Live m.buyOrderId → db.Live m.sellOrderId →
        ∀ o ∈ db.orders.rows, m.names o.id → o.filled + m.matchAmount ≤ o.energy) :
    Extends db db' ∧ (∀ o ∈ db'.orders.rows, o.InBounds) ∧ phase'.Bounded db' := by
  cases h with
  | readBuys kind =>
    exact ⟨.refl, hrows, .select kind, fun b hb => hrows b ((select_sublist kind .buy).subset hb)⟩
  | readSells kind buys topology nowNs =>
    obtain ⟨hsnapshot, hbuys⟩ := hphase
    have hids := hsnapshot.ids_append kind
    refine ⟨.refl, hrows, (kind.decided_run topology nowNs hids).bounded hids ?_ ?_⟩
    · exact List.forall_mem_append.mpr
        ⟨hbuys, fun s hs => hrows s ((select_sublist kind .sell).subset hs)⟩
    · exact List.forall_mem_append.mpr
        ⟨hsnapshot.known, fun s hs => ⟨s, (select_sublist kind .sell).subset hs, .refl s⟩⟩
  | @persisted job m rest ids rates _ hpending hcommit =>
    have hjob : job.Bounded db := hphase
    have hm : m ∈ job.pending := hpending ▸ List.mem_cons_self
    have hrest : ∀ m' ∈ rest, m' ∈ job.pending := fun m' h' => hpending ▸ List.mem_cons_of_mem _ h'
    have htrades := Job.persistMatch_committed (hjob.amount_mem m hm) hcommit
    have hnext : m ∈ (Phase.writing job).nextMatch := by simp [Phase.nextMatch, hpending]
    have hne := hjob.ne m hm
    refine ⟨htrades.fills.extends, ?_, ?_⟩
    · exact inBounds_of_trades htrades (hjob.amount_pos m hm) hne hrows
        (hroom ids rates rfl m hnext htrades.buy_live (htrades.sell_live hne.symm))
    · exact
        { Job.Bounded.mono hjob htrades.fills.extends with
          amount_pos := fun m' h' => hjob.amount_pos m' (hrest m' h')
          amount_mem := fun m' h' => hjob.amount_mem m' (hrest m' h')
          ne := fun m' h' => hjob.ne m' (hrest m' h') }
  | @givenUp job m rest _ hpending =>
    have hjob : job.Bounded db := hphase
    have hrest : ∀ m' ∈ rest, m' ∈ job.pending := fun m' h' => hpending ▸ List.mem_cons_of_mem _ h'
    exact ⟨.refl, hrows,
      { hjob with
        amount_pos := fun m' h' => hjob.amount_pos m' (hrest m' h')
        amount_mem := fun m' h' => hjob.amount_mem m' (hrest m' h')
        ne := fun m' h' => hjob.ne m' (hrest m' h') }⟩
  | @swept job o rest _ hpending hsweep hwritten =>
    have hjob : job.Bounded db := hphase
    have ho : o ∈ job.sweep := hsweep ▸ List.mem_cons_self
    have hrest : ∀ o' ∈ rest, o' ∈ job.sweep := fun o' h' => hsweep ▸ List.mem_cons_of_mem _ h'
    obtain ⟨hext, hrows'⟩ := inBounds_of_sweep (hjob.inBounds o ho) (hjob.onGrid o ho)
      (hjob.known o ho) hrows hwritten
    exact ⟨hext, hrows',
      { hjob with
        inBounds := fun o' h' => hjob.inBounds o' (hrest o' h')
        onGrid := fun o' h' => hjob.onGrid o' (hrest o' h')
        known := fun o' h' => (Job.Bounded.mono hjob hext).known o' (hrest o' h') }⟩
  | stopped => exact ⟨.refl, hrows, trivial⟩

variable [DecidableEq R]

theorem State.bounded_step {s s' : State R} {a : Action R} (hroom : s.HasRoom a)
    (hrows : s.FillsInBounds) (hphase : ∀ r, (s.phase r).Bounded s.db)
    (h : s.step a = some s') : s'.FillsInBounds ∧ ∀ r, (s'.phase r).Bounded s'.db := by
  constructor
  · cases a with
    | statement st =>
      obtain ⟨db', hexec, rfl⟩ := Option.map_eq_some_iff.mp h
      exact inBounds_of_keeps (Database.exec_keeps hexec) hrows
    | worker r b =>
      obtain ⟨⟨db', phase'⟩, hstep, rfl⟩ := Option.map_eq_some_iff.mp h
      exact ((Phase.move_of_step hstep).bounded (hphase r) hrows
        (fun ids rates hb => by subst hb; exact hroom)).2.1
  · refine State.step_induction hphase ?_ ?_ h
    · intro st db' _ hexec r hr
      exact hr.mono (Database.exec_keeps hexec).extends
    · intro r b db' phase' ha hmove
      obtain ⟨hext, _, hown⟩ := hmove.bounded (hphase r) hrows
        (fun ids rates hb => by subst ha hb; exact hroom)
      exact ⟨hown, fun q _ hq => hq.mono hext⟩

/-- Every run of any number of replicas from a database with its fills in bounds, in
which no trade is written beyond the room it finds. -/
theorem State.fills_stay_in_bounds (db : Database) (hdb : ∀ o ∈ db.orders.rows, o.InBounds)
    (as : List (Action R)) (has : Runs.AllSteps State.step State.HasRoom (State.start db) as) :
    Runs.AllStates State.step State.FillsInBounds (State.start db : State R) as := by
  have hinv : Runs.AllStates State.step
      (fun s : State R => s.FillsInBounds ∧ ∀ r, (s.phase r).Bounded s.db) (State.start db) as := by
    apply Runs.AllStates.of_allSteps (C := State.HasRoom) _ ⟨hdb, fun _ => trivial⟩ has
    rintro s a s' ⟨hrows, hphase⟩ hroom hstep
    exact State.bounded_step hroom hrows hphase hstep
  exact hinv.mono fun _ h => h.1

/-- Replica 0 reads a buy of 10 and a sell of 6. A cheaper sell of 6 comes in, and
replica 1 reads all three. Each of them writes the first match it made. -/
def staleSnapshotRun : List (Action (Fin 2)) :=
  let topology := TopologySnapshot.freeGrid fun _ _ => 100
  let now : I64 := BoundedInt.saturate 0
  let rates : ChargeRates := ⟨0, 0, 0⟩
  [.statement (.insertOrder (.placed 1 .buy 10 10)),
    .statement (.insertOrder (.placed 2 .sell 5 6)),
    .worker 0 (.readBuys .matching), .worker 0 (.readSells topology now),
    .statement (.insertOrder (.placed 3 .sell 4 6)),
    .worker 1 (.readBuys .matching), .worker 1 (.readSells topology now),
    .worker 0 (.persist ⟨4, 5, 6, 0⟩ rates), .worker 1 (.persist ⟨7, 8, 9, 0⟩ rates)]

theorem State.fills_stay_in_bounds_one_write :
    Runs.AllStates State.step State.FillsInBounds (State.start .empty) (staleSnapshotRun.take 8) :=
  State.fills_stay_in_bounds .empty (by decide) (staleSnapshotRun.take 8) (by decide +kernel)

/-- The last write takes the buy of 10 to a fill of 12. -/
theorem State.stale_snapshot_overfills :
    ¬Runs.AllStates State.step State.FillsInBounds (State.start .empty) staleSnapshotRun := by
  decide +kernel

end TradingService
