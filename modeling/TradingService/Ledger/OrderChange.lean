import TradingService.Ledger.Agreement
import TradingService.Ledger.ImmediateCycle
import TradingService.Ledger.Upkeep

/-!
# What a step of a worker makes of an order

A stored order changes by a trade of it or by a sweep of it, and a step of a worker leaves
every other order as it is. A trade leaves its orders live exactly if it leaves them short.
-/

namespace TradingService

open Database (Upkeeps)

variable {db db' : Database}

structure Job.Prepared (job : Job) : Prop where
  amount_pos : ∀ m ∈ job.pending, 0 < m.matchAmount
  amount_mem : ∀ m ∈ job.pending, m.matchAmount ∈ Numeric.grid
  ne : ∀ m ∈ job.pending, m.buyOrderId ≠ m.sellOrderId
  owned : ∀ m ∈ job.pending, ∀ id, m.names id → ∃ row ∈ job.owners, row.id = id
  sweep_mem : ∀ f ∈ job.sweep, f.filledAmount ∈ Numeric.grid
  sweep_owned : ∀ f ∈ job.sweep, ∃ row ∈ job.owners, row.id = f.id
  unmatched : ∀ f ∈ job.sweep, ∀ row ∈ job.owners, row.id = f.id → row.FillsOrKills →
    f.filledAmount = row.filled

def Phase.Prepared : Phase → Prop
  | .writing job => job.Prepared
  | _ => True

section Jobs

variable {buys : List OrderRow} {job job' : Job}

theorem Job.Prepared.of_subset (h : job.Prepared) (hpending : ∀ m ∈ job'.pending, m ∈ job.pending)
    (hsweep : ∀ f ∈ job'.sweep, f ∈ job.sweep) (howners : job'.owners = job.owners) : job'.Prepared where
  amount_pos m hm := h.amount_pos m (hpending m hm)
  amount_mem m hm := h.amount_mem m (hpending m hm)
  ne m hm := h.ne m (hpending m hm)
  owned m hm := howners ▸ h.owned m (hpending m hm)
  sweep_mem f hf := h.sweep_mem f (hsweep f hf)
  sweep_owned f hf := howners ▸ h.sweep_owned f (hsweep f hf)
  unmatched f hf := howners ▸ h.unmatched f (hsweep f hf)

theorem Job.prepared_empty (nowNs : I64) : (Job.empty nowNs).Prepared := by
  constructor <;> simp [Job.empty]

theorem Job.Decided.prepared {sells : List OrderRow} {job : Job} (h : job.Decided buys sells)
    (hids : ((buys ++ sells).map (·.id)).Nodup) (howners : job.owners = buys ++ sells)
    (hunmatched : ∀ f ∈ job.sweep, ∀ row ∈ job.owners, row.id = f.id → row.FillsOrKills →
      f.filledAmount = row.filled) : job.Prepared where
  amount_pos := h.amount_pos
  amount_mem := h.amount_mem
  ne := h.ne hids
  owned := by
    rintro m hm id (hname | hname)
    · obtain ⟨b, hb, hid⟩ := h.buy_mem m hm
      exact ⟨b, howners ▸ List.mem_append_left _ hb, hid.trans hname⟩
    · obtain ⟨s, hs, hid⟩ := h.sell_mem m hm
      exact ⟨s, howners ▸ List.mem_append_right _ hs, hid.trans hname⟩
  sweep_mem := h.sweep_onGrid
  sweep_owned f hf := by
    obtain ⟨row, hrow, hid, _⟩ := h.sweep_mem f hf
    exact ⟨row, howners ▸ hrow, hid⟩
  unmatched := hunmatched

end Jobs

/-- What a step of a worker makes of a stored order. A match of an order that is kept is still
to be written after the step, unless it was given up or the worker stopped. -/
inductive OrderRow.Change (db : Database) (phase : Phase) (a : JobStep) (phase' : Phase) (o o' : OrderRow) :
    Prop
  | kept (heq : o' = o) (hpending : ∀ m ∈ phase.pending, m.names o.id → m ∈ phase'.pending ∨ a = .stop ∨
      (m ∈ phase.nextMatch ∧ phase'.refusals = m :: phase.refusals))
  | traded (job : Job) (m : MatchResult) (rest : List MatchResult) (ids : TradeIds) (rates : ChargeRates)
      (hphase : phase = .writing job) (hpending : job.pending = m :: rest) (ha : a = .persist ids rates)
      (hphase' : phase' = .writing { job with pending := rest }) (hname : m.names o.id)
      (hboth : db.Live m.buyOrderId ∧ db.Live m.sellOrderId)
      (hlive : o.status.isLive) (hfilled : o'.filled = o.filled + m.matchAmount)
      (hshort : o'.status.isLive ↔ o'.filled < o'.energy)
  | swept (job : Job) (f : FastOrder) (rest : List FastOrder) (hphase : phase = .writing job)
      (hpending : job.pending = []) (hsweep : job.sweep = f :: rest) (ha : a = .sweep) (hid : f.id = o.id)
      (hlive : o.status.isLive) (hfilled : o'.filled = f.filledAmount) (hdead : o'.status.isLive = false)

section Rows

namespace Database

theorem incrementalFill_mem_of_ne {side : TradeFill} (h : db.incrementalFill side = .committed db')
    {o : OrderRow} (ho : o ∈ db.orders.rows) (hne : o.id ≠ side.orderId) : o ∈ db'.orders.rows := by
  obtain ⟨_, _, _, _, filled, _, rfl⟩ := setFill_of_incrementalFill h
  refine List.mem_map.mpr ⟨o, ho, ?_⟩
  rw [if_neg hne]

/-- A fill leaves its order live exactly if it leaves it short. -/
theorem incrementalFill_mem {side : TradeFill} (hdelta : side.delta ∈ Numeric.grid)
    (h : db.incrementalFill side = .committed db') {o : OrderRow} (ho : o ∈ db.orders.rows)
    (hid : o.id = side.orderId) :
    ∃ o' ∈ db'.orders.rows, o.SameTerms o' ∧ o.status.isLive ∧ o'.filled = o.filled + side.delta ∧
      (o'.status.isLive ↔ o'.filled < o'.energy) := by
  obtain ⟨row, hmem, hrow, hlive, filled, hstore, rfl⟩ := setFill_of_incrementalFill h
  obtain rfl := KeyedTable.row_unique ho hmem (hid.trans hrow.symm)
  have hexact := Numeric.toDecimal_of_store hstore (Numeric.grid.add_mem o.filled_mem_grid hdelta)
  refine ⟨_, List.mem_map_of_mem ho, ?_⟩
  rw [if_pos hid]
  refine ⟨⟨rfl, rfl, rfl, rfl, rfl, rfl⟩, hlive, hexact, ?_⟩
  change (if o.energy ≤ o.filled + side.delta then OrderStatus.filled else .partiallyFilled).isLive ↔
    filled.toDecimal < o.energy
  rw [hexact]
  split_ifs with hfull
  · simp [OrderStatus.isLive, hfull]
  · simp [OrderStatus.isLive, not_le.mp hfull]

theorem not_live_of_cancelIocRemainder {o : FastOrder} (h : cancelIocRemainder db o = some db') :
    ¬db'.Live o.id := by
  rcases setFill_of_updateFilledAmount h with ⟨rfl, hdead⟩ | ⟨_, _, _, _, _, _, rfl⟩
  · exact hdead
  · rintro ⟨o', ho', hid', hlive'⟩
    obtain ⟨o₀, ho₀, rfl⟩ := List.mem_map.mp ho'
    by_cases heq : o₀.id = o.id
    · rw [if_pos heq] at hlive'
      cases hlive'
    · rw [if_neg heq] at hid'
      exact heq hid'

end Database

theorem Job.persistMatch_mem {job : Job} {m : MatchResult} {ids : TradeIds} {rates : ChargeRates}
    (hne : m.buyOrderId ≠ m.sellOrderId) (hmem : m.matchAmount ∈ Numeric.grid)
    (h : job.persistMatch db m ids rates = .committed db') {o : OrderRow} (ho : o ∈ db.orders.rows) :
    ∃ o' ∈ db'.orders.rows, (o' = o ∧ ¬m.names o.id) ∨ (m.names o.id ∧ o.SameTerms o' ∧ o.status.isLive ∧
      o'.filled = o.filled + m.matchAmount ∧ (o'.status.isLive ↔ o'.filled < o'.energy)) := by
  obtain ⟨_, _, db₁, db₂, _, _, hins, hbuy, hsell⟩ := Database.statements_of_persistMatchedTrade h
  have ho₁ : o ∈ db₁.orders.rows := hins.orders.symm ▸ ho
  by_cases hbid : o.id = m.buyOrderId
  · obtain ⟨o', ho', hterms, hlive, hfilled, hshort⟩ := Database.incrementalFill_mem hmem hbuy ho₁ hbid
    have hne' : o'.id ≠ m.sellOrderId := by
      rw [hterms.id, hbid]
      exact hne
    exact ⟨o', Database.incrementalFill_mem_of_ne hsell ho' hne',
      .inr ⟨.inl hbid.symm, hterms, hlive, hfilled, hshort⟩⟩
  · have ho₂ := Database.incrementalFill_mem_of_ne hbuy ho₁ hbid
    by_cases hsid : o.id = m.sellOrderId
    · obtain ⟨o', ho', hterms, hlive, hfilled, hshort⟩ := Database.incrementalFill_mem hmem hsell ho₂ hsid
      exact ⟨o', ho', .inr ⟨.inr hsid.symm, hterms, hlive, hfilled, hshort⟩⟩
    · refine ⟨o, Database.incrementalFill_mem_of_ne hsell ho₂ hsid, .inl ⟨rfl, ?_⟩⟩
      rintro (hname | hname)
      · exact hbid hname.symm
      · exact hsid hname.symm

theorem Move.upkeeps {phase phase' : Phase} {a : JobStep} (h : Move db phase a db' phase') :
    Upkeeps db db' := by
  cases h with
  | persisted _ hcommit => exact Database.persistMatchedTrade_upkeeps hcommit
  | swept _ _ hwritten => exact Database.updateFilledAmountWithEvent_upkeeps hwritten
  | _ => exact .of_perm (.refl _)

/-- Every stored order is kept up, and changes by a trade or a sweep of it only. -/
theorem Move.change {phase phase' : Phase} {a : JobStep} (h : Move db phase a db' phase')
    (hphase : phase.Prepared) {o : OrderRow} (ho : o ∈ db.orders.rows) :
    ∃ o' ∈ db'.orders.rows, o.Upkeep o' ∧ OrderRow.Change db phase a phase' o o' := by
  obtain ⟨o', ho', hup⟩ := h.upkeeps.forth o ho
  cases h with
  | @persisted job m rest ids rates _ hpending hcommit =>
    have hjob : job.Prepared := hphase
    have hm : m ∈ job.pending := hpending ▸ List.mem_cons_self
    obtain ⟨o₂, ho₂, hchange⟩ := Job.persistMatch_mem (hjob.ne m hm) (hjob.amount_mem m hm) hcommit ho
    have hsame : o₂.id = o.id := by
      rcases hchange with ⟨rfl, _⟩ | ⟨_, hterms, _⟩
      · rfl
      · exact hterms.id
    obtain rfl := KeyedTable.row_unique ho₂ ho' (hsame.trans hup.terms.id.symm)
    refine ⟨o₂, ho₂, hup, ?_⟩
    rcases hchange with ⟨heq, hname⟩ | ⟨hname, _, hlive, hfilled, hshort⟩
    · refine .kept heq fun m' hm' hname' => .inl ?_
      change m' ∈ job.pending at hm'
      rw [hpending] at hm'
      rcases List.mem_cons.mp hm' with rfl | hm'
      · exact absurd hname' hname
      · exact hm'
    · have htrades := Job.persistMatch_committed (hjob.amount_mem m hm) hcommit
      exact .traded job m rest ids rates rfl hpending rfl rfl hname
        ⟨htrades.buy_live, htrades.sell_live (hjob.ne m hm).symm⟩ hlive hfilled hshort
  | @swept job f rest _ hpending hsweep hwritten =>
    have hjob : job.Prepared := hphase
    have hnone : ∀ m ∈ (Phase.writing job).pending, False := by simp [Phase.pending, hpending]
    refine ⟨o', ho', hup, ?_⟩
    rcases Database.setFill_of_updateFilledAmount hwritten with ⟨rfl, _⟩ | ⟨row, hrow, hid, hlive, x, hx, rfl⟩
    · exact .kept (KeyedTable.row_unique ho' ho hup.terms.id) fun m hm => (hnone m hm).elim
    · obtain ⟨o₀, ho₀, rfl⟩ := List.mem_map.mp ho'
      by_cases heq : o₀.id = f.id
      · have hsame : o₀ = o := by
          refine KeyedTable.row_unique ho₀ ho ?_
          have hid' := hup.terms.id
          rw [if_pos heq] at hid'
          exact hid'
        subst hsame
        obtain rfl := KeyedTable.row_unique hrow ho₀ (hid.trans heq.symm)
        have hexact := Numeric.toDecimal_of_store hx (hjob.sweep_mem f (hsweep ▸ List.mem_cons_self))
        refine .swept job f rest rfl hpending hsweep rfl heq.symm hlive ?_ ?_
        · rw [if_pos heq]
          exact hexact
        · rw [if_pos heq]
          rfl
      · rw [if_neg heq] at hup ⊢
        exact .kept (KeyedTable.row_unique ho₀ ho hup.terms.id) fun m hm => (hnone m hm).elim
  | readBuys kind =>
    exact ⟨o', ho', hup, .kept (KeyedTable.row_unique ho' ho hup.terms.id) fun m hm => by cases hm⟩
  | readSells kind buys topology nowNs =>
    exact ⟨o', ho', hup, .kept (KeyedTable.row_unique ho' ho hup.terms.id) fun m hm => by cases hm⟩
  | @givenUp job m rest _ hpending =>
    refine ⟨o', ho', hup, .kept (KeyedTable.row_unique ho' ho hup.terms.id) fun m' hm' _ => ?_⟩
    change m' ∈ job.pending at hm'
    rw [hpending] at hm'
    rcases List.mem_cons.mp hm' with rfl | hm'
    · exact .inr (.inr ⟨by simp [Phase.nextMatch, hpending], rfl⟩)
    · exact .inl hm'
  | stopped _ _ hstop =>
    refine ⟨o', ho', hup, .kept (KeyedTable.row_unique ho' ho hup.terms.id) fun m hm _ => ?_⟩
    rcases hstop with hstop | hnone
    · exact .inr (.inl hstop)
    · rw [hnone] at hm
      cases hm

end Rows

end TradingService
