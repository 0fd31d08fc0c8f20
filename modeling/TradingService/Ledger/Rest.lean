import TradingService.Engine.Quiescence
import TradingService.Ledger.DoubleEntry
import TradingService.Ledger.ImmediateCycle
import TradingService.Ledger.Upkeep

/-!
# The service at rest

A matching cycle reads the active orders, and writes its matches one by one while any other
party gets in between. Once it has written all of them, and until an order is inserted, the
stored orders are what the engine left of them or less, so that no later cycle of any replica
finds a match, but for fill-or-kill buys.
-/

namespace TradingService

open MatchingEngine (LeftOf Tradable openGrid)

structure OrderRow.Later (o o' : OrderRow) : Prop where
  columns : ∃ filledAmount status signature, o' =
    { o with filledAmount := filledAmount, status := status, signature := signature }
  live : o'.status.isLive → o.status.isLive ∧ o.filled ≤ o'.filled

namespace OrderRow.Later

variable {o o' o'' : OrderRow}

theorem refl (o : OrderRow) : o.Later o := ⟨⟨_, _, _, rfl⟩, fun hlive => ⟨hlive, le_rfl⟩⟩

theorem trans (h : o.Later o') (h' : o'.Later o'') : o.Later o'' := by
  constructor
  · obtain ⟨_, _, _, rfl⟩ := h.columns
    obtain ⟨_, _, _, rfl⟩ := h'.columns
    exact ⟨_, _, _, rfl⟩
  · intro hlive
    obtain ⟨hlive', hle'⟩ := h'.live hlive
    obtain ⟨hlive, hle⟩ := h.live hlive'
    exact ⟨hlive, hle.trans hle'⟩

theorem of_dead (hdead : o'.status.isLive = false)
    (hcolumns : ∃ filledAmount status signature, o' =
      { o with filledAmount := filledAmount, status := status, signature := signature }) : o.Later o' :=
  ⟨hcolumns, fun hlive => absurd hlive (by simp [hdead])⟩

theorem id_eq (h : o.Later o') : o'.id = o.id := by
  obtain ⟨_, _, _, rfl⟩ := h.columns
  rfl

theorem side_eq (h : o.Later o') : o'.side = o.side := by
  obtain ⟨_, _, _, rfl⟩ := h.columns
  rfl

theorem marketSegment_eq (h : o.Later o') : o'.marketSegment = o.marketSegment := by
  obtain ⟨_, _, _, rfl⟩ := h.columns
  rfl

theorem epochId_eq (h : o.Later o') : o'.epochId = o.epochId := by
  obtain ⟨_, _, _, rfl⟩ := h.columns
  rfl

end OrderRow.Later

namespace Database

def Later (db db' : Database) : Prop := ∀ o' ∈ db'.orders.rows, ∃ o ∈ db.orders.rows, o.Later o'

variable {db db' db'' : Database}

theorem Later.of_subset (h : ∀ o ∈ db'.orders.rows, o ∈ db.orders.rows) : Later db db' :=
  fun o ho => ⟨o, h o ho, .refl o⟩

theorem Later.refl (db : Database) : Later db db := .of_subset fun _ ho => ho

theorem Later.trans (h : Later db db') (h' : Later db' db'') : Later db db'' := by
  intro o'' ho''
  obtain ⟨o', ho', hlater'⟩ := h' o'' ho''
  obtain ⟨o, ho, hlater⟩ := h o' ho'
  exact ⟨o, ho, hlater.trans hlater'⟩

theorem later_updateOrders {f : OrderRow → OrderRow} {hf : ∀ o, (f o).id = o.id} {events : List Event}
    (h : ∀ o ∈ db.orders.rows, o.Later (f o)) : Later db (db.updateOrders f hf events) := by
  intro o' ho'
  obtain ⟨o, ho, rfl⟩ := List.mem_map.mp ho'
  exact ⟨o, ho, h o ho⟩

theorem later_exec {st : Statement} (h : db.exec st = some db') (hst : st.isInsert = false) :
    Later db db' := by
  cases st with
  | insertOrder order => cases hst
  | setWalletSignature orderId signature =>
    obtain rfl := setWalletSignature_eq_some h
    apply later_updateOrders
    intro o _
    split_ifs
    · exact ⟨⟨_, _, _, rfl⟩, fun hlive => ⟨hlive, le_rfl⟩⟩
    · exact .refl o
  | cancelOrder orderId userId =>
    obtain rfl := Option.some.inj h
    apply later_updateOrders
    intro o _
    split_ifs
    · exact .of_dead rfl ⟨_, _, _, rfl⟩
    · exact .refl o
  | expireStaleOrders now =>
    simp only [exec, expireStaleOrders] at h
    split_ifs at h
    obtain rfl := Option.some.inj h
    apply later_updateOrders
    intro o _
    split_ifs
    · exact .of_dead rfl ⟨_, _, _, rfl⟩
    · exact .refl o
  | reorder rows =>
    simp only [exec] at h
    split_ifs at h with hperm
    obtain rfl := Option.some.inj h
    exact .of_subset fun o ho => hperm.subset ho

theorem later_incrementalFill {side : TradeFill} (h0 : 0 ≤ side.delta) (hdelta : side.delta ∈ Numeric.grid)
    (h : db.incrementalFill side = .committed db') : Later db db' := by
  obtain ⟨row, hmem, hid, hlive, filled, hstore, rfl⟩ := setFill_of_incrementalFill h
  have hexact := Numeric.toDecimal_of_store hstore (Numeric.grid.add_mem row.filled_mem_grid hdelta)
  apply later_updateOrders
  intro o ho
  by_cases heq : o.id = side.orderId
  · obtain rfl := KeyedTable.row_unique ho hmem (heq.trans hid.symm)
    rw [if_pos heq]
    have hgrown : o.filled ≤ filled.toDecimal := by linarith
    exact ⟨⟨_, _, _, rfl⟩, fun _ => ⟨hlive, hgrown⟩⟩
  · rw [if_neg heq]
    exact .refl o

theorem later_persistMatchedTrade {settlement : Settlement Decimal} {orderMatch : OrderMatch Decimal}
    {event : Event} {buyer seller : TradeFill} (hb : 0 ≤ buyer.delta) (hbuyer : buyer.delta ∈ Numeric.grid)
    (hs : 0 ≤ seller.delta) (hseller : seller.delta ∈ Numeric.grid)
    (h : db.persistMatchedTrade settlement orderMatch event buyer seller = .committed db') :
    Later db db' := by
  obtain ⟨_, _, db₁, db₂, _, _, hins, hfill, hfill'⟩ := statements_of_persistMatchedTrade h
  have hstart : Later db db₁ := .of_subset fun o ho => hins.orders ▸ ho
  exact (hstart.trans (later_incrementalFill hb hbuyer hfill)).trans
    (later_incrementalFill hs hseller hfill')

/-- A swept order does not live, whatever its fill is set to. -/
theorem later_cancelIocRemainder {o : FastOrder} (h : cancelIocRemainder db o = some db') :
    Later db db' := by
  rcases setFill_of_updateFilledAmount h with ⟨rfl, _⟩ | ⟨_, _, _, _, filled, _, rfl⟩
  · exact .refl _
  · apply later_updateOrders
    intro row _
    split_ifs
    · exact .of_dead rfl ⟨_, _, _, rfl⟩
    · exact .refl row

end Database

open Database (Extends)

def Phase.Sound (db : Database) : Phase → Prop
  | .idle => True
  | .reading _ buys => BuySnapshot db buys
  | .writing job => ∀ m ∈ job.pending, 0 < m.matchAmount ∧ m.matchAmount ∈ Numeric.grid ∧
      m.buyOrderId ≠ m.sellOrderId

section Steps

variable {db db' : Database} {phase phase' : Phase} {a : JobStep}

theorem Phase.Sound.mono (h : phase.Sound db) (hext : Extends db db') : phase.Sound db' := by
  cases phase with
  | idle => trivial
  | reading kind buys =>
    have hbuys : BuySnapshot db buys := h
    exact hbuys.mono hext
  | writing job => exact h

theorem Phase.readBuys_eq {kind : JobKind} (h : phase.step db (.readBuys kind) = some (db', phase')) :
    db' = db ∧ phase' = .reading kind (kind.select (db.activeOrders .buy)) := by
  cases phase with
  | idle =>
    obtain ⟨rfl, rfl⟩ := Prod.mk.inj (Option.some.inj h)
    exact ⟨rfl, rfl⟩
  | reading kind' buys => cases h
  | writing job => cases h

theorem Phase.readSells_eq {topology : TopologySnapshot} {nowNs : I64}
    (h : phase.step db (.readSells topology nowNs) = some (db', phase')) :
    ∃ kind buys, phase = .reading kind buys ∧ db' = db ∧
      phase' = .writing (kind.run buys (kind.select (db.activeOrders .sell)) topology nowNs) := by
  cases phase with
  | idle => cases h
  | writing job => cases h
  | reading kind buys =>
    obtain ⟨rfl, rfl⟩ := Prod.mk.inj (Option.some.inj h)
    exact ⟨kind, buys, rfl, rfl, rfl⟩

theorem Move.later (h : Move db phase a db' phase') (hphase : phase.Sound db) :
    Database.Later db db' ∧ Extends db db' ∧ phase'.Sound db' := by
  cases h with
  | readBuys kind => exact ⟨.refl _, .refl, BuySnapshot.select kind⟩
  | readSells kind buys topology nowNs =>
    have hbuys : BuySnapshot db buys := hphase
    have hids := hbuys.ids_append kind
    have hdecided := kind.decided_run topology nowNs hids
    exact ⟨.refl _, .refl, fun m hm =>
      ⟨hdecided.amount_pos m hm, hdecided.amount_mem m hm, hdecided.ne hids m hm⟩⟩
  | @persisted job m rest ids rates _ hpending hcommitted =>
    obtain ⟨hpos, hgrid, _⟩ := hphase m (hpending ▸ List.mem_cons_self)
    exact ⟨Database.later_persistMatchedTrade hpos.le hgrid hpos.le hgrid hcommitted,
      Database.persistMatchedTrade_extends hcommitted,
      fun m' hm' => hphase m' (hpending ▸ List.mem_cons_of_mem _ hm')⟩
  | @givenUp job m rest _ hpending =>
    exact ⟨.refl _, .refl, fun m' hm' => hphase m' (hpending ▸ List.mem_cons_of_mem _ hm')⟩
  | @swept job o rest _ hpending _ hwritten =>
    refine ⟨Database.later_cancelIocRemainder hwritten, ?_, hphase⟩
    rcases Database.setFill_of_updateFilledAmount hwritten with ⟨rfl, _⟩ | ⟨_, _, _, _, filled, _, rfl⟩
    · exact .refl
    · exact (Database.setFill_rewrites db o.id filled _ _).extends
  | stopped => exact ⟨.refl _, .refl, trivial⟩

end Steps

section Engine

theorem exists_of_mem_toFastOrders {orders : List OrderRow} {f : FastOrder}
    (h : f ∈ (toFastOrders orders).1) : ∃ o ∈ orders, o.epochId.isSome ∧ ∃ i, f = o.toFastOrder i := by
  obtain ⟨e, he, rfl⟩ := List.mem_map.mp h
  obtain ⟨o, ho, hkept⟩ := List.mem_filterMap.mp (List.fst_mem_of_mem_zipIdx he)
  obtain ⟨epochId, hepoch, hpair⟩ := Option.map_eq_some_iff.mp hkept
  rw [← hpair]
  exact ⟨o, ho, Option.isSome_iff_exists.mpr ⟨epochId, hepoch⟩, e.2, rfl⟩

def OrderRow.Delivered (row o : OrderRow) (results : List MatchResult) : Prop :=
  row.Later o ∧ row.filled + tradedAmount results row.id ≤ o.filled

variable {row o : OrderRow} {results : List MatchResult} {orders : List FastOrder}

/-- Such an order is what the engine left of it, or less. -/
theorem OrderRow.Delivered.leftOf (h : row.Delivered o results) {i : ℕ}
    (hmem : (row.toFastOrder i).credit results ∈ orders) : LeftOf orders (o.toFastOrder i) := by
  obtain ⟨hlater, hfill⟩ := h
  obtain ⟨filledAmount, status, signature, rfl⟩ := hlater.columns
  refine ⟨_, hmem, _, sub_nonneg.mpr hfill, ?_⟩
  simp [OrderRow.toFastOrder, FastOrder.credit, FastOrder.fill, OrderRow.energy]

theorem tradable_reindex {topology : TopologySnapshot} {multiplier : FastPrice} {nowNs : I64}
    {buy sell : OrderRow} {i i' j j' : ℕ}
    (h : Tradable topology multiplier nowNs (buy.toFastOrder i) (sell.toFastOrder j)) :
    Tradable topology multiplier nowNs (buy.toFastOrder i') (sell.toFastOrder j') :=
  ⟨h.buy_live, h.sell_live, ⟨h.affords.owner, h.affords.ask, h.affords.landed⟩⟩

variable {topology : TopologySnapshot} {nowNs nowNs' : I64} {buys sells buys' sells' : List OrderRow}

/-- A cycle over what is stored after another, all of whose matches were written. -/
theorem runMatchingCycle_again (hids : ((buys ++ sells).map (·.id)).Nodup)
    (hids' : (sells'.map (·.id)).Nodup) (hprices : ∀ x ∈ sells, 0 ≤ x.pricePerKwh.toDecimal)
    (hopen : MatchingEngine.AdmitsAll topology) (hnow : nowNs ≤ nowNs')
    (hbuys : ∀ o ∈ buys', ∃ row ∈ buys,
      row.Delivered o (runMatchingCycle buys sells topology nowNs).pending)
    (hsells : ∀ o ∈ sells', ∃ row ∈ sells,
      row.Delivered o (runMatchingCycle buys sells topology nowNs).pending) :
    ∀ m ∈ (runMatchingCycle buys' sells' topology nowNs').pending,
      ∃ o ∈ buys', m.buyOrderId = o.id ∧ o.timeInForce = .fok := by
  intro m hm
  obtain ⟨f, hf, g, hg, hbuyId, _, htradable⟩ := MatchingEngine.matchCycle_tradable
    ((toFastOrders_ids sells').nodup hids') m (pending_runMatchingCycle _ _ _ _ m hm)
  obtain ⟨o, ho, hepoch, i, rfl⟩ := exists_of_mem_toFastOrders hf
  obtain ⟨x, hx, hepoch', j, rfl⟩ := exists_of_mem_toFastOrders hg
  refine ⟨o, ho, hbuyId, ?_⟩
  by_contra hfok
  obtain ⟨row, hrow, hdelivered⟩ := hbuys o ho
  obtain ⟨row', hrow', hdelivered'⟩ := hsells x hx
  rw [runMatchingCycle_eq topology (List.mem_append_left _ hrow)] at hdelivered hdelivered'
  have hconserves := MatchingEngine.conserves_matchCycle nowNs (toFastOrders buys).2 topology
    FastPrice.one (toFastOrders_append_ids hids)
  obtain ⟨i', hi'⟩ := exists_toFastOrder hrow (hdelivered.1.epochId_eq ▸ hepoch)
  obtain ⟨j', hj'⟩ := exists_toFastOrder hrow' (hdelivered'.1.epochId_eq ▸ hepoch')
  have hleft := hdelivered.leftOf (hconserves.buys_perm.mem_iff.mpr (List.mem_map_of_mem hi'))
  have hleft' := hdelivered'.leftOf (hconserves.sells_eq ▸ List.mem_map_of_mem hj')
  have hasks : ∀ f ∈ (toFastOrders sells).1, (0 : ℤ) ≤ f.price.raw := by
    intro f hf
    obtain ⟨y, hy, k, rfl⟩ := mem_toFastOrders hf
    have hzero : ((FastPrice.ofDecimal 0).raw : ℤ) = 0 := by decide +kernel
    have hmono := FastPrice.le_iff.mp (FastPrice.ofDecimal_mono (hprices y hy))
    rw [hzero] at hmono
    exact hmono
  have hsellIds : ((toFastOrders sells).1.map (·.id)).Nodup := by
    have hall := toFastOrders_append_ids hids
    rw [List.map_append] at hall
    exact (List.nodup_append.mp hall).2.1
  exact MatchingEngine.not_tradable_of_left hsellIds hasks hopen hnow hleft hleft' hfok
    (tradable_reindex htradable)

end Engine

section Delivery

variable {db db' : Database} {rows buys : List OrderRow} {results owed : List MatchResult}
  {phase phase' : Phase} {a : JobStep}

/-- Every live order of the matcher is a later state of one of the rows, and has the fill that
the matches give it, but for those that are still owed. -/
def Database.Delivers (db : Database) (rows : List OrderRow) (results owed : List MatchResult) : Prop :=
  ∀ o ∈ db.orders.rows, o.status.isLive → o.marketSegment = .realtime → ∃ row ∈ rows, row.Later o ∧
    row.filled + tradedAmount results row.id ≤ o.filled + tradedAmount owed row.id

theorem Database.Delivers.mono (h : db.Delivers rows results owed) (hlater : Database.Later db db') :
    db'.Delivers rows results owed := by
  intro o' ho' hlive hsegment
  obtain ⟨o, ho, hrow⟩ := hlater o' ho'
  obtain ⟨hlive, hle⟩ := hrow.live hlive
  obtain ⟨row, hmem, hrow', hfill⟩ := h o ho hlive (hrow.marketSegment_eq ▸ hsegment)
  exact ⟨row, hmem, hrow'.trans hrow, by linarith⟩

/-- A match that is written is no longer owed. -/
theorem Database.Delivers.persisted {m : MatchResult} {rest : List MatchResult}
    (h : db.Delivers rows results (m :: rest)) (hlater : Database.Later db db')
    (hne : m.buyOrderId ≠ m.sellOrderId)
    (htrades : Database.Trades db db' m.buyOrderId m.sellOrderId m.matchAmount) :
    db'.Delivers rows results rest := by
  intro o' ho' hlive hsegment
  obtain ⟨o, ho, hrow⟩ := hlater o' ho'
  obtain ⟨o₁, ho₁, hterms, hfilled⟩ := (htrades.fills_of_ne hne).exists_of_mem ho'
  obtain rfl := KeyedTable.row_unique ho ho₁ (hrow.id_eq.symm.trans hterms.id)
  obtain ⟨row, hmem, hrow', hfill⟩ := h o ho (hrow.live hlive).1 (hrow.marketSegment_eq ▸ hsegment)
  refine ⟨row, hmem, hrow'.trans hrow, ?_⟩
  have hnamed : (m.buyOrderId = o.id ∨ m.sellOrderId = o.id) ↔ m.names row.id := by
    rw [hrow'.id_eq]
    rfl
  rw [tradedAmount_cons] at hfill
  rw [hfilled, if_congr hnamed rfl rfl]
  linarith

def Phase.HasRead (db : Database) : Phase → Prop
  | .idle => True
  | .reading kind buys => kind = .matching ∧ (∀ b ∈ buys, b.side = .buy) ∧
      ∀ o ∈ db.orders.rows, o.status.isLive → o.marketSegment = .realtime → o.side = .buy →
        ∃ b ∈ buys, b.Later o
  | .writing _ => False

def Phase.Delivers (db : Database) (rows : List OrderRow) (results : List MatchResult) : Phase → Prop
  | .idle => True
  | .reading _ _ => False
  | .writing job => job.refused = [] → db.Delivers rows results job.pending

def JobStep.isRead : JobStep → Bool
  | .readBuys _ => true
  | .readSells _ _ => true
  | _ => false

theorem Phase.HasRead.mono (h : phase.HasRead db) (hlater : Database.Later db db') : phase.HasRead db' := by
  cases phase with
  | idle => trivial
  | writing job => exact h
  | reading kind buys =>
    obtain ⟨hkind, hside, hread⟩ := h
    refine ⟨hkind, hside, fun o' ho' hlive hsegment hbuy => ?_⟩
    obtain ⟨o, ho, hrow⟩ := hlater o' ho'
    obtain ⟨b, hb, hrow'⟩ := hread o ho (hrow.live hlive).1 (hrow.marketSegment_eq ▸ hsegment)
      (hrow.side_eq ▸ hbuy)
    exact ⟨b, hb, hrow'.trans hrow⟩

theorem Phase.Delivers.mono (h : phase.Delivers db rows results) (hlater : Database.Later db db') :
    phase.Delivers db' rows results := by
  cases phase with
  | idle => trivial
  | reading kind buys => exact h
  | writing job => exact fun hrefused => (h hrefused).mono hlater

theorem Move.hasRead (h : Move db phase a db' phase') (hread : a.isRead = false)
    (hphase : phase.HasRead db) : phase'.HasRead db' := by
  cases h with
  | readBuys kind => cases hread
  | readSells kind buys topology nowNs => cases hread
  | persisted => exact hphase.elim
  | givenUp => exact hphase.elim
  | swept => exact hphase.elim
  | stopped => trivial

theorem Move.delivers (h : Move db phase a db' phase') (hread : a.isRead = false)
    (hsound : phase.Sound db) (hphase : phase.Delivers db rows results) :
    phase'.Delivers db' rows results := by
  have hlater := (h.later hsound).1
  cases h with
  | readBuys kind => cases hread
  | readSells kind buys topology nowNs => cases hread
  | @persisted job m rest ids rates _ hpending hcommitted =>
    intro hrefused
    obtain ⟨_, hgrid, hne⟩ := hsound m (hpending ▸ List.mem_cons_self)
    have hdelivers := hphase hrefused
    rw [hpending] at hdelivers
    exact hdelivers.persisted hlater hne (Job.persistMatch_committed hgrid hcommitted)
  | givenUp => exact fun hrefused => absurd hrefused (List.cons_ne_nil _ _)
  | swept => exact fun hrefused => (hphase hrefused).mono hlater
  | stopped => trivial

/-- The second read: what the cycle decides is all owed. -/
theorem Phase.HasRead.delivers {kind : JobKind} (hphase : (Phase.reading kind buys).HasRead db)
    (topology : TopologySnapshot) (nowNs : I64) :
    let sells := JobKind.matching.select (db.activeOrders .sell)
    let results := (runMatchingCycle buys sells topology nowNs).pending
    db.Delivers (buys ++ sells) results results := by
  intro sells results o ho hlive hsegment
  obtain ⟨_, _, hread⟩ := hphase
  cases hside : o.side with
  | buy =>
    obtain ⟨b, hb, hrow⟩ := hread o ho hlive hsegment hside
    exact ⟨b, List.mem_append_left _ hb, hrow, by linarith [(hrow.live hlive).2]⟩
  | sell =>
    have hmem : o ∈ sells := List.mem_filter.mpr
      ⟨List.mem_filter.mpr ⟨ho, decide_eq_true ⟨hside, hlive⟩⟩, decide_eq_true hsegment⟩
    exact ⟨o, List.mem_append_right _ hmem, .refl o, le_rfl⟩

end Delivery

section Runs

variable {R : Type} [DecidableEq R]

def Action.InsertsNone : Action R → Prop
  | .statement st => st.isInsert = false
  | .worker _ _ => True

def Action.Between (r : R) : Action R → Prop
  | .statement st => st.isInsert = false
  | .worker q a => q = r → a.isRead = false

omit [DecidableEq R] in
theorem Action.Between.insertsNone {r : R} {a : Action R} (h : a.Between r) : a.InsertsNone := by
  cases a with
  | statement st => exact h
  | worker q b => trivial

namespace State

def Leads (C : Action R → Prop) : State R → State R → Prop :=
  Relation.ReflTransGen fun s s' => ∃ a, C a ∧ s.step a = some s'

def Sound (s : State R) : Prop := ∀ r, (s.phase r).Sound s.db

variable {s s' s'' : State R} {a : Action R} {C : Action R → Prop} {r : R}

theorem Sound.step (h : s.Sound) (hstep : s.step a = some s') : s'.Sound := by
  refine State.step_induction h ?_ ?_ hstep
  · intro st db' _ hexec q hq
    exact hq.mono (Database.exec_keeps hexec).extends
  · intro q b db' phase' _ hmove
    obtain ⟨_, hext, hown⟩ := hmove.later (h q)
    exact ⟨hown, fun q' _ hq' => hq'.mono hext⟩

theorem later_step (h : s.Sound) (ha : a.InsertsNone) (hstep : s.step a = some s') :
    Database.Later s.db s'.db := by
  cases a with
  | statement st =>
    obtain ⟨db', hexec, rfl⟩ := Option.map_eq_some_iff.mp hstep
    exact Database.later_exec hexec ha
  | worker q b =>
    obtain ⟨⟨db', phase'⟩, hmove, rfl⟩ := Option.map_eq_some_iff.mp hstep
    exact ((Phase.move_of_step hmove).later (h q)).1

theorem Leads.of_run {as : List (Action R)} (hC : ∀ a ∈ as, C a) (h : as.foldlM State.step s = some s') :
    Leads C s s' := by
  induction as generalizing s with
  | nil =>
    obtain rfl := Option.some.inj h
    exact .refl
  | cons a as ih =>
    obtain ⟨s₁, hstep, hrest⟩ := Option.bind_eq_some_iff.mp h
    exact .head ⟨a, hC a List.mem_cons_self, hstep⟩ (ih (fun a' ha' => hC a' (List.mem_cons_of_mem _ ha')) hrest)

theorem Leads.reaches (h : Leads C s s') : Runs.Reaches State.step s s' := by
  induction h with
  | refl => exact .refl
  | tail _ hlast ih =>
    obtain ⟨a, _, hstep⟩ := hlast
    exact ih.tail ⟨a, hstep⟩

theorem Leads.later (h : Leads C s s') (hC : ∀ a, C a → a.InsertsNone) (hsound : s.Sound) :
    s'.Sound ∧ Database.Later s.db s'.db := by
  induction h with
  | refl => exact ⟨hsound, .refl _⟩
  | tail _ hlast ih =>
    obtain ⟨a, ha, hstep⟩ := hlast
    obtain ⟨hsound', hlater⟩ := ih
    exact ⟨hsound'.step hstep, hlater.trans (later_step hsound' (hC a ha) hstep)⟩

/-- A property of the worker that its own steps keep, and that holds of the orders when they
have moved on. -/
theorem Leads.phase_induction {I : Database → Phase → Prop} (h : Leads (Action.Between r) s s')
    (hsound : s.Sound)
    (hmono : ∀ db db' phase, I db phase → Database.Later db db' → I db' phase)
    (hmove : ∀ db phase a db' phase', Move db phase a db' phase' → a.isRead = false →
      phase.Sound db → I db phase → I db' phase')
    (h0 : I s.db (s.phase r)) : I s'.db (s'.phase r) := by
  induction h with
  | refl => exact h0
  | @tail s₁ s₂ hlead hlast ih =>
    obtain ⟨a, ha, hstep⟩ := hlast
    obtain ⟨hsound₁, _⟩ := Leads.later hlead (fun a ha => ha.insertsNone) hsound
    have hlater := later_step hsound₁ ha.insertsNone hstep
    cases a with
    | statement st =>
      obtain ⟨db', hexec, rfl⟩ := Option.map_eq_some_iff.mp hstep
      exact hmono _ _ _ ih hlater
    | worker q b =>
      obtain ⟨⟨db', phase'⟩, hb, rfl⟩ := Option.map_eq_some_iff.mp hstep
      by_cases hq : q = r
      · subst hq
        simp only [Function.update_self]
        exact hmove _ _ _ _ _ (Phase.move_of_step hb) (ha rfl) (hsound₁ q) ih
      · simp only [Function.update_of_ne (Ne.symm hq)]
        exact hmono _ _ _ ih hlater

/-- From `s` to `s'` the worker has gone through a matching cycle and has written every match
that it made. No order was inserted meanwhile. -/
def Completes (r : R) (topology : TopologySnapshot) (nowNs : I64) (s s' : State R) : Prop :=
  ∃ s₁ s₂ s₃ job, s.step (.worker r (.readBuys .matching)) = some s₁ ∧ Leads (Action.Between r) s₁ s₂ ∧
    s₂.step (.worker r (.readSells topology nowNs)) = some s₃ ∧ Leads (Action.Between r) s₃ s' ∧
    s'.phase r = .writing job ∧ job.pending = [] ∧ job.refused = []

/-- What such a cycle has read, and that it is delivered. -/
theorem Completes.delivers {topology : TopologySnapshot} {nowNs : I64}
    (h : Completes r topology nowNs s s') (hsound : s.Sound) :
    s'.Sound ∧ ∃ buys sells, (∀ b ∈ buys, b.side = .buy) ∧ (∀ x ∈ sells, x.side = .sell) ∧
      ((buys ++ sells).map (·.id)).Nodup ∧ (∀ x ∈ sells, ∃ o ∈ s.db.orders.rows, o.Later x) ∧
      s'.db.Delivers (buys ++ sells) (runMatchingCycle buys sells topology nowNs).pending [] := by
  obtain ⟨s₁, s₂, s₃, job, hbuys, hlead, hsells, hlead', hphase, hpending, hrefused⟩ := h
  have hsound₁ := hsound.step hbuys
  obtain ⟨hsound₂, hlater₂⟩ := hlead.later (fun a ha => ha.insertsNone) hsound₁
  have hsound₃ := hsound₂.step hsells
  obtain ⟨hsound', _⟩ := hlead'.later (fun a ha => ha.insertsNone) hsound₃
  obtain ⟨⟨db₁, phase₁⟩, hstep₁, rfl⟩ := Option.map_eq_some_iff.mp hbuys
  obtain ⟨rfl, rfl⟩ := Phase.readBuys_eq hstep₁
  have hread : (s₂.phase r).HasRead s₂.db := by
    apply hlead.phase_induction (I := Phase.HasRead) hsound₁
    · exact fun _ _ _ h hlater => Phase.HasRead.mono h hlater
    · exact fun _ _ _ _ _ hmove hb _ h => Move.hasRead hmove hb h
    · simp only [Function.update_self]
      refine ⟨rfl, fun b hb => side_of_mem_select hb, fun o ho hlive hsegment hbuy => ⟨o, ?_, .refl o⟩⟩
      exact List.mem_filter.mpr ⟨List.mem_filter.mpr ⟨ho, decide_eq_true ⟨hbuy, hlive⟩⟩,
        decide_eq_true hsegment⟩
  obtain ⟨⟨db₃, phase₃⟩, hstep₃, rfl⟩ := Option.map_eq_some_iff.mp hsells
  obtain ⟨kind, buys, hreading, rfl, rfl⟩ := Phase.readSells_eq hstep₃
  have hsnapshot := hsound₂ r
  rw [hreading] at hread hsnapshot
  have hdelivered := Phase.HasRead.delivers hread topology nowNs
  obtain ⟨rfl, hside, _⟩ := hread
  have hend : (s'.phase r).Delivers s'.db
      (buys ++ JobKind.matching.select (s₂.db.activeOrders .sell))
      (runMatchingCycle buys (JobKind.matching.select (s₂.db.activeOrders .sell)) topology nowNs).pending := by
    apply hlead'.phase_induction (I := fun db phase => Phase.Delivers db _ _ phase) hsound₃
    · exact fun _ _ _ h hlater => Phase.Delivers.mono h hlater
    · exact fun _ _ _ _ _ hmove hb hsound h => Move.delivers hmove hb hsound h
    · simp only [Function.update_self]
      exact fun _ => hdelivered
  rw [hphase] at hend
  have hdone := hend hrefused
  rw [hpending] at hdone
  refine ⟨hsound', buys, _, hside, fun x hx => side_of_mem_select hx, hsnapshot.ids_append .matching,
    fun x hx => ?_, hdone⟩
  obtain ⟨o, ho, hrow⟩ := hlater₂ x ((select_sublist .matching .sell).subset hx)
  exact ⟨o, ho, hrow⟩

end State

end Runs

def Phase.job : Phase → Option Job
  | .writing job => some job
  | _ => none

theorem Phase.job_eq_some {phase : Phase} {job : Job} : phase.job = some job ↔ phase = .writing job := by
  cases phase with
  | idle => simp [Phase.job]
  | reading kind buys => simp [Phase.job]
  | writing job' => simp [Phase.job]

def twoSells : List (Action Unit) :=
  [.statement (.insertOrder (.placed 1 .buy 10 10)), .statement (.insertOrder (.placed 2 .sell 4 6)),
    .statement (.insertOrder (.placed 3 .sell 12 5))]

def oneMatchCycle : List (Action Unit) :=
  [.worker () (.readBuys .matching), .worker () (.readSells openGrid (BoundedInt.saturate 0)),
    .worker () (.persist ⟨4, 5, 6, 0⟩ ⟨0, 0, 0⟩)]

end TradingService
