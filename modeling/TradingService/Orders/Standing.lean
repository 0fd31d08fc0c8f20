import TradingService.Orders.Signed

/-!
# What the status of an order says of its fill

The status is a column of its own, and every statement that writes a fill or a status writes
it anew. `OrderStatus.Fits` is what it says of the fill, and every step of the entry paths,
the users, the reaper and the workers keeps that true of every row: an order that is live
always has something left to trade, and one that is filled has nothing.
-/

namespace TradingService

open Database (Extends)

/-- What an order of this status has filled of its energy. Nothing ever makes an order active
or settled. -/
def OrderStatus.Fits (energy filled : Decimal) : OrderStatus → Prop
  | .pending => filled = 0
  | .partiallyFilled => 0 < filled ∧ filled < energy
  | .filled => energy ≤ filled
  | .expired => 0 ≤ filled ∧ filled < energy
  | .cancelled => True
  | .active => False
  | .settled => False

structure OrderRow.Stands (o : OrderRow) : Prop where
  energy_pos : 0 < o.energy
  fits : o.status.Fits o.energy o.filled

theorem OrderRow.Stands.room {o : OrderRow} (h : o.Stands) (hlive : o.status.isLive) :
    0 ≤ o.filled ∧ o.filled < o.energy := by
  have hpos := h.energy_pos
  have hfits := h.fits
  cases hstatus : o.status with
  | pending =>
    rw [hstatus] at hfits
    have hzero : o.filled = 0 := hfits
    rw [hzero]
    exact ⟨le_rfl, hpos⟩
  | partiallyFilled =>
    rw [hstatus] at hfits
    exact ⟨hfits.1.le, hfits.2⟩
  | active =>
    rw [hstatus] at hfits
    exact hfits.elim
  | _ =>
    rw [hstatus] at hlive
    cases hlive

def Database.Stands (db : Database) : Prop := ∀ o ∈ db.orders.rows, o.Stands

namespace Database

variable {db db' : Database}

theorem Stands.updateOrders (h : db.Stands) {f : OrderRow → OrderRow} {hf : ∀ o, (f o).id = o.id}
    {events : List Event} (hrow : ∀ o ∈ db.orders.rows, o.Stands → (f o).Stands) :
    (db.updateOrders f hf events).Stands :=
  List.forall_mem_map.mpr fun o ho => hrow o ho (h o ho)

theorem Stands.setFill (h : db.Stands) {id : Uuid} {x : Numeric} {status : OrderStatus}
    {events : List Event} (hfits : ∀ o ∈ db.orders.rows, o.id = id → status.Fits o.energy x.toDecimal) :
    (db.setFill id x status events).Stands := by
  apply h.updateOrders
  intro o ho hstands
  by_cases hid : o.id = id
  · rw [if_pos hid]
    exact ⟨hstands.energy_pos, hfits o ho hid⟩
  · rwa [if_neg hid]

theorem Stands.insertOrderWithEvent (h : db.Stands) {order : TradingOrder} {now : ℤ}
    (hstatus : order.status = .pending) (hins : db.insertOrderWithEvent order now = some db') :
    db'.Stands := by
  obtain ⟨row, hrow, hins⟩ := Option.bind_eq_some_iff.mp hins
  obtain ⟨energy, _, hrow⟩ := Option.bind_eq_some_iff.mp hrow
  obtain ⟨price, _, hrow⟩ := Option.bind_eq_some_iff.mp hrow
  obtain rfl := Option.some.inj hrow
  obtain ⟨hrows, _, _, hpos, _⟩ := insertOrder_eq_some hins
  intro o ho
  rw [hrows] at ho
  rcases List.mem_cons.mp ho with rfl | ho
  · constructor
    · exact hpos
    · dsimp only
      rw [hstatus]
      exact Numeric.toDecimal_zero
  · exact h o ho

theorem Stands.setWalletSignature (h : db.Stands) {orderId : Uuid} {signature : String}
    (hwritten : db.setWalletSignature orderId signature = some db') : db'.Stands := by
  obtain rfl := setWalletSignature_eq_some hwritten
  apply h.updateOrders
  intro o _ hstands
  split_ifs
  · exact ⟨hstands.energy_pos, hstands.fits⟩
  · exact hstands

theorem Stands.cancelOrder (h : db.Stands) (orderId userId : Uuid) :
    (db.cancelOrder orderId userId).Stands := by
  apply h.updateOrders
  intro o _ hstands
  split_ifs
  · exact ⟨hstands.energy_pos, trivial⟩
  · exact hstands

theorem Stands.expireStaleOrders (h : db.Stands) {now : ℤ}
    (hexpire : db.expireStaleOrders now = some db') : db'.Stands := by
  unfold Database.expireStaleOrders at hexpire
  dsimp only at hexpire
  split_ifs at hexpire
  obtain rfl := Option.some.inj hexpire
  apply h.updateOrders
  intro o _ hstands
  split_ifs with hstale
  · exact ⟨hstands.energy_pos, hstands.room (Bool.and_eq_true_iff.mp hstale).1⟩
  · exact hstands

theorem Stands.afterPlacement (h : db.Stands) (id : Uuid) (reply : Except String (String × String)) :
    (db.afterPlacement id reply).Stands := by
  cases reply with
  | ok placed =>
    apply h.updateOrders
    intro o _ hstands
    split_ifs
    · exact ⟨hstands.energy_pos, hstands.fits⟩
    · exact hstands
  | error msg =>
    unfold Database.afterPlacement
    dsimp only
    split_ifs
    · apply h.updateOrders
      intro o _ hstands
      split_ifs
      · exact ⟨hstands.energy_pos, trivial⟩
      · exact hstands
    · exact h

theorem Stands.upkeep (h : db.Stands) {st : Statement} (hst : st.isUpkeep)
    (hexec : db.exec st = some db') : db'.Stands := by
  cases st with
  | cancelOrder orderId userId =>
    obtain rfl := Option.some.inj hexec
    exact h.cancelOrder orderId userId
  | expireStaleOrders now => exact h.expireStaleOrders hexec
  | reorder rows =>
    simp only [Database.exec] at hexec
    split_ifs at hexec with hperm
    obtain rfl := Option.some.inj hexec
    exact fun o ho => h o (hperm.subset ho)
  | insertOrder order => cases hst
  | setWalletSignature orderId signature => cases hst

/-- The fill of a trade. The amount has eight places, so the stored fill is the one that the
new status was decided on. -/
theorem Stands.incrementalFill (h : db.Stands) {side : TradeFill} (hpos : 0 < side.delta)
    (hgrid : side.delta ∈ Numeric.grid) (hfill : db.incrementalFill side = .committed db') : db'.Stands := by
  obtain ⟨row, hrow, hid, hlive, x, hx, rfl⟩ := setFill_of_incrementalFill hfill
  have hroom := (h row hrow).room hlive
  have hstored : x.toDecimal = row.filled + side.delta :=
    Numeric.toDecimal_of_store hx (Numeric.grid.add_mem row.filled_mem_grid hgrid)
  apply h.setFill
  intro o ho hoid
  obtain rfl := KeyedTable.row_unique ho hrow (hoid.trans hid.symm)
  rw [hstored]
  split_ifs with hfull
  · exact hfull
  · exact ⟨by linarith [hroom.1], not_le.mp hfull⟩

theorem Stands.persistMatchedTrade (h : db.Stands) {settlement : Settlement Decimal}
    {orderMatch : OrderMatch Decimal} {event : Event} {buyer seller : TradeFill}
    (hbuyer : 0 < buyer.delta ∧ buyer.delta ∈ Numeric.grid)
    (hseller : 0 < seller.delta ∧ seller.delta ∈ Numeric.grid)
    (htrade : db.persistMatchedTrade settlement orderMatch event buyer seller = .committed db') :
    db'.Stands := by
  obtain ⟨_, _, db₁, _, _, _, hins, hfill, hfill'⟩ := statements_of_persistMatchedTrade htrade
  have h₁ : db₁.Stands := by
    intro o ho
    rw [hins.orders] at ho
    exact h o ho
  exact (h₁.incrementalFill hbuyer.1 hbuyer.2 hfill).incrementalFill hseller.1 hseller.2 hfill'

/-- The sweep cancels, so its fill need not fit anything. -/
theorem Stands.cancelIocRemainder (h : db.Stands) {o : FastOrder}
    (hswept : cancelIocRemainder db o = some db') : db'.Stands := by
  rcases setFill_of_updateFilledAmount hswept with ⟨rfl, _⟩ | ⟨_, _, _, _, x, _, rfl⟩
  · exact h
  · exact h.setFill fun _ _ _ => trivial

end Database

def Phase.TradesOnGrid (db : Database) : Phase → Prop
  | .idle => True
  | .reading _ buys => BuySnapshot db buys
  | .writing job => ∀ m ∈ job.pending, 0 < m.matchAmount ∧ m.matchAmount ∈ Numeric.grid

section Steps

variable {db db' : Database}

theorem Phase.TradesOnGrid.mono {phase : Phase} (h : phase.TradesOnGrid db) (hext : Extends db db') :
    phase.TradesOnGrid db' := by
  cases phase with
  | idle => trivial
  | reading kind buys => exact BuySnapshot.mono h hext
  | writing job => exact h

theorem Move.tradesOnGrid {phase phase' : Phase} {a : JobStep} (h : Move db phase a db' phase')
    (hphase : phase.TradesOnGrid db) : phase'.TradesOnGrid db' := by
  cases h with
  | readBuys kind => exact BuySnapshot.select kind
  | readSells kind buys topology nowNs =>
    have hdecided := kind.decided_run topology nowNs (BuySnapshot.ids_append hphase kind)
    exact fun m hm => ⟨hdecided.amount_pos m hm, hdecided.amount_mem m hm⟩
  | persisted hpending _ => exact fun m hm => hphase m (hpending ▸ List.mem_cons_of_mem _ hm)
  | givenUp _ hpending => exact fun m hm => hphase m (hpending ▸ List.mem_cons_of_mem _ hm)
  | swept _ _ _ => exact hphase
  | stopped => exact trivial

theorem Move.stands {phase phase' : Phase} {a : JobStep} (h : Move db phase a db' phase')
    (hphase : phase.TradesOnGrid db) (hdb : db.Stands) : db'.Stands := by
  cases h with
  | readBuys kind => exact hdb
  | readSells kind buys topology nowNs => exact hdb
  | @persisted job m rest ids rates _ hpending hcommitted =>
    have hjob : ∀ m' ∈ job.pending, 0 < m'.matchAmount ∧ m'.matchAmount ∈ Numeric.grid := hphase
    have hm := hjob m (hpending ▸ List.mem_cons_self)
    exact hdb.persistMatchedTrade hm hm hcommitted
  | givenUp _ _ => exact hdb
  | swept _ _ hwritten => exact hdb.cancelIocRemainder hwritten
  | stopped => exact hdb

end Steps

section Entry

variable {config : ServiceConfig} {moment : Moment}

theorem EntryRequest.order_pending {req : EntryRequest} {order : TradingOrder}
    (h : req.order config moment = some order) : order.status = .pending := by
  cases req with
  | rest userId req =>
    obtain ⟨out, hsubmit, rfl⟩ := Option.map_eq_some_iff.mp h
    obtain ⟨_, _, _, _, _, _, _, _, _, _, _, _, horder, _⟩ :=
      Rest.submitOrder_ok (Except.toOption_eq_some_iff.mp hsubmit)
    rw [horder]
    rfl
  | grpc req =>
    have hsubmit := Except.toOption_eq_some_iff.mp h
    unfold Grpc.submitOrder at hsubmit
    obtain ⟨_, _, hsubmit⟩ := Except.bind_eq_ok_iff.mp hsubmit
    obtain ⟨_, _, hsubmit⟩ := Except.bind_eq_ok_iff.mp hsubmit
    obtain ⟨_, _, hsubmit⟩ := Except.bind_eq_ok_iff.mp hsubmit
    obtain ⟨_, _, hsubmit⟩ := Except.bind_eq_ok_iff.mp hsubmit
    obtain ⟨_, _, hsubmit⟩ := Except.bind_eq_ok_iff.mp hsubmit
    obtain ⟨_, _, hsubmit⟩ := Except.bind_eq_ok_iff.mp hsubmit
    obtain ⟨_, _, hsubmit⟩ := Except.bind_eq_ok_iff.mp hsubmit
    obtain rfl := Except.ok.inj hsubmit
    rfl
  | recurring rule =>
    simp only [EntryRequest.order] at h
    split at h
    · obtain rfl := Option.some.inj h
      rfl
    · cases h

theorem Intake.step_stands {db db' : Database} {intake intake' : Intake} {a : IntakeAction}
    (hdb : db.Stands) (h : intake.step config db a = some (db', intake')) : db'.Stands := by
  cases a with
  | submitRest userId req moment =>
    simp only [Intake.step] at h
    split at h
    · cases h
    next order signature hsubmit =>
      obtain ⟨db₁, hins, hpair⟩ := Option.map_eq_some_iff.mp h
      obtain ⟨rfl, _⟩ := Prod.mk.inj hpair
      have horder : (EntryRequest.rest userId req).order config moment = some order := by
        simp only [EntryRequest.order, hsubmit]
        rfl
      exact hdb.insertOrderWithEvent (EntryRequest.order_pending horder) hins
  | writeSignature orderId written =>
    cases Intake.move_of_step h with
    | signed _ hwritten => exact hdb.setWalletSignature hwritten
    | unsigned _ => exact hdb
  | submitGrpc req moment =>
    simp only [Intake.step] at h
    split at h
    · cases h
    next order hsubmit =>
      obtain ⟨db₁, hins, hpair⟩ := Option.map_eq_some_iff.mp h
      obtain ⟨rfl, _⟩ := Prod.mk.inj hpair
      have horder : (EntryRequest.grpc req).order config moment = some order := by
        simp only [EntryRequest.order, hsubmit]
        rfl
      exact hdb.insertOrderWithEvent (EntryRequest.order_pending horder) hins
  | place orderId reply written =>
    cases Intake.move_of_step h with
    | place _ =>
      split_ifs
      · exact hdb.afterPlacement orderId reply
      · exact hdb
  | placeRecurring rule moment =>
    simp only [Intake.step] at h
    split at h
    · cases h
    next order horder =>
      obtain ⟨db₁, hins, hpair⟩ := Option.map_eq_some_iff.mp h
      obtain ⟨rfl, _⟩ := Prod.mk.inj hpair
      exact hdb.insertOrderWithEvent (EntryRequest.order_pending horder) hins

end Entry

namespace MarketState

variable {R : Type} [DecidableEq R] {config : ServiceConfig} {s s' : MarketState R}

/-- The invariant of the market: the rows stand, and what the workers are about to write keeps
them so. -/
structure Standing (s : MarketState R) : Prop where
  rows : s.market.db.Stands
  phases : ∀ r, (s.market.phase r).TradesOnGrid s.market.db

theorem Standing.step {a : MarketAction R} (h : s.Standing) (hstep : s.step config a = some s') :
    s'.Standing := by
  cases a with
  | intake a =>
    obtain ⟨⟨db', intake'⟩, hintake, rfl⟩ := Option.map_eq_some_iff.mp hstep
    exact ⟨Intake.step_stands h.rows hintake,
      fun r => (h.phases r).mono (Intake.move_of_step hintake).extends⟩
  | upkeep st =>
    simp only [MarketState.step] at hstep
    split_ifs at hstep with hst
    obtain ⟨market', hmarket, rfl⟩ := Option.map_eq_some_iff.mp hstep
    obtain ⟨db', hexec, rfl⟩ := Option.map_eq_some_iff.mp hmarket
    exact ⟨h.rows.upkeep hst hexec, fun r => (h.phases r).mono (Database.exec_keeps hexec).extends⟩
  | worker r a =>
    obtain ⟨market', hmarket, rfl⟩ := Option.map_eq_some_iff.mp hstep
    obtain ⟨⟨db', phase'⟩, hphase, rfl⟩ := Option.map_eq_some_iff.mp hmarket
    have hmove := Phase.move_of_step hphase
    refine ⟨hmove.stands (h.phases r) h.rows, ?_⟩
    exact (Function.forall_update_iff s.market.phase fun _ phase => phase.TradesOnGrid db').mpr
      ⟨hmove.tradesOnGrid (h.phases r), fun q _ => (h.phases q).mono hmove.extends⟩

/-- In every state of every run of the market, from an empty database, the status of each order
says what its fill is, and a live order has something left to trade. -/
theorem status_fits_fill (config : ServiceConfig) (as : List (MarketAction R)) :
    Runs.AllStates (MarketState.step config)
      (fun s : MarketState R => ∀ o ∈ s.market.db.orders.rows, o.status.Fits o.energy o.filled ∧
        (o.status.isLive → 0 ≤ o.filled ∧ o.filled < o.energy)) (start .empty) as := by
  have hstart : (start .empty : MarketState R).Standing := ⟨List.forall_mem_nil _, fun _ => trivial⟩
  have hinv : Runs.AllStates (MarketState.step config) Standing (start .empty : MarketState R) as :=
    Runs.AllStates.of_invariant (fun s a s' hs hstep => hs.step hstep) hstart as
  exact hinv.mono fun s hs o ho => ⟨(hs.rows o ho).fits, (hs.rows o ho).room⟩

end MarketState

end TradingService
