import TradingService.Orders.Signed
import TradingService.Orders.Terminal

/-!
# The story of an order

A consumer of the outbox knows an order by its events: the one that created it, and its
updates, each with the status and the fill that its transaction wrote. Two writes to a
status come without an event: the cancellation by the user, and the one after a refused
placement.
-/

namespace TradingService

open Database (Statement)

def Event.tells (id : Uuid) : Event → Option (OrderStatus × Decimal)
  | .orderCreated createdId _ _ status _ => if createdId = id then some (status, 0) else none
  | .orderUpdate updatedId _ filledAmount status _ =>
    if updatedId = id then some (status, filledAmount) else none
  | _ => none

def told (events : List Event) (id : Uuid) : Option (OrderStatus × Decimal) :=
  (events.filterMap (Event.tells id)).getLast?

/-- What was last said of an order is what its row says. -/
def Database.TellsStory (db : Database) : Prop :=
  ∀ o ∈ db.orders.rows, told db.outbox o.id = some (o.status, o.filled)

instance (db : Database) : Decidable db.TellsStory :=
  inferInstanceAs (Decidable (∀ o ∈ db.orders.rows, _))

section Told

variable {events : List Event} {id : Uuid} {word : OrderStatus × Decimal}

@[simp] theorem told_nil (id : Uuid) : told [] id = none := rfl

theorem told_append (events later : List Event) (id : Uuid) :
    told (events ++ later) id = (told later id).or (told events id) := by
  simp [told, List.filterMap_append, List.getLast?_append]

theorem told_singleton (event : Event) (id : Uuid) : told [event] id = event.tells id := by
  cases h : event.tells id <;> simp [told, h]

theorem told_eq_none (h : ∀ event ∈ events, event.tells id = none) : told events id = none := by
  rw [told, List.filterMap_eq_nil_iff.mpr h, List.getLast?_nil]

theorem told_eq_some (hsaid : ∃ event ∈ events, event.tells id = some word)
    (hagree : ∀ event ∈ events, ∀ w ∈ event.tells id, w = word) : told events id = some word := by
  cases hlast : told events id with
  | none =>
    obtain ⟨event, hevent, hword⟩ := hsaid
    have hnone := List.filterMap_eq_nil_iff.mp (List.getLast?_eq_none_iff.mp hlast) event hevent
    rw [hword] at hnone
    cases hnone
  | some w =>
    obtain ⟨event, hevent, hw⟩ := List.mem_filterMap.mp (List.mem_of_getLast? hlast)
    rw [hagree event hevent w hw]

end Told

namespace Database

variable {db db' : Database}

/-- A write with its events keeps the story up to date exactly if each order's row
becomes what the events say of it, and stays where they say nothing. -/
theorem TellsStory.updateOrders_iff (h : db.TellsStory) {f : OrderRow → OrderRow}
    {hf : ∀ o, (f o).id = o.id} {events : List Event} :
    (db.updateOrders f hf events).TellsStory ↔ ∀ o ∈ db.orders.rows,
      (told events o.id).getD (o.status, o.filled) = ((f o).status, (f o).filled) := by
  refine List.forall_mem_map.trans (forall₂_congr fun o ho => ?_)
  have htold : told (db.updateOrders f hf events).outbox (f o).id =
      some ((told events o.id).getD (o.status, o.filled)) := by
    rw [hf]
    refine (told_append _ _ _).trans ?_
    rw [h o ho]
    cases told events o.id <;> rfl
  rw [htold, Option.some.injEq]

theorem TellsStory.setFill (h : db.TellsStory) {id : Uuid} {x : Numeric} {status : OrderStatus}
    (userId : Option Uuid) (zoneId : ZoneId) :
    (db.setFill id x status [.orderUpdate id userId x.toDecimal status zoneId]).TellsStory := by
  refine h.updateOrders_iff.mpr fun o _ => ?_
  rw [told_singleton]
  by_cases hid : o.id = id
  · simp [Event.tells, hid, OrderRow.filled]
  · simp [Event.tells, hid, Ne.symm hid]

theorem TellsStory.insertOrder (h : db.TellsStory) {order : OrderRow}
    (hins : db.insertOrder order = some db') : db'.TellsStory := by
  unfold Database.insertOrder at hins
  split_ifs at hins
  split at hins
  · cases hins
  next orders hrows =>
    obtain rfl := Option.some.inj hins
    obtain ⟨hfresh, hrows⟩ := KeyedTable.insert?_eq_some hrows
    intro o ho
    simp only at ho ⊢
    rw [told_append, told_singleton]
    rcases List.mem_cons.mp (hrows ▸ ho) with rfl | ho
    · simp [Event.tells, OrderRow.filled]
    · simp [Event.tells, (hfresh o ho).symm, h o ho]

theorem TellsStory.insertOrderWithEvent (h : db.TellsStory) {order : TradingOrder} {now : ℤ}
    (hins : db.insertOrderWithEvent order now = some db') : db'.TellsStory := by
  obtain ⟨row, _, hins⟩ := Option.bind_eq_some_iff.mp hins
  exact h.insertOrder hins

theorem TellsStory.setWalletSignature (h : db.TellsStory) {orderId : Uuid} {signature : String}
    (hwritten : db.setWalletSignature orderId signature = some db') : db'.TellsStory := by
  obtain rfl := setWalletSignature_eq_some hwritten
  refine h.updateOrders_iff.mpr fun o _ => ?_
  split_ifs <;> rfl

theorem TellsStory.reorder (h : db.TellsStory) {rows : List OrderRow}
    (hperm : rows.Perm db.orders.rows) : (db.reorder rows hperm).TellsStory :=
  fun o ho => h o (hperm.subset ho)

theorem TellsStory.expireStaleOrders (h : db.TellsStory) {now : ℤ}
    (hexpire : db.expireStaleOrders now = some db') : db'.TellsStory := by
  unfold Database.expireStaleOrders at hexpire
  dsimp only at hexpire
  split_ifs at hexpire
  obtain rfl := Option.some.inj hexpire
  refine h.updateOrders_iff.mpr fun o ho => ?_
  by_cases hstale : isStale now o
  · rw [if_pos hstale, @told_eq_some _ _ (.expired, o.filled)]
    · rfl
    · exact ⟨_, List.mem_map_of_mem (List.mem_filter.mpr ⟨ho, hstale⟩), if_pos rfl⟩
    · intro event hevent w hw
      obtain ⟨p, hp, rfl⟩ := List.mem_map.mp hevent
      obtain ⟨hid, hword⟩ := Option.ite_none_right_eq_some.mp hw
      obtain rfl := KeyedTable.row_unique (List.mem_of_mem_filter hp) ho hid
      exact (Option.some.inj hword).symm
  · rw [if_neg hstale, told_eq_none]
    · rfl
    · intro event hevent
      obtain ⟨p, hp, rfl⟩ := List.mem_map.mp hevent
      obtain ⟨hp, hstale'⟩ := List.mem_filter.mp hp
      refine if_neg fun hid => hstale ?_
      exact KeyedTable.row_unique hp ho hid ▸ hstale'

/-- The user's cancellation tells of nothing. -/
theorem TellsStory.cancelOrder_iff (h : db.TellsStory) (orderId userId : Uuid) :
    (db.cancelOrder orderId userId).TellsStory ↔ ∀ o ∈ db.orders.rows,
      o.id = orderId → o.userId = userId → o.status.isLive = false := by
  refine h.updateOrders_iff.trans (forall₂_congr fun o _ => ?_)
  rw [told_nil, Option.getD_none]
  split_ifs with hcancel
  · obtain ⟨hid, huser, hlive⟩ := hcancel
    refine iff_of_false (fun heq => ?_) fun hdead => ?_
    · rw [(Prod.mk.inj heq).1] at hlive
      cases hlive
    · rw [hdead hid huser] at hlive
      cases hlive
  · exact iff_of_true rfl fun hid huser =>
      Bool.eq_false_iff.mpr fun hlive => hcancel ⟨hid, huser, hlive⟩

/-- Nor does the plain status write. -/
theorem TellsStory.updateOrderStatus_iff (h : db.TellsStory) (orderId : Uuid) (status : OrderStatus) :
    (db.updateOrderStatus orderId status).TellsStory ↔
      ∀ o ∈ db.orders.rows, o.id = orderId → o.status = status := by
  refine h.updateOrders_iff.trans (forall₂_congr fun o _ => ?_)
  rw [told_nil, Option.getD_none]
  split_ifs with hid
  · exact ⟨fun heq _ => (Prod.mk.inj heq).1, fun hstatus => Prod.ext (hstatus hid) rfl⟩
  · exact iff_of_true rfl fun hid' => absurd hid' hid

theorem TellsStory.afterPlacement_iff (h : db.TellsStory) (id : Uuid)
    (reply : Except String (String × String)) :
    (db.afterPlacement id reply).TellsStory ↔ ∀ msg, reply = .error msg →
      isDeterministicChainRejection msg = true →
        ∀ o ∈ db.orders.rows, o.id = id → o.status = .cancelled := by
  cases reply with
  | ok placed =>
    refine iff_of_true ?_ fun msg hmsg => by cases hmsg
    refine h.updateOrders_iff.mpr fun o _ => ?_
    split_ifs <;> rfl
  | error msg =>
    unfold afterPlacement
    simp only [Except.error.injEq, forall_eq']
    split_ifs with hrejected
    · simp only [hrejected, true_imp_iff]
      exact h.updateOrderStatus_iff id .cancelled
    · exact iff_of_true h fun hrejected' => absurd hrejected' hrejected

theorem TellsStory.incrementalFill (h : db.TellsStory) {side : TradeFill}
    (hfill : db.incrementalFill side = .committed db') : db'.TellsStory := by
  obtain ⟨_, _, _, _, _, _, rfl⟩ := setFill_of_incrementalFill hfill
  exact h.setFill _ _

/-- A match says nothing of its orders; their fills do. -/
theorem TellsStory.persistMatchedTrade (h : db.TellsStory) {settlement : Settlement Decimal}
    {orderMatch : OrderMatch Decimal} {event : Event} {buyer seller : TradeFill}
    (hsilent : ∀ id, event.tells id = none)
    (htrade : db.persistMatchedTrade settlement orderMatch event buyer seller = .committed db') :
    db'.TellsStory := by
  obtain ⟨_, _, db₁, _, _, _, hins, hfill, hfill'⟩ := statements_of_persistMatchedTrade htrade
  have h₁ : db₁.TellsStory := by
    intro o ho
    rw [hins.orders] at ho
    rw [hins.outbox]
    refine (told_append _ _ _).trans ?_
    rw [told_singleton, hsilent, Option.none_or]
    exact h o ho
  exact (h₁.incrementalFill hfill).incrementalFill hfill'

/-- The sweep tells of the engine's fill, which is the stored one if it has eight
places. -/
theorem TellsStory.cancelIocRemainder (h : db.TellsStory) {o : FastOrder}
    (hgrid : o.filledAmount ∈ Numeric.grid) (hswept : cancelIocRemainder db o = some db') :
    db'.TellsStory := by
  rcases setFill_of_updateFilledAmount hswept with ⟨rfl, _⟩ | ⟨_, _, _, _, x, hx, rfl⟩
  · exact h
  · rw [← Numeric.toDecimal_of_store hx hgrid]
    exact h.setFill _ _

end Database

def Phase.SweepsOnGrid (db : Database) : Phase → Prop
  | .idle => True
  | .reading _ buys => BuySnapshot db buys
  | .writing job => ∀ o ∈ job.sweep, o.filledAmount ∈ Numeric.grid

section Workers

variable {db db' : Database} {phase phase' : Phase} {a : JobStep}

theorem Phase.SweepsOnGrid.mono (h : phase.SweepsOnGrid db) (hext : Database.Extends db db') :
    phase.SweepsOnGrid db' := by
  cases phase with
  | idle => trivial
  | reading kind buys => exact BuySnapshot.mono h hext
  | writing job => exact h

theorem Move.tellsStory (h : Move db phase a db' phase') (hphase : phase.SweepsOnGrid db)
    (hdb : db.TellsStory) : db'.TellsStory ∧ phase'.SweepsOnGrid db' := by
  cases h with
  | readBuys kind => exact ⟨hdb, BuySnapshot.select kind⟩
  | readSells kind buys topology nowNs =>
    exact ⟨hdb, (kind.decided_run topology nowNs (BuySnapshot.ids_append hphase kind)).sweep_onGrid⟩
  | persisted _ hcommit => exact ⟨hdb.persistMatchedTrade (fun _ => rfl) hcommit, hphase⟩
  | givenUp _ _ => exact ⟨hdb, hphase⟩
  | @swept job o rest _ _ hsweep hwritten =>
    have hjob : ∀ f ∈ job.sweep, f.filledAmount ∈ Numeric.grid := hphase
    have hgrid : o.filledAmount ∈ Numeric.grid := hjob o (hsweep ▸ List.mem_cons_self)
    exact ⟨hdb.cancelIocRemainder hgrid hwritten,
      fun f hf => hjob f (hsweep ▸ List.mem_cons_of_mem _ hf)⟩
  | stopped => exact ⟨hdb, trivial⟩

end Workers

namespace MarketState

variable {R : Type} [DecidableEq R] {config : ServiceConfig} {s s' : MarketState R}

def TellsStory (s : MarketState R) : Prop := s.market.db.TellsStory

instance (s : MarketState R) : Decidable s.TellsStory := inferInstanceAs (Decidable s.market.db.TellsStory)

/-- A cancellation finds no live order of the user's, and a refused placement finds its
order cancelled. -/
def CancelsNothing (s : MarketState R) : MarketAction R → Prop
  | .upkeep (.cancelOrder orderId userId) => ∀ o ∈ s.market.db.orders.rows,
      o.id = orderId → o.userId = userId → o.status.isLive = false
  | .intake (.place orderId (.error msg) true) => isDeterministicChainRejection msg = true →
      orderId ∈ s.intake.toPlace → ∀ o ∈ s.market.db.orders.rows, o.id = orderId →
        o.status = .cancelled
  | _ => True

structure Reported (s : MarketState R) : Prop where
  tellsStory : s.TellsStory
  phases : ∀ r, (s.market.phase r).SweepsOnGrid s.market.db

omit [DecidableEq R] in
theorem Reported.intake_iff {db' : Database} {intake' : Intake} {a : IntakeAction} (h : s.Reported)
    (hmove : Intake.Move config s.market.db s.intake a db' intake') :
    db'.TellsStory ↔ s.CancelsNothing (.intake a) := by
  have hdb : s.market.db.TellsStory := h.tellsStory
  cases hmove with
  | rest _ hins => exact iff_of_true (hdb.insertOrderWithEvent hins) trivial
  | signed _ hwritten => exact iff_of_true (hdb.setWalletSignature hwritten) trivial
  | unsigned _ => exact iff_of_true hdb trivial
  | grpc _ hins => exact iff_of_true (hdb.insertOrderWithEvent hins) trivial
  | @place id reply written hmem =>
    cases written with
    | false => exact iff_of_true hdb (by cases reply <;> trivial)
    | true =>
      refine (hdb.afterPlacement_iff id reply).trans ?_
      cases reply with
      | ok placed => exact iff_of_true (fun msg hmsg => by cases hmsg) trivial
      | error msg => simp [CancelsNothing, hmem]
  | recurring hins => exact iff_of_true (hdb.insertOrderWithEvent hins) trivial

omit [DecidableEq R] in
theorem Reported.upkeep_iff {st : Statement} {db' : Database} (h : s.Reported) (hst : st.isUpkeep)
    (hexec : s.market.db.exec st = some db') :
    db'.TellsStory ↔ s.CancelsNothing (.upkeep st) := by
  have hdb : s.market.db.TellsStory := h.tellsStory
  cases st with
  | cancelOrder orderId userId =>
    obtain rfl := Option.some.inj hexec
    exact hdb.cancelOrder_iff orderId userId
  | expireStaleOrders now => exact iff_of_true (hdb.expireStaleOrders hexec) trivial
  | reorder rows =>
    simp only [Database.exec] at hexec
    split_ifs at hexec with hperm
    obtain rfl := Option.some.inj hexec
    exact iff_of_true (hdb.reorder hperm) trivial
  | insertOrder order => cases hst
  | setWalletSignature orderId signature => cases hst

/-- One step: the events are up to date after it exactly if it cancels nothing. -/
theorem Reported.step {a : MarketAction R} (h : s.Reported) (hstep : s.step config a = some s') :
    (s'.TellsStory ↔ s.CancelsNothing a) ∧ ∀ r, (s'.market.phase r).SweepsOnGrid s'.market.db := by
  cases a with
  | intake a =>
    obtain ⟨⟨db', intake'⟩, hintake, rfl⟩ := Option.map_eq_some_iff.mp hstep
    have hmove := Intake.move_of_step hintake
    exact ⟨h.intake_iff hmove, fun r => (h.phases r).mono hmove.extends⟩
  | upkeep st =>
    simp only [MarketState.step] at hstep
    split_ifs at hstep with hst
    obtain ⟨market', hmarket, rfl⟩ := Option.map_eq_some_iff.mp hstep
    obtain ⟨db', hexec, rfl⟩ := Option.map_eq_some_iff.mp hmarket
    exact ⟨h.upkeep_iff hst hexec, fun r => (h.phases r).mono (Database.exec_keeps hexec).extends⟩
  | worker r a =>
    obtain ⟨market', hmarket, rfl⟩ := Option.map_eq_some_iff.mp hstep
    obtain ⟨⟨db', phase'⟩, hphase, rfl⟩ := Option.map_eq_some_iff.mp hmarket
    have hmove := Phase.move_of_step hphase
    obtain ⟨hdb', hown⟩ := hmove.tellsStory (h.phases r) h.tellsStory
    refine ⟨iff_of_true hdb' trivial, ?_⟩
    exact (Function.forall_update_iff s.market.phase fun _ phase => phase.SweepsOnGrid db').mpr
      ⟨hown, fun q _ => (h.phases q).mono hmove.extends⟩

/-- In every run of the order operations, the events tell the story of every order at
each state exactly if no order is cancelled by its user or by a refused placement. -/
theorem outbox_tells_story_iff (config : ServiceConfig) (as : List (MarketAction R)) :
    Runs.AllStates (MarketState.step config) TellsStory (start .empty) as ↔
      Runs.AllSteps (MarketState.step config) CancelsNothing (start .empty) as := by
  have hstart : (start .empty : MarketState R).Reported := ⟨List.forall_mem_nil _, fun _ => trivial⟩
  constructor
  · intro h
    refine Runs.AllSteps.of_allStates (I := Reported) (fun s a s' hs hstep htells => ?_) hstart h
    obtain ⟨hiff, hphases⟩ := hs.step hstep
    exact ⟨hiff.mp htells, htells, hphases⟩
  · intro h
    have hinv : Runs.AllStates (MarketState.step config) Reported (start .empty : MarketState R) as := by
      apply Runs.AllStates.of_allSteps (C := CancelsNothing) _ hstart h
      intro s a s' hs hquiet hstep
      obtain ⟨hiff, hphases⟩ := hs.step hstep
      exact ⟨hiff.mpr hquiet, hphases⟩
    exact hinv.mono fun _ hs => hs.tellsStory

/-- A buy comes in and its user cancels it; another one is cancelled because its placement
was refused. No event tells of either. -/
theorem cancellations_untold :
    ¬Runs.AllStates (MarketState.step .shipped) TellsStory (start .empty : MarketState Unit)
        [.intake (.submitGrpc .buyOne .quiet), .upkeep (.cancelOrder 1 1)] ∧
      ¬Runs.AllStates (MarketState.step .shipped) TellsStory (start .empty : MarketState Unit)
        [.intake (.submitGrpc .buyOne .quiet), .intake (.place 1 (.error "InstructionError") true)] := by
  decide +kernel

end MarketState

end TradingService
