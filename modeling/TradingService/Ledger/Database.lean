import TradingService.Ledger.Rows
import TradingService.Lib.KeyedTable

/-!
# The ledger's statements

The tables that orders and trades live in, and the transactions that write them.
A transaction commits or leaves the database as it was. `Rewrites` describes what a
committed one did to the orders: it kept their terms and set each fill to a given
value.
-/

namespace TradingService

abbrev OrderTable := KeyedTable OrderRow.id

structure Database where
  orders : OrderTable
  orderMatches : KeyedTable (@OrderMatch.id Numeric)
  settlements : KeyedTable (@Settlement.id Numeric)
  outbox : List Event
  /-- The foreign keys of `order_matches`. -/
  buy_fkey : ∀ m ∈ orderMatches.rows, ∃ o ∈ orders.rows, o.id = m.buyOrderId
  sell_fkey : ∀ m ∈ orderMatches.rows, ∃ o ∈ orders.rows, o.id = m.sellOrderId

namespace Database

def ofRows (orders : OrderTable) (settlements : KeyedTable (@Settlement.id Numeric)) :
    Database where
  orders := orders
  orderMatches := KeyedTable.empty
  settlements := settlements
  outbox := []
  buy_fkey := by simp [KeyedTable.empty]
  sell_fkey := by simp [KeyedTable.empty]

def empty : Database := ofRows KeyedTable.empty KeyedTable.empty

/-- One `UPDATE trading_orders`, with the events written beside it. -/
def updateOrders (db : Database) (f : OrderRow → OrderRow) (hf : ∀ o, (f o).id = o.id)
    (events : List Event) : Database where
  orders := db.orders.mapRows f hf
  orderMatches := db.orderMatches
  settlements := db.settlements
  outbox := db.outbox ++ events
  buy_fkey m hm := by
    obtain ⟨o, ho, hid⟩ := db.buy_fkey m hm
    exact ⟨f o, List.mem_map_of_mem ho, (hf o).trans hid⟩
  sell_fkey m hm := by
    obtain ⟨o, ho, hid⟩ := db.sell_fkey m hm
    exact ⟨f o, List.mem_map_of_mem ho, (hf o).trans hid⟩

def setFill (db : Database) (orderId : Uuid) (filled : Numeric) (status : OrderStatus)
    (events : List Event) : Database :=
  db.updateOrders
    (fun o => if o.id = orderId then { o with filledAmount := some filled, status := status } else o)
    (fun o => by split_ifs <;> rfl) events

/-- The order of the rows in the heap, which no query fixes. -/
def reorder (db : Database) (rows : List OrderRow) (h : rows.Perm db.orders.rows) : Database where
  orders := db.orders.reorder rows h
  orderMatches := db.orderMatches
  settlements := db.settlements
  outbox := db.outbox
  buy_fkey m hm := by
    obtain ⟨o, ho, hid⟩ := db.buy_fkey m hm
    exact ⟨o, h.symm.subset ho, hid⟩
  sell_fkey m hm := by
    obtain ⟨o, ho, hid⟩ := db.sell_fkey m hm
    exact ⟨o, h.symm.subset ho, hid⟩

/-- `insert_order_with_event`. The fill and the signature are not among the inserted
columns and take their defaults. -/
def insertOrder (db : Database) (order : OrderRow) : Option Database :=
  if 0 < order.energy ∧ 0 < order.pricePerKwh.toDecimal then
    match h : db.orders.insert?
      { order with filledAmount := some Numeric.zero, signature := none } with
    | none => none
    | some orders =>
      some
        { orders := orders
          orderMatches := db.orderMatches
          settlements := db.settlements
          outbox := db.outbox ++ [.orderCreated order.id order.userId order.side order.status order.zoneId]
          buy_fkey := fun m hm => by
            obtain ⟨o, ho, hid⟩ := db.buy_fkey m hm
            exact ⟨o, (KeyedTable.insert?_eq_some h).2 ▸ List.mem_cons_of_mem _ ho, hid⟩
          sell_fkey := fun m hm => by
            obtain ⟨o, ho, hid⟩ := db.sell_fkey m hm
            exact ⟨o, (KeyedTable.insert?_eq_some h).2 ▸ List.mem_cons_of_mem _ ho, hid⟩ }
  else none

/-- `get_active_buy_orders` and `get_active_sell_orders`. -/
def activeOrders (db : Database) (side : OrderSide) : List OrderRow :=
  db.orders.rows.filter fun o => o.side = side ∧ o.status.isLive

def cancelOrder (db : Database) (orderId userId : Uuid) : Database :=
  db.updateOrders
    (fun o => if o.id = orderId ∧ o.userId = userId ∧ o.status.isLive then
      { o with status := .cancelled } else o)
    (fun o => by split_ifs <;> rfl) []

/-- The unique index on the signatures refuses one that another order has. -/
def setWalletSignature (db : Database) (orderId : Uuid) (signature : String) : Option Database :=
  if (∃ o ∈ db.orders.rows, o.id = orderId) ∧
      ∃ o ∈ db.orders.rows, o.id ≠ orderId ∧ o.signature = some signature then none
  else some (db.updateOrders
    (fun o => if o.id = orderId then { o with signature := some signature } else o)
    (fun o => by split_ifs <;> rfl) [])

def isStale (now : ℤ) (o : OrderRow) : Bool :=
  o.status.isLive && o.expiresAt.any (· ≤ now)

/-- The reaper. A stale row without a fill fails to decode, and with it the whole
transaction. -/
def expireStaleOrders (db : Database) (now : ℤ) : Option Database :=
  let stale := db.orders.rows.filter (isStale now)
  if stale.all (·.filledAmount.isSome) then
    some (db.updateOrders (fun o => if isStale now o then { o with status := .expired } else o)
      (fun o => by split_ifs <;> rfl)
      (stale.map fun o => .orderUpdate o.id (some o.userId) o.filled .expired o.zoneId))
  else none

/-- The absolute fill write, guarded on a live status. `none` is an error. -/
def updateFilledAmountWithEvent (db : Database) (orderId : Uuid) (filledAmount : Decimal)
    (status : OrderStatus) (event : Event) : Option Database :=
  match db.orders.find? orderId with
  | none => some db
  | some row =>
    if row.status.isLive then
      (Numeric.store filledAmount).map fun filled => db.setFill orderId filled status [event]
    else some db

inductive Statement
  | insertOrder (order : OrderRow)
  | setWalletSignature (orderId : Uuid) (signature : String)
  | cancelOrder (orderId userId : Uuid)
  | expireStaleOrders (now : ℤ)
  | reorder (rows : List OrderRow)

def exec (db : Database) : Statement → Option Database
  | .insertOrder order => db.insertOrder order
  | .setWalletSignature orderId signature => db.setWalletSignature orderId signature
  | .cancelOrder orderId userId => some (db.cancelOrder orderId userId)
  | .expireStaleOrders now => db.expireStaleOrders now
  | .reorder rows => if h : rows.Perm db.orders.rows then some (db.reorder rows h) else none

structure TradeFill where
  orderId : Uuid
  userId : Option Uuid
  delta : Decimal
  zoneId : ZoneId
  deriving DecidableEq

/-- `Ok(true)`, `Ok(false)` and `Err` of a trade's transaction. -/
inductive TradeOutcome
  | committed (db : Database)
  | refused
  | failed

def TradeOutcome.bind (o : TradeOutcome) (f : Database → TradeOutcome) : TradeOutcome :=
  match o with
  | .committed db => f db
  | .refused => .refused
  | .failed => .failed

def incrementalFill (db : Database) (side : TradeFill) : TradeOutcome :=
  match db.orders.find? side.orderId with
  | none => .refused
  | some row =>
    if row.status.isLive then
      match Numeric.store (row.filled + side.delta) with
      | none => .failed
      | some filled =>
        let status := if row.energy ≤ row.filled + side.delta then OrderStatus.filled
          else .partiallyFilled
        .committed (db.setFill side.orderId filled status
          [.orderUpdate side.orderId side.userId filled.toDecimal status side.zoneId])
    else .refused

/-- The settlement and the ledger row of a trade, under the constraints of their tables. -/
def insertTrade (db : Database) (settlement : Settlement Numeric) (orderMatch : OrderMatch Numeric)
    (event : Event) : Option Database :=
  if h : 0 < orderMatch.matchedAmount.toDecimal ∧
      (∃ o ∈ db.orders.rows, o.id = orderMatch.buyOrderId) ∧
      ∃ o ∈ db.orders.rows, o.id = orderMatch.sellOrderId then
    match db.settlements.insert? settlement, hm : db.orderMatches.insert? orderMatch with
    | some settlements, some orderMatches =>
      some
        { orders := db.orders
          orderMatches := orderMatches
          settlements := settlements
          outbox := db.outbox ++ [event]
          buy_fkey := by
            rw [(KeyedTable.insert?_eq_some hm).2]
            exact List.forall_mem_cons.mpr ⟨h.2.1, db.buy_fkey⟩
          sell_fkey := by
            rw [(KeyedTable.insert?_eq_some hm).2]
            exact List.forall_mem_cons.mpr ⟨h.2.2, db.sell_fkey⟩ }
    | _, _ => none
  else none

def persistMatchedTrade (db : Database) (settlement : Settlement Decimal)
    (orderMatch : OrderMatch Decimal) (matchedEvent : Event) (buyer seller : TradeFill) :
    TradeOutcome :=
  match settlement.store, orderMatch.store with
  | some settlement, some orderMatch =>
    match db.insertTrade settlement orderMatch matchedEvent with
    | none => .failed
    | some db => (db.incrementalFill buyer).bind (incrementalFill · seller)
  | _, _ => .failed

structure Trade where
  settlement : Settlement Decimal
  orderMatch : OrderMatch Decimal
  event : Event
  buyer : TradeFill
  seller : TradeFill

def Trade.oneUnit (id buyOrderId sellOrderId : Uuid) : Trade where
  settlement :=
    { id := id
      tradeId := id
      epochId := 0
      buyerId := buyOrderId
      sellerId := sellOrderId
      buyOrderId := buyOrderId
      sellOrderId := sellOrderId
      energyAmount := 1
      price := 5
      totalAmount := 5
      feeAmount := 0
      netAmount := 5
      wheelingCharge := 0
      lossFactor := 1
      lossCost := 0
      effectiveEnergy := 1
      buyerZoneId := ⊥
      sellerZoneId := ⊥
      status := .pending
      buyerSessionToken := none
      sellerSessionToken := none
      transactionHash := none
      retryCount := 0
      errorMessage := none
      updatedAt := 0 }
  orderMatch := ⟨id, 0, buyOrderId, sellOrderId, 1, 5⟩
  event := .orderMatched id buyOrderId sellOrderId 1 5 ⊥
  buyer := ⟨buyOrderId, some buyOrderId, 1, ⊥⟩
  seller := ⟨sellOrderId, some sellOrderId, 1, ⊥⟩

def matchedTotal (db : Database) (id : Uuid) : Decimal :=
  ((db.orderMatches.rows.filter fun m => m.buyOrderId = id ∨ m.sellOrderId = id).map
    (·.matchedAmount.toDecimal)).sum

def Live (db : Database) (id : Uuid) : Prop :=
  ∃ o ∈ db.orders.rows, o.id = id ∧ o.status.isLive

instance (db : Database) (id : Uuid) : Decidable (db.Live id) :=
  inferInstanceAs (Decidable (∃ o ∈ db.orders.rows, _))

/-- From `db` to `db'` the orders kept their terms, and the order `id` went from a
fill of `x` to a fill of `fill id x`. -/
def Rewrites (db db' : Database) (fill : Uuid → Decimal → Decimal) : Prop :=
  ∃ g : OrderRow → OrderRow, db'.orders.rows = db.orders.rows.map g ∧
    ∀ o ∈ db.orders.rows, o.SameTerms (g o) ∧ (g o).filled = fill o.id o.filled

variable {db db' db'' : Database} {fill fill' : Uuid → Decimal → Decimal}

theorem Rewrites.trans (h : Rewrites db db' fill) (h' : Rewrites db' db'' fill') :
    Rewrites db db'' fun id x => fill' id (fill id x) := by
  obtain ⟨g, hg, hrow⟩ := h
  obtain ⟨g', hg', hrow'⟩ := h'
  refine ⟨g' ∘ g, by rw [hg', hg, List.map_map], fun o ho => ?_⟩
  obtain ⟨hterms, hfill⟩ := hrow o ho
  obtain ⟨hterms', hfill'⟩ := hrow' (g o) (hg ▸ List.mem_map_of_mem ho)
  exact ⟨hterms.trans hterms', by rw [Function.comp_apply, hfill', hterms.id, hfill]⟩

theorem Rewrites.mem (h : Rewrites db db' fill) {o : OrderRow} (ho : o ∈ db.orders.rows) :
    ∃ o' ∈ db'.orders.rows, o.SameTerms o' ∧ o'.filled = fill o.id o.filled := by
  obtain ⟨g, hg, hrow⟩ := h
  exact ⟨g o, hg ▸ List.mem_map_of_mem ho, hrow o ho⟩

theorem Rewrites.exists_of_mem (h : Rewrites db db' fill) {o' : OrderRow}
    (ho : o' ∈ db'.orders.rows) :
    ∃ o ∈ db.orders.rows, o.SameTerms o' ∧ o'.filled = fill o.id o.filled := by
  obtain ⟨g, hg, hrow⟩ := h
  rw [hg] at ho
  obtain ⟨o, ho', rfl⟩ := List.mem_map.mp ho
  exact ⟨o, ho', hrow o ho'⟩

theorem updateOrders_rewrites {f : OrderRow → OrderRow} {hf : ∀ o, (f o).id = o.id}
    {events : List Event}
    (h : ∀ o ∈ db.orders.rows, o.SameTerms (f o) ∧ (f o).filled = fill o.id o.filled) :
    Rewrites db (db.updateOrders f hf events) fill := ⟨f, rfl, h⟩

variable (db) in
theorem setFill_rewrites (id : Uuid) (x : Numeric) (status : OrderStatus) (events : List Event) :
    Rewrites db (db.setFill id x status events) fun i y => if i = id then x.toDecimal else y := by
  apply updateOrders_rewrites
  intro o _
  by_cases hid : o.id = id
  · rw [if_pos hid, if_pos hid]
    exact ⟨⟨rfl, rfl, rfl, rfl, rfl, rfl⟩, rfl⟩
  · rw [if_neg hid, if_neg hid]
    exact ⟨.refl o, rfl⟩

theorem cancelOrder_rewrites (orderId userId : Uuid) :
    Rewrites db (db.cancelOrder orderId userId) fun _ x => x := by
  apply updateOrders_rewrites
  intro o _
  split_ifs
  · exact ⟨⟨rfl, rfl, rfl, rfl, rfl, rfl⟩, rfl⟩
  · exact ⟨.refl o, rfl⟩

theorem setWalletSignature_eq_some {orderId : Uuid} {signature : String}
    (h : db.setWalletSignature orderId signature = some db') :
    db' = db.updateOrders
      (fun o => if o.id = orderId then { o with signature := some signature } else o)
      (fun o => by split_ifs <;> rfl) [] := by
  unfold setWalletSignature at h
  split_ifs at h
  exact (Option.some.inj h).symm

theorem setWalletSignature_rewrites {orderId : Uuid} {signature : String}
    (h : db.setWalletSignature orderId signature = some db') : Rewrites db db' fun _ x => x := by
  obtain rfl := setWalletSignature_eq_some h
  apply updateOrders_rewrites
  intro o _
  split_ifs
  · exact ⟨⟨rfl, rfl, rfl, rfl, rfl, rfl⟩, rfl⟩
  · exact ⟨.refl o, rfl⟩

theorem expireStaleOrders_rewrites {now : ℤ} (h : db.expireStaleOrders now = some db') :
    Rewrites db db' (fun _ x => x) ∧ db'.orderMatches = db.orderMatches := by
  unfold expireStaleOrders at h
  dsimp only at h
  split_ifs at h
  obtain rfl := Option.some.inj h
  refine ⟨updateOrders_rewrites fun o _ => ?_, rfl⟩
  split_ifs
  · exact ⟨⟨rfl, rfl, rfl, rfl, rfl, rfl⟩, rfl⟩
  · exact ⟨.refl o, rfl⟩

theorem insertOrder_eq_some {order : OrderRow} (h : db.insertOrder order = some db') :
    db'.orders.rows =
        { order with filledAmount := some Numeric.zero, signature := none } :: db.orders.rows ∧
      (∀ o ∈ db.orders.rows, o.id ≠ order.id) ∧ db'.orderMatches = db.orderMatches ∧
      0 < order.energy ∧ 0 < order.pricePerKwh.toDecimal := by
  unfold insertOrder at h
  split_ifs at h with hcheck
  split at h
  · cases h
  next orders hins =>
    obtain rfl := Option.some.inj h
    obtain ⟨hfresh, hrows⟩ := KeyedTable.insert?_eq_some hins
    exact ⟨hrows, hfresh, rfl, hcheck⟩

def Extends (db db' : Database) : Prop :=
  ∀ o ∈ db.orders.rows, ∃ o' ∈ db'.orders.rows, o.SameTerms o'

theorem Extends.refl : Extends db db := fun o ho => ⟨o, ho, .refl o⟩

theorem Rewrites.extends (h : Rewrites db db' fill) : Extends db db' := by
  intro o ho
  obtain ⟨o', ho', hterms, _⟩ := h.mem ho
  exact ⟨o', ho', hterms⟩

/-- From `db` to `db'` no order lost its terms or its fill. Orders may have come in,
unfilled. -/
structure Keeps (db db' : Database) : Prop where
  mem : ∀ o ∈ db.orders.rows, ∃ o' ∈ db'.orders.rows, o.SameTerms o' ∧ o'.filled = o.filled
  exists_of_mem : ∀ o' ∈ db'.orders.rows,
    (∃ o ∈ db.orders.rows, o.SameTerms o' ∧ o'.filled = o.filled) ∨
      (o'.filled = 0 ∧ 0 < o'.energy ∧ ∀ o ∈ db.orders.rows, o.id ≠ o'.id)
  orderMatches : db'.orderMatches = db.orderMatches

theorem Keeps.extends (h : Keeps db db') : Extends db db' := by
  intro o ho
  obtain ⟨o', ho', hterms, _⟩ := h.mem o ho
  exact ⟨o', ho', hterms⟩

theorem Rewrites.keeps (h : Rewrites db db' fun _ x => x) (hm : db'.orderMatches = db.orderMatches) :
    Keeps db db' where
  mem _ ho := h.mem ho
  exists_of_mem _ ho := .inl (h.exists_of_mem ho)
  orderMatches := hm

theorem exec_keeps {st : Statement} (h : db.exec st = some db') : Keeps db db' := by
  cases st with
  | insertOrder order =>
    obtain ⟨hrows, hfresh, hm, hpos, _⟩ := insertOrder_eq_some h
    refine ⟨fun o ho => ⟨o, hrows ▸ List.mem_cons_of_mem _ ho, .refl o, rfl⟩, fun o ho => ?_, hm⟩
    rw [hrows] at ho
    rcases List.mem_cons.mp ho with rfl | ho
    · exact .inr ⟨Numeric.toDecimal_zero, hpos, hfresh⟩
    · exact .inl ⟨o, ho, .refl o, rfl⟩
  | setWalletSignature orderId signature =>
    have hrw := setWalletSignature_rewrites h
    obtain rfl := setWalletSignature_eq_some h
    exact hrw.keeps rfl
  | cancelOrder orderId userId =>
    obtain rfl := Option.some.inj h
    exact (cancelOrder_rewrites orderId userId).keeps rfl
  | expireStaleOrders now =>
    obtain ⟨hrw, hm⟩ := expireStaleOrders_rewrites h
    exact hrw.keeps hm
  | reorder rows =>
    simp only [exec] at h
    split_ifs at h with hperm
    obtain rfl := Option.some.inj h
    exact ⟨fun o ho => ⟨o, hperm.symm.subset ho, .refl o, rfl⟩,
      fun o ho => .inl ⟨o, hperm.subset ho, .refl o, rfl⟩, rfl⟩

structure Fills (db db' : Database) (orderId : Uuid) (amount : Decimal) : Prop where
  live : db.Live orderId
  fill : Rewrites db db' fun i x => if i = orderId then x + amount else x
  live_of_ne : ∀ i, i ≠ orderId → db'.Live i → db.Live i
  orderMatches : db'.orderMatches = db.orderMatches

theorem setFill_live_of_ne {id : Uuid} {x : Numeric} {status : OrderStatus} {events : List Event}
    {i : Uuid} (hne : i ≠ id) (h : (db.setFill id x status events).Live i) : db.Live i := by
  obtain ⟨o', ho', hid, hlive⟩ := h
  obtain ⟨o, ho, rfl⟩ := List.mem_map.mp ho'
  by_cases heq : o.id = id
  · rw [if_pos heq] at hid
    exact absurd (hid.symm.trans heq) hne
  · rw [if_neg heq] at hid hlive
    exact ⟨o, ho, hid, hlive⟩

/-- A committed fill has found its order live and rewritten it. -/
theorem setFill_of_incrementalFill {side : TradeFill} (h : db.incrementalFill side = .committed db') :
    ∃ row ∈ db.orders.rows, row.id = side.orderId ∧ row.status.isLive ∧
      ∃ filled, Numeric.store (row.filled + side.delta) = some filled ∧
        let status := if row.energy ≤ row.filled + side.delta then OrderStatus.filled
          else .partiallyFilled
        db' = db.setFill side.orderId filled status
          [.orderUpdate side.orderId side.userId filled.toDecimal status side.zoneId] := by
  unfold incrementalFill at h
  split at h
  · cases h
  next row hrow =>
    obtain ⟨hmem, hid⟩ := KeyedTable.find?_eq_some.mp hrow
    split at h
    next hlive =>
      split at h
      · cases h
      next filled hstore =>
        cases h
        exact ⟨row, hmem, hid, hlive, filled, hstore, rfl⟩
    · cases h

theorem incrementalFill_committed {side : TradeFill} (hdelta : side.delta ∈ Numeric.grid)
    (h : db.incrementalFill side = .committed db') : Fills db db' side.orderId side.delta := by
  obtain ⟨row, hmem, hid, hlive, filled, hstore, rfl⟩ := setFill_of_incrementalFill h
  have hexact := Numeric.toDecimal_of_store hstore (Numeric.grid.add_mem row.filled_mem_grid hdelta)
  refine ⟨⟨row, hmem, hid, hlive⟩, updateOrders_rewrites fun o ho => ?_,
    fun i hne => setFill_live_of_ne hne, rfl⟩
  by_cases ho' : o.id = side.orderId
  · obtain rfl := KeyedTable.row_unique ho hmem (ho'.trans hid.symm)
    rw [if_pos ho', if_pos ho']
    exact ⟨⟨rfl, rfl, rfl, rfl, rfl, rfl⟩, hexact⟩
  · rw [if_neg ho', if_neg ho']
    exact ⟨.refl o, rfl⟩

structure Inserts (db db' : Database) (settlement : Settlement Numeric)
    (orderMatch : OrderMatch Numeric) (event : Event) : Prop where
  orders : db'.orders = db.orders
  fresh : ∀ s ∈ db.settlements.rows, s.id ≠ settlement.id
  settlements : db'.settlements.rows = settlement :: db.settlements.rows
  orderMatches : db'.orderMatches.rows = orderMatch :: db.orderMatches.rows
  outbox : db'.outbox = db.outbox ++ [event]

theorem inserts_of_insertTrade {settlement : Settlement Numeric} {orderMatch : OrderMatch Numeric}
    {event : Event} (h : db.insertTrade settlement orderMatch event = some db') :
    Inserts db db' settlement orderMatch event := by
  unfold insertTrade at h
  split_ifs at h
  split at h
  next hsettlement hmatch =>
    obtain rfl := Option.some.inj h
    obtain ⟨hfresh, hrows⟩ := KeyedTable.insert?_eq_some hsettlement
    exact ⟨rfl, hfresh, hrows, (KeyedTable.insert?_eq_some hmatch).2, rfl⟩
  · cases h

theorem statements_of_persistMatchedTrade {settlement : Settlement Decimal}
    {orderMatch : OrderMatch Decimal} {event : Event} {buyer seller : TradeFill}
    (h : db.persistMatchedTrade settlement orderMatch event buyer seller = .committed db') :
    ∃ row ledgerRow db₁ db₂, settlement.store = some row ∧ orderMatch.store = some ledgerRow ∧
      Inserts db db₁ row ledgerRow event ∧ db₁.incrementalFill buyer = .committed db₂ ∧
      db₂.incrementalFill seller = .committed db' := by
  unfold persistMatchedTrade at h
  split at h
  next row ledgerRow hrow hledgerRow =>
    split at h
    · cases h
    next db₁ hinsert =>
      cases hfill : db₁.incrementalFill buyer with
      | refused => simp [hfill, TradeOutcome.bind] at h
      | failed => simp [hfill, TradeOutcome.bind] at h
      | committed db₂ =>
        rw [hfill] at h
        exact ⟨row, ledgerRow, db₁, db₂, hrow, hledgerRow, inserts_of_insertTrade hinsert, hfill, h⟩
  · cases h

theorem incrementalFill_event {side : TradeFill} (h : db.incrementalFill side = .committed db') :
    db'.settlements = db.settlements ∧ db'.orderMatches = db.orderMatches ∧
      ∃ filled status, db'.outbox =
        db.outbox ++ [.orderUpdate side.orderId side.userId filled status side.zoneId] := by
  obtain ⟨_, _, _, _, filled, _, rfl⟩ := setFill_of_incrementalFill h
  exact ⟨rfl, rfl, _, _, rfl⟩

structure TradeRows (db db' : Database) (settlement : Settlement Numeric)
    (orderMatch : OrderMatch Numeric) (event : Event) (buyer seller : TradeFill) : Prop where
  fresh : ∀ s ∈ db.settlements.rows, s.id ≠ settlement.id
  settlements : db'.settlements.rows = settlement :: db.settlements.rows
  orderMatches : db'.orderMatches.rows = orderMatch :: db.orderMatches.rows
  outbox : ∃ filled status filled' status', db'.outbox = db.outbox ++
    [event, .orderUpdate buyer.orderId buyer.userId filled status buyer.zoneId,
      .orderUpdate seller.orderId seller.userId filled' status' seller.zoneId]

theorem persistMatchedTrade_rows {settlement : Settlement Decimal} {orderMatch : OrderMatch Decimal}
    {event : Event} {buyer seller : TradeFill}
    (h : db.persistMatchedTrade settlement orderMatch event buyer seller = .committed db') :
    ∃ row ledgerRow, settlement.store = some row ∧ orderMatch.store = some ledgerRow ∧
      TradeRows db db' row ledgerRow event buyer seller := by
  obtain ⟨row, ledgerRow, db₁, db₂, hrow, hledgerRow, hins, hfill, hfill'⟩ :=
    statements_of_persistMatchedTrade h
  obtain ⟨hbs, hbm, filled, status, hb⟩ := incrementalFill_event hfill
  obtain ⟨hss, hsm, filled', status', hs⟩ := incrementalFill_event hfill'
  exact ⟨row, ledgerRow, hrow, hledgerRow,
    { fresh := hins.fresh
      settlements := by rw [hss, hbs, hins.settlements]
      orderMatches := by rw [hsm, hbm, hins.orderMatches]
      outbox := ⟨filled, status, filled', status', by
        rw [hs, hb, hins.outbox, List.append_assoc, List.append_assoc]; rfl⟩ }⟩

structure Trades (db db' : Database) (buyOrderId sellOrderId : Uuid) (amount : Decimal) : Prop where
  fills : Rewrites db db' fun i x =>
    if i = sellOrderId then (if i = buyOrderId then x + amount else x) + amount
    else if i = buyOrderId then x + amount else x
  matched : ∃ m : OrderMatch Numeric, db'.orderMatches.rows = m :: db.orderMatches.rows ∧
    m.buyOrderId = buyOrderId ∧ m.sellOrderId = sellOrderId ∧ m.matchedAmount.toDecimal = amount
  buy_live : db.Live buyOrderId
  sell_live : sellOrderId ≠ buyOrderId → db.Live sellOrderId

theorem Trades.fills_of_ne {buyOrderId sellOrderId : Uuid} {amount : Decimal}
    (h : Trades db db' buyOrderId sellOrderId amount) (hne : buyOrderId ≠ sellOrderId) :
    Rewrites db db' fun i x => x + if buyOrderId = i ∨ sellOrderId = i then amount else 0 := by
  convert h.fills using 3 with i x
  by_cases hs : i = sellOrderId
  · subst hs
    simp [hne.symm]
  · by_cases hb : i = buyOrderId
    · subst hb
      simp [hne]
    · simp [hs, hb, Ne.symm hs, Ne.symm hb]

theorem matchedTotal_congr (h : db'.orderMatches = db.orderMatches) (id : Uuid) :
    db'.matchedTotal id = db.matchedTotal id := by
  unfold matchedTotal
  rw [h]

theorem Trades.matchedTotal {buyOrderId sellOrderId : Uuid} {amount : Decimal}
    (h : Trades db db' buyOrderId sellOrderId amount) (id : Uuid) :
    db'.matchedTotal id =
      db.matchedTotal id + if buyOrderId = id ∨ sellOrderId = id then amount else 0 := by
  obtain ⟨m, hrows, rfl, rfl, rfl⟩ := h.matched
  simp only [Database.matchedTotal, hrows, List.filter_cons, decide_eq_true_eq]
  split_ifs with hnamed
  · rw [List.map_cons, List.sum_cons, add_comm]
  · rw [add_zero]

/-- The foreign keys leave no match to an order that is not there. -/
theorem matchedTotal_of_fresh {id : Uuid} (h : ∀ o ∈ db.orders.rows, o.id ≠ id) :
    db.matchedTotal id = 0 := by
  have hnone : db.orderMatches.rows.filter (fun m => m.buyOrderId = id ∨ m.sellOrderId = id) = [] := by
    apply List.filter_eq_nil_iff.mpr
    intro m hm hnamed
    rcases of_decide_eq_true hnamed with hid | hid
    · obtain ⟨o, ho, hoid⟩ := db.buy_fkey m hm
      exact h o ho (hoid.trans hid)
    · obtain ⟨o, ho, hoid⟩ := db.sell_fkey m hm
      exact h o ho (hoid.trans hid)
  rw [matchedTotal, hnone, List.map_nil, List.sum_nil]

theorem persistMatchedTrade_committed {settlement : Settlement Decimal}
    {orderMatch : OrderMatch Decimal} {event : Event} {buyer seller : TradeFill}
    (hmem : orderMatch.matchedAmount ∈ Numeric.grid)
    (hbuy : buyer.orderId = orderMatch.buyOrderId ∧ buyer.delta = orderMatch.matchedAmount)
    (hsell : seller.orderId = orderMatch.sellOrderId ∧ seller.delta = orderMatch.matchedAmount)
    (h : db.persistMatchedTrade settlement orderMatch event buyer seller = .committed db') :
    Trades db db' orderMatch.buyOrderId orderMatch.sellOrderId orderMatch.matchedAmount := by
  obtain ⟨_, m, db₁, db₂, _, hm, hins, hfill, hfill'⟩ := statements_of_persistMatchedTrade h
  obtain ⟨_, hmb, hms, hma⟩ := OrderMatch.store_eq_some hm
  have hb := incrementalFill_committed (hbuy.2 ▸ hmem) hfill
  have hs := incrementalFill_committed (hsell.2 ▸ hmem) hfill'
  rw [hbuy.1, hbuy.2] at hb
  rw [hsell.1, hsell.2] at hs
  have hstart : Rewrites db db₁ fun _ x => x :=
    ⟨id, by rw [hins.orders, List.map_id], fun o _ => ⟨.refl o, rfl⟩⟩
  have hlive : ∀ i, db₁.Live i → db.Live i := by
    unfold Live
    rw [hins.orders]
    exact fun _ h => h
  exact
    { fills := (hstart.trans hb.fill).trans hs.fill
      matched := ⟨m, by rw [hs.orderMatches, hb.orderMatches, hins.orderMatches], hmb, hms,
        Numeric.toDecimal_of_store hma hmem⟩
      buy_live := hlive _ hb.live
      sell_live := fun hne => hlive _ (hb.live_of_ne _ hne hs.live) }

/-- The absolute write finds its order live and rewrites it, or changes nothing. -/
theorem setFill_of_updateFilledAmount {orderId : Uuid} {filledAmount : Decimal}
    {status : OrderStatus} {event : Event}
    (h : db.updateFilledAmountWithEvent orderId filledAmount status event = some db') :
    (db' = db ∧ ¬db.Live orderId) ∨
      ∃ row ∈ db.orders.rows, row.id = orderId ∧ row.status.isLive ∧
        ∃ filled, Numeric.store filledAmount = some filled ∧
          db' = db.setFill orderId filled status [event] := by
  unfold updateFilledAmountWithEvent at h
  split at h
  next hrow =>
    exact .inl ⟨(Option.some.inj h).symm,
      fun ⟨o, ho, hid, _⟩ => KeyedTable.find?_eq_none.mp hrow o ho hid⟩
  next row hrow =>
    obtain ⟨hmem, hid⟩ := KeyedTable.find?_eq_some.mp hrow
    split_ifs at h with hlive
    · obtain ⟨filled, hstore, rfl⟩ := Option.map_eq_some_iff.mp h
      exact .inr ⟨row, hmem, hid, hlive, filled, hstore, rfl⟩
    · refine .inl ⟨(Option.some.inj h).symm, fun ⟨o, ho, hid', hlive'⟩ => ?_⟩
      obtain rfl := KeyedTable.row_unique ho hmem (hid'.trans hid.symm)
      exact hlive hlive'

theorem updateFilledAmountWithEvent_eq_some {orderId : Uuid} {filledAmount : Decimal}
    {status : OrderStatus} {event : Event} (hmem : filledAmount ∈ Numeric.grid)
    (h : db.updateFilledAmountWithEvent orderId filledAmount status event = some db') :
    (db' = db ∧ ¬db.Live orderId) ∨
      (db.Live orderId ∧ Rewrites db db' (fun i x => if i = orderId then filledAmount else x) ∧
        db'.orderMatches = db.orderMatches) := by
  rcases setFill_of_updateFilledAmount h with hsame | ⟨row, hrow, hid, hlive, x, hx, rfl⟩
  · exact .inl hsame
  · have hset := setFill_rewrites db orderId x status [event]
    rw [Numeric.toDecimal_of_store hx hmem] at hset
    exact .inr ⟨⟨row, hrow, hid, hlive⟩, hset, rfl⟩

end Database

end TradingService
