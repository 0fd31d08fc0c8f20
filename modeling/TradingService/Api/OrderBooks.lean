import TradingService.Lib.Tally
import TradingService.Settlement.Expiry

/-!
# The books that are shown

The remaining energy of the active orders, summed up by side and price. A book is exactly
what the rows add to its levels, the books of the zones add up to the book across zones,
and a committed trade takes from the two levels that it names what was left of it there.
-/

namespace TradingService

open OrderedMap (tally)

/-- `[price, amount]`, which the service writes as two texts. -/
abbrev PriceLevel := Decimal × Decimal

structure P2POrderBookResponse where
  asks : List PriceLevel
  bids : List PriceLevel

structure OrderBookResponse extends P2POrderBookResponse where
  zoneId : I32
  lastUpdateId : U64

def aggregateLevels (entries : List OrderBookEntry) :
    OrderedMap Decimal Decimal × OrderedMap Decimal Decimal :=
  entries.foldl
    (fun books e => match e.side with
      | .buy => (books.1.addAt e.pricePerKwh e.energyAmount, books.2)
      | .sell => (books.1, books.2.addAt e.pricePerKwh e.energyAmount))
    (∅, ∅)

def buildP2pOrderbook (entries : List OrderBookEntry) : P2POrderBookResponse where
  asks := (aggregateLevels entries).2.toList
  bids := (aggregateLevels entries).1.toList.reverse

def Database.getP2pOrderbook (db : Database) (now : ℤ) : P2POrderBookResponse :=
  buildP2pOrderbook (db.getAllActiveOrders now)

/-- `currentSeq` is the sequence of the zone's socket, which the book has no part in. -/
def Database.getOrderBook (db : Database) (zoneId : I32) (currentSeq : U64) (now : ℤ) :
    OrderBookResponse where
  toP2POrderBookResponse := buildP2pOrderbook (db.getActiveOrdersByZone zoneId now)
  zoneId := zoneId
  lastUpdateId := currentSeq

def P2POrderBookResponse.levels (book : P2POrderBookResponse) : OrderSide → List PriceLevel
  | .buy => book.bids
  | .sell => book.asks

namespace OrderRow

def restsAt (now : ℤ) (side : OrderSide) (price : Decimal) (o : OrderRow) : Prop :=
  o.status.isLive ∧ o.inBook now ∧ o.side = side ∧ o.pricePerKwh.toDecimal = price

instance (now : ℤ) (side : OrderSide) (price : Decimal) (o : OrderRow) :
    Decidable (o.restsAt now side price) :=
  inferInstanceAs (Decidable (_ ∧ _))

def depth (now : ℤ) (side : OrderSide) (price : Decimal) (o : OrderRow) : Decimal :=
  if o.restsAt now side price then o.energy - o.filled else 0

end OrderRow

/-- The energy that the rows have left at a level. -/
def restingDepth (rows : List OrderRow) (now : ℤ) (side : OrderSide) (price : Decimal) : Decimal :=
  (rows.map (·.depth now side price)).sum

/-- The book shows the rows: its levels are in the order of a trader's interest, a level is
listed exactly if some order stands on it, and its amount is what the orders have left. -/
structure P2POrderBookResponse.Shows (book : P2POrderBookResponse) (rows : List OrderRow) (now : ℤ) :
    Prop where
  bids_descend : book.bids.Pairwise fun l l' => l'.1 < l.1
  asks_ascend : book.asks.Pairwise fun l l' => l.1 < l'.1
  levels : ∀ side price amount, (price, amount) ∈ book.levels side ↔
    (∃ o ∈ rows, o.restsAt now side price) ∧ amount = restingDepth rows now side price

section Levels

theorem aggregateLevels_eq (entries : List OrderBookEntry) :
    aggregateLevels entries =
      (tally (·.pricePerKwh) (·.energyAmount) (entries.filter (·.side = .buy)),
        tally (·.pricePerKwh) (·.energyAmount) (entries.filter (·.side = .sell))) := by
  suffices hfold : ∀ (entries : List OrderBookEntry) (books : OrderedMap Decimal Decimal × OrderedMap Decimal Decimal),
      entries.foldl
        (fun books e => match e.side with
          | .buy => (books.1.addAt e.pricePerKwh e.energyAmount, books.2)
          | .sell => (books.1, books.2.addAt e.pricePerKwh e.energyAmount)) books =
        ((entries.filter (·.side = .buy)).foldl (fun m e => m.addAt e.pricePerKwh e.energyAmount) books.1,
          (entries.filter (·.side = .sell)).foldl (fun m e => m.addAt e.pricePerKwh e.energyAmount) books.2) by
    exact hfold entries (∅, ∅)
  intro entries
  induction entries with
  | nil => intro books; rfl
  | cons e entries ih =>
    intro books
    rw [List.foldl_cons, ih]
    cases hside : e.side <;> simp [hside]

def bookEntries (rows : List OrderRow) (now : ℤ) : List OrderBookEntry :=
  ((rows.filter fun o => o.status.isLive).filter (·.inBook now)).map (·.bookEntry now)

theorem getActiveOrdersByZone_eq (db : Database) (zoneId : I32) (now : ℤ) :
    db.getActiveOrdersByZone zoneId now =
      bookEntries (db.orders.rows.filter fun o => o.zoneId = (zoneId : ZoneId)) now := by
  have hrows : db.orders.rows.filter (fun o => o.zoneId = (zoneId : ZoneId) ∧ o.status.isLive) =
      (db.orders.rows.filter fun o => o.zoneId = (zoneId : ZoneId)).filter fun o => o.status.isLive := by
    rw [List.filter_filter]
    apply List.filter_congr
    intro o _
    rw [Bool.decide_and, Bool.and_comm, Bool.decide_eq_true]
  rw [Database.getActiveOrdersByZone, hrows, bookEntries]

theorem exists_bookEntries {rows : List OrderRow} {now : ℤ} {side : OrderSide} {price : Decimal} :
    (∃ e ∈ (bookEntries rows now).filter (·.side = side), e.pricePerKwh = price) ↔
      ∃ o ∈ rows, o.restsAt now side price := by
  simp only [bookEntries, List.mem_filter, List.mem_map, decide_eq_true_eq]
  constructor
  · rintro ⟨_, ⟨⟨o, ⟨⟨ho, hlive⟩, hbook⟩, rfl⟩, hside⟩, hprice⟩
    exact ⟨o, ho, hlive, hbook, hside, hprice⟩
  · rintro ⟨o, ho, hlive, hbook, hside, hprice⟩
    exact ⟨o.bookEntry now, ⟨⟨o, ⟨⟨ho, hlive⟩, hbook⟩, rfl⟩, hside⟩, hprice⟩

theorem sum_bookEntries (rows : List OrderRow) (now : ℤ) (side : OrderSide) (price : Decimal) :
    ((((bookEntries rows now).filter (·.side = side)).filter fun e => e.pricePerKwh = price).map
      (·.energyAmount)).sum = restingDepth rows now side price := by
  unfold restingDepth
  induction rows with
  | nil => rfl
  | cons o rows ih =>
    rw [List.map_cons, List.sum_cons, ← ih]
    by_cases hrests : o.restsAt now side price
    · obtain ⟨hlive, hbook, hside, hprice⟩ := id hrests
      simp [bookEntries, OrderRow.depth, hrests, hlive, hbook, hside, hprice, OrderRow.bookEntry]
    · rw [OrderRow.depth, if_neg hrests, zero_add]
      by_cases hlive : o.status.isLive
      · by_cases hbook : o.inBook now
        · by_cases hside : o.side = side
          · have hprice : o.pricePerKwh.toDecimal ≠ price :=
              fun hprice => hrests ⟨hlive, hbook, hside, hprice⟩
            simp [bookEntries, hlive, hbook, hside, hprice, OrderRow.bookEntry]
          · simp [bookEntries, hlive, hbook, hside, OrderRow.bookEntry]
        · simp [bookEntries, hlive, hbook]
      · simp [bookEntries, hlive]

theorem levels_buildP2pOrderbook (entries : List OrderBookEntry) (side : OrderSide) (level : PriceLevel) :
    level ∈ (buildP2pOrderbook entries).levels side ↔
      level ∈ (tally (·.pricePerKwh) (·.energyAmount) (entries.filter (·.side = side))).toList := by
  cases side with
  | buy =>
    unfold P2POrderBookResponse.levels buildP2pOrderbook
    rw [aggregateLevels_eq, List.mem_reverse]
  | sell =>
    unfold P2POrderBookResponse.levels buildP2pOrderbook
    rw [aggregateLevels_eq]

theorem shows_bookEntries (rows : List OrderRow) (now : ℤ) :
    (buildP2pOrderbook (bookEntries rows now)).Shows rows now where
  bids_descend := List.pairwise_reverse.mpr (aggregateLevels _).1.sorted
  asks_ascend := (aggregateLevels _).2.sorted
  levels side price amount := by
    rw [levels_buildP2pOrderbook, OrderedMap.mem_tally, exists_bookEntries, sum_bookEntries]

theorem buildP2pOrderbook_perm {rows rows' : List OrderRow} (h : rows.Perm rows') (now : ℤ) :
    buildP2pOrderbook (bookEntries rows now) = buildP2pOrderbook (bookEntries rows' now) := by
  have hentries : (bookEntries rows now).Perm (bookEntries rows' now) := ((h.filter _).filter _).map _
  have hlevels : aggregateLevels (bookEntries rows now) = aggregateLevels (bookEntries rows' now) := by
    rw [aggregateLevels_eq, aggregateLevels_eq, OrderedMap.tally_perm (hentries.filter _),
      OrderedMap.tally_perm (hentries.filter (·.side = .sell))]
  unfold buildP2pOrderbook
  rw [hlevels]

theorem getOrderBook_eq (db : Database) (zoneId : I32) (currentSeq : U64) (now : ℤ) :
    db.getOrderBook zoneId currentSeq now =
      ⟨buildP2pOrderbook (bookEntries (db.orders.rows.filter fun o => o.zoneId = (zoneId : ZoneId)) now),
        zoneId, currentSeq⟩ := by
  unfold Database.getOrderBook
  rw [getActiveOrdersByZone_eq]

end Levels

section Depth

variable {now : ℤ} {side : OrderSide} {price : Decimal}

theorem restingDepth_cons (o : OrderRow) (rows : List OrderRow) :
    restingDepth (o :: rows) now side price = o.depth now side price + restingDepth rows now side price := by
  rw [restingDepth, List.map_cons, List.sum_cons]
  rfl

theorem restingDepth_filter (rows : List OrderRow) (p : OrderRow → Bool) :
    restingDepth (rows.filter p) now side price =
      (rows.map fun o => if p o then o.depth now side price else 0).sum := by
  induction rows with
  | nil => rfl
  | cons o rows ih =>
    by_cases hp : p o
    · rw [List.filter_cons_of_pos hp, restingDepth_cons, ih, List.map_cons, List.sum_cons, if_pos hp]
    · rw [List.filter_cons_of_neg hp, ih, List.map_cons, List.sum_cons, if_neg hp, zero_add]

theorem OrderRow.depth_of_not_isLive {o : OrderRow} (h : ¬o.status.isLive) : o.depth now side price = 0 :=
  if_neg fun hrests => h hrests.1

theorem restingDepth_zones (rows : List OrderRow) (zones : Finset I32)
    (hzones : ∀ o ∈ rows, o.status.isLive → ∀ zoneId : I32, o.zoneId = zoneId → zoneId ∈ zones) :
    restingDepth rows now side price =
      restingDepth (rows.filter fun o => o.zoneId = ⊥) now side price +
        ∑ zoneId ∈ zones, restingDepth (rows.filter fun o => o.zoneId = (zoneId : ZoneId)) now side price := by
  induction rows with
  | nil => simp [restingDepth]
  | cons o rows ih =>
    have hih := ih fun o' ho' => hzones o' (List.mem_cons_of_mem _ ho')
    have hcons : ∀ zone : ZoneId,
        restingDepth ((o :: rows).filter fun o' => o'.zoneId = zone) now side price =
          (if o.zoneId = zone then o.depth now side price else 0) +
            restingDepth (rows.filter fun o' => o'.zoneId = zone) now side price := by
      intro zone
      by_cases hzone : o.zoneId = zone
      · rw [if_pos hzone, List.filter_cons_of_pos (by simpa using hzone), restingDepth_cons]
      · rw [if_neg hzone, List.filter_cons_of_neg (by simpa using hzone), zero_add]
    have hone : o.depth now side price = (if o.zoneId = ⊥ then o.depth now side price else 0) +
        ∑ zoneId ∈ zones, if o.zoneId = (zoneId : ZoneId) then o.depth now side price else 0 := by
      by_cases hlive : o.status.isLive
      · cases hzone : o.zoneId using WithBot.recBotCoe with
        | bot => simp
        | coe zoneId =>
          have hmem : zoneId ∈ zones := hzones o List.mem_cons_self hlive zoneId hzone
          simp [hmem]
      · simp [OrderRow.depth_of_not_isLive hlive]
    simp only [hcons, Finset.sum_add_distrib]
    rw [restingDepth_cons, hih]
    linarith

end Depth

/-- Both books show their rows at every moment, in whatever order the rows are read, and the
books of the zones add up to the book across zones. -/
theorem Database.orderBooks_show (db : Database) (now : ℤ) :
    (db.getP2pOrderbook now).Shows db.orders.rows now ∧
      (∀ zoneId currentSeq, (db.getOrderBook zoneId currentSeq now).Shows
        (db.orders.rows.filter fun o => o.zoneId = (zoneId : ZoneId)) now) ∧
      (∀ rows (h : rows.Perm db.orders.rows),
        (db.reorder rows h).getP2pOrderbook now = db.getP2pOrderbook now ∧
          ∀ zoneId currentSeq, (db.reorder rows h).getOrderBook zoneId currentSeq now =
            db.getOrderBook zoneId currentSeq now) ∧
      ∀ zones : Finset I32,
        (∀ o ∈ db.orders.rows, o.status.isLive → ∀ zoneId : I32, o.zoneId = zoneId → zoneId ∈ zones) →
        ∀ side price, restingDepth db.orders.rows now side price =
          restingDepth (db.orders.rows.filter fun o => o.zoneId = ⊥) now side price +
            ∑ zoneId ∈ zones,
              restingDepth (db.orders.rows.filter fun o => o.zoneId = (zoneId : ZoneId)) now side price := by
  constructor
  · exact shows_bookEntries db.orders.rows now
  constructor
  · intro zoneId currentSeq
    rw [getOrderBook_eq]
    exact shows_bookEntries _ now
  constructor
  · intro rows h
    refine ⟨buildP2pOrderbook_perm h now, fun zoneId currentSeq => ?_⟩
    have hzone : (rows.filter fun o => o.zoneId = (zoneId : ZoneId)).Perm
        (db.orders.rows.filter fun o => o.zoneId = (zoneId : ZoneId)) := h.filter _
    rw [getOrderBook_eq, getOrderBook_eq, ← buildP2pOrderbook_perm hzone]
    rfl
  · intro zones hzones side price
    exact restingDepth_zones db.orders.rows zones hzones

/-- What a fill of `delta` takes from the level: all that the row has left, at most. -/
def OrderRow.taken (now : ℤ) (side : OrderSide) (price delta : Decimal) (o : OrderRow) : Decimal :=
  if o.restsAt now side price then min delta (o.energy - o.filled) else 0

/-- Rewriting one row of a table changes a sum over the rows by that row's share. -/
theorem KeyedTable.sum_map_rewrite {K V M : Type*} [DecidableEq K] [AddCommGroup M] {key : V → K}
    {t : KeyedTable key} {f : V → V} {v : V} (hv : v ∈ t.rows) (φ : V → M) :
    ((t.rows.map fun w => if key w = key v then f w else w).map φ).sum =
      (t.rows.map φ).sum - φ v + φ (f v) := by
  suffices hlist : ∀ l : List V, (l.map key).Nodup → v ∈ l →
      ((l.map fun w => if key w = key v then f w else w).map φ).sum = (l.map φ).sum - φ v + φ (f v) by
    exact hlist t.rows t.keys_nodup hv
  intro l
  induction l with
  | nil => intro _ hmem; cases hmem
  | cons w l ih =>
    intro hnodup hmem
    obtain ⟨hw, hl⟩ := List.nodup_cons.mp hnodup
    rw [List.map_cons, List.map_cons, List.sum_cons, List.map_cons, List.sum_cons]
    rcases List.mem_cons.mp hmem with rfl | hmem
    · have hrest : l.map (fun w => if key w = key v then f w else w) = l := by
        conv_rhs => rw [← List.map_id l]
        apply List.map_congr_left
        intro w hwl
        have hne : key w ≠ key v := fun heq => hw (heq ▸ List.mem_map_of_mem hwl)
        exact if_neg hne
      rw [hrest, if_pos rfl]
      abel
    · have hne : key w ≠ key v := fun heq => hw (heq ▸ List.mem_map_of_mem hmem)
      rw [if_neg hne, ih hl hmem]
      abel

section Fills

variable {db db' : Database} {now : ℤ} {side : OrderSide} {price : Decimal}

def OrderRow.withFill (filled : Numeric) (status : OrderStatus) (o : OrderRow) : OrderRow :=
  { o with filledAmount := some filled, status := status }

@[simp] theorem OrderRow.zoneId_withFill (filled : Numeric) (status : OrderStatus) (o : OrderRow) :
    (o.withFill filled status).zoneId = o.zoneId := rfl

theorem OrderRow.depth_withFill {row : OrderRow} (hlive : row.status.isLive) {delta : Decimal} {filled : Numeric}
    (hexact : filled.toDecimal = row.filled + delta) :
    (row.withFill filled
        (if row.energy ≤ row.filled + delta then .filled else .partiallyFilled)).depth now side price =
      row.depth now side price - row.taken now side price delta := by
  by_cases hrests : row.restsAt now side price
  · rw [OrderRow.depth, OrderRow.depth, if_pos hrests, OrderRow.taken, if_pos hrests]
    by_cases hfull : row.energy ≤ row.filled + delta
    · have hmin : min delta (row.energy - row.filled) = row.energy - row.filled := min_eq_right (by linarith)
      rw [hmin, sub_self]
      apply if_neg
      rintro ⟨hstill, _⟩
      simp [hfull, OrderRow.withFill, OrderStatus.isLive] at hstill
    · have hmin : min delta (row.energy - row.filled) = delta := min_eq_left (by linarith)
      have hopen : (row.withFill filled
          (if row.energy ≤ row.filled + delta then .filled else .partiallyFilled)).restsAt now side price :=
        ⟨by simp [hfull, OrderRow.withFill, OrderStatus.isLive], hrests.2⟩
      rw [hmin, if_pos hopen]
      show row.energy - filled.toDecimal = _
      rw [hexact]
      ring
  · rw [OrderRow.depth, OrderRow.depth, if_neg hrests, OrderRow.taken, if_neg hrests, sub_zero]
    apply if_neg
    rintro ⟨_, hplace⟩
    exact hrests ⟨hlive, hplace⟩

/-- A committed fill takes from the level of its order, and from no other. -/
theorem Database.restingDepth_incrementalFill {fill : TradeFill} (hdelta : fill.delta ∈ Numeric.grid)
    (h : db.incrementalFill fill = .committed db') {row : OrderRow} (hrow : row ∈ db.orders.rows)
    (hid : row.id = fill.orderId) (scope : ZoneId → Bool) :
    restingDepth (db'.orders.rows.filter (scope ·.zoneId)) now side price =
      restingDepth (db.orders.rows.filter (scope ·.zoneId)) now side price -
        if scope row.zoneId then row.taken now side price fill.delta else 0 := by
  obtain ⟨row', hrow', hid', hlive, filled, hstore, rfl⟩ := setFill_of_incrementalFill h
  obtain rfl := KeyedTable.row_unique hrow hrow' (hid.trans hid'.symm)
  have hexact := Numeric.toDecimal_of_store hstore (Numeric.grid.add_mem row.filled_mem_grid hdelta)
  have hsum := KeyedTable.sum_map_rewrite
    (f := OrderRow.withFill filled
      (if row.energy ≤ row.filled + fill.delta then .filled else .partiallyFilled)) hrow
    fun o => if scope o.zoneId then o.depth now side price else 0
  rw [OrderRow.zoneId_withFill, OrderRow.depth_withFill hlive hexact] at hsum
  rw [← hid, restingDepth_filter, restingDepth_filter]
  refine hsum.trans ?_
  by_cases hscope : scope row.zoneId
  · rw [if_pos hscope, if_pos hscope, if_pos hscope]
    ring
  · rw [if_neg hscope, if_neg hscope, if_neg hscope]
    ring

/-- What a committed trade does to a book of any zones: each of the two orders was live, and
its level loses what the trade takes from it. -/
theorem Database.restingDepth_persistMatchedTrade {settlement : Settlement Decimal}
    {orderMatch : OrderMatch Decimal} {event : Event} {buyer seller : TradeFill}
    (hbuyer : buyer.delta ∈ Numeric.grid) (hseller : seller.delta ∈ Numeric.grid)
    (hne : buyer.orderId ≠ seller.orderId)
    (h : db.persistMatchedTrade settlement orderMatch event buyer seller = .committed db') :
    ∃ b ∈ db.orders.rows, ∃ s ∈ db.orders.rows, b.id = buyer.orderId ∧ s.id = seller.orderId ∧
      b.status.isLive ∧ s.status.isLive ∧
        ∀ (scope : ZoneId → Bool) now side price,
          restingDepth (db'.orders.rows.filter (scope ·.zoneId)) now side price =
            restingDepth (db.orders.rows.filter (scope ·.zoneId)) now side price -
                (if scope b.zoneId then b.taken now side price buyer.delta else 0) -
              if scope s.zoneId then s.taken now side price seller.delta else 0 := by
  obtain ⟨_, _, db₁, db₂, _, _, hins, hfill, hfill'⟩ := statements_of_persistMatchedTrade h
  obtain ⟨b, hb, hbid, hblive, filled, _, hdb₂⟩ := setFill_of_incrementalFill hfill
  obtain ⟨s, hs, hsid, hslive, _⟩ := setFill_of_incrementalFill hfill'
  have hs₁ : s ∈ db₁.orders.rows := by
    rw [hdb₂] at hs
    obtain ⟨o, ho, rfl⟩ := List.mem_map.mp hs
    by_cases hid : o.id = buyer.orderId
    · rw [if_pos hid] at hsid
      exact absurd (hid.symm.trans hsid) hne
    · rw [if_neg hid]
      exact ho
  refine ⟨b, hins.orders ▸ hb, s, hins.orders ▸ hs₁, hbid, hsid, hblive, hslive, ?_⟩
  intro scope now side price
  rw [restingDepth_incrementalFill hseller hfill' hs hsid,
    restingDepth_incrementalFill hbuyer hfill hb hbid, hins.orders]

end Fills

def zoneOne : I32 := ⟨1, by omega, by omega⟩

def zoneTwo : I32 := ⟨2, by omega, by omega⟩

def Database.twoZones : Database :=
  .ofRows ⟨[{ OrderRow.placed 1 .buy 5 2 with zoneId := zoneOne },
    { OrderRow.placed 2 .sell 5 5 with zoneId := zoneTwo }], by decide⟩ .empty

theorem Database.orderBooks_show_twoZones :
    (twoZones.getP2pOrderbook 0).asks = [(5, 5)] ∧
      restingDepth twoZones.orders.rows 0 .sell 5 = ∑ zoneId ∈ {zoneOne, zoneTwo},
        restingDepth (twoZones.orders.rows.filter fun o => o.zoneId = (zoneId : ZoneId)) 0 .sell 5 := by
  have hzones := (orderBooks_show twoZones 0).2.2.2 {zoneOne, zoneTwo}
    (by
      intro o ho _ zoneId hzone
      rcases List.mem_pair.mp ho with rfl | rfl
      · simp [WithBot.coe_injective hzone.symm]
      · simp [WithBot.coe_injective hzone.symm])
    .sell 5
  refine ⟨by decide +kernel, hzones.trans ?_⟩
  exact add_eq_right.mpr (by decide +kernel)

def Database.TradeOutcome.database : TradeOutcome → Option Database
  | .committed db => some db
  | _ => none

theorem Database.TradeOutcome.database_eq_some {outcome : TradeOutcome} {db : Database} :
    outcome.database = some db ↔ outcome = .committed db := by
  cases outcome with
  | committed db' => simp [TradeOutcome.database]
  | refused => simp [TradeOutcome.database]
  | failed => simp [TradeOutcome.database]

theorem Database.restingDepth_persistMatchedTrade_oneUnit :
    let t := Trade.oneUnit 9 1 2
    ∃ db', twoZones.persistMatchedTrade t.settlement t.orderMatch t.event t.buyer t.seller = .committed db' ∧
      restingDepth db'.orders.rows 0 .buy 5 = 1 ∧ restingDepth db'.orders.rows 0 .sell 5 = 4 := by
  intro t
  have hunit : (1 : Decimal) ∈ Numeric.grid :=
    AddSubgroup.mem_zmultiples_iff.mpr ⟨100000000, by norm_num [Numeric.scale]⟩
  have hcommits : (twoZones.persistMatchedTrade t.settlement t.orderMatch t.event t.buyer
      t.seller).database.isSome := by decide +kernel
  obtain ⟨db', hdb'⟩ := Option.isSome_iff_exists.mp hcommits
  have hcommitted := TradeOutcome.database_eq_some.mp hdb'
  obtain ⟨b, hb, s, hs, hbid, hsid, _, _, hdepth⟩ :=
    restingDepth_persistMatchedTrade hunit hunit (by decide) hcommitted
  have hrow : ∀ {o o' : OrderRow}, o ∈ twoZones.orders.rows → o' ∈ twoZones.orders.rows → o.id = o'.id →
      o = o' := KeyedTable.row_unique
  obtain rfl := hrow hb (List.mem_cons_self) hbid
  obtain rfl := hrow hs (List.mem_cons_of_mem _ List.mem_cons_self) hsid
  have hall : ∀ rows : List OrderRow, rows.filter (fun _ => true) = rows := fun rows => List.filter_true rows
  have hbuy := hdepth (fun _ => true) 0 .buy 5
  have hsell := hdepth (fun _ => true) 0 .sell 5
  rw [hall, hall] at hbuy hsell
  refine ⟨db', hcommitted, hbuy.trans ?_, hsell.trans ?_⟩
  · decide +kernel
  · decide +kernel

end TradingService
