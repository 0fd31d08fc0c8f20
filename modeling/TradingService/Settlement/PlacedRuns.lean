import TradingService.Ledger.Bounds
import TradingService.Ledger.LimitPrices
import TradingService.Ledger.Upkeep
import TradingService.Settlement.Placement
import TradingService.Settlement.Repository

/-!
# Settlements within what was placed

Any number of replicas match and clear from their snapshots. A trade is struck within the
limits of its two rows, and as long as each trade finds room in them, what is settled of an
order is within its row. So it fits the placement, if the row was not rounded up beyond it.
-/

namespace TradingService

namespace Database

def settlementsOf (db : Database) (id : Uuid) : List (Settlement Numeric) :=
  db.settlements.rows.filter fun s => s.buyOrderId = id ∨ s.sellOrderId = id

def settledAmount (db : Database) (id : Uuid) : Decimal :=
  ((db.settlementsOf id).map (·.energyAmount.toDecimal)).sum

/-- The settlements of each order are within its row, and what is settled of a live one is
filled. -/
structure SettlesWithinRows (db : Database) : Prop where
  prices : ∀ o ∈ db.orders.rows, 0 < o.pricePerKwh.toDecimal ∧ o.pricePerKwh.toDecimal ≤ FastPrice.maxPrice
  known : ∀ s ∈ db.settlements.rows, (∃ o ∈ db.orders.rows, o.id = s.buyOrderId) ∧
    ∃ o ∈ db.orders.rows, o.id = s.sellOrderId
  allows : ∀ o ∈ db.orders.rows, o.Allows (db.settlementsOf o.id)
  filled : ∀ o ∈ db.orders.rows, o.status.isLive → db.settledAmount o.id ≤ o.filled

end Database

structure MatchResult.Struck (db : Database) (m : MatchResult) : Prop where
  amount_min : minTradeAmount ≤ m.matchAmount
  amount_mem : m.matchAmount ∈ Numeric.grid
  orders : ∃ b ∈ db.orders.rows, ∃ a ∈ db.orders.rows, b.id = m.buyOrderId ∧ a.id = m.sellOrderId ∧
    b.side = .buy ∧ a.side = .sell ∧ RespectsLimits b a m

def Phase.Struck (db : Database) : Phase → Prop
  | .idle => True
  | .reading _ buys => BuySnapshot db buys
  | .writing job => ∀ m ∈ job.pending, m.Struck db

/-- An order that is inserted has a price that the engines hold as it is. -/
def Action.Unsaturated {R : Type} : Action R → Prop
  | .statement (.insertOrder order) => order.pricePerKwh.toDecimal ≤ FastPrice.maxPrice
  | _ => True

instance Action.decidableUnsaturated {R : Type} : (a : Action R) → Decidable a.Unsaturated
  | .statement (.insertOrder _) => inferInstanceAs (Decidable (_ ≤ _))
  | .statement (.setWalletSignature ..) => .isTrue trivial
  | .statement (.cancelOrder ..) => .isTrue trivial
  | .statement (.expireStaleOrders _) => .isTrue trivial
  | .statement (.reorder _) => .isTrue trivial
  | .worker .. => .isTrue trivial

section Steps

open Database (Extends SettlesWithinRows)

variable {db db' : Database} {m : MatchResult}

theorem Database.Extends.known {id : Uuid} (hext : Extends db db') (h : ∃ o ∈ db.orders.rows, o.id = id) :
    ∃ o ∈ db'.orders.rows, o.id = id := by
  obtain ⟨o, ho, hid⟩ := h
  obtain ⟨o', ho', hterms⟩ := hext o ho
  exact ⟨o', ho', hterms.id.trans hid⟩

theorem MatchResult.Struck.mono (h : m.Struck db) (hext : Extends db db') : m.Struck db' := by
  obtain ⟨b, hb, a, ha, hbid, haid, hbside, haside, hask, hbid'⟩ := h.orders
  obtain ⟨b', hb', hbterms⟩ := hext b hb
  obtain ⟨a', ha', haterms⟩ := hext a ha
  refine ⟨h.amount_min, h.amount_mem, b', hb', a', ha', hbterms.id.trans hbid, haterms.id.trans haid,
    hbterms.side.trans hbside, haterms.side.trans haside, ?_⟩
  unfold RespectsLimits
  rw [hbterms.pricePerKwh, haterms.pricePerKwh]
  exact ⟨hask, hbid'⟩

theorem MatchResult.Struck.ne (h : m.Struck db) : m.buyOrderId ≠ m.sellOrderId := by
  obtain ⟨b, hb, a, ha, hbid, haid, hbside, haside, _⟩ := h.orders
  intro heq
  obtain rfl := KeyedTable.row_unique hb ha (hbid.trans (heq.trans haid.symm))
  rw [hbside] at haside
  cases haside

theorem Phase.Struck.mono {phase : Phase} (h : phase.Struck db) (hext : Extends db db') : phase.Struck db' := by
  cases phase with
  | idle => trivial
  | reading kind buys => exact BuySnapshot.mono h hext
  | writing job => exact fun m hm => (h m hm).mono hext

/-- What a job decides on rows of the table is struck between them. -/
theorem struck_of_mem_run {kind : JobKind} {buys : List OrderRow} (topology : TopologySnapshot) (nowNs : I64)
    (hdb : db.SettlesWithinRows) (hbuys : BuySnapshot db buys) :
    ∀ m ∈ (kind.run buys (kind.select (db.activeOrders .sell)) topology nowNs).pending, m.Struck db := by
  have hids := hbuys.ids_append kind
  have hsells : ∀ s ∈ kind.select (db.activeOrders .sell), s ∈ db.orders.rows :=
    (select_sublist kind .sell).subset
  have hprices : ∀ o ∈ buys ++ kind.select (db.activeOrders .sell),
      0 < o.pricePerKwh.toDecimal ∧ o.pricePerKwh.toDecimal ≤ FastPrice.maxPrice := by
    refine List.forall_mem_append.mpr ⟨fun b hb => ?_, fun s hs => hdb.prices s (hsells s hs)⟩
    obtain ⟨o, ho, hterms⟩ := hbuys.known b hb
    rw [← hterms.pricePerKwh]
    exact hdb.prices o ho
  intro m hm
  obtain ⟨hmin, b, hb, s, hs, hbid, hsid, hask, hbid'⟩ :=
    kind.run_respectsLimits topology nowNs hids hprices m hm
  obtain ⟨o, ho, hterms⟩ := hbuys.known b hb
  refine ⟨hmin, (kind.decided_run topology nowNs hids).amount_mem m hm, o, ho, s, hsells s hs,
    hterms.id.trans hbid, hsid, hterms.side.trans (hbuys.side b hb), side_of_mem_select hs, hask, ?_⟩
  rw [hterms.pricePerKwh]
  exact hbid'

/-- A step that writes no settlement, and adds to no fill. -/
theorem Database.SettlesWithinRows.of_orders (h : db.SettlesWithinRows) (hext : Extends db db')
    (hsettlements : db'.settlements = db.settlements)
    (hrows : ∀ o' ∈ db'.orders.rows,
      (∃ o ∈ db.orders.rows, o.SameTerms o' ∧
        (o'.status.isLive → o.status.isLive ∧ o'.filled = o.filled)) ∨
      (∀ o ∈ db.orders.rows, o.id ≠ o'.id) ∧ 0 < o'.energy ∧ 0 ≤ o'.filled ∧
        0 < o'.pricePerKwh.toDecimal ∧ o'.pricePerKwh.toDecimal ≤ FastPrice.maxPrice) :
    db'.SettlesWithinRows := by
  have hsame : ∀ id, db'.settlementsOf id = db.settlementsOf id := fun id => by
    unfold settlementsOf
    rw [hsettlements]
  have hnone : ∀ id, (∀ o ∈ db.orders.rows, o.id ≠ id) → db.settlementsOf id = [] := by
    intro id hfresh
    apply List.filter_eq_nil_iff.mpr
    intro s hs hnamed
    obtain ⟨⟨b, hb, hbid⟩, a, ha, haid⟩ := h.known s hs
    rcases of_decide_eq_true hnamed with hid | hid
    · exact hfresh b hb (hbid.trans hid)
    · exact hfresh a ha (haid.trans hid)
  constructor
  · intro o' ho'
    rcases hrows o' ho' with ⟨o, ho, hterms, _⟩ | ⟨_, _, _, hprices⟩
    · rw [hterms.pricePerKwh]
      exact h.prices o ho
    · exact hprices
  · intro s hs
    rw [hsettlements] at hs
    exact (h.known s hs).imp hext.known hext.known
  · intro o' ho'
    rw [hsame]
    rcases hrows o' ho' with ⟨o, ho, hterms, _⟩ | ⟨hfresh, hpos, _⟩
    · rw [hterms.id]
      exact (h.allows o ho).of_terms hterms
    · rw [hnone _ hfresh]
      exact .nil hpos.le
  · intro o' ho' hlive'
    unfold settledAmount
    rw [hsame]
    rcases hrows o' ho' with ⟨o, ho, hterms, hback⟩ | ⟨hfresh, _, hfilled, _⟩
    · obtain ⟨hlive, hfilled⟩ := hback hlive'
      rw [hterms.id, hfilled]
      exact h.filled o ho hlive
    · rw [hnone _ hfresh]
      exact hfilled

theorem Database.SettlesWithinRows.exec (h : db.SettlesWithinRows) {st : Statement}
    (hprice : ∀ order, st = .insertOrder order → order.pricePerKwh.toDecimal ≤ FastPrice.maxPrice)
    (hexec : db.exec st = some db') : db'.SettlesWithinRows := by
  apply h.of_orders (exec_keeps hexec).extends (exec_settlements hexec)
  intro o' ho'
  by_cases hst : st.isInsert = true
  · cases st with
    | insertOrder order =>
      obtain ⟨hrows, hfresh, _, henergy, hpos⟩ := insertOrder_eq_some hexec
      rw [hrows] at ho'
      rcases List.mem_cons.mp ho' with rfl | ho
      · exact .inr ⟨hfresh, henergy, Numeric.toDecimal_zero.ge, hpos, hprice order rfl⟩
      · exact .inl ⟨o', ho, .refl o', fun hlive => ⟨hlive, rfl⟩⟩
    | _ => cases hst
  · obtain ⟨o, ho, hup⟩ := (exec_upkeeps hexec (by simpa using hst)).back o' ho'
    refine .inl ⟨o, ho, hup.terms, fun hlive => ⟨hup.live hlive, ?_⟩⟩
    rcases (exec_keeps hexec).exists_of_mem o' ho' with ⟨o₂, ho₂, hterms, hfilled⟩ | ⟨_, _, hfresh⟩
    · obtain rfl := KeyedTable.row_unique ho₂ ho (hterms.id.symm.trans hup.terms.id)
      exact hfilled
    · exact absurd hup.terms.id.symm (hfresh o ho)

/-- The settlement of a match, beside the rows of its two orders. -/
structure MatchResult.SettledAs (db : Database) (m : MatchResult) (t : Settlement Numeric) : Prop where
  buyOrderId : t.buyOrderId = m.buyOrderId
  sellOrderId : t.sellOrderId = m.sellOrderId
  amount : t.energyAmount.toDecimal = m.matchAmount
  buy : ∃ b ∈ db.orders.rows, b.id = m.buyOrderId ∧ b.side = .buy ∧
    t.price.toDecimal ≤ b.pricePerKwh.toDecimal
  sell : ∃ a ∈ db.orders.rows, a.id = m.sellOrderId ∧ a.side = .sell ∧
    a.pricePerKwh.toDecimal ≤ t.price.toDecimal

theorem MatchResult.Struck.exists_settledAs (hm : m.Struck db) {job : Job} {ids : TradeIds}
    {rates : ChargeRates} (hcommit : job.persistMatch db m ids rates = .committed db') :
    ∃ t, m.SettledAs db t ∧ db'.settlements.rows = t :: db.settlements.rows := by
  obtain ⟨t, _, hstore, _, hrows⟩ := Job.persistMatch_rows hcommit
  obtain ⟨_, _, hbuyId, hsellId, henergy, hprice⟩ := Settlement.store_eq_some hstore
  obtain ⟨b, hb, a, ha, hbid, haid, hbside, haside, hask, hbid'⟩ := hm.orders
  refine ⟨t, ⟨hbuyId, hsellId, Numeric.toDecimal_of_store henergy hm.amount_mem, ?_, ?_⟩,
    hrows.settlements⟩
  · exact ⟨b, hb, hbid, hbside, Numeric.store_le hprice hbid'⟩
  · exact ⟨a, ha, haid, haside, Numeric.le_store hprice a.pricePerKwh.toDecimal_mem_grid hask⟩

theorem MatchResult.Struck.live_of_committed (hm : m.Struck db) {job : Job} {ids : TradeIds}
    {rates : ChargeRates} (hcommit : job.persistMatch db m ids rates = .committed db') :
    ∀ o ∈ db.orders.rows, m.names o.id → o.status.isLive := by
  intro o ho hname
  have htrades := Job.persistMatch_committed hm.amount_mem hcommit
  have hlive : db.Live o.id := by
    rcases hname with hname | hname
    · exact hname ▸ htrades.buy_live
    · exact hname ▸ htrades.sell_live hm.ne.symm
  obtain ⟨o', ho', hid, hlive⟩ := hlive
  obtain rfl := KeyedTable.row_unique ho' ho hid
  exact hlive

section SettledAs

variable {t : Settlement Numeric} (ht : m.SettledAs db t)
  (hrows : db'.settlements.rows = t :: db.settlements.rows)
include ht hrows

theorem MatchResult.SettledAs.settlementsOf (id : Uuid) :
    db'.settlementsOf id = if m.names id then t :: db.settlementsOf id else db.settlementsOf id := by
  have hnames : (t.buyOrderId = id ∨ t.sellOrderId = id) ↔ m.names id := by
    rw [ht.buyOrderId, ht.sellOrderId]
    rfl
  simp only [Database.settlementsOf, hrows, List.filter_cons, decide_eq_true_eq, hnames]

theorem MatchResult.SettledAs.settledAmount (id : Uuid) :
    db'.settledAmount id = db.settledAmount id + if m.names id then m.matchAmount else 0 := by
  unfold Database.settledAmount
  rw [ht.settlementsOf hrows]
  split_ifs
  · rw [List.map_cons, List.sum_cons, ht.amount, add_comm]
  · rw [add_zero]

theorem MatchResult.SettledAs.known (h : db.SettlesWithinRows) (hext : Extends db db') :
    ∀ s ∈ db'.settlements.rows, (∃ o ∈ db'.orders.rows, o.id = s.buyOrderId) ∧
      ∃ o ∈ db'.orders.rows, o.id = s.sellOrderId := by
  intro s hs
  rw [hrows] at hs
  rcases List.mem_cons.mp hs with rfl | hs
  · obtain ⟨b, hb, hbid, _⟩ := ht.buy
    obtain ⟨a, ha, haid, _⟩ := ht.sell
    exact ⟨hext.known ⟨b, hb, hbid.trans ht.buyOrderId.symm⟩,
      hext.known ⟨a, ha, haid.trans ht.sellOrderId.symm⟩⟩
  · exact (h.known s hs).imp hext.known hext.known

end SettledAs

theorem MatchResult.SettledAs.allows_cons {t : Settlement Numeric} {o : OrderRow} (ht : m.SettledAs db t)
    (h : db.SettlesWithinRows) (hmin : minTradeAmount ≤ m.matchAmount) (ho : o ∈ db.orders.rows)
    (hlive : o.status.isLive) (hname : m.names o.id) (hroom : o.filled + m.matchAmount ≤ o.energy) :
    o.Allows (t :: db.settlementsOf o.id) := by
  obtain ⟨b, hb, hbid, hbside, hhigh⟩ := ht.buy
  obtain ⟨a, ha, haid, haside, hlow⟩ := ht.sell
  have hfilled : db.settledAmount o.id ≤ o.filled := h.filled o ho hlive
  unfold Database.settledAmount at hfilled
  apply (h.allows o ho).cons
  · rwa [ht.amount]
  · rw [ht.amount]
    linarith
  · exact (h.prices a ha).1.trans_le hlow
  · intro hside
    rcases hname with hname | hname
    · obtain rfl := KeyedTable.row_unique ho hb (hname.symm.trans hbid.symm)
      rw [hbside] at hside
      cases hside
    · obtain rfl := KeyedTable.row_unique ho ha (hname.symm.trans haid.symm)
      exact hlow
  · intro hside
    rcases hname with hname | hname
    · obtain rfl := KeyedTable.row_unique ho hb (hname.symm.trans hbid.symm)
      exact hhigh
    · obtain rfl := KeyedTable.row_unique ho ha (hname.symm.trans haid.symm)
      rw [haside] at hside
      cases hside

/-- A trade that finds room in its two orders. -/
theorem Database.SettlesWithinRows.persistMatch (h : db.SettlesWithinRows) {job : Job} {ids : TradeIds}
    {rates : ChargeRates} (hm : m.Struck db) (hcommit : job.persistMatch db m ids rates = .committed db')
    (hroom : ∀ o ∈ db.orders.rows, m.names o.id → o.filled + m.matchAmount ≤ o.energy) :
    db'.SettlesWithinRows := by
  have hfills := (Job.persistMatch_committed hm.amount_mem hcommit).fills_of_ne hm.ne
  have hretains : Retains db db' := (persistMatchedTrade_upkeeps hcommit).retains
  obtain ⟨t, ht, hrows⟩ := hm.exists_settledAs hcommit
  have hlive := hm.live_of_committed hcommit
  refine ⟨fun o' ho' => ?_, ht.known hrows h hretains.extends, fun o' ho' => ?_, fun o' ho' hlive' => ?_⟩
  · obtain ⟨o, ho, hterms, _⟩ := hfills.exists_of_mem ho'
    rw [hterms.pricePerKwh]
    exact h.prices o ho
  · obtain ⟨o, ho, hterms, _⟩ := hfills.exists_of_mem ho'
    refine OrderRow.Allows.of_terms ?_ hterms
    rw [ht.settlementsOf hrows, hterms.id]
    split_ifs with hname
    · exact ht.allows_cons h hm.amount_min ho (hlive o ho hname) hname (hroom o ho hname)
    · exact h.allows o ho
  · obtain ⟨o, ho, hterms, hfilled⟩ := hfills.exists_of_mem ho'
    have hback : o.status.isLive := by
      by_contra hdead
      refine hretains.not_live ⟨o, ho, rfl⟩ ?_ ⟨o', ho', hterms.id, hlive'⟩
      rintro ⟨o₂, ho₂, hid, hlive₂⟩
      obtain rfl := KeyedTable.row_unique ho₂ ho hid
      exact hdead hlive₂
    rw [hterms.id, ht.settledAmount hrows, hfilled]
    exact add_le_add_left (h.filled o ho hback) _

theorem Database.SettlesWithinRows.swept (h : db.SettlesWithinRows) {o : FastOrder}
    (hwritten : cancelIocRemainder db o = some db') : db'.SettlesWithinRows := by
  have hretains : Retains db db' := (updateFilledAmountWithEvent_upkeeps hwritten).retains
  rcases setFill_of_updateFilledAmount hwritten with ⟨rfl, _⟩ | ⟨_, _, _, _, _, _, rfl⟩
  · exact h
  · apply h.of_orders hretains.extends rfl
    intro o' ho'
    obtain ⟨row, hrow, rfl⟩ := List.mem_map.mp ho'
    refine .inl ⟨row, hrow, ?_⟩
    split_ifs
    · refine ⟨⟨rfl, rfl, rfl, rfl, rfl, rfl⟩, fun hlive => ?_⟩
      cases hlive
    · exact ⟨.refl row, fun hlive => ⟨hlive, rfl⟩⟩

theorem Move.settlesWithinRows {phase phase' : Phase} {a : JobStep} (h : Move db phase a db' phase')
    (hphase : phase.Struck db) (hdb : db.SettlesWithinRows)
    (hroom : ∀ ids rates, a = .persist ids rates → ∀ m ∈ phase.nextMatch,
      db.Live m.buyOrderId → db.Live m.sellOrderId →
        ∀ o ∈ db.orders.rows, m.names o.id → o.filled + m.matchAmount ≤ o.energy) :
    Extends db db' ∧ db'.SettlesWithinRows ∧ phase'.Struck db' := by
  cases h with
  | readBuys kind => exact ⟨.refl, hdb, .select kind⟩
  | readSells kind buys topology nowNs => exact ⟨.refl, hdb, struck_of_mem_run topology nowNs hdb hphase⟩
  | @persisted job m rest ids rates _ hpending hcommit =>
    have hjob : ∀ m' ∈ job.pending, m'.Struck db := hphase
    have hm : m.Struck db := hjob m (hpending ▸ List.mem_cons_self)
    have htrades := Job.persistMatch_committed hm.amount_mem hcommit
    have hnext : m ∈ (Phase.writing job).nextMatch := by simp [Phase.nextMatch, hpending]
    have hext : Extends db db' := htrades.fills.extends
    refine ⟨hext, hdb.persistMatch hm hcommit
      (hroom ids rates rfl m hnext htrades.buy_live (htrades.sell_live hm.ne.symm)), fun m' hm' => ?_⟩
    exact (hjob m' (hpending ▸ List.mem_cons_of_mem _ hm')).mono hext
  | @givenUp job m rest _ hpending =>
    exact ⟨.refl, hdb, fun m' hm' => hphase m' (hpending ▸ List.mem_cons_of_mem _ hm')⟩
  | @swept job o rest _ hpending _ hwritten =>
    have hext : Extends db db' := (Database.updateFilledAmountWithEvent_upkeeps hwritten).retains.extends
    refine ⟨hext, hdb.swept hwritten, fun m hm => ?_⟩
    exact (hphase m hm).mono hext
  | stopped => exact ⟨.refl, hdb, trivial⟩

end Steps

section Runs

variable {R : Type} [DecidableEq R]

theorem State.settlesWithinRows_step {s s' : State R} {a : Action R} (hroom : s.HasRoom a)
    (hprice : a.Unsaturated) (hdb : s.db.SettlesWithinRows) (hphase : ∀ r, (s.phase r).Struck s.db)
    (h : s.step a = some s') : s'.db.SettlesWithinRows ∧ ∀ r, (s'.phase r).Struck s'.db := by
  constructor
  · cases a with
    | statement st =>
      obtain ⟨db', hexec, rfl⟩ := Option.map_eq_some_iff.mp h
      exact hdb.exec (fun order hst => by subst hst; exact hprice) hexec
    | worker r b =>
      obtain ⟨⟨db', phase'⟩, hstep, rfl⟩ := Option.map_eq_some_iff.mp h
      exact ((Phase.move_of_step hstep).settlesWithinRows (hphase r) hdb
        (fun ids rates hb => by subst hb; exact hroom)).2.1
  · refine State.step_induction hphase ?_ ?_ h
    · intro st db' _ hexec r hr
      exact hr.mono (Database.exec_keeps hexec).extends
    · intro r b db' phase' ha hmove
      obtain ⟨hext, _, hown⟩ := hmove.settlesWithinRows (hphase r) hdb
        (fun ids rates hb => by subst ha hb; exact hroom)
      exact ⟨hown, fun q _ hq => hq.mono hext⟩

/-- In every run of any number of replicas in which no trade is written beyond the room it
finds, and no price is beyond the engines, what is sent for an order fits its placement at
each state, if its row was not rounded up. -/
theorem State.settlements_fit_placement (db : Database) (hdb : db.SettlesWithinRows) (as : List (Action R))
    (has : Runs.AllSteps State.step (fun s a => State.HasRoom s a ∧ a.Unsaturated) (State.start db) as) :
    Runs.AllStates State.step
      (fun s : State R => ∀ o ∈ s.db.orders.rows, ∀ (order : TradingOrder) (placed : PlacedTerms),
        order.Accepted o placed → o.NotRoundedUp order → placed.Fits o.side (s.db.settlementsOf o.id))
      (State.start db) as := by
  have hinv : Runs.AllStates State.step
      (fun s : State R => s.db.SettlesWithinRows ∧ ∀ r, (s.phase r).Struck s.db) (State.start db) as := by
    apply Runs.AllStates.of_allSteps _ ⟨hdb, fun _ => trivial⟩ has
    rintro s a s' ⟨hrows, hphase⟩ ⟨hroom, hprice⟩ hstep
    exact State.settlesWithinRows_step hroom hprice hrows hphase hstep
  exact hinv.mono fun s h o ho order placed haccepted hrounded => haccepted.fits hrounded (h.1.allows o ho)

end Runs

def roundedUpBid : TradingOrder where
  id := 1
  userId := 1
  orderType := .limit
  side := .buy
  energyAmount := 1
  pricePerKwh := 19999999999 / 10000000000
  status := .pending
  expiresAt := none
  epochId := some 0
  zoneId := ⊥
  meterId := none
  orderPda := none
  sessionToken := none
  timeInForce := .gtc
  marketSegment := .realtime

def roundedUpPlaced : PlacedTerms :=
  ⟨⟨1000000000, by norm_num, by norm_num⟩, ⟨1999999, by norm_num, by norm_num⟩⟩

/-- Its row holds a price of 2. -/
theorem roundedUpBid_accepted {row : OrderRow} (henergy : row.energyAmount = .whole 1)
    (hprice : row.pricePerKwh = .whole 2) : roundedUpBid.Accepted row roundedUpPlaced where
  energy_pos := by decide +kernel
  price_pos := by decide +kernel
  stored_pos := by
    rw [hprice]
    decide +kernel
  energy := by
    rw [henergy]
    decide +kernel
  price := by
    rw [hprice]
    decide +kernel
  placed := by decide +kernel

/-- The bid meets an ask of 2. -/
def roundedUpRun : List (Action Unit) :=
  [.statement (.insertOrder (.placed 1 .buy 2 1)), .statement (.insertOrder (.placed 2 .sell 2 1)),
    .worker () (.readBuys .matching),
    .worker () (.readSells MatchingEngine.openGrid (BoundedInt.saturate 0)),
    .worker () (.persist ⟨3, 4, 5, 0⟩ ⟨0, 0, 0⟩)]

/-- A price of 2 is sent for the bid, and fits one that was placed at 2. -/
theorem State.settlements_fit_placement_one_trade :
    (roundedUpRun.foldlM State.step (State.start .empty)).map (fun s =>
        (s.db.settlementsOf 1).map fun t => (t.atomicAmounts.priceAtomic : ℤ)) = some [2000000] ∧
      Runs.AllStates State.step
        (fun s => ∀ o ∈ s.db.orders.rows, ∀ (order : TradingOrder) (placed : PlacedTerms),
          order.Accepted o placed → o.NotRoundedUp order → placed.Fits o.side (s.db.settlementsOf o.id))
        (State.start .empty) roundedUpRun := by
  constructor
  · decide +kernel
  · have hempty : Database.empty.SettlesWithinRows := by constructor <;> intro _ h <;> cases h
    exact State.settlements_fit_placement .empty hempty roundedUpRun (by decide +kernel)

/-- It is beyond the bid of 1.9999999999, whose row also holds a price of 2. -/
theorem State.settlement_sent_beyond_bid :
    (roundedUpBid.store 0).map (fun row => (row.energyAmount, row.pricePerKwh)) =
        some (Numeric.whole 1, Numeric.whole 2) ∧
      Runs.AllSteps State.step State.HasRoom (State.start .empty) roundedUpRun ∧
      ¬Runs.AllStates State.step
        (fun s => ∀ o ∈ s.db.orders.rows, ∀ (order : TradingOrder) (placed : PlacedTerms),
          order.Accepted o placed → placed.Fits o.side (s.db.settlementsOf o.id))
        (State.start .empty) roundedUpRun := by
  refine ⟨by decide +kernel, by decide +kernel, fun h => ?_⟩
  have hbids : Runs.AllStates State.step
      (fun s => ∀ o ∈ s.db.orders.rows, o.energyAmount = .whole 1 → o.pricePerKwh = .whole 2 → o.side = .buy →
        ∀ t ∈ s.db.settlementsOf o.id, (t.atomicAmounts.priceAtomic : ℤ) ≤ 1999999)
      (State.start .empty) roundedUpRun := by
    apply h.mono
    intro s hs o ho henergy hprice hside
    exact (hs o ho roundedUpBid roundedUpPlaced (roundedUpBid_accepted henergy hprice)).bid hside
  exact absurd hbids (by decide +kernel)

end TradingService
