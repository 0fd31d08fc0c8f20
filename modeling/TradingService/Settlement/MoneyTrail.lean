import TradingService.Ledger.Provenance
import TradingService.Lib.RoundedSum
import TradingService.Orders.Standing
import TradingService.Settlement.Repository

/-!
# Where the money of the settlements goes

What a buyer pays for a trade is divided into the fee, the two network charges and what the
seller gets, and each of the five columns is rounded on its own. `Settlement.AddsUp` bounds
what a row can lose in this way. The bound does not depend on the tariffs, which may change
between any two writes, so it adds up over the rows of a user, of a day or of the whole table.
-/

namespace TradingService

theorem Numeric.abs_store_sub_le {d : Decimal} {x : Numeric} (h : Numeric.store d = some x) :
    |x.toDecimal - d| ≤ 1 / (2 * Numeric.scale) := by
  have hpos := Numeric.scale_pos
  have hround := Rounding.abs_halfAway_sub_le (d * Numeric.scale)
  rw [← Numeric.units_eq_halfAway h] at hround
  have hscaled : x.toDecimal - d = ((x.units : ℤ) - d * Numeric.scale) / Numeric.scale := by
    unfold Numeric.toDecimal
    field_simp
  rw [hscaled, abs_div, abs_of_pos hpos, div_le_div_iff₀ hpos (by positivity)]
  linarith [mul_le_mul_of_nonneg_right hround hpos.le]

/-- The total of a settlement is the price of its energy and the sum of its parts, up to the
rounding of the columns. -/
structure Settlement.AddsUp (s : Settlement Numeric) : Prop where
  gross : |s.totalAmount.toDecimal - s.energyAmount.toDecimal * s.price.toDecimal| ≤
    (1 + s.energyAmount.toDecimal) / (2 * Numeric.scale)
  parts : |(s.feeAmount.units + s.wheelingCharge.units + s.lossCost.units + s.netAmount.units : ℤ) -
    s.totalAmount.units| ≤ 2

section Rows

variable {job : Job} {m : MatchResult} {ids : TradeIds} {rates : ChargeRates} {row : Settlement Numeric}

theorem Job.addsUp_settlement (hamount : 0 < m.matchAmount ∧ m.matchAmount ∈ Numeric.grid)
    (hstore : (job.settlement m ids rates).store = some row) : row.AddsUp := by
  simp only [Settlement.store, Option.bind_eq_bind, Option.bind_eq_some_iff] at hstore
  obtain ⟨energy, henergy, price, hprice, total, htotal, fee, hfee, net, hnet, wheeling, hwheeling, _, _,
    loss, hloss, _, _, hrow⟩ := hstore
  obtain rfl := Option.some.inj hrow
  have henergyExact : energy.toDecimal = m.matchAmount := Numeric.toDecimal_of_store henergy hamount.2
  constructor
  · have htotalApart : |total.toDecimal - m.matchAmount * m.settlePrice| ≤ 1 / (2 * Numeric.scale) :=
      Numeric.abs_store_sub_le htotal
    have hpriceApart : |price.toDecimal - m.settlePrice| ≤ 1 / (2 * Numeric.scale) :=
      Numeric.abs_store_sub_le hprice
    have hsplit : total.toDecimal - m.matchAmount * price.toDecimal =
        (total.toDecimal - m.matchAmount * m.settlePrice) -
          m.matchAmount * (price.toDecimal - m.settlePrice) := by ring
    calc |total.toDecimal - energy.toDecimal * price.toDecimal|
        = |(total.toDecimal - m.matchAmount * m.settlePrice) -
            m.matchAmount * (price.toDecimal - m.settlePrice)| := by rw [henergyExact, hsplit]
      _ ≤ |total.toDecimal - m.matchAmount * m.settlePrice| +
            m.matchAmount * |price.toDecimal - m.settlePrice| := by
          refine (abs_sub _ _).trans ?_
          rw [abs_mul, abs_of_pos hamount.1]
      _ ≤ 1 / (2 * Numeric.scale) + m.matchAmount * (1 / (2 * Numeric.scale)) :=
          add_le_add htotalApart (mul_le_mul_of_nonneg_left hpriceApart hamount.1.le)
      _ = (1 + energy.toDecimal) / (2 * Numeric.scale) := by
          rw [henergyExact]
          ring
  · have hrounded := Rounding.abs_sum_halfAway_sub_halfAway_le
      [(job.settlement m ids rates).feeAmount * Numeric.scale,
        (job.settlement m ids rates).wheelingCharge * Numeric.scale,
        (job.settlement m ids rates).lossCost * Numeric.scale,
        (job.settlement m ids rates).netAmount * Numeric.scale]
    have hsum : (job.settlement m ids rates).feeAmount * Numeric.scale +
        ((job.settlement m ids rates).wheelingCharge * Numeric.scale +
          ((job.settlement m ids rates).lossCost * Numeric.scale +
            (job.settlement m ids rates).netAmount * Numeric.scale)) =
        (job.settlement m ids rates).totalAmount * Numeric.scale := by
      simp only [Job.settlement, computeCharges]
      ring
    simp only [List.map_cons, List.map_nil, List.sum_cons, List.sum_nil, add_zero, hsum,
      ← Numeric.units_eq_halfAway hfee, ← Numeric.units_eq_halfAway hwheeling,
      ← Numeric.units_eq_halfAway hloss, ← Numeric.units_eq_halfAway hnet,
      ← Numeric.units_eq_halfAway htotal] at hrounded
    simp only [← add_assoc] at hrounded
    exact hrounded.trans (by norm_num)

end Rows

def Database.total (db : Database) (p : Settlement Numeric → Bool) (column : Settlement Numeric → Numeric) :
    Decimal :=
  ((db.settlements.rows.filter p).map fun s => (column s).toDecimal).sum

def Database.AddsUp (db : Database) : Prop := ∀ s ∈ db.settlements.rows, s.AddsUp

/-- What the rows lose adds up to two units of the last place for each. -/
theorem Database.AddsUp.total {db : Database} (h : db.AddsUp) (p : Settlement Numeric → Bool) :
    |db.total p (·.feeAmount) + db.total p (·.wheelingCharge) + db.total p (·.lossCost) +
        db.total p (·.netAmount) - db.total p (·.totalAmount)| ≤
      2 / Numeric.scale * (db.settlements.rows.filter p).length := by
  have hsplit : db.total p (·.feeAmount) + db.total p (·.wheelingCharge) + db.total p (·.lossCost) +
      db.total p (·.netAmount) - db.total p (·.totalAmount) =
      ((db.settlements.rows.filter p).map fun s => s.feeAmount.toDecimal + s.wheelingCharge.toDecimal +
        s.lossCost.toDecimal + s.netAmount.toDecimal - s.totalAmount.toDecimal).sum := by
    unfold Database.total
    induction db.settlements.rows.filter p with
    | nil => simp
    | cons s rows ih =>
      simp only [List.map_cons, List.sum_cons, ← ih]
      ring
  rw [hsplit]
  apply Rounding.abs_sum_map_le
  intro s hs
  have hparts := (h s (List.mem_of_mem_filter hs)).parts
  have hpos := Numeric.scale_pos
  have hunits : s.feeAmount.toDecimal + s.wheelingCharge.toDecimal + s.lossCost.toDecimal +
      s.netAmount.toDecimal - s.totalAmount.toDecimal =
      (((s.feeAmount.units + s.wheelingCharge.units + s.lossCost.units + s.netAmount.units : ℤ) -
        s.totalAmount.units : ℤ) : ℚ) / Numeric.scale := by
    unfold Numeric.toDecimal
    push_cast
    ring
  rw [hunits, abs_div, abs_of_pos hpos]
  apply div_le_div_of_nonneg_right _ hpos.le
  exact_mod_cast hparts

section Steps

variable {db db' : Database}

theorem Move.addsUp {phase phase' : Phase} {a : JobStep} (h : Move db phase a db' phase')
    (hphase : phase.TradesOnGrid db) (hdb : db.AddsUp) : db'.AddsUp := by
  cases h with
  | readBuys kind => exact hdb
  | readSells kind buys topology nowNs => exact hdb
  | @persisted job m rest ids rates _ hpending hcommitted =>
    have hjob : ∀ m' ∈ job.pending, 0 < m'.matchAmount ∧ m'.matchAmount ∈ Numeric.grid := hphase
    obtain ⟨row, _, hrow, _, hrows⟩ := Job.persistMatch_rows hcommitted
    intro s hs
    rw [hrows.settlements] at hs
    rcases List.mem_cons.mp hs with rfl | hs
    · exact Job.addsUp_settlement (hjob m (hpending ▸ List.mem_cons_self)) hrow
    · exact hdb s hs
  | givenUp _ _ => exact hdb
  | swept _ _ hwritten =>
    rcases Database.setFill_of_updateFilledAmount hwritten with ⟨rfl, _⟩ | ⟨_, _, _, _, _, _, rfl⟩
    · exact hdb
    · exact hdb
  | stopped => exact hdb

end Steps

/-- In every run of any number of replicas, with any tariffs from one write to the next, each row
of the settlements adds up, and so do the columns over any of the rows. -/
theorem State.money_adds_up {R : Type} [DecidableEq R] (db : Database) (hdb : db.AddsUp)
    (as : List (Action R)) :
    Runs.AllStates State.step
      (fun s : State R => s.db.AddsUp ∧ ∀ p : Settlement Numeric → Bool,
        |s.db.total p (·.feeAmount) + s.db.total p (·.wheelingCharge) + s.db.total p (·.lossCost) +
            s.db.total p (·.netAmount) - s.db.total p (·.totalAmount)| ≤
          2 / Numeric.scale * (s.db.settlements.rows.filter p).length) (State.start db) as := by
  have hinv : Runs.AllStates State.step
      (fun s : State R => s.db.AddsUp ∧ ∀ r, (s.phase r).TradesOnGrid s.db) (State.start db) as := by
    apply Runs.AllStates.of_invariant _ ⟨hdb, fun _ => trivial⟩ as
    rintro s a s' ⟨hrows, hphase⟩ hstep
    constructor
    · cases a with
      | statement st =>
        obtain ⟨db', hexec, rfl⟩ := Option.map_eq_some_iff.mp hstep
        unfold Database.AddsUp
        rw [Database.exec_settlements hexec]
        exact hrows
      | worker r b =>
        obtain ⟨⟨db', phase'⟩, hmove, rfl⟩ := Option.map_eq_some_iff.mp hstep
        exact (Phase.move_of_step hmove).addsUp (hphase r) hrows
    · refine State.step_induction hphase ?_ ?_ hstep
      · intro st db' _ hexec r hr
        exact hr.mono (Database.exec_keeps hexec).extends
      · intro r b db' phase' _ hmove
        exact ⟨hmove.tradesOnGrid (hphase r), fun q _ hq => hq.mono hmove.extends⟩
  exact hinv.mono fun s h => ⟨h.1, h.1.total⟩

def unevenOrder (id : Uuid) (side : OrderSide) : OrderRow :=
  { OrderRow.placed id side 1 0 with energyAmount := (Numeric.store (100000201 / Numeric.scale)).getD .zero }

def unevenTrade : List (Action Unit) :=
  [.statement (.insertOrder (unevenOrder 1 .buy)), .statement (.insertOrder (unevenOrder 2 .sell)),
    .worker () (.readBuys .matching),
    .worker () (.readSells MatchingEngine.openGrid (BoundedInt.saturate 0)),
    .worker () (.persist ⟨3, 4, 5, 0⟩ ⟨25, 100000, 25⟩)]

/-- The parts come to one unit of the last place more than what the buyer pays. -/
theorem State.money_adds_up_one_unit_more :
    (unevenTrade.foldlM State.step (State.start .empty)).map (fun s => s.db.settlements.rows.map fun t =>
        (t.feeAmount.units + t.wheelingCharge.units + t.lossCost.units + t.netAmount.units : ℤ) -
          t.totalAmount.units) = some [1] ∧
      Runs.AllStates State.step (fun s => s.db.AddsUp) (State.start .empty) unevenTrade := by
  constructor
  · decide +kernel
  · have hempty : Database.empty.AddsUp := fun s hs => absurd hs List.not_mem_nil
    exact (State.money_adds_up .empty hempty unevenTrade).mono fun s h => h.1

end TradingService
