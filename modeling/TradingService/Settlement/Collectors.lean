import TradingService.Settlement.Placement

/-!
# The collector cross-check

What the ledger has booked since the first pass is compared with what the collector accounts
have received. The ledger keeps eight decimals of a charge and the chain is sent six, and the
comparison is exact.
-/

namespace TradingService

structure ChargeTotals where
  fee : Decimal
  wheeling : Decimal
  loss : Decimal
  deriving DecidableEq

namespace ChargeTotals

def minus (a b : ChargeTotals) : ChargeTotals := ⟨a.fee - b.fee, a.wheeling - b.wheeling, a.loss - b.loss⟩

def labelled (t : ChargeTotals) : List (String × Decimal) :=
  [("fee", t.fee), ("wheeling", t.wheeling), ("loss", t.loss)]

end ChargeTotals

def completedChargeTotals (rows : List (Settlement Numeric)) : ChargeTotals :=
  let completed := rows.filter fun s => s.status = .completed
  { fee := (completed.map (·.feeAmount.toDecimal)).sum
    wheeling := (completed.map (·.wheelingCharge.toDecimal)).sum
    loss := (completed.map (·.lossCost.toDecimal)).sum }

/-- What the chain answers in one pass. -/
structure CollectorReading where
  collectorAddresses : Except String (Vector String 3)
  collectorBalances : Except String ChargeTotals

structure CrossCheckOutcome where
  baselined : Bool
  collisions : ℕ
  mismatches : ℕ
  deriving DecidableEq

structure ChargeMismatch where
  charge : String
  booked : Decimal
  received : Decimal
  deriving DecidableEq

def collisions (addresses : Vector String 3) : ℕ :=
  ([(0, 1), (0, 2), (1, 2)] : List (Fin 3 × Fin 3)).countP fun pair => addresses[pair.1] = addresses[pair.2]

def mismatchedLines (booked received : ChargeTotals) : List ChargeMismatch :=
  (booked.labelled.zip received.labelled).filterMap fun line =>
    if line.1.2 = line.2.2 then none else some ⟨line.1.1, line.1.2, line.2.2⟩

abbrev CollectorBaseline := Option (ChargeTotals × ChargeTotals)

/-- One pass: what it found, what it warned about, and the baseline that it leaves. -/
def crossCheckCollectors (baseline : CollectorBaseline) (collectors : Option CollectorReading)
    (ledger : Except String ChargeTotals) :
    (CrossCheckOutcome × List ChargeMismatch) × CollectorBaseline :=
  match collectors with
  | none => ((⟨false, 0, 0⟩, []), baseline)
  | some src =>
    let found := (src.collectorAddresses.toOption.map collisions).getD 0
    match ledger, src.collectorBalances with
    | .ok ledger, .ok chain =>
      match baseline with
      | none => ((⟨true, found, 0⟩, []), some (ledger, chain))
      | some (baseLedger, baseChain) =>
        let lines := mismatchedLines (ledger.minus baseLedger) (chain.minus baseChain)
        ((⟨false, found, lines.length⟩, lines), baseline)
    | _, _ => ((⟨false, found, 0⟩, []), baseline)

def crossCheckAll : CollectorBaseline → List (Option CollectorReading × Except String ChargeTotals) →
    CollectorBaseline
  | baseline, [] => baseline
  | baseline, pass :: passes => crossCheckAll (crossCheckCollectors baseline pass.1 pass.2).2 passes

section Passes

theorem crossCheckCollectors_keeps (base : ChargeTotals × ChargeTotals) (collectors : Option CollectorReading)
    (ledger : Except String ChargeTotals) :
    (crossCheckCollectors (some base) collectors ledger).2 = some base := by
  unfold crossCheckCollectors
  cases collectors with
  | none => rfl
  | some src =>
    obtain ⟨addresses, balances⟩ := src
    cases ledger <;> cases balances <;> rfl

theorem crossCheckAll_keeps (base : ChargeTotals × ChargeTotals)
    (passes : List (Option CollectorReading × Except String ChargeTotals)) :
    crossCheckAll (some base) passes = some base := by
  induction passes with
  | nil => rfl
  | cons pass passes ih => rw [crossCheckAll, crossCheckCollectors_keeps, ih]

/-- No line is about the wheeling or the loss collector. -/
def QuietOnNetworkCharges (lines : List ChargeMismatch) : Prop :=
  ∀ line ∈ lines, line.charge ≠ "wheeling" ∧ line.charge ≠ "loss"

instance (lines : List ChargeMismatch) : Decidable (QuietOnNetworkCharges lines) :=
  inferInstanceAs (Decidable (∀ line ∈ lines, _))

theorem quiet_mismatchedLines (booked received : ChargeTotals) :
    QuietOnNetworkCharges (mismatchedLines booked received) ↔
      booked.wheeling = received.wheeling ∧ booked.loss = received.loss := by
  unfold QuietOnNetworkCharges mismatchedLines ChargeTotals.labelled
  by_cases hfee : booked.fee = received.fee <;> by_cases hwheeling : booked.wheeling = received.wheeling <;>
    by_cases hloss : booked.loss = received.loss <;> simp [hfee, hwheeling, hloss]

end Passes

section Dust

def Numeric.sentCharge (x : Numeric) : Decimal :=
  (truncOrZero x.toDecimal BaseUnits.currencyScale : ℤ) / BaseUnits.currencyScale

theorem Numeric.truncOrZero_units {x : Numeric} (h0 : (0 : ℤ) ≤ x.units) :
    (truncOrZero x.toDecimal BaseUnits.currencyScale : ℤ) = x.units / 100 := by
  have hnonneg : 0 ≤ x.toDecimal := div_nonneg (by exact_mod_cast h0) Numeric.scale_pos.le
  have hscaled : x.toDecimal * BaseUnits.currencyScale = ((x.units : ℤ) : ℚ) / ((100 : ℕ) : ℚ) := by
    unfold Numeric.toDecimal Numeric.scale BaseUnits.currencyScale
    push_cast
    ring
  rw [truncOrZero_price x hnonneg, Rounding.trunc_of_nonneg (mul_nonneg hnonneg
    (by norm_num [BaseUnits.currencyScale])), hscaled, Int.floor_div_natCast, Int.floor_intCast]
  rfl

/-- The two last decimals are what is not sent. -/
theorem Numeric.toDecimal_sub_sentCharge {x : Numeric} (h0 : (0 : ℤ) ≤ x.units) :
    x.toDecimal - x.sentCharge = ((x.units % 100 : ℤ) : ℚ) / Numeric.scale := by
  have hsplit : ((x.units : ℤ) : ℚ) = 100 * ((x.units / 100 : ℤ) : ℚ) + ((x.units % 100 : ℤ) : ℚ) := by
    exact_mod_cast (Int.mul_ediv_add_emod (x.units : ℤ) 100).symm
  rw [Numeric.toDecimal, Numeric.sentCharge, Numeric.truncOrZero_units h0, hsplit, Numeric.scale,
    BaseUnits.currencyScale]
  push_cast
  ring

theorem Numeric.sentCharge_le {x : Numeric} (h0 : (0 : ℤ) ≤ x.units) : x.sentCharge ≤ x.toDecimal := by
  rw [← sub_nonneg, Numeric.toDecimal_sub_sentCharge h0]
  exact div_nonneg (by exact_mod_cast Int.emod_nonneg _ (by norm_num)) Numeric.scale_pos.le

theorem Numeric.sentCharge_eq_iff {x : Numeric} (h0 : (0 : ℤ) ≤ x.units) :
    x.sentCharge = x.toDecimal ↔ (100 : ℤ) ∣ x.units := by
  rw [eq_comm, ← sub_eq_zero, Numeric.toDecimal_sub_sentCharge h0, div_eq_zero_iff,
    or_iff_left Numeric.scale_pos.ne', Int.cast_eq_zero, Int.dvd_iff_emod_eq_zero]

/-- Of two sums that are ordered line by line, the one is the other if every line is. -/
theorem sum_map_eq_iff_of_le {α : Type} {f g : α → Decimal} {as : List α} (hle : ∀ a ∈ as, f a ≤ g a) :
    (as.map f).sum = (as.map g).sum ↔ ∀ a ∈ as, f a = g a := by
  induction as with
  | nil => simp
  | cons a as ih =>
    obtain ⟨ha, has⟩ := List.forall_mem_cons.mp hle
    have hrest : (as.map f).sum ≤ (as.map g).sum := List.sum_le_sum has
    rw [List.map_cons, List.map_cons, List.sum_cons, List.sum_cons, List.forall_mem_cons, ← ih has]
    constructor
    · intro hsum
      exact ⟨by linarith, by linarith⟩
    · rintro ⟨hhead, hsum⟩
      rw [hhead, hsum]

end Dust

namespace Settlement

def Booked (s : Settlement Numeric) : Prop :=
  ∃ total kwh rates, 0 ≤ total ∧ 0 ≤ kwh ∧
    Numeric.store (computeCharges total kwh rates).wheeling = some s.wheelingCharge ∧
    Numeric.store (computeCharges total kwh rates).loss = some s.lossCost

/-- Both network charges are whole base units. -/
def WholeUnits (s : Settlement Numeric) : Prop :=
  (100 : ℤ) ∣ s.wheelingCharge.units ∧ (100 : ℤ) ∣ s.lossCost.units

instance (s : Settlement Numeric) : Decidable s.WholeUnits := inferInstanceAs (Decidable (_ ∧ _))

theorem units_nonneg {d : Decimal} {x : Numeric} (hd : 0 ≤ d) (h : Numeric.store d = some x) :
    (0 : ℤ) ≤ x.units := by
  have hmono : Rounding.halfAway ((0 : ℤ) : ℚ) ≤ Rounding.halfAway (d * Numeric.scale) :=
    Rounding.halfAway_mono (by push_cast; exact mul_nonneg hd Numeric.scale_pos.le)
  rwa [Rounding.halfAway_intCast, ← Numeric.units_eq_halfAway h] at hmono

theorem Booked.nonneg {s : Settlement Numeric} (h : s.Booked) :
    (0 : ℤ) ≤ s.wheelingCharge.units ∧ (0 : ℤ) ≤ s.lossCost.units := by
  obtain ⟨total, kwh, rates, htotal, hkwh, hwheeling, hloss⟩ := h
  exact ⟨units_nonneg (mul_nonneg hkwh ChargeRates.wheelingPerKwh_nonneg) hwheeling,
    units_nonneg (div_nonneg (mul_nonneg htotal (Nat.cast_nonneg _)) (by norm_num [ChargeRates.bps])) hloss⟩

end Settlement

/-- Between two passes the settlements in `settled` were completed, and the chain credited the
wheeling and loss collectors with what it was sent for each of them, and nothing else. -/
structure CreditedAsSent (rows rows' settled : List (Settlement Numeric)) (chain chain' : ChargeTotals) :
    Prop where
  completed : (rows'.filter fun s => s.status = .completed).Perm
    ((rows.filter fun s => s.status = .completed) ++ settled)
  booked : ∀ s ∈ settled, s.Booked
  wheeling : chain'.wheeling = chain.wheeling +
    (settled.map fun s => ((s.atomicAmounts.wheelingVal : ℤ) : Decimal) / BaseUnits.currencyScale).sum
  loss : chain'.loss = chain.loss +
    (settled.map fun s => ((s.atomicAmounts.lossVal : ℤ) : Decimal) / BaseUnits.currencyScale).sum

namespace CreditedAsSent

variable {rows rows' settled : List (Settlement Numeric)} {chain chain' : ChargeTotals}

/-- The two sides of one collector agree exactly if nothing was cut off any of its charges. -/
theorem line_iff (column : Settlement Numeric → Numeric) (base : Decimal)
    (h : (rows'.filter fun s => s.status = .completed).Perm
      ((rows.filter fun s => s.status = .completed) ++ settled))
    (hnonneg : ∀ s ∈ settled, (0 : ℤ) ≤ (column s).units) :
    ((rows'.filter fun s => s.status = .completed).map fun s => (column s).toDecimal).sum -
        ((rows.filter fun s => s.status = .completed).map fun s => (column s).toDecimal).sum =
      base + (settled.map fun s => (column s).sentCharge).sum - base ↔
        ∀ s ∈ settled, (100 : ℤ) ∣ (column s).units := by
  have htotal : ((rows'.filter fun s => s.status = .completed).map fun s => (column s).toDecimal).sum =
      ((rows.filter fun s => s.status = .completed).map fun s => (column s).toDecimal).sum +
        (settled.map fun s => (column s).toDecimal).sum := by
    rw [(h.map _).sum_eq, List.map_append, List.sum_append]
  have hsent : (settled.map fun s => (column s).sentCharge).sum =
      (settled.map fun s => (column s).toDecimal).sum ↔
        ∀ s ∈ settled, (column s).sentCharge = (column s).toDecimal :=
    sum_map_eq_iff_of_le fun s hs => Numeric.sentCharge_le (hnonneg s hs)
  rw [htotal, add_sub_cancel_left, add_sub_cancel_left, eq_comm, hsent]
  exact forall₂_congr fun s hs => Numeric.sentCharge_eq_iff (hnonneg s hs)

end CreditedAsSent

/-- A pass after the one that set the baseline is quiet about wheeling and loss exactly if all
the charges that were completed since then are whole base units. -/
theorem collectors_quiet_iff {rows rows' settled : List (Settlement Numeric)} {chain chain' : ChargeTotals}
    (h : CreditedAsSent rows rows' settled chain chain')
    (addresses addresses' : Except String (Vector String 3))
    (between : List (Option CollectorReading × Except String ChargeTotals)) :
    let baseline := crossCheckAll (crossCheckCollectors none (some ⟨addresses, .ok chain⟩)
      (.ok (completedChargeTotals rows))).2 between
    QuietOnNetworkCharges (crossCheckCollectors baseline (some ⟨addresses', .ok chain'⟩)
        (.ok (completedChargeTotals rows'))).1.2 ↔
      ∀ s ∈ settled, s.WholeUnits := by
  intro baseline
  have hbaseline : baseline = some (completedChargeTotals rows, chain) := crossCheckAll_keeps _ between
  rw [hbaseline]
  refine (quiet_mismatchedLines _ _).trans ?_
  have hwheeling := CreditedAsSent.line_iff (·.wheelingCharge) chain.wheeling h.completed
    fun s hs => (h.booked s hs).nonneg.1
  have hloss := CreditedAsSent.line_iff (·.lossCost) chain.loss h.completed
    fun s hs => (h.booked s hs).nonneg.2
  simp only [ChargeTotals.minus, completedChargeTotals, h.wheeling, h.loss]
  exact (and_congr hwheeling hloss).trans forall₂_and.symm

def Settlement.delivered (kwh : Decimal) : Settlement Numeric :=
  let charges := computeCharges kwh kwh .deployed
  { Settlement.between 1 2 3 with
    status := .completed
    wheelingCharge := (Numeric.store charges.wheeling).getD .zero
    lossCost := (Numeric.store charges.loss).getD .zero }

def Settlement.credit (s : Settlement Numeric) : ChargeTotals :=
  ⟨0, s.wheelingCharge.sentCharge, s.lossCost.sentCharge⟩

theorem creditedAsSent_delivered {kwh : Decimal} (hkwh : 0 ≤ kwh)
    (hwheeling : (Numeric.store (computeCharges kwh kwh .deployed).wheeling).isSome)
    (hloss : (Numeric.store (computeCharges kwh kwh .deployed).loss).isSome) :
    CreditedAsSent [] [.delivered kwh] [.delivered kwh] ⟨0, 0, 0⟩ (Settlement.delivered kwh).credit where
  completed := by simp [Settlement.delivered]
  booked := by
    simp only [List.mem_singleton, forall_eq]
    obtain ⟨wheeling, hwheeling⟩ := Option.isSome_iff_exists.mp hwheeling
    obtain ⟨loss, hloss⟩ := Option.isSome_iff_exists.mp hloss
    refine ⟨kwh, kwh, .deployed, hkwh, hkwh, ?_, ?_⟩
    · simp only [Settlement.delivered, hwheeling, Option.getD_some]
    · simp only [Settlement.delivered, hloss, Option.getD_some]
  wheeling := by simp [Settlement.credit, Numeric.sentCharge, Settlement.atomicAmounts]
  loss := by simp [Settlement.credit, Numeric.sentCharge, Settlement.atomicAmounts]

theorem collectors_quiet_one_unit :
    QuietOnNetworkCharges (crossCheckCollectors (some (completedChargeTotals [], ⟨0, 0, 0⟩))
      (some ⟨.error "no answer", .ok (Settlement.delivered 1).credit⟩)
      (.ok (completedChargeTotals [.delivered 1]))).1.2 :=
  (collectors_quiet_iff (creditedAsSent_delivered (by norm_num) (by decide +kernel) (by decide +kernel))
    (.error "no answer") (.error "no answer") []).mpr (by decide +kernel)

/-- Of 1.0000015 kilowatt-hours the ledger books a wheeling charge of 0.10000015, and the chain
is sent 0.1 of it. -/
theorem collectors_false_alarm :
    CreditedAsSent [] [.delivered (10000015 / 10000000)] [.delivered (10000015 / 10000000)] ⟨0, 0, 0⟩
        (Settlement.delivered (10000015 / 10000000)).credit ∧
      ¬ QuietOnNetworkCharges (crossCheckCollectors (some (completedChargeTotals [], ⟨0, 0, 0⟩))
        (some ⟨.error "no answer", .ok (Settlement.delivered (10000015 / 10000000)).credit⟩)
        (.ok (completedChargeTotals [.delivered (10000015 / 10000000)]))).1.2 :=
  ⟨creditedAsSent_delivered (by norm_num) (by decide +kernel) (by decide +kernel), by decide +kernel⟩

end TradingService
