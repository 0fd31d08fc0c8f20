import TradingService.Ledger.Matching

/-!
# The audit of the ledger

The auditor recomputes the charges of a stored settlement from its stored gross and compares
them exactly. A charge is rounded when it is stored, and so is the gross that it is later
recomputed from, so a settlement that was booked correctly passes only where neither rounding
shows.
-/

namespace TradingService

structure AuditOutcome where
  examined : ℕ
  brokenIdentity : ℕ
  offTariff : ℕ
  deriving DecidableEq

def ChargeRates.known (rates : ChargeRates) : Bool :=
  rates.wheelingRatePerKwh ≠ 0 ∨ rates.feeBps ≠ 0 ∨ rates.lossBps ≠ 0

def AuditOutcome.count (ratesKnown : Bool) (outcome : AuditOutcome) : LedgerDiscrepancy → AuditOutcome
  | .doesNotSumToGross _ _ => { outcome with brokenIdentity := outcome.brokenIdentity + 1 }
  | .chargeOffTariff _ _ _ =>
    if ratesKnown then { outcome with offTariff := outcome.offTariff + 1 } else outcome

def Settlement.reconcile (s : Settlement Numeric) (rates : ChargeRates) : List LedgerDiscrepancy :=
  reconcileCharges s.totalAmount.toDecimal s.energyAmount.toDecimal s.feeAmount.toDecimal
    s.wheelingCharge.toDecimal s.lossCost.toDecimal s.netAmount.toDecimal rates

def auditRows (rows : List (Settlement Numeric)) (rates : ChargeRates) : AuditOutcome :=
  rows.foldl (fun outcome s => (s.reconcile rates).foldl (AuditOutcome.count rates.known) outcome)
    { examined := rows.length, brokenIdentity := 0, offTariff := 0 }

structure AuditOutcome.Clean (outcome : AuditOutcome) : Prop where
  brokenIdentity : outcome.brokenIdentity = 0
  offTariff : outcome.offTariff = 0

instance (outcome : AuditOutcome) : Decidable outcome.Clean :=
  decidable_of_iff (outcome.brokenIdentity = 0 ∧ outcome.offTariff = 0)
    ⟨fun h => ⟨h.1, h.2⟩, fun h => ⟨h.1, h.2⟩⟩

section Outcome

/-- A property of an accumulator to which each step adds a condition of its own. -/
theorem foldl_iff {α β : Type} {f : β → α → β} {P : β → Prop} {Q : α → Prop}
    (hstep : ∀ b a, P (f b a) ↔ P b ∧ Q a) (as : List α) (b : β) :
    P (as.foldl f b) ↔ P b ∧ ∀ a ∈ as, Q a := by
  induction as generalizing b with
  | nil => simp
  | cons a as ih =>
    rw [List.foldl_cons, ih, hstep, List.forall_mem_cons, and_assoc]

def LedgerDiscrepancy.IsCounted (ratesKnown : Bool) : LedgerDiscrepancy → Prop
  | .doesNotSumToGross _ _ => True
  | .chargeOffTariff _ _ _ => ratesKnown = true

theorem AuditOutcome.clean_count (ratesKnown : Bool) (outcome : AuditOutcome) (d : LedgerDiscrepancy) :
    (outcome.count ratesKnown d).Clean ↔ outcome.Clean ∧ ¬ d.IsCounted ratesKnown := by
  cases d with
  | doesNotSumToGross accounted gross =>
    exact ⟨fun h => absurd h.brokenIdentity (Nat.succ_ne_zero _), fun h => absurd trivial h.2⟩
  | chargeOffTariff field booked expected =>
    cases ratesKnown with
    | false => exact (and_iff_left Bool.false_ne_true).symm
    | true => exact ⟨fun h => absurd h.offTariff (Nat.succ_ne_zero _), fun h => absurd rfl h.2⟩

theorem auditRows_clean_iff_forall (rows : List (Settlement Numeric)) (rates : ChargeRates) :
    (auditRows rows rates).Clean ↔
      ∀ s ∈ rows, ∀ d ∈ s.reconcile rates, ¬ d.IsCounted rates.known := by
  have hrow := fun outcome (s : Settlement Numeric) =>
    foldl_iff (AuditOutcome.clean_count rates.known) (s.reconcile rates) outcome
  exact (foldl_iff hrow rows _).trans (and_iff_right ⟨rfl, rfl⟩)

end Outcome

/-- A match that is being booked, its amount with eight decimals and its price with nine. -/
structure BookedMatch where
  job : Job
  found : MatchResult
  ids : TradeIds
  amount : ℤ
  price : ℤ
  matchAmount_eq : found.matchAmount = amount / 100000000
  settlePrice_eq : found.settlePrice = price / 1000000000

def BookedMatch.settlement (b : BookedMatch) (rates : ChargeRates) : Settlement Decimal :=
  b.job.settlement b.found b.ids rates

section Residues

def grossUnits (amount price : ℤ) : ℚ := amount * price / 1000000000

def storedGross (amount price : ℤ) : ℤ := Rounding.halfAway (grossUnits amount price)

def grossError (amount price : ℤ) : ℚ := grossUnits amount price - storedGross amount price

/-- The charges of the stored gross have eight decimals, and rounding loses the share that
each of them has in what the column of the gross leaves out. -/
structure ChargeRates.Representable (rates : ChargeRates) (amount price : ℤ) : Prop where
  fee : (10000 : ℤ) ∣ storedGross amount price * rates.feeBps.toNat
  wheeling : (1000000 : ℤ) ∣ amount * rates.wheelingRatePerKwh.toNat
  loss : (10000 : ℤ) ∣ storedGross amount price * rates.lossBps.toNat
  feeError : Rounding.Absorbs (storedGross amount price * rates.feeBps.toNat / 10000)
    (grossError amount price * rates.feeBps.toNat / 10000)
  lossError : Rounding.Absorbs (storedGross amount price * rates.lossBps.toNat / 10000)
    (grossError amount price * rates.lossBps.toNat / 10000)
  netError : Rounding.Absorbs
    (storedGross amount price * (1 - rates.feeBps.toNat / 10000 - rates.lossBps.toNat / 10000) -
      amount * rates.wheelingRatePerKwh.toNat / 1000000)
    (grossError amount price * (1 - rates.feeBps.toNat / 10000 - rates.lossBps.toNat / 10000))

instance (rates : ChargeRates) (amount price : ℤ) : Decidable (rates.Representable amount price) :=
  decidable_of_iff (_ ∧ _ ∧ _ ∧ _ ∧ _ ∧ _)
    ⟨fun h => ⟨h.1, h.2.1, h.2.2.1, h.2.2.2.1, h.2.2.2.2.1, h.2.2.2.2.2⟩,
      fun h => ⟨h.1, h.2, h.3, h.4, h.5, h.6⟩⟩

theorem grossUnits_eq_add (amount price : ℤ) :
    grossUnits amount price = storedGross amount price + grossError amount price :=
  (add_sub_cancel _ _).symm

theorem share_eq_iff (amount price : ℤ) (bps : ℕ) :
    (Rounding.halfAway (grossUnits amount price * bps / 10000) : ℚ) =
        storedGross amount price * bps / 10000 ↔
      (10000 : ℤ) ∣ storedGross amount price * bps ∧
        Rounding.Absorbs (storedGross amount price * bps / 10000)
          (grossError amount price * bps / 10000) := by
  have hsplit : grossUnits amount price * bps / 10000 =
      storedGross amount price * bps / 10000 + grossError amount price * bps / 10000 := by
    rw [grossUnits_eq_add]
    ring
  have hdvd := @Rounding.exists_cast_eq_div_iff (storedGross amount price * bps) 10000 (by norm_num)
  push_cast at hdvd
  rw [hsplit, Rounding.cast_halfAway_add_eq_iff, hdvd]

theorem wheeling_eq_iff (amount : ℤ) (rate : ℕ) :
    (Rounding.halfAway (amount * rate / 1000000) : ℚ) = amount * rate / 1000000 ↔
      (1000000 : ℤ) ∣ amount * rate := by
  have hdvd := @Rounding.exists_cast_eq_div_iff (amount * rate) 1000000 (by norm_num)
  push_cast at hdvd
  rw [← hdvd]
  exact ⟨fun h => ⟨_, h⟩, fun ⟨z, hz⟩ => by rw [← hz, Rounding.halfAway_intCast]⟩

theorem abs_grossError_le (amount price : ℤ) : |grossError amount price| ≤ 1 / 2 :=
  (Rounding.absorbs_halfAway (grossUnits amount price)).abs_le

/-- Less than the whole of what the column leaves out is lost in rounding. -/
theorem absorbs_grossError_mul {amount price : ℤ} {z q : ℚ} (h0 : 0 ≤ q) (h1 : q < 1) :
    Rounding.Absorbs z (grossError amount price * q) := by
  refine .inl ?_
  have herror := abs_grossError_le amount price
  rw [abs_mul, abs_of_nonneg h0]
  calc |grossError amount price| * q ≤ 1 / 2 * q := mul_le_mul_of_nonneg_right herror h0
    _ < 1 / 2 := by linarith

/-- Under a tariff with a charge on the value, which leaves the seller some of it, only the
divisions matter. -/
theorem ChargeRates.representable_iff_dvd {rates : ChargeRates} {amount price : ℤ}
    (hpos : 0 < rates.feeBps.toNat + rates.lossBps.toNat)
    (hlt : rates.feeBps.toNat + rates.lossBps.toNat < 10000) :
    rates.Representable amount price ↔
      (10000 : ℤ) ∣ storedGross amount price * rates.feeBps.toNat ∧
        (1000000 : ℤ) ∣ amount * rates.wheelingRatePerKwh.toNat ∧
        (10000 : ℤ) ∣ storedGross amount price * rates.lossBps.toNat := by
  have hfee : (0 : ℚ) ≤ rates.feeBps.toNat := Nat.cast_nonneg _
  have hloss : (0 : ℚ) ≤ rates.lossBps.toNat := Nat.cast_nonneg _
  have hpos' : (0 : ℚ) < rates.feeBps.toNat + rates.lossBps.toNat := by exact_mod_cast hpos
  have hlt' : (rates.feeBps.toNat + rates.lossBps.toNat : ℚ) < 10000 := by exact_mod_cast hlt
  constructor
  · intro h
    exact ⟨h.fee, h.wheeling, h.loss⟩
  · rintro ⟨hfees, hwheeling, hlosses⟩
    refine ⟨hfees, hwheeling, hlosses, ?_, ?_, ?_⟩
    · rw [mul_div_assoc (grossError _ _)]
      exact absorbs_grossError_mul (by linarith) (by linarith)
    · rw [mul_div_assoc (grossError _ _)]
      exact absorbs_grossError_mul (by linarith) (by linarith)
    · exact absorbs_grossError_mul (by linarith) (by linarith)

theorem ChargeRates.representable_of_unknown {rates : ChargeRates} (h : rates.known = false)
    (amount price : ℤ) : rates.Representable amount price := by
  obtain ⟨hwheeling, hfee, hloss⟩ : rates.wheelingRatePerKwh = 0 ∧ rates.feeBps = 0 ∧
      rates.lossBps = 0 := by simpa [ChargeRates.known, not_or] using h
  have hzero : Rounding.Absorbs 0 0 := .inl (by norm_num)
  have hgross := Rounding.absorbs_halfAway (grossUnits amount price)
  constructor <;> simp [hwheeling, hfee, hloss, hzero]
  exact hgross

end Residues

section Columns

variable {b : BookedMatch} {rates : ChargeRates} {row : Settlement Numeric}

/-- The columns of the row that a match is booked as, in units of the eighth decimal. -/
structure BookedMatch.Columns (b : BookedMatch) (rates : ChargeRates) (row : Settlement Numeric) :
    Prop where
  energyAmount : (row.energyAmount.units : ℤ) = b.amount
  totalAmount : (row.totalAmount.units : ℤ) = storedGross b.amount b.price
  feeAmount : (row.feeAmount.units : ℤ) =
    Rounding.halfAway (grossUnits b.amount b.price * rates.feeBps.toNat / 10000)
  wheelingCharge : (row.wheelingCharge.units : ℤ) =
    Rounding.halfAway (b.amount * rates.wheelingRatePerKwh.toNat / 1000000)
  lossCost : (row.lossCost.units : ℤ) =
    Rounding.halfAway (grossUnits b.amount b.price * rates.lossBps.toNat / 10000)
  netAmount : (row.netAmount.units : ℤ) =
    Rounding.halfAway
      (grossUnits b.amount b.price * (1 - rates.feeBps.toNat / 10000 - rates.lossBps.toNat / 10000) -
        b.amount * rates.wheelingRatePerKwh.toNat / 1000000)

theorem BookedMatch.columns (h : (b.settlement rates).store = some row) : b.Columns rates row := by
  simp only [Settlement.store, Option.bind_eq_bind, Option.bind_eq_some_iff] at h
  obtain ⟨energy, henergy, price, _, total, htotal, fee, hfee, net, hnet, wheeling, hwheeling, _, _,
    loss, hloss, _, _, h⟩ := h
  obtain rfl := Option.some.inj h
  have hamount : b.found.matchAmount * Numeric.scale = b.amount := by
    rw [b.matchAmount_eq]
    simp only [Numeric.scale]
    push_cast
    ring
  have hgross : b.found.matchAmount * b.found.settlePrice * Numeric.scale =
      grossUnits b.amount b.price := by
    rw [mul_right_comm, hamount, b.settlePrice_eq, grossUnits, mul_div_assoc]
  exact
    { energyAmount := by
        rw [Numeric.units_eq_halfAway henergy]
        change Rounding.halfAway (b.found.matchAmount * Numeric.scale) = _
        rw [hamount, Rounding.halfAway_intCast]
      totalAmount := by
        rw [Numeric.units_eq_halfAway htotal, storedGross, ← hgross]
        rfl
      feeAmount := by
        rw [Numeric.units_eq_halfAway hfee, ← hgross]
        congr 1
        simp only [settlement, Job.settlement, computeCharges, ChargeRates.bps]
        ring
      wheelingCharge := by
        rw [Numeric.units_eq_halfAway hwheeling, ← hamount]
        congr 1
        simp only [settlement, Job.settlement, computeCharges, ChargeRates.wheelingPerKwh,
          ChargeRates.currencyScale]
        ring
      lossCost := by
        rw [Numeric.units_eq_halfAway hloss, ← hgross]
        congr 1
        simp only [settlement, Job.settlement, computeCharges, ChargeRates.bps]
        ring
      netAmount := by
        rw [Numeric.units_eq_halfAway hnet, ← hgross, ← hamount]
        congr 1
        simp only [settlement, Job.settlement, computeCharges, ChargeRates.bps,
          ChargeRates.wheelingPerKwh, ChargeRates.currencyScale]
        ring }

/-- The four comparisons with the tariff, in units of the eighth decimal. The identity follows
from them. -/
theorem BookedMatch.Columns.reconcile_eq_nil_iff (h : b.Columns rates row) :
    row.reconcile rates = [] ↔
      ((row.feeAmount.units : ℤ) : ℚ) = storedGross b.amount b.price * rates.feeBps.toNat / 10000 ∧
        ((row.wheelingCharge.units : ℤ) : ℚ) =
          b.amount * rates.wheelingRatePerKwh.toNat / 1000000 ∧
        ((row.lossCost.units : ℤ) : ℚ) = storedGross b.amount b.price * rates.lossBps.toNat / 10000 ∧
        ((row.netAmount.units : ℤ) : ℚ) =
          storedGross b.amount b.price *
              (1 - rates.feeBps.toNat / 10000 - rates.lossBps.toNat / 10000) -
            b.amount * rates.wheelingRatePerKwh.toNat / 1000000 := by
  have hscale : (Numeric.scale : ℚ) = 100000000 := by norm_num [Numeric.scale]
  unfold Settlement.reconcile reconcileCharges computeCharges
  simp only [List.append_eq_nil_iff, LedgerDiscrepancy.offTariff_eq_nil, Numeric.toDecimal, hscale,
    ChargeRates.bps, ChargeRates.wheelingPerKwh, ChargeRates.currencyScale, h.energyAmount, h.totalAmount]
  constructor
  · rintro ⟨_, hfee, hwheeling, hloss, hnet⟩
    refine ⟨?_, ?_, ?_, ?_⟩ <;> linarith
  · rintro ⟨hfee, hwheeling, hloss, hnet⟩
    refine ⟨if_pos ?_, ?_, ?_, ?_, ?_⟩ <;> linarith

theorem BookedMatch.Columns.reconcile_eq_nil_iff_representable (h : b.Columns rates row) :
    row.reconcile rates = [] ↔ rates.Representable b.amount b.price := by
  rw [h.reconcile_eq_nil_iff, h.feeAmount, h.wheelingCharge, h.lossCost, h.netAmount, share_eq_iff,
    share_eq_iff, wheeling_eq_iff]
  have hsplit : grossUnits b.amount b.price *
        (1 - rates.feeBps.toNat / 10000 - rates.lossBps.toNat / 10000) -
          b.amount * rates.wheelingRatePerKwh.toNat / 1000000 =
      storedGross b.amount b.price * (1 - rates.feeBps.toNat / 10000 - rates.lossBps.toNat / 10000) -
          b.amount * rates.wheelingRatePerKwh.toNat / 1000000 +
        grossError b.amount b.price *
          (1 - rates.feeBps.toNat / 10000 - rates.lossBps.toNat / 10000) := by
    rw [grossUnits_eq_add]
    ring
  rw [hsplit, Rounding.cast_halfAway_add_eq_iff]
  constructor
  · rintro ⟨⟨hfee, hfeeError⟩, hwheeling, ⟨hloss, hlossError⟩, _, hnetError⟩
    exact ⟨hfee, hwheeling, hloss, hfeeError, hlossError, hnetError⟩
  · intro hr
    refine ⟨⟨hr.fee, hr.feeError⟩, hr.wheeling, ⟨hr.loss, hr.lossError⟩, ?_, hr.netError⟩
    obtain ⟨fee, hfee⟩ := hr.fee
    obtain ⟨wheeling, hwheeling⟩ := hr.wheeling
    obtain ⟨loss, hloss⟩ := hr.loss
    refine ⟨storedGross b.amount b.price - fee - loss - wheeling, ?_⟩
    have hfee' : (storedGross b.amount b.price * rates.feeBps.toNat : ℚ) = 10000 * fee := by
      exact_mod_cast hfee
    have hwheeling' : (b.amount * rates.wheelingRatePerKwh.toNat : ℚ) = 1000000 * wheeling := by
      exact_mod_cast hwheeling
    have hloss' : (storedGross b.amount b.price * rates.lossBps.toNat : ℚ) = 10000 * loss := by
      exact_mod_cast hloss
    push_cast
    linarith

theorem BookedMatch.Columns.forall_not_isCounted_iff (h : b.Columns rates row) :
    (∀ d ∈ row.reconcile rates, ¬ d.IsCounted rates.known) ↔
      rates.Representable b.amount b.price := by
  rw [← h.reconcile_eq_nil_iff_representable, List.eq_nil_iff_forall_not_mem]
  cases hknown : rates.known with
  | false =>
    have hnil := h.reconcile_eq_nil_iff_representable.mpr (rates.representable_of_unknown hknown _ _)
    simp [hnil]
  | true =>
    have hcounted : ∀ d : LedgerDiscrepancy, d.IsCounted true := by
      intro d
      cases d with
      | doesNotSumToGross accounted gross => trivial
      | chargeOffTariff field booked expected => rfl
    exact ⟨fun hall d hd => hall d hd (hcounted d), fun hall d hd => absurd hd (hall d)⟩

end Columns

/-- The rows that matches were booked as pass the audit under the same tariff exactly if their
charges are representable. -/
theorem auditRows_clean_iff {rates : ChargeRates} {bookings : List BookedMatch}
    {rows : List (Settlement Numeric)}
    (h : List.Forall₂ (fun b row => (b.settlement rates).store = some row) bookings rows) :
    (auditRows rows rates).Clean ↔ ∀ b ∈ bookings, rates.Representable b.amount b.price := by
  rw [auditRows_clean_iff_forall]
  induction h with
  | nil => simp
  | cons hrow _ ih =>
    rw [List.forall_mem_cons, List.forall_mem_cons, ih, (BookedMatch.columns hrow).forall_not_isCounted_iff]

def BookedMatch.cleared (amount : ℤ) (pStar : FastPrice) : BookedMatch where
  job := Job.empty (BoundedInt.saturate 0)
  found := UniformAuction.settleFill [] (.freeGrid fun _ _ => 100) ⊥ pStar (.placed 1 10 100 ⊥)
    (.placed 2 1 100 ⊥) (amount / 100000000)
  ids := ⟨3, 4, 5, 0⟩
  amount := amount
  price := pStar.raw
  matchAmount_eq := rfl
  settlePrice_eq := by norm_num [UniformAuction.settleFill, FastPrice.toDecimal, FastPrice.factor]

theorem auditRows_clean_whole :
    ∃ row, ((BookedMatch.cleared 300000000 (.ofInt 4)).settlement .deployed).store = some row ∧
      ((auditRows [row] .deployed).Clean ↔
        ∀ b ∈ [BookedMatch.cleared 300000000 (.ofInt 4)], ChargeRates.deployed.Representable b.amount b.price) := by
  obtain ⟨row, hrow⟩ : ∃ row,
      ((BookedMatch.cleared 300000000 (.ofInt 4)).settlement .deployed).store = some row :=
    Option.isSome_iff_exists.mp (by decide +kernel)
  exact ⟨row, hrow, auditRows_clean_iff (.cons hrow .nil)⟩

/-- For 0.123 kilowatt-hours at 4.123 the columns do not add up, and three of them are off the
tariff. -/
theorem auditRows_three_decimals :
    (((BookedMatch.cleared 12300000 (.ofDecimal (4123 / 1000))).settlement .deployed).store.map
      fun row => auditRows [row] .deployed) = some ⟨1, 1, 3⟩ := by
  decide +kernel

end TradingService
