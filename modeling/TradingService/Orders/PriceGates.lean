import TradingService.Core.OrderPolicy

/-!
# The price gates

A sell is held against the least price at which the network charges stay under their cap, a
buy against the most that it can cost.
-/

namespace TradingService

open OrderPolicy

/-- The network charges of such a trade stay under the cap, which is a share of its value. -/
def ChargeRates.Settles (rates : ChargeRates) (price quantity : Decimal) : Prop :=
  (computeCharges (price * quantity) quantity rates).wheeling +
      (computeCharges (price * quantity) quantity rates).loss ≤
    price * quantity * maxNetworkChargeBps / ChargeRates.bps

instance (rates : ChargeRates) (price quantity : Decimal) : Decidable (rates.Settles price quantity) :=
  inferInstanceAs (Decidable (_ ≤ _))

def ChargeRates.headroomBps (rates : ChargeRates) : Decimal :=
  (maxNetworkChargeBps - (rates.lossBps.toNat : ℤ) : ℤ)

/-- The floor separates the prices that can settle from those that cannot, up to one unit of
its last decimal. -/
structure ChargeRates.FloorExact (rates : ChargeRates) : Prop where
  settles : ∀ floor, minSettleablePricePerKwh rates = some floor →
    ∀ price quantity, floor ≤ price → 0 < price → 0 < quantity → rates.Settles price quantity
  tight : ∀ floor, minSettleablePricePerKwh rates = some floor → 0 < rates.wheelingRatePerKwh →
    ∀ price quantity, 0 < price → price ≤ floor - 1 / 1000000 → 0 < quantity →
      ¬ rates.Settles price quantity
  never : minSettleablePricePerKwh rates = none →
    ∀ price quantity, 0 < price → 0 < quantity → ¬ rates.Settles price quantity

/-- The gate lets an ask through only if it can settle, and turns it away for its price only
if it cannot, up to the same unit. -/
structure ChargeRates.GateExact (rates : ChargeRates) : Prop where
  admitted : ∀ price minimum quantity, 0 < price → 0 < quantity →
    checkSellPriceFloor .sell price minimum (minSettleablePricePerKwh rates) = .ok () →
      rates.Settles price quantity
  no_price : ∀ price minimum quantity, 0 < price → 0 < quantity →
    checkSellPriceFloor .sell price minimum (minSettleablePricePerKwh rates) =
        .error .tariffAdmitsNoPrice →
      ¬ rates.Settles price quantity
  below : ∀ price minimum quantity floor, 0 < price → 0 < quantity →
    checkSellPriceFloor .sell price minimum (minSettleablePricePerKwh rates) =
        .error (.belowSettleableFloor price floor) →
      price ≤ floor - 1 / 1000000 → ¬ rates.Settles price quantity

section Floor

variable {rates : ChargeRates} {price quantity floor : Decimal}

/-- The quantity cancels. -/
theorem ChargeRates.settles_iff (hq : 0 < quantity) :
    rates.Settles price quantity ↔ rates.wheelingPerKwh * bps ≤ price * rates.headroomBps := by
  have hscaled : price * quantity * maxNetworkChargeBps / bps -
      (quantity * rates.wheelingPerKwh + price * quantity * rates.lossBps.toNat / bps) =
      quantity * (price * rates.headroomBps - rates.wheelingPerKwh * bps) / bps := by
    unfold headroomBps bps
    push_cast
    ring
  unfold Settles computeCharges
  rw [← sub_nonneg, hscaled, le_div_iff₀ (by norm_num [bps]), zero_mul,
    mul_nonneg_iff_of_pos_left hq, sub_nonneg]

theorem ChargeRates.wheelingPerKwh_eq_zero : rates.wheelingPerKwh = 0 ↔ rates.wheelingRatePerKwh = 0 := by
  unfold wheelingPerKwh currencyScale
  rw [div_eq_zero_iff, or_iff_left (by norm_num), Nat.cast_eq_zero, ← UInt64.toNat_inj]
  rfl

theorem ChargeRates.wheelingPerKwh_pos (h : rates.wheelingRatePerKwh ≠ 0) : 0 < rates.wheelingPerKwh :=
  lt_of_le_of_ne wheelingPerKwh_nonneg fun h0 => h (wheelingPerKwh_eq_zero.mp h0.symm)

theorem minSettleablePricePerKwh_free (h : rates.wheelingRatePerKwh = 0) :
    minSettleablePricePerKwh rates = some 0 := if_pos (ChargeRates.wheelingPerKwh_eq_zero.mpr h)

/-- With a flat charge the floor is the price at which the cap is reached, rounded up. -/
theorem minSettleablePricePerKwh_flat (h : rates.wheelingRatePerKwh ≠ 0) :
    minSettleablePricePerKwh rates = if rates.headroomBps ≤ 0 then none else
      some ((⌈rates.wheelingPerKwh * ChargeRates.bps / rates.headroomBps * 1000000⌉ : Decimal) / 1000000) := by
  have hheadroom : (maxNetworkChargeBps : Decimal) - (rates.lossBps.toNat : ℤ) = rates.headroomBps := by
    unfold ChargeRates.headroomBps
    push_cast
    rfl
  unfold minSettleablePricePerKwh
  rw [if_neg (mt ChargeRates.wheelingPerKwh_eq_zero.mp h)]
  simp only [hheadroom]

theorem ChargeRates.headroomBps_nonneg : 0 ≤ rates.headroomBps ↔ rates.lossBps ≤ 2000 := by
  unfold headroomBps maxNetworkChargeBps
  rw [Int.cast_nonneg_iff, UInt16.le_iff_toNat_le, show (2000 : UInt16).toNat = 2000 from rfl]
  omega

/-- Rounding up at the sixth place keeps a price above `x`, and one unit less is below it. -/
theorem floor_at_sixth (x : ℚ) :
    x ≤ ⌈x * 1000000⌉ / 1000000 ∧ (⌈x * 1000000⌉ : ℚ) / 1000000 - 1 / 1000000 < x := by
  have hle := Int.le_ceil (x * 1000000)
  have hlt := Int.ceil_lt_add_one (x * 1000000)
  constructor
  · rw [le_div_iff₀ (by norm_num)]
    exact hle
  · rw [← sub_div, div_lt_iff₀ (by norm_num)]
    linarith

/-- A positive flat charge makes the floor exact, whatever the proportional one is. -/
theorem ChargeRates.floorExact_flat (h : rates.wheelingRatePerKwh ≠ 0) : rates.FloorExact := by
  have hflat : 0 < rates.wheelingPerKwh * bps := mul_pos (wheelingPerKwh_pos h) (by norm_num [bps])
  have hfloor := minSettleablePricePerKwh_flat h
  split_ifs at hfloor with hheadroom
  · refine ⟨fun floor hf => ?_, fun floor hf => ?_, fun _ price quantity hp hq hsettles => ?_⟩
    · rw [hfloor] at hf
      cases hf
    · rw [hfloor] at hf
      cases hf
    · have hcap := (settles_iff hq).mp hsettles
      have hnone : price * rates.headroomBps ≤ 0 := mul_nonpos_of_nonneg_of_nonpos hp.le hheadroom
      linarith
  · have hpos := not_le.mp hheadroom
    obtain ⟨habove, hbelow⟩ := floor_at_sixth (rates.wheelingPerKwh * bps / rates.headroomBps)
    refine ⟨fun floor hf price quantity hle _ hq => ?_, fun floor hf _ price quantity _ hle hq hsettles => ?_,
      fun hf => ?_⟩
    · rw [hfloor] at hf
      obtain rfl := Option.some.inj hf
      exact (settles_iff hq).mpr ((div_le_iff₀ hpos).mp (habove.trans hle))
    · rw [hfloor] at hf
      obtain rfl := Option.some.inj hf
      have hcap := (div_le_iff₀ hpos).mpr ((settles_iff hq).mp hsettles)
      linarith
    · rw [hfloor] at hf
      cases hf

/-- Without a flat charge the floor is zero. The proportional charge has to fit under the cap
by itself then, and nothing looks whether it does. -/
theorem ChargeRates.floorExact_free (h : rates.wheelingRatePerKwh = 0) :
    rates.FloorExact ↔ rates.lossBps ≤ 2000 := by
  have hfloor := minSettleablePricePerKwh_free h
  have hfree : rates.wheelingPerKwh * bps = 0 := by rw [wheelingPerKwh_eq_zero.mpr h, zero_mul]
  rw [← headroomBps_nonneg]
  constructor
  · intro hexact
    have hone := (settles_iff one_pos).mp (hexact.settles 0 hfloor 1 1 zero_le_one one_pos one_pos)
    rwa [hfree, one_mul] at hone
  · intro hheadroom
    refine ⟨fun floor _ price quantity _ hp hq => ?_, fun _ _ hflat => ?_, fun hf => ?_⟩
    · rw [settles_iff hq, hfree]
      exact mul_nonneg hp.le hheadroom
    · rw [h] at hflat
      cases hflat
    · rw [hfloor] at hf
      cases hf

theorem checkSellPriceFloor_admitted {minimum : Decimal} {settleableFloor : Option Decimal}
    (h : checkSellPriceFloor .sell price minimum settleableFloor = .ok ()) :
    ∃ floor, settleableFloor = some floor ∧ floor ≤ price ∧ minimum ≤ price := by
  cases settleableFloor with
  | none => cases h
  | some floor =>
    simp only [checkSellPriceFloor, ne_eq, not_true_eq_false, if_false] at h
    split_ifs at h with hlow hmin
    exact ⟨floor, rfl, not_lt.mp hlow, not_lt.mp hmin⟩

theorem checkSellPriceFloor_noPrice {minimum : Decimal} {settleableFloor : Option Decimal}
    (h : checkSellPriceFloor .sell price minimum settleableFloor = .error .tariffAdmitsNoPrice) :
    settleableFloor = none := by
  cases settleableFloor with
  | none => rfl
  | some floor =>
    simp only [checkSellPriceFloor, ne_eq, not_true_eq_false, if_false] at h
    split_ifs at h <;> cases h

theorem checkSellPriceFloor_below {minimum : Decimal} {settleableFloor : Option Decimal}
    (h : checkSellPriceFloor .sell price minimum settleableFloor =
      .error (.belowSettleableFloor price floor)) :
    settleableFloor = some floor ∧ price < floor := by
  cases settleableFloor with
  | none => cases h
  | some floor' =>
    simp only [checkSellPriceFloor, ne_eq, not_true_eq_false, if_false] at h
    split_ifs at h with hlow
    · cases h
      exact ⟨rfl, hlow⟩
    · cases h

theorem ChargeRates.FloorExact.gateExact (h : rates.FloorExact) : rates.GateExact where
  admitted price minimum quantity hp hq hok := by
    obtain ⟨floor, hfloor, hle, _⟩ := checkSellPriceFloor_admitted hok
    exact h.settles floor hfloor price quantity hle hp hq
  no_price price minimum quantity hp hq herr :=
    h.never (checkSellPriceFloor_noPrice herr) price quantity hp hq
  below price minimum quantity floor hp hq herr hlow := by
    obtain ⟨hfloor, hlt⟩ := checkSellPriceFloor_below herr
    have hflat : rates.wheelingRatePerKwh ≠ 0 := by
      intro hfree
      rw [minSettleablePricePerKwh_free hfree] at hfloor
      obtain rfl := Option.some.inj hfloor
      exact absurd hlt (not_lt.mpr hp.le)
    exact h.tight floor hfloor (UInt64.pos_iff_ne_zero.mpr hflat) price quantity hp hlow hq

end Floor

/-- The floor is exact under a tariff that charges for every unit, and under one that does
not as long as its loss stays under the cap. -/
theorem ChargeRates.floorExact_iff (rates : ChargeRates) :
    rates.FloorExact ∧ rates.GateExact ↔ rates.wheelingRatePerKwh ≠ 0 ∨ rates.lossBps ≤ 2000 := by
  have hfloor : rates.FloorExact ↔ rates.wheelingRatePerKwh ≠ 0 ∨ rates.lossBps ≤ 2000 := by
    by_cases hfree : rates.wheelingRatePerKwh = 0
    · rw [floorExact_free hfree, or_iff_right (not_not.mpr hfree)]
    · exact iff_of_true (floorExact_flat hfree) (.inl hfree)
  exact ⟨fun h => hfloor.mp h.1, fun h => ⟨hfloor.mpr h, (hfloor.mpr h).gateExact⟩⟩

/-- Nothing per unit and a loss of thirty per cent: the floor is zero, and no price settles. -/
theorem ChargeRates.floorExact_loss_above_cap :
    ¬ (ChargeRates.FloorExact ⟨25, 0, 3000⟩ ∧ ChargeRates.GateExact ⟨25, 0, 3000⟩) := by
  intro h
  have hsettles := h.1.settles 0 (minSettleablePricePerKwh_free rfl) 1 1 zero_le_one one_pos one_pos
  revert hsettles
  decide +kernel

section Funding

variable {A : DecimalArithmetic} {price price' amount amount' : RustDecimal} {orderType : OrderType}

def unitsDecimal (n : ℤ) (h : |n| ≤ 79228162514264337593543950335) : RustDecimal := ⟨n, 6, h, by norm_num⟩

theorem value_unitsDecimal (n : ℤ) (h : |n| ≤ 79228162514264337593543950335) :
    (unitsDecimal n h).value * currencyAtomicPerUnit = n := by
  unfold unitsDecimal ScaledDecimal.value currencyAtomicPerUnit
  norm_num

theorem one_le_currencyAtomicPerUnit : (1 : ℚ) ≤ currencyAtomicPerUnit := by
  norm_num [currencyAtomicPerUnit]

theorem saturate_ceil_of_ge {x : ℚ} (h : 18446744073709551615 ≤ x) :
    (BoundedInt.saturate ⌈x⌉ : U64) = BoundedInt.top :=
  BoundedInt.saturate_of_ge (by exact_mod_cast h.trans (Int.le_ceil x))

theorem between_checkedMul (hA : A.Lawful) (hordered : A.Ordered) {c : Decimal}
    (hc : c ∈ A.checkedMul price.value amount.value) (z : RustDecimal) :
    (z.value ≤ price.value * amount.value → z.value ≤ c) ∧
      (price.value * amount.value ≤ z.value → c ≤ z.value) := by
  have hone : (ScaledDecimal.powTen 0 (by norm_num) : RustDecimal).value = 1 := by simp
  exact hA.between_checkedMul hordered hone hc

theorem checkedMul_nonneg (hA : A.Lawful) (hordered : A.Ordered) (hcost : 0 ≤ price.value * amount.value)
    {c : Decimal} (hc : c ∈ A.checkedMul price.value amount.value) : 0 ≤ c := by
  have hzero : (unitsDecimal 0 (by norm_num)).value = 0 := by simp [unitsDecimal, ScaledDecimal.value]
  have hbelow := (between_checkedMul hA hordered hc (unitsDecimal 0 (by norm_num))).1
  rw [hzero] at hbelow
  exact hbelow hcost

/-- The product with the number of units is exact, or too large to matter. -/
theorem costAtomic_of_checkedMul (hA : A.Lawful) (hordered : A.Ordered)
    (hcost : 0 ≤ price.value * amount.value) {c : Decimal}
    (hc : c ∈ A.checkedMul price.value amount.value) :
    costAtomic A price.value amount.value = BoundedInt.saturate ⌈c * currencyAtomicPerUnit⌉ := by
  have hnonneg := checkedMul_nonneg hA hordered hcost hc
  have hten : (10 : ℤ) ^ 6 ≤ 79228162514264337593543950335 := by norm_num
  have hunit : (ScaledDecimal.powTen 6 hten : RustDecimal).value = currencyAtomicPerUnit := by
    rw [ScaledDecimal.value_powTen]
    norm_num [currencyAtomicPerUnit]
  have hscaled : 0 ≤ c * currencyAtomicPerUnit :=
    mul_nonneg hnonneg (zero_le_one.trans one_le_currencyAtomicPerUnit)
  obtain ⟨z, rfl⟩ := ScaledDecimal.Arithmetic.exists_of_checkedMul hc
  unfold costAtomic
  rw [Option.mem_def.mp hc, Option.bind_some, ← hunit]
  rw [← hunit] at hscaled
  rcases ScaledDecimal.exists_value_mul_powTen z 6 with ⟨w, hw⟩ | hbeyond
  · rw [← ScaledDecimal.value_powTen hten] at hw
    rw [hA.checkedMul_exact hw]
    exact BoundedInt.tryFrom_getD_top (Int.ceil_nonneg hscaled)
  · rw [← ScaledDecimal.value_powTen hten] at hbeyond
    rw [hA.checkedMul_overflow hbeyond]
    rw [abs_of_nonneg hscaled] at hbeyond
    exact (saturate_ceil_of_ge (le_trans (by norm_num) hbeyond)).symm

theorem costAtomic_of_none (h : A.checkedMul price.value amount.value = none) :
    costAtomic A price.value amount.value = BoundedInt.top := by
  unfold costAtomic
  rw [h]
  rfl

theorem le_of_checkedMul_eq_none (hordered : A.Ordered) (hcost : 0 ≤ price.value * amount.value)
    (h : A.checkedMul price.value amount.value = none) :
    79228162514264337593543950335 ≤ price.value * amount.value := by
  have hbeyond := hordered.lt_of_checkedMul_eq_none h
  rw [abs_of_nonneg hcost] at hbeyond
  exact_mod_cast hbeyond.le

/-- The cost that is required is the exact one, rounded down or up, and cut at the greatest. -/
theorem costAtomic_between (hA : A.Lawful) (hordered : A.Ordered)
    (hcost : 0 ≤ price.value * amount.value) :
    BoundedInt.saturate ⌊price.value * amount.value * currencyAtomicPerUnit⌋ ≤
        costAtomic A price.value amount.value ∧
      costAtomic A price.value amount.value ≤
        BoundedInt.saturate ⌈price.value * amount.value * currencyAtomicPerUnit⌉ := by
  have hunit : (0 : ℚ) < currencyAtomicPerUnit := zero_lt_one.trans_le one_le_currencyAtomicPerUnit
  have hscaled : price.value * amount.value ≤ price.value * amount.value * currencyAtomicPerUnit :=
    le_mul_of_one_le_right hcost one_le_currencyAtomicPerUnit
  cases hc : A.checkedMul price.value amount.value with
  | none =>
    have hbeyond := le_of_checkedMul_eq_none hordered hcost hc
    rw [costAtomic_of_none hc, saturate_ceil_of_ge (le_trans (by norm_num) (hbeyond.trans hscaled))]
    exact ⟨BoundedInt.le_top _, le_rfl⟩
  | some c =>
    rw [costAtomic_of_checkedMul hA hordered hcost hc]
    have hbetween := between_checkedMul hA hordered hc
    have hfloor := Int.floor_le (price.value * amount.value * currencyAtomicPerUnit)
    have hceil := Int.le_ceil (price.value * amount.value * currencyAtomicPerUnit)
    have hfloor0 := Int.floor_nonneg.mpr (hcost.trans hscaled)
    have hceil0 := Int.ceil_nonneg (hcost.trans hscaled)
    constructor
    · have hfits : |min ⌊price.value * amount.value * currencyAtomicPerUnit⌋
          79228162514264337593543950335| ≤ 79228162514264337593543950335 := by
        rw [abs_of_nonneg (le_min hfloor0 (by norm_num))]
        exact min_le_right _ _
      have hbelow : (unitsDecimal _ hfits).value ≤ c := by
        refine (hbetween _).1 (le_of_mul_le_mul_right ?_ hunit)
        rw [value_unitsDecimal]
        exact le_trans (by exact_mod_cast min_le_left _ _) hfloor
      have hunits := mul_le_mul_of_nonneg_right hbelow hunit.le
      rw [value_unitsDecimal] at hunits
      have hwhole : min ⌊price.value * amount.value * currencyAtomicPerUnit⌋
          79228162514264337593543950335 ≤ ⌈c * currencyAtomicPerUnit⌉ := by
        exact_mod_cast hunits.trans (Int.le_ceil _)
      rcases min_le_iff.mp hwhole with hle | hle
      · exact BoundedInt.saturate_mono hle
      · rw [BoundedInt.saturate_of_ge (z := ⌈c * currencyAtomicPerUnit⌉) (by omega)]
        exact BoundedInt.le_top _
    · by_cases hfits : ⌈price.value * amount.value * currencyAtomicPerUnit⌉ ≤
          79228162514264337593543950335
      · have habove : c ≤ (unitsDecimal _ (by rwa [abs_of_nonneg hceil0])).value := by
          refine (hbetween _).2 (le_of_mul_le_mul_right ?_ hunit)
          rw [value_unitsDecimal]
          exact hceil
        have hunits := mul_le_mul_of_nonneg_right habove hunit.le
        rw [value_unitsDecimal] at hunits
        exact BoundedInt.saturate_mono (Int.ceil_le.mpr hunits)
      · rw [BoundedInt.saturate_of_ge
          (z := ⌈price.value * amount.value * currencyAtomicPerUnit⌉) (by omega)]
        exact BoundedInt.le_top _

/-- A cost that some decimal denotes is rounded up and nothing else. -/
theorem costAtomic_exact (hA : A.Lawful) (hordered : A.Ordered)
    (hcost : 0 ≤ price.value * amount.value) {z : RustDecimal}
    (hz : z.value = price.value * amount.value) :
    costAtomic A price.value amount.value =
      BoundedInt.saturate ⌈price.value * amount.value * currencyAtomicPerUnit⌉ :=
  costAtomic_of_checkedMul hA hordered hcost (hA.checkedMul_exact hz)

theorem costAtomic_mono (hA : A.Lawful) (hordered : A.Ordered)
    (hcost : 0 ≤ price.value * amount.value)
    (hle : price.value * amount.value ≤ price'.value * amount'.value) :
    costAtomic A price.value amount.value ≤ costAtomic A price'.value amount'.value := by
  cases hc' : A.checkedMul price'.value amount'.value with
  | none =>
    rw [costAtomic_of_none hc']
    exact BoundedInt.le_top _
  | some c' =>
    have hcost' := costAtomic_of_checkedMul hA hordered (hcost.trans hle) hc'
    have hunit : (0 : ℚ) ≤ currencyAtomicPerUnit := zero_le_one.trans one_le_currencyAtomicPerUnit
    cases hc : A.checkedMul price.value amount.value with
    | none =>
      have hbeyond := le_of_checkedMul_eq_none hordered hcost hc
      have hlargest : (79228162514264337593543950335 : ℚ) ≤ c' := by
        have hbelow := (between_checkedMul hA hordered hc'
          ⟨79228162514264337593543950335, 0, by norm_num, by norm_num⟩).1
        simp only [ScaledDecimal.value, pow_zero, div_one, Int.cast_ofNat] at hbelow
        exact hbelow (hbeyond.trans hle)
      have hscaled := le_mul_of_one_le_right (le_trans (by norm_num) hlargest) one_le_currencyAtomicPerUnit
      rw [hcost', saturate_ceil_of_ge (le_trans (by norm_num) (hlargest.trans hscaled))]
      exact BoundedInt.le_top _
    | some c =>
      rw [hcost', costAtomic_of_checkedMul hA hordered hcost hc]
      have hrounded := hordered.checkedMul_mono hle hc hc'
      exact BoundedInt.saturate_mono (Int.ceil_mono (mul_le_mul_of_nonneg_right hrounded hunit))

theorem requiredBuyFunding_explicit (A : DecimalArithmetic) (orderType : OrderType)
    (explicit price amount : Decimal) :
    requiredBuyFunding A .buy orderType (some explicit) price amount = .atomic (costAtomic A price amount) := by
  simp [requiredBuyFunding]

theorem checkBuyFunding_atomic {required available : U64} :
    checkBuyFunding (.atomic required) available = .ok () ↔ required ≤ available := by
  simp only [checkBuyFunding]
  split_ifs with h <;> simp [h]

theorem resolveOrderPrice_explicit {timeInForce : TimeInForce} {cap price : Decimal}
    (h : resolveOrderPrice orderType .buy timeInForce (some cap) = .ok price) : price = cap ∧ 0 < cap := by
  cases orderType with
  | limit =>
    simp only [resolveOrderPrice, reduceCtorEq, false_and, if_false] at h
    split_ifs at h with hcap
    exact ⟨(Except.ok.inj h).symm, not_le.mp hcap⟩
  | market =>
    simp only [resolveOrderPrice, reduceCtorEq, false_and, if_false] at h
    split_ifs at h with hgtc hcap
    exact ⟨(Except.ok.inj h).symm, not_le.mp hcap⟩

end Funding

/-- One way in which a buy fills: quantities, each with its price. -/
structure FillsWithin (amount cap : Decimal) (fills : List (Decimal × Decimal)) : Prop where
  quantity_pos : ∀ fill ∈ fills, 0 < fill.1
  total_le : (fills.map Prod.fst).sum ≤ amount
  price_le : ∀ fill ∈ fills, fill.2 ≤ cap

def spentUnits (fills : List (Decimal × Decimal)) : ℤ :=
  (fills.map fun fill => ⌊(fill.1 * fill.2 * currencyAtomicPerUnit : Decimal)⌋).sum

/-- The balance pays for every way in which an order that the gate admits can fill. -/
def FundingCovers (A : DecimalArithmetic) (orderType : OrderType) (cap price amount : Decimal)
    (available : U64) : Prop :=
  checkBuyFunding (requiredBuyFunding A .buy orderType (some cap) price amount) available = .ok () →
    ∀ fills, FillsWithin amount cap fills → spentUnits fills ≤ available

section Covers

variable {amount cap : Decimal} {fills : List (Decimal × Decimal)}

theorem FillsWithin.cost_le (h : FillsWithin amount cap fills) (hcap : 0 ≤ cap) :
    (fills.map fun fill => fill.1 * fill.2).sum ≤ cap * amount := by
  have heach : (fills.map fun fill => fill.1 * fill.2).sum ≤ (fills.map fun fill => cap * fill.1).sum :=
    List.sum_le_sum fun fill hfill => by
      rw [mul_comm cap]
      exact mul_le_mul_of_nonneg_left (h.price_le fill hfill) (h.quantity_pos fill hfill).le
  calc (fills.map fun fill => fill.1 * fill.2).sum
      ≤ (fills.map fun fill => cap * fill.1).sum := heach
    _ = cap * (fills.map Prod.fst).sum := List.sum_map_mul_left fills Prod.fst cap
    _ ≤ cap * amount := mul_le_mul_of_nonneg_left h.total_le hcap

/-- Rounding every fill down loses more than rounding their sum down. -/
theorem spentUnits_le (fills : List (Decimal × Decimal)) :
    spentUnits fills ≤ ⌊(fills.map fun fill => fill.1 * fill.2).sum * currencyAtomicPerUnit⌋ := by
  rw [Int.le_floor]
  induction fills with
  | nil => simp [spentUnits]
  | cons fill fills ih =>
    have hfloor := Int.floor_le (fill.1 * fill.2 * currencyAtomicPerUnit)
    simp only [spentUnits, List.map_cons, List.sum_cons, Int.cast_add, add_mul] at ih ⊢
    linarith

theorem FillsWithin.spentUnits_le (h : FillsWithin amount cap fills) (hcap : 0 ≤ cap) :
    spentUnits fills ≤ ⌊cap * amount * currencyAtomicPerUnit⌋ :=
  (TradingService.spentUnits_le fills).trans
    (Int.floor_mono (mul_le_mul_of_nonneg_right (h.cost_le hcap) (by norm_num [currencyAtomicPerUnit])))

theorem fillsWithin_whole (hamount : 0 < amount) : FillsWithin amount cap [(amount, cap)] where
  quantity_pos := by simpa using hamount
  total_le := by simp
  price_le := by simp

theorem spentUnits_whole : spentUnits [(amount, cap)] = ⌊cap * amount * currencyAtomicPerUnit⌋ := by
  simp [spentUnits, mul_comm cap]

end Covers

section Gate

variable {A : DecimalArithmetic} {cap amount cap' amount' : RustDecimal} {orderType : OrderType}

/-- An order that is admitted is covered, unless its cost was cut and the balance is the
greatest there is. -/
theorem fundingCovers_iff (hA : A.Lawful) (hordered : A.Ordered) (hcap : 0 < cap.value)
    (hamount : 0 < amount.value) (available : U64) :
    FundingCovers A orderType cap.value cap.value amount.value available ↔
      available ≠ BoundedInt.top ∨
        ⌊cap.value * amount.value * currencyAtomicPerUnit⌋ ≤ 18446744073709551615 := by
  unfold FundingCovers
  rw [requiredBuyFunding_explicit, checkBuyFunding_atomic]
  have hrounded := (costAtomic_between hA hordered (mul_pos hcap hamount).le).1
  constructor
  · intro hcovers
    by_contra! hcut
    obtain ⟨rfl, hbeyond⟩ := hcut
    have hspent := hcovers (BoundedInt.le_top _) _ (fillsWithin_whole hamount)
    rw [spentUnits_whole] at hspent
    exact absurd hspent (not_le.mpr hbeyond)
  · intro hfits hadmitted fills hfills
    have hspent := hfills.spentUnits_le hcap.le
    have hrequired := hrounded.trans hadmitted
    by_cases hcut : ⌊cap.value * amount.value * currencyAtomicPerUnit⌋ ≤ 18446744073709551615
    · have hnonneg : 0 ≤ ⌊cap.value * amount.value * currencyAtomicPerUnit⌋ :=
        Int.floor_nonneg.mpr (by unfold currencyAtomicPerUnit; positivity)
      have hexact := BoundedInt.le_iff.mp hrequired
      rw [BoundedInt.saturate_of_mem hnonneg hcut] at hexact
      exact hspent.trans hexact
    · rw [BoundedInt.saturate_of_ge (not_le.mp hcut).le] at hrequired
      have hgreatest : available = BoundedInt.top := le_antisymm (BoundedInt.le_top _) hrequired
      exact absurd (hfits.resolve_left (not_not.mpr hgreatest)) hcut

theorem requiredBuyFunding_mono (hA : A.Lawful) (hordered : A.Ordered) (hcap : 0 ≤ cap.value)
    (hamount : 0 ≤ amount.value) (hcap' : cap.value ≤ cap'.value)
    (hamount' : amount.value ≤ amount'.value) :
    ∃ required required',
      requiredBuyFunding A .buy orderType (some cap.value) cap.value amount.value = .atomic required ∧
        requiredBuyFunding A .buy orderType (some cap'.value) cap'.value amount'.value =
          .atomic required' ∧ required ≤ required' := by
  refine ⟨_, _, requiredBuyFunding_explicit _ _ _ _ _, requiredBuyFunding_explicit _ _ _ _ _, ?_⟩
  exact costAtomic_mono hA hordered (mul_nonneg hcap hamount)
    (mul_le_mul hcap' hamount' hamount (hcap.trans hcap'))

end Gate

/-- What the gate admits for a named price covers every way of filling, whenever the balance
is not the greatest number of units or the cost is one. The requirement is the cost, rounded up
where its decimal is exact and down or up where it had to be rounded, it grows with the amount
and with the price, and it stops at the greatest number. -/
theorem buy_funding_covers_fills (A : DecimalArithmetic) (hA : A.Lawful) (hordered : A.Ordered)
    (orderType : OrderType) (timeInForce : TimeInForce) (cap amount : RustDecimal) (price : Decimal)
    (available : U64) (hamount : 0 < amount.value)
    (hprice : resolveOrderPrice orderType .buy timeInForce (some cap.value) = .ok price) :
    (FundingCovers A orderType cap.value price amount.value available ↔
      available ≠ BoundedInt.top ∨
        ⌊cap.value * amount.value * currencyAtomicPerUnit⌋ ≤ 18446744073709551615) ∧
    (∃ required,
      requiredBuyFunding A .buy orderType (some cap.value) price amount.value = .atomic required ∧
        BoundedInt.saturate ⌊cap.value * amount.value * currencyAtomicPerUnit⌋ ≤ required ∧
        required ≤ BoundedInt.saturate ⌈cap.value * amount.value * currencyAtomicPerUnit⌉ ∧
        ((∃ z : RustDecimal, z.value = cap.value * amount.value) →
          required = BoundedInt.saturate ⌈cap.value * amount.value * currencyAtomicPerUnit⌉)) ∧
    ∀ cap' amount' : RustDecimal, cap.value ≤ cap'.value → amount.value ≤ amount'.value →
      ∃ required required',
        requiredBuyFunding A .buy orderType (some cap.value) price amount.value = .atomic required ∧
          requiredBuyFunding A .buy orderType (some cap'.value) cap'.value amount'.value =
            .atomic required' ∧ required ≤ required' := by
  obtain ⟨rfl, hcap⟩ := resolveOrderPrice_explicit hprice
  have hcost := (mul_pos hcap hamount).le
  obtain ⟨hlow, hhigh⟩ := costAtomic_between hA hordered hcost
  refine ⟨fundingCovers_iff hA hordered hcap hamount available,
    ⟨_, requiredBuyFunding_explicit _ _ _ _ _, hlow, hhigh, ?_⟩,
    fun _ _ => requiredBuyFunding_mono hA hordered hcap.le hamount.le⟩
  rintro ⟨z, hz⟩
  exact costAtomic_exact hA hordered hcost hz

/-- The library's arithmetic, where the last digits are rounded half to even. -/
theorem ordered_decimalArithmetic : (ScaledDecimal.rounded : DecimalArithmetic).Ordered :=
  ScaledDecimal.ordered_rounded (by decide +kernel)

def RustDecimal.ofNat (n : ℕ) (h : (n : ℤ) ≤ 79228162514264337593543950335) : RustDecimal :=
  ⟨n, 0, by simpa using h, by norm_num⟩

theorem buy_funding_covers_fills_two_units :
    FundingCovers ScaledDecimal.rounded .limit 2 2 3 ⟨6000000, by norm_num, by norm_num⟩ := by
  have hfits : ⌊((2 : ℚ) * 3 * currencyAtomicPerUnit)⌋ ≤ 18446744073709551615 := by decide +kernel
  have hcovers := (buy_funding_covers_fills ScaledDecimal.rounded ScaledDecimal.lawful_rounded
    ordered_decimalArithmetic .limit .gtc (.ofNat 2 (by norm_num)) (.ofNat 3 (by norm_num)) 2
    ⟨6000000, by norm_num, by norm_num⟩ (by decide +kernel) (by decide +kernel)).1
  simp only [RustDecimal.ofNat, ScaledDecimal.value, pow_zero, div_one, Nat.cast_ofNat,
    Int.cast_ofNat] at hcovers
  exact hcovers.mpr (.inr hfits)

/-- Twenty million million kilowatt hours at the price of a million: the cost is cut, and the
greatest balance passes for it. -/
theorem buy_funding_saturated :
    ¬ FundingCovers ScaledDecimal.rounded .limit 1000000 1000000 20000000000000 BoundedInt.top := by
  intro hcovers
  have hspent := hcovers (by decide +kernel) [(20000000000000, 1000000)] (fillsWithin_whole (by norm_num))
  revert hspent
  decide +kernel

end TradingService
