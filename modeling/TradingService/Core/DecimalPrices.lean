import TradingService.Core.FastPrice
import TradingService.Lib.ScaledDecimal

/-!
# Prices and the decimals of the library

A decimal of the library has a mantissa of 96 bits and at most 28 decimal places, and its
product with the scale of the prices is exact or panics. On every decimal whose product does
not overflow the conversion is the one of exact decimals, `ofDecimal`: it keeps the order,
gives back what has nine places and clamps what is out of range. The product of prices is
computed in 128 bits.
-/

namespace TradingService

abbrev RustDecimal := ScaledDecimal 79228162514264337593543950335 28

abbrev DecimalArithmetic := ScaledDecimal.Arithmetic 79228162514264337593543950335 28

abbrev I128 :=
  BoundedInt (-170141183460469231731687303715884105728) 170141183460469231731687303715884105727

namespace FastPrice

def factorDecimal : RustDecimal := ScaledDecimal.powTen 9 (by norm_num)

/-- `From<Decimal>`, and `from_decimal` with the same body. An overflow of the product panics. -/
def fromDecimal (A : DecimalArithmetic) (d : RustDecimal) : Option FastPrice :=
  (A.mul d factorDecimal).map fun scaled =>
    let mantissa := (A.round scaled).mantissa
    if hhigh : 9223372036854775807 < mantissa then fromRaw BoundedInt.top
    else if hlow : mantissa < -9223372036854775808 then fromRaw BoundedInt.bottom
    else fromRaw ⟨mantissa, not_lt.mp hlow, not_lt.mp hhigh⟩

def toRustDecimal (p : FastPrice) : RustDecimal where
  mantissa := p.raw
  scale := 9
  mantissa_le := by
    have hlow := p.raw.lo_le
    have hhigh := p.raw.le_hi
    rw [abs_le]
    constructor <;> omega
  scale_le := by norm_num

def checkedMulWide (p q : FastPrice) : Option FastPrice :=
  match (BoundedInt.tryFrom ((p.raw : ℤ) * q.raw) : Option I128) with
  | none => none
  | some product =>
    let result := (product : ℤ).tdiv factor
    if h : 9223372036854775807 < result ∨ result < -9223372036854775808 then none
    else some (fromRaw ⟨result, not_lt.mp fun hlow => h (.inr hlow), not_lt.mp fun hhigh => h (.inl hhigh)⟩)

def greatest : FastPrice := fromRaw BoundedInt.top

def least : FastPrice := fromRaw BoundedInt.bottom

theorem value_toRustDecimal (p : FastPrice) : p.toRustDecimal.value = p.toDecimal := by
  unfold ScaledDecimal.value toRustDecimal toDecimal factor
  norm_num

section Conversion

variable {A : DecimalArithmetic} {d d' : RustDecimal} {p p' : FastPrice}

theorem clamp_eq_saturate (mantissa : ℤ) :
    (if hhigh : 9223372036854775807 < mantissa then fromRaw BoundedInt.top
      else if hlow : mantissa < -9223372036854775808 then fromRaw BoundedInt.bottom
      else fromRaw ⟨mantissa, not_lt.mp hlow, not_lt.mp hhigh⟩) = ⟨BoundedInt.saturate mantissa⟩ := by
  split_ifs with hhigh hlow
  · exact congrArg mk (BoundedInt.saturate_of_ge hhigh.le).symm
  · exact congrArg mk (BoundedInt.saturate_of_le hlow.le).symm
  · exact congrArg mk (BoundedInt.saturate_of_mem (not_lt.mp hlow) (not_lt.mp hhigh)).symm

/-- The conversion is the exact one, unless the product has no room in 96 bits. -/
theorem fromDecimal_eq (hA : A.Lawful) (d : RustDecimal) :
    fromDecimal A d = some (ofDecimal d.value) ∧ |d.value * factor| < 2 ^ 96 ∨
      fromDecimal A d = none ∧ 2 ^ 96 ≤ |d.value * factor| := by
  have hfactor : (10 : ℚ) ^ 9 = factor := by norm_num [factor]
  have hten : (10 : ℤ) ^ 9 ≤ 79228162514264337593543950335 := by norm_num
  rcases hA.mul_powTen hten d with ⟨scaled, hmul, hscaled⟩ | ⟨hmul, hbeyond⟩
  · left
    rw [hfactor] at hscaled
    refine ⟨?_, ?_⟩
    · unfold fromDecimal factorDecimal
      rw [hmul, Option.map_some]
      dsimp only
      rw [clamp_eq_saturate, hA.round_mantissa, hscaled]
      rfl
    · rw [← hscaled]
      exact scaled.abs_value_le.trans_lt (by norm_num)
  · right
    rw [hfactor] at hbeyond
    refine ⟨?_, le_trans (by norm_num) hbeyond⟩
    unfold fromDecimal factorDecimal
    rw [hmul, Option.map_none]

theorem eq_ofDecimal (hA : A.Lawful) (h : p ∈ fromDecimal A d) : p = ofDecimal d.value := by
  rcases fromDecimal_eq hA d with ⟨heq, _⟩ | ⟨hnone, _⟩
  · exact Option.some.inj (h.symm.trans heq)
  · rw [hnone] at h
    cases h

/-- What has nine decimal places is converted as it is, inside the range. -/
theorem toDecimal_ofDecimal_of_whole {x : Decimal} {z : ℤ} (hz : x * factor = z)
    (hlow : least.toDecimal ≤ x) (hhigh : x ≤ greatest.toDecimal) : (ofDecimal x).toDecimal = x := by
  have hx : x = z / factor := by rw [← hz, mul_div_cancel_right₀ _ factor_pos.ne']
  have hlow' : -9223372036854775808 ≤ z := by
    rw [hx] at hlow
    exact_mod_cast (div_le_div_iff_of_pos_right factor_pos).mp hlow
  have hhigh' : z ≤ 9223372036854775807 := by
    rw [hx] at hhigh
    exact_mod_cast (div_le_div_iff_of_pos_right factor_pos).mp hhigh
  unfold ofDecimal
  rw [hz, Rounding.halfEven_intCast, BoundedInt.saturate_of_mem hlow' hhigh', hx]
  rfl

theorem abs_mul_factor_lt {x : Decimal} (hlow : least.toDecimal ≤ x) (hhigh : x ≤ greatest.toDecimal) :
    |x * factor| < 2 ^ 96 := by
  have hlow' := mul_le_mul_of_nonneg_right hlow factor_pos.le
  have hhigh' := mul_le_mul_of_nonneg_right hhigh factor_pos.le
  rw [toDecimal_mul_factor] at hlow' hhigh'
  norm_num [least, greatest, fromRaw, BoundedInt.bottom, BoundedInt.top] at hlow' hhigh'
  rw [abs_lt]
  constructor <;> linarith

theorem ofDecimal_of_ge {x : Decimal} (h : greatest.toDecimal ≤ x) : ofDecimal x = greatest := by
  refine le_antisymm (le_iff.mpr (BoundedInt.le_top _)) ?_
  exact (ofDecimal_toDecimal greatest).ge.trans (ofDecimal_mono h)

theorem ofDecimal_of_le {x : Decimal} (h : x ≤ least.toDecimal) : ofDecimal x = least := by
  refine le_antisymm ?_ (le_iff.mpr (ofDecimal x).raw.lo_le)
  exact (ofDecimal_mono h).trans (ofDecimal_toDecimal least).le

end Conversion

section Product

variable {p p' q q' r : FastPrice}

theorem checkedMulWide_eq (p q : FastPrice) : p.checkedMulWide q = p.checkedMul q := by
  have hp := p.raw.lo_le
  have hp' := p.raw.le_hi
  have hq := q.raw.lo_le
  have hq' := q.raw.le_hi
  have hprod : |(p.raw : ℤ) * q.raw| ≤ 9223372036854775808 * 9223372036854775808 := by
    rw [abs_mul]
    refine mul_le_mul ?_ ?_ (abs_nonneg _) (by norm_num) <;> rw [abs_le] <;> constructor <;> omega
  obtain ⟨hlow, hhigh⟩ := abs_le.mp hprod
  have hwide : (BoundedInt.tryFrom ((p.raw : ℤ) * q.raw) : Option I128) =
      some ⟨(p.raw : ℤ) * q.raw, by omega, by omega⟩ := BoundedInt.tryFrom_eq_some.mpr rfl
  unfold checkedMulWide checkedMul
  rw [hwide]
  dsimp only
  unfold BoundedInt.tryFrom
  split_ifs with hbeyond hfits hfits
  · omega
  · rfl
  · rfl
  · omega

theorem tdiv_eq_trunc (p q : FastPrice) :
    ((p.raw : ℤ) * q.raw).tdiv factor = Rounding.trunc ((p.raw : ℤ) * (q.raw : ℤ) / factor) := by
  have htrunc := Rounding.trunc_div ((p.raw : ℤ) * q.raw) (b := 1000000000) (by norm_num)
  push_cast at htrunc
  unfold factor
  push_cast
  exact htrunc.symm

theorem checkedMulWide_eq_some :
    p.checkedMulWide q = some r ↔ (r.raw : ℤ) = Rounding.trunc ((p.raw : ℤ) * (q.raw : ℤ) / factor) := by
  rw [checkedMulWide_eq, ← tdiv_eq_trunc]
  unfold checkedMul
  rw [Option.map_eq_some_iff]
  constructor
  · rintro ⟨raw, hraw, rfl⟩
    exact BoundedInt.tryFrom_eq_some.mp hraw
  · exact fun hr => ⟨r.raw, BoundedInt.tryFrom_eq_some.mpr hr, rfl⟩

theorem checkedMulWide_eq_none :
    p.checkedMulWide q = none ↔
      Rounding.trunc ((p.raw : ℤ) * (q.raw : ℤ) / factor) < least.raw ∨
        (greatest.raw : ℤ) < Rounding.trunc ((p.raw : ℤ) * (q.raw : ℤ) / factor) := by
  rw [checkedMulWide_eq, ← tdiv_eq_trunc]
  unfold checkedMul BoundedInt.tryFrom
  rw [Option.map_eq_none_iff, dite_eq_right_iff]
  constructor
  · intro hnone
    by_contra hfits
    simp only [not_or, not_lt] at hfits
    cases hnone hfits
  · intro hbeyond hfits
    rcases hbeyond with hlow | hhigh
    · exact absurd hfits.1 (not_le.mpr hlow)
    · exact absurd hfits.2 (not_le.mpr hhigh)

theorem checkedMulWide_comm (p q : FastPrice) : p.checkedMulWide q = q.checkedMulWide p := by
  rw [checkedMulWide_eq, checkedMulWide_eq, checkedMul, checkedMul, mul_comm]

/-- A larger price has the larger quotient, if the other factor is not negative. -/
theorem trunc_mono_left (hq : (0 : ℤ) ≤ q.raw) (hp : p ≤ p') :
    Rounding.trunc ((p.raw : ℤ) * (q.raw : ℤ) / factor) ≤
      Rounding.trunc ((p'.raw : ℤ) * (q.raw : ℤ) / factor) := by
  refine Rounding.trunc_mono (div_le_div_of_nonneg_right ?_ factor_pos.le)
  have hle : ((p.raw : ℤ) : ℚ) ≤ (p'.raw : ℤ) := by exact_mod_cast le_iff.mp hp
  exact mul_le_mul_of_nonneg_right hle (by exact_mod_cast hq)

/-- With a factor that is not negative, the product grows with the price; and of prices that
are not negative, it does not come back once it has overflowed. -/
theorem checkedMulWide_mono_left (hq : (0 : ℤ) ≤ q.raw) (hp : p ≤ p') :
    (∀ r ∈ p.checkedMulWide q, ∀ r' ∈ p'.checkedMulWide q, r ≤ r') ∧
      ((0 : ℤ) ≤ p.raw → p.checkedMulWide q = none → p'.checkedMulWide q = none) := by
  have hmono := trunc_mono_left hq hp
  refine ⟨fun r hr r' hr' => ?_, fun h0 hnone => ?_⟩
  · rw [le_iff, checkedMulWide_eq_some.mp hr, checkedMulWide_eq_some.mp hr']
    exact hmono
  · rw [checkedMulWide_eq_none] at hnone ⊢
    have hquotient : 0 ≤ Rounding.trunc ((p.raw : ℤ) * (q.raw : ℤ) / factor) := by
      rw [← tdiv_eq_trunc]
      exact Int.tdiv_nonneg (mul_nonneg h0 hq) (by norm_num [factor])
    have hleast : (least.raw : ℤ) < 0 := by norm_num [least, fromRaw, BoundedInt.bottom]
    rcases hnone with hlow | hhigh
    · exact absurd (hlow.trans hleast) (not_lt.mpr hquotient)
    · exact .inr (hhigh.trans_le hmono)

end Product

/-- Prices are decimals of nine places, as far as the order, the conversions and the product
can tell. -/
structure FixedPointImage (A : DecimalArithmetic) : Prop where
  round_trip : ∀ p : FastPrice, fromDecimal A p.toRustDecimal = some p
  /-- Nothing but a product beyond 96 bits makes the conversion fail. -/
  fails_iff : ∀ d : RustDecimal, fromDecimal A d = none ↔ 2 ^ 96 ≤ |d.value * factor|
  mono : ∀ d d' : RustDecimal, d.value ≤ d'.value →
    ∀ p ∈ fromDecimal A d, ∀ p' ∈ fromDecimal A d', p ≤ p'
  exact : ∀ (d : RustDecimal) (z : ℤ), d.value * factor = z → least.toRustDecimal.value ≤ d.value →
    d.value ≤ greatest.toRustDecimal.value → ∃ p ∈ fromDecimal A d, p.toRustDecimal.value = d.value
  clamps_above : ∀ d : RustDecimal, greatest.toRustDecimal.value < d.value →
    ∀ p ∈ fromDecimal A d, p = greatest
  clamps_below : ∀ d : RustDecimal, d.value < least.toRustDecimal.value →
    ∀ p ∈ fromDecimal A d, p = least
  order : ∀ p q : FastPrice, p ≤ q ↔ p.toRustDecimal.value ≤ q.toRustDecimal.value
  mul_eq_some : ∀ p q r : FastPrice, p.checkedMulWide q = some r ↔
    (r.raw : ℤ) = Rounding.trunc ((p.raw : ℤ) * (q.raw : ℤ) / factor)
  mul_eq_none : ∀ p q : FastPrice, p.checkedMulWide q = none ↔
    Rounding.trunc ((p.raw : ℤ) * (q.raw : ℤ) / factor) < least.raw ∨
      (greatest.raw : ℤ) < Rounding.trunc ((p.raw : ℤ) * (q.raw : ℤ) / factor)
  mul_mono_left : ∀ p p' q : FastPrice, (0 : ℤ) ≤ q.raw → p ≤ p' →
    (∀ r ∈ p.checkedMulWide q, ∀ r' ∈ p'.checkedMulWide q, r ≤ r') ∧
      ((0 : ℤ) ≤ p.raw → p.checkedMulWide q = none → p'.checkedMulWide q = none)
  mul_mono_right : ∀ p q q' : FastPrice, (0 : ℤ) ≤ p.raw → q ≤ q' →
    (∀ r ∈ p.checkedMulWide q, ∀ r' ∈ p.checkedMulWide q', r ≤ r') ∧
      ((0 : ℤ) ≤ q.raw → p.checkedMulWide q = none → p.checkedMulWide q' = none)

theorem fixed_point_image (A : DecimalArithmetic) (hA : A.Lawful) : FixedPointImage A where
  round_trip p := by
    have hvalue := value_toRustDecimal p
    rcases fromDecimal_eq hA p.toRustDecimal with ⟨heq, _⟩ | ⟨_, hbeyond⟩
    · rw [heq, hvalue, ofDecimal_toDecimal]
    · have hraw := p.toRustDecimal.mantissa_le
      rw [hvalue, toDecimal_mul_factor] at hbeyond
      have hbeyond' : (2 : ℤ) ^ 96 ≤ |(p.raw : ℤ)| := by exact_mod_cast hbeyond
      exact absurd (hbeyond'.trans hraw) (by norm_num)
  fails_iff d := by
    rcases fromDecimal_eq hA d with ⟨heq, hfits⟩ | ⟨hnone, hbeyond⟩
    · exact iff_of_false (by simp [heq]) (not_le.mpr hfits)
    · exact iff_of_true hnone hbeyond
  mono d d' hle p hp p' hp' := by
    rw [eq_ofDecimal hA hp, eq_ofDecimal hA hp']
    exact ofDecimal_mono hle
  exact d z hz hlow hhigh := by
    rw [value_toRustDecimal] at hlow hhigh
    rcases fromDecimal_eq hA d with ⟨heq, _⟩ | ⟨_, hbeyond⟩
    · refine ⟨_, heq, ?_⟩
      rw [value_toRustDecimal]
      exact toDecimal_ofDecimal_of_whole hz hlow hhigh
    · exact absurd hbeyond (not_le.mpr (abs_mul_factor_lt hlow hhigh))
  clamps_above d hd p hp := by
    rw [value_toRustDecimal] at hd
    exact (eq_ofDecimal hA hp).trans (ofDecimal_of_ge hd.le)
  clamps_below d hd p hp := by
    rw [value_toRustDecimal] at hd
    exact (eq_ofDecimal hA hp).trans (ofDecimal_of_le hd.le)
  order p q := by rw [value_toRustDecimal, value_toRustDecimal, toDecimal_le]
  mul_eq_some _ _ _ := checkedMulWide_eq_some
  mul_eq_none _ _ := checkedMulWide_eq_none
  mul_mono_left _ _ _ hq hp := checkedMulWide_mono_left hq hp
  mul_mono_right p q q' hp hq := by
    rw [checkedMulWide_comm p q, checkedMulWide_comm p q']
    exact checkedMulWide_mono_left hp hq

/-- On 1.2345678905 the tie at the tenth place goes to the even digit. -/
theorem fixed_point_image_rounded :
    (fromDecimal ScaledDecimal.rounded ⟨12345678905, 10, by norm_num, by norm_num⟩).map
        (fun p => (p.raw : ℤ)) = some 1234567890 ∧
      FixedPointImage ScaledDecimal.rounded :=
  ⟨by decide +kernel, fixed_point_image _ ScaledDecimal.lawful_rounded⟩

end FastPrice

end TradingService
