import TradingService.Lib.BoundedInt
import TradingService.Lib.Rounding

/-!
# Decimals and fixed-point prices

`Decimal` is the decimal number of the service, kept as an exact rational. Its
28 digits hold every sum and difference of stored amounts exactly; a product of
an amount and a price may need more digits and is then rounded by the library,
which nothing below depends on. `FastPrice` is the 64-bit fixed-point price of
the matching loops, nine decimal places.
-/

namespace TradingService

abbrev Decimal := ℚ

abbrev I64 := BoundedInt (-9223372036854775808) 9223372036854775807

abbrev I32 := BoundedInt (-2147483648) 2147483647

instance I64.range : Fact ((-9223372036854775808 : ℤ) ≤ 9223372036854775807) := ⟨by norm_num⟩

instance I32.range : Fact ((-2147483648 : ℤ) ≤ 2147483647) := ⟨by norm_num⟩

structure FastPrice where
  raw : I64
  deriving DecidableEq

namespace FastPrice

def factor : ℤ := 1000000000

def fromRaw (raw : I64) : FastPrice := ⟨raw⟩

def one : FastPrice := ⟨⟨factor, by norm_num [factor], by norm_num [factor]⟩⟩

def ofInt (units : ℤ) : FastPrice := ⟨BoundedInt.saturate (units * factor)⟩

instance : LinearOrder FastPrice :=
  LinearOrder.lift' FastPrice.raw fun a b h => by cases a; cases b; exact congrArg mk h

theorem le_iff {a b : FastPrice} : a ≤ b ↔ (a.raw : ℤ) ≤ b.raw := Iff.rfl

theorem lt_iff {a b : FastPrice} : a < b ↔ (a.raw : ℤ) < b.raw := Iff.rfl

/-- `From<Decimal>`: scale to nine places, round half to even, clamp into the
range of the mantissa. -/
def ofDecimal (d : Decimal) : FastPrice := ⟨BoundedInt.saturate (Rounding.halfEven (d * factor))⟩

def toDecimal (p : FastPrice) : Decimal := (p.raw : ℤ) / factor

/-- The `i128` product cannot overflow, so only the quotient is checked. -/
def checkedMul (p q : FastPrice) : Option FastPrice :=
  (BoundedInt.tryFrom (((p.raw : ℤ) * q.raw).tdiv factor)).map fromRaw

/-- `i64::midpoint`, which rounds towards zero and never leaves the range. -/
def midpoint (p q : FastPrice) : FastPrice := ⟨BoundedInt.saturate (((p.raw : ℤ) + q.raw).tdiv 2)⟩

theorem one_raw_pos : (0 : ℤ) < one.raw := by norm_num [one, factor]

theorem factor_pos : (0 : ℚ) < (factor : ℚ) := by norm_num [factor]

theorem toDecimal_mul_factor (p : FastPrice) : p.toDecimal * factor = (p.raw : ℤ) :=
  div_mul_cancel₀ _ factor_pos.ne'

theorem ofDecimal_toDecimal (p : FastPrice) : ofDecimal p.toDecimal = p := by
  unfold ofDecimal
  rw [toDecimal_mul_factor, Rounding.halfEven_intCast, BoundedInt.saturate_coe]

theorem ofDecimal_mono : Monotone ofDecimal := fun _ _ h =>
  le_iff.mpr (BoundedInt.saturate_mono (Rounding.halfEven_mono
    (mul_le_mul_of_nonneg_right h factor_pos.le)))

theorem toDecimal_le {p q : FastPrice} : p.toDecimal ≤ q.toDecimal ↔ p ≤ q := by
  unfold toDecimal
  rw [div_le_div_iff_of_pos_right factor_pos, Int.cast_le, le_iff]

theorem checkedMul_getD (p q : FastPrice) :
    (p.checkedMul q).getD (fromRaw BoundedInt.top) =
      fromRaw ((BoundedInt.tryFrom (((p.raw : ℤ) * q.raw).tdiv factor)).getD BoundedInt.top) := by
  unfold checkedMul
  cases BoundedInt.tryFrom (((p.raw : ℤ) * q.raw).tdiv factor) <;> rfl

/-- Scaling by a non-negative factor is monotone and keeps prices non-negative,
when an overflowing product counts as the largest price. -/
theorem scaled_mono {p p' : FastPrice} {k : ℤ} (h0 : (0 : ℤ) ≤ p.raw) (hp : p ≤ p') (hk : 0 ≤ k) :
    fromRaw ((BoundedInt.tryFrom (((p.raw : ℤ) * k).tdiv factor)).getD BoundedInt.top) ≤
      fromRaw ((BoundedInt.tryFrom (((p'.raw : ℤ) * k).tdiv factor)).getD BoundedInt.top) := by
  have hle : (p.raw : ℤ) ≤ p'.raw := hp
  have h0' : 0 ≤ (p'.raw : ℤ) * k := mul_nonneg (h0.trans hle) hk
  have hz : 0 ≤ ((p.raw : ℤ) * k).tdiv factor := Int.tdiv_nonneg (mul_nonneg h0 hk) (by norm_num [factor])
  have hz' : 0 ≤ ((p'.raw : ℤ) * k).tdiv factor := Int.tdiv_nonneg h0' (by norm_num [factor])
  have hq : ((p.raw : ℤ) * k).tdiv factor ≤ ((p'.raw : ℤ) * k).tdiv factor := by
    rw [Int.tdiv_eq_ediv_of_nonneg (mul_nonneg h0 hk), Int.tdiv_eq_ediv_of_nonneg h0']
    exact Int.ediv_le_ediv (by norm_num [factor]) (mul_le_mul_of_nonneg_right hle hk)
  rw [BoundedInt.tryFrom_getD_top (by omega), BoundedInt.tryFrom_getD_top (by omega)]
  exact BoundedInt.saturate_mono hq

theorem scaled_nonneg {p : FastPrice} {k : ℤ} (h0 : (0 : ℤ) ≤ p.raw) (hk : 0 ≤ k) :
    (0 : ℤ) ≤ (fromRaw ((BoundedInt.tryFrom (((p.raw : ℤ) * k).tdiv factor)).getD
      BoundedInt.top)).raw := by
  have hz : 0 ≤ ((p.raw : ℤ) * k).tdiv factor := Int.tdiv_nonneg (mul_nonneg h0 hk) (by norm_num [factor])
  rw [BoundedInt.tryFrom_getD_top (by omega)]
  simp only [fromRaw, BoundedInt.saturate]
  omega

end FastPrice

end TradingService
