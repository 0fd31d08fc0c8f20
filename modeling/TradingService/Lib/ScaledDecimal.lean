import TradingService.Lib.Rounding

/-!
# Decimals with a scale

A decimal is a whole mantissa of bounded size with a bounded number of decimal places.
`Arithmetic` is what a library of such decimals computes, and `Lawful` and `Ordered` are what
it promises of it: a product that some decimal denotes is exact, one beyond the largest
decimal is an overflow, and rounding keeps the order of the products. Multiplied by a power of
ten, a decimal loses nothing or overflows.
-/

structure ScaledDecimal (bound : ℤ) (digits : ℕ) where
  mantissa : ℤ
  scale : ℕ
  mantissa_le : |mantissa| ≤ bound
  scale_le : scale ≤ digits
  deriving DecidableEq

namespace ScaledDecimal

variable {bound : ℤ} {digits : ℕ}

def value (x : ScaledDecimal bound digits) : ℚ := x.mantissa / 10 ^ x.scale

structure Arithmetic (bound : ℤ) (digits : ℕ) where
  /-- The product, or an overflow. -/
  mul : ScaledDecimal bound digits → ScaledDecimal bound digits → Option (ScaledDecimal bound digits)
  /-- Rounded to no decimal places. -/
  round : ScaledDecimal bound digits → ScaledDecimal bound digits

structure Arithmetic.Lawful (A : Arithmetic bound digits) : Prop where
  mul_exact : ∀ x y z : ScaledDecimal bound digits, z.value = x.value * y.value →
    ∃ p ∈ A.mul x y, p.value = x.value * y.value
  mul_overflow : ∀ x y : ScaledDecimal bound digits, (bound + 1 : ℚ) ≤ |x.value * y.value| →
    A.mul x y = none
  round_mantissa : ∀ x : ScaledDecimal bound digits, (A.round x).mantissa = Rounding.halfEven x.value

/-- Rounding keeps the order of the products, and no product overflows that is not beyond the
largest decimal. -/
structure Arithmetic.Ordered (A : Arithmetic bound digits) : Prop where
  mul_mono : ∀ x y x' y' : ScaledDecimal bound digits, x.value * y.value ≤ x'.value * y'.value →
    ∀ p ∈ A.mul x y, ∀ p' ∈ A.mul x' y', p.value ≤ p'.value
  mul_isSome : ∀ x y : ScaledDecimal bound digits, |x.value * y.value| ≤ bound → (A.mul x y).isSome

def powTen (k : ℕ) (h : 10 ^ k ≤ bound) : ScaledDecimal bound digits where
  mantissa := 10 ^ k
  scale := 0
  mantissa_le := by rwa [abs_of_nonneg (by positivity)]
  scale_le := Nat.zero_le _

section PowTen

variable {A : Arithmetic bound digits} {k : ℕ} (hk : 10 ^ k ≤ bound)

@[simp] theorem value_powTen : (powTen k hk : ScaledDecimal bound digits).value = 10 ^ k := by
  simp [value, powTen]

/-- Multiplied by a power of ten, a decimal is denoted by another one, or it is too large. -/
theorem exists_value_mul_powTen (x : ScaledDecimal bound digits) (k : ℕ) :
    (∃ z : ScaledDecimal bound digits, z.value = x.value * 10 ^ k) ∨
      (bound + 1 : ℚ) ≤ |x.value * 10 ^ k| := by
  rcases le_or_gt k x.scale with hle | hlt
  · refine .inl ⟨⟨x.mantissa, x.scale - k, x.mantissa_le, (Nat.sub_le _ _).trans x.scale_le⟩, ?_⟩
    unfold value
    rw [div_mul_eq_mul_div, div_eq_div_iff (by positivity) (by positivity), mul_assoc, ← pow_add,
      Nat.add_sub_cancel' hle]
  · have hwhole : x.value * 10 ^ k = ((x.mantissa * 10 ^ (k - x.scale) : ℤ) : ℚ) := by
      unfold value
      rw [div_mul_eq_mul_div, div_eq_iff (by positivity)]
      push_cast
      rw [mul_assoc, ← pow_add, Nat.sub_add_cancel hlt.le]
    rw [hwhole]
    rcases le_or_gt |x.mantissa * 10 ^ (k - x.scale)| bound with hfits | hbeyond
    · exact .inl ⟨⟨_, 0, hfits, Nat.zero_le _⟩, by simp [value]⟩
    · right
      exact_mod_cast hbeyond

/-- The product with a power of ten is exact, or it overflows. -/
theorem Arithmetic.Lawful.mul_powTen (hA : A.Lawful) (x : ScaledDecimal bound digits) :
    (∃ p ∈ A.mul x (powTen k hk), p.value = x.value * 10 ^ k) ∨
      A.mul x (powTen k hk) = none ∧ (bound + 1 : ℚ) ≤ |x.value * 10 ^ k| := by
  rcases exists_value_mul_powTen x k with ⟨z, hz⟩ | hbeyond
  · rw [← value_powTen hk] at hz ⊢
    exact .inl (hA.mul_exact x _ z hz)
  · refine .inr ⟨hA.mul_overflow x _ ?_, hbeyond⟩
    rwa [value_powTen]

end PowTen

section Numbers

/-- The decimal of a number, with the fewest places. -/
def ofValue? (q : ℚ) : Option (ScaledDecimal bound digits) :=
  (List.range (digits + 1)).findSome? fun scale =>
    if h : (q * 10 ^ scale).den = 1 ∧ |(q * 10 ^ scale).num| ≤ bound ∧ scale ≤ digits then
      some ⟨(q * 10 ^ scale).num, scale, h.2.1, h.2.2⟩
    else none

theorem exists_ofValue? (x : ScaledDecimal bound digits) :
    ∃ y ∈ (ofValue? x.value : Option (ScaledDecimal bound digits)), y.value = x.value := by
  have hwhole : x.value * 10 ^ x.scale = x.mantissa := by
    unfold value
    rw [div_mul_cancel₀ _ (by positivity)]
  have hsome : (ofValue? x.value : Option (ScaledDecimal bound digits)).isSome := by
    refine List.findSome?_isSome_iff.mpr ⟨x.scale, List.mem_range.mpr (Nat.lt_succ_of_le x.scale_le), ?_⟩
    have hfits : (x.value * 10 ^ x.scale).den = 1 ∧ |(x.value * 10 ^ x.scale).num| ≤ bound ∧
        x.scale ≤ digits := by
      rw [hwhole]
      exact ⟨rfl, x.mantissa_le, x.scale_le⟩
    rw [dif_pos hfits]
    rfl
  obtain ⟨y, hy⟩ := Option.isSome_iff_exists.mp hsome
  obtain ⟨scale, _, hfound⟩ := List.exists_of_findSome?_eq_some hy
  split_ifs at hfound with h
  obtain rfl := Option.some.inj hfound
  have hnum : ((x.value * 10 ^ scale).num : ℚ) = x.value * 10 ^ scale := Rat.coe_int_num_of_den_eq_one h.1
  refine ⟨_, hy, (div_eq_iff (by positivity)).mpr hnum⟩

def Arithmetic.checkedMul (A : Arithmetic bound digits) (x y : ℚ) : Option ℚ := do
  let x ← ofValue? x
  let y ← ofValue? y
  (A.mul x y).map value

variable {A : Arithmetic bound digits} {x y x' y' z : ScaledDecimal bound digits} {q q' : ℚ}

theorem Arithmetic.exists_checkedMul (A : Arithmetic bound digits) (x y : ScaledDecimal bound digits) :
    ∃ x₀ y₀ : ScaledDecimal bound digits, x₀.value = x.value ∧ y₀.value = y.value ∧
      A.checkedMul x.value y.value = (A.mul x₀ y₀).map value := by
  obtain ⟨x₀, hx₀, hx⟩ := exists_ofValue? x
  obtain ⟨y₀, hy₀, hy⟩ := exists_ofValue? y
  refine ⟨x₀, y₀, hx, hy, ?_⟩
  unfold checkedMul
  rw [Option.mem_def.mp hx₀, Option.mem_def.mp hy₀]
  rfl

theorem Arithmetic.Lawful.checkedMul_exact (hA : A.Lawful) (hz : z.value = x.value * y.value) :
    A.checkedMul x.value y.value = some (x.value * y.value) := by
  obtain ⟨x₀, y₀, hx, hy, hmul⟩ := A.exists_checkedMul x y
  obtain ⟨p, hp, hvalue⟩ := hA.mul_exact x₀ y₀ z (by rw [hx, hy, hz])
  rw [hmul, Option.mem_def.mp hp, Option.map_some, hvalue, hx, hy]

theorem Arithmetic.Lawful.checkedMul_overflow (hA : A.Lawful)
    (h : (bound + 1 : ℚ) ≤ |x.value * y.value|) : A.checkedMul x.value y.value = none := by
  obtain ⟨x₀, y₀, hx, hy, hmul⟩ := A.exists_checkedMul x y
  rw [hmul, hA.mul_overflow x₀ y₀ (by rwa [hx, hy]), Option.map_none]

theorem Arithmetic.exists_of_checkedMul (h : q ∈ A.checkedMul x.value y.value) :
    ∃ z : ScaledDecimal bound digits, z.value = q := by
  obtain ⟨x₀, y₀, _, _, hmul⟩ := A.exists_checkedMul x y
  rw [hmul] at h
  obtain ⟨z, _, hz⟩ := Option.map_eq_some_iff.mp h
  exact ⟨z, hz⟩

theorem Arithmetic.Ordered.checkedMul_mono (hA : A.Ordered)
    (hle : x.value * y.value ≤ x'.value * y'.value) (h : q ∈ A.checkedMul x.value y.value)
    (h' : q' ∈ A.checkedMul x'.value y'.value) : q ≤ q' := by
  obtain ⟨x₀, y₀, hx, hy, hmul⟩ := A.exists_checkedMul x y
  obtain ⟨x₀', y₀', hx', hy', hmul'⟩ := A.exists_checkedMul x' y'
  rw [hmul] at h
  rw [hmul'] at h'
  obtain ⟨p, hp, rfl⟩ := Option.map_eq_some_iff.mp h
  obtain ⟨p', hp', rfl⟩ := Option.map_eq_some_iff.mp h'
  exact hA.mul_mono x₀ y₀ x₀' y₀' (by rwa [hx, hy, hx', hy']) p hp p' hp'

theorem Arithmetic.Ordered.lt_of_checkedMul_eq_none (hA : A.Ordered)
    (h : A.checkedMul x.value y.value = none) : (bound : ℚ) < |x.value * y.value| := by
  obtain ⟨x₀, y₀, hx, hy, hmul⟩ := A.exists_checkedMul x y
  by_contra! hfits
  obtain ⟨p, hp⟩ := Option.isSome_iff_exists.mp (hA.mul_isSome x₀ y₀ (by rwa [hx, hy]))
  rw [hmul, hp] at h
  cases h

/-- What a decimal below or above the exact product says of the computed one. -/
theorem Arithmetic.Lawful.between_checkedMul (hA : A.Lawful) (hordered : A.Ordered)
    {one : ScaledDecimal bound digits} (hone : one.value = 1) (h : q ∈ A.checkedMul x.value y.value) :
    (z.value ≤ x.value * y.value → z.value ≤ q) ∧ (x.value * y.value ≤ z.value → q ≤ z.value) := by
  have hz : z.value * one.value = z.value := by rw [hone, mul_one]
  have hself : z.value ∈ A.checkedMul z.value one.value := by
    rw [hA.checkedMul_exact hz.symm, hz]
    rfl
  exact ⟨fun hle => hordered.checkedMul_mono (hz.trans_le hle) hself h,
    fun hle => hordered.checkedMul_mono (hle.trans_eq hz.symm) h hself⟩

end Numbers

section Rounded

def dropDigits (mantissa : ℤ) (k : ℕ) : ℤ := Rounding.halfEven (mantissa / 10 ^ k)

theorem dropDigits_mul (z : ℤ) (k : ℕ) : dropDigits (z * 10 ^ k) k = z := by
  unfold dropDigits
  rw [Int.cast_mul, Int.cast_pow, Int.cast_ofNat, mul_div_cancel_right₀ _ (by positivity),
    Rounding.halfEven_intCast]

/-- The product and its scale, if it fits. Else its last digits are dropped, and no more of them
than needed. -/
def mulRounded (x y : ScaledDecimal bound digits) : Option (ScaledDecimal bound digits) :=
  let mantissa := x.mantissa * y.mantissa
  let scale := x.scale + y.scale
  match h : (List.range (scale + 1)).find? fun k =>
      scale - k ≤ digits ∧ |dropDigits mantissa k| ≤ bound with
  | none => none
  | some k =>
    have hfits : scale - k ≤ digits ∧ |dropDigits mantissa k| ≤ bound := by
      simpa using List.find?_some h
    some ⟨dropDigits mantissa k, scale - k, hfits.2, hfits.1⟩

theorem abs_halfEven_le {z : ℤ} {q : ℚ} (h : |q| ≤ z) : |Rounding.halfEven q| ≤ z := by
  rw [abs_le] at h ⊢
  have hlow := Rounding.halfEven_mono h.1
  have hhigh := Rounding.halfEven_mono h.2
  rw [Rounding.halfEven_intCast] at hhigh
  rw [← Int.cast_neg, Rounding.halfEven_intCast] at hlow
  exact ⟨hlow, hhigh⟩

theorem abs_value_le (x : ScaledDecimal bound digits) : |x.value| ≤ bound := by
  unfold value
  rw [abs_div, abs_of_pos (by positivity : (0 : ℚ) < 10 ^ x.scale)]
  refine (div_le_self (abs_nonneg _) (one_le_pow₀ (by norm_num))).trans ?_
  exact_mod_cast x.mantissa_le

def roundWhole (x : ScaledDecimal bound digits) : ScaledDecimal bound digits where
  mantissa := Rounding.halfEven x.value
  scale := 0
  mantissa_le := abs_halfEven_le x.abs_value_le
  scale_le := Nat.zero_le _

def rounded : Arithmetic bound digits := ⟨mulRounded, roundWhole⟩

theorem value_mul (x y : ScaledDecimal bound digits) :
    x.value * y.value = ((x.mantissa * y.mantissa : ℤ) : ℚ) / 10 ^ (x.scale + y.scale) := by
  unfold value
  rw [div_mul_div_comm, ← pow_add, Int.cast_mul]

/-- What some decimal denotes fits after its last zeros have been dropped. -/
theorem exists_drop_of_value {z : ScaledDecimal bound digits} {mantissa : ℤ} {scale : ℕ}
    (hz : z.value = mantissa / 10 ^ scale) :
    ∃ k ≤ scale, scale - k ≤ digits ∧ ∃ c : ℤ, mantissa = c * 10 ^ k ∧ |c| ≤ bound := by
  have hcross : (z.mantissa : ℚ) * 10 ^ scale = mantissa * 10 ^ z.scale := by
    unfold value at hz
    rwa [div_eq_div_iff (by positivity) (by positivity)] at hz
  have hcross' : z.mantissa * 10 ^ scale = mantissa * 10 ^ z.scale := by exact_mod_cast hcross
  have hten : ∀ e : ℕ, (10 : ℤ) ^ e ≠ 0 := fun e => by positivity
  rcases le_or_gt z.scale scale with hle | hlt
  · refine ⟨scale - z.scale, Nat.sub_le _ _, ?_, z.mantissa, ?_, z.mantissa_le⟩
    · exact (Nat.sub_sub_self hle).le.trans z.scale_le
    · refine mul_right_cancel₀ (hten z.scale) ?_
      rw [← hcross', mul_assoc, ← pow_add, Nat.sub_add_cancel hle]
  · refine ⟨0, Nat.zero_le _, hlt.le.trans z.scale_le, mantissa, by simp, ?_⟩
    have hz' : z.mantissa = mantissa * 10 ^ (z.scale - scale) := by
      refine mul_right_cancel₀ (hten scale) ?_
      rw [hcross', mul_assoc, ← pow_add, Nat.sub_add_cancel hlt.le]
    have hbound := z.mantissa_le
    rw [hz', abs_mul, abs_of_nonneg (by positivity : (0 : ℤ) ≤ 10 ^ (z.scale - scale))] at hbound
    exact (le_mul_of_one_le_right (abs_nonneg _) (one_le_pow₀ (by norm_num))).trans hbound

theorem mulRounded_exact {x y z : ScaledDecimal bound digits} (hz : z.value = x.value * y.value) :
    ∃ p ∈ mulRounded x y, p.value = x.value * y.value := by
  rw [value_mul] at hz ⊢
  obtain ⟨k₀, hk₀, hscale, c, hc, hfits⟩ := exists_drop_of_value hz
  have hdrop : |dropDigits (x.mantissa * y.mantissa) k₀| ≤ bound := by rwa [hc, dropDigits_mul]
  unfold mulRounded
  dsimp only
  split
  next h =>
    have hnone := List.find?_eq_none.mp h k₀ (List.mem_range.mpr (Nat.lt_succ_of_le hk₀))
    simp [hscale, hdrop] at hnone
  next k h =>
    refine ⟨_, rfl, ?_⟩
    obtain ⟨_, hk, hfirst⟩ := List.find?_range_eq_some.mp h
    have hle : k ≤ k₀ := by
      by_contra hlt
      have hskip := hfirst k₀ (not_le.mp hlt)
      simp [hscale, hdrop] at hskip
    have hzeros : x.mantissa * y.mantissa = c * 10 ^ (k₀ - k) * 10 ^ k := by
      rw [hc, mul_assoc, ← pow_add, Nat.sub_add_cancel hle]
    unfold value
    dsimp only
    rw [hzeros, dropDigits_mul, div_eq_div_iff (by positivity) (by positivity), Int.cast_mul _ (10 ^ k),
      mul_assoc, Int.cast_pow, Int.cast_ofNat, ← pow_add,
      Nat.add_sub_cancel' (Nat.lt_succ_iff.mp (List.mem_range.mp hk))]

theorem mulRounded_overflow {x y : ScaledDecimal bound digits}
    (h : (bound + 1 : ℚ) ≤ |x.value * y.value|) : mulRounded x y = none := by
  unfold mulRounded
  dsimp only
  split
  · rfl
  next k hk =>
    obtain ⟨hfits, hmem, _⟩ := List.find?_range_eq_some.mp hk
    have hle : k ≤ x.scale + y.scale := Nat.lt_succ_iff.mp (List.mem_range.mp hmem)
    have hlarge : (bound + 1 : ℚ) ≤ |((x.mantissa * y.mantissa : ℤ) : ℚ) / 10 ^ k| := by
      refine h.trans ?_
      rw [value_mul, abs_div, abs_div, abs_of_pos (by positivity : (0 : ℚ) < 10 ^ k),
        abs_of_pos (by positivity : (0 : ℚ) < 10 ^ (x.scale + y.scale))]
      exact div_le_div_of_nonneg_left (abs_nonneg _) (by positivity)
        (pow_le_pow_right₀ (by norm_num) hle)
    have hdrop : bound + 1 ≤ |dropDigits (x.mantissa * y.mantissa) k| := by
      unfold dropDigits
      rcases le_abs.mp hlarge with hpos | hneg
      · have hmono := Rounding.halfEven_mono hpos
        have hcast : ((bound + 1 : ℤ) : ℚ) = bound + 1 := by push_cast; ring
        rw [← hcast, Rounding.halfEven_intCast] at hmono
        exact hmono.trans (le_abs_self _)
      · have hmono := Rounding.halfEven_mono (le_neg.mp hneg)
        have hcast : ((-(bound + 1) : ℤ) : ℚ) = -(bound + 1) := by push_cast; ring
        rw [← hcast, Rounding.halfEven_intCast] at hmono
        exact (le_neg.mp hmono).trans (neg_le_abs _)
    have hbound : |dropDigits (x.mantissa * y.mantissa) k| ≤ bound := by
      have hand := of_decide_eq_true hfits
      exact hand.2
    omega

theorem lawful_rounded : (rounded : Arithmetic bound digits).Lawful where
  mul_exact _ _ _ hz := mulRounded_exact hz
  mul_overflow _ _ h := mulRounded_overflow h
  round_mantissa _ := rfl

/-- A whole number `n`, at so many places, is what a product of the value `v` is rounded to: with
one place more it would not fit, unless it is exact already. -/
structure RoundsTo (bound : ℤ) (digits : ℕ) (v : ℚ) (places : ℕ) (n : ℤ) : Prop where
  eq : n = Rounding.halfEven (v * 10 ^ places)
  fits : |n| ≤ bound
  most : n = v * 10 ^ places ∨ places = digits ∨ bound < |Rounding.halfEven (v * 10 ^ (places + 1))|
  places_le : places ≤ digits

theorem roundsTo_of_mem {x y p : ScaledDecimal bound digits} (h : p ∈ mulRounded x y) :
    RoundsTo bound digits (x.value * y.value) p.scale p.mantissa := by
  have hdrop : ∀ k ≤ x.scale + y.scale,
      x.value * y.value * 10 ^ (x.scale + y.scale - k) = (x.mantissa * y.mantissa : ℤ) / 10 ^ k := by
    intro k hk
    rw [value_mul, div_mul_eq_mul_div, div_eq_div_iff (by positivity) (by positivity), mul_assoc,
      ← pow_add, Nat.sub_add_cancel hk]
  simp only [mulRounded, Option.mem_def] at h
  split at h
  · cases h
  next k hfind =>
    obtain rfl := Option.some.inj h
    obtain ⟨hfits, hmem, hfirst⟩ := List.find?_range_eq_some.mp hfind
    obtain ⟨hscale, hbound⟩ := of_decide_eq_true hfits
    have hk : k ≤ x.scale + y.scale := Nat.lt_succ_iff.mp (List.mem_range.mp hmem)
    refine ⟨by rw [hdrop k hk]; rfl, hbound, ?_, hscale⟩
    rcases Nat.eq_zero_or_pos k with rfl | hpos
    · left
      rw [hdrop 0 hk]
      dsimp only [dropDigits]
      rw [pow_zero, div_one, Rounding.halfEven_intCast]
    · right
      have hless := hfirst (k - 1) (by omega)
      simp only [Bool.not_eq_true', decide_eq_false_iff_not, not_and_or, not_le] at hless
      rcases hless with hscale' | hbound'
      · left
        dsimp only
        omega
      · right
        have hplaces : x.scale + y.scale - k + 1 = x.scale + y.scale - (k - 1) := by omega
        dsimp only
        rw [hplaces, hdrop (k - 1) (by omega)]
        exact hbound'

variable {v v' : ℚ} {places places' : ℕ} {n n' : ℤ}

theorem RoundsTo.neg (h : RoundsTo bound digits v places n) : RoundsTo bound digits (-v) places (-n) where
  eq := by rw [neg_mul, Rounding.halfEven_neg, h.eq]
  fits := by rw [abs_neg]; exact h.fits
  most := by
    rw [neg_mul, neg_mul, Rounding.halfEven_neg, abs_neg, Int.cast_neg, neg_inj]
    exact h.most
  places_le := h.places_le

/-- The larger of two values may have kept more places. -/
theorem RoundsTo.mono_of_lt (hbound : bound ≤ 10 * Rounding.halfEven ((bound + 1 / 2) / 10))
    (h : RoundsTo bound digits v places n) (h' : RoundsTo bound digits v' places' n')
    (hlt : places < places') (hle : v ≤ v') : (n : ℚ) / 10 ^ places ≤ n' / 10 ^ places' := by
  obtain ⟨k, rfl⟩ : ∃ k, places' = places + 1 + k := ⟨places' - (places + 1), by omega⟩
  have hten : (1 : ℚ) ≤ 10 ^ k := one_le_pow₀ (by norm_num)
  have hstep : (10 : ℚ) ^ (places + 1 + k) = 10 ^ places * 10 * 10 ^ k := by rw [pow_add, pow_succ]
  have hmono := Rounding.halfEven_mono (mul_le_mul_of_nonneg_right hle
    (by positivity : (0 : ℚ) ≤ 10 ^ (places + 1 + k)))
  rw [← h'.eq] at hmono
  rw [div_le_div_iff₀ (by positivity) (by positivity), hstep]
  rcases h.most with hexact | hall | hmore
  · have hwhole : v * 10 ^ (places + 1 + k) = ((n * 10 * 10 ^ k : ℤ) : ℚ) := by
      push_cast
      rw [hexact, hstep]
      ring
    rw [hwhole, Rounding.halfEven_intCast] at hmono
    have hcast : (n * 10 * 10 ^ k : ℚ) ≤ n' := by exact_mod_cast hmono
    nlinarith [show (0 : ℚ) < 10 ^ places by positivity]
  · have hplaces := h'.places_le
    omega
  · rcases lt_abs.mp hmore with hpos | hneg
    · exfalso
      have hlarge := Rounding.add_half_le_of_lt_halfEven hpos
      have hbound0 : (0 : ℚ) ≤ bound := by exact_mod_cast (abs_nonneg n).trans h.fits
      have hgrown : v * 10 ^ (places + 1) ≤ v * 10 ^ (places + 1 + k) := by
        rw [pow_add _ (places + 1) k, ← mul_assoc]
        exact le_mul_of_one_le_right (by linarith) hten
      have hround := Rounding.halfEven_mono hgrown
      have hfits := (le_abs_self _).trans h'.fits
      omega
    · have hneg' : bound < Rounding.halfEven (-v * 10 ^ (places + 1)) := by
        rwa [neg_mul, Rounding.halfEven_neg]
      have hlarge := Rounding.add_half_le_of_lt_halfEven hneg'
      have htenth : (bound + 1 / 2 : ℚ) / 10 ≤ -v * 10 ^ places := by
        rw [pow_succ] at hlarge
        linarith
      have hround := Rounding.halfEven_mono htenth
      rw [neg_mul, Rounding.halfEven_neg, ← h.eq] at hround
      have hlow : (bound : ℚ) ≤ -(n * 10) := by exact_mod_cast (by omega : bound ≤ -(n * 10))
      have hhigh : -(bound : ℚ) ≤ n' := by exact_mod_cast (abs_le.mp h'.fits).1
      have hprod : (n * 10 : ℚ) * 10 ^ k ≤ n' := by
        have hbound0 : (0 : ℚ) ≤ bound := by exact_mod_cast (abs_nonneg n).trans h.fits
        nlinarith
      nlinarith [show (0 : ℚ) < 10 ^ places by positivity]

theorem RoundsTo.mono (hbound : bound ≤ 10 * Rounding.halfEven ((bound + 1 / 2) / 10))
    (h : RoundsTo bound digits v places n) (h' : RoundsTo bound digits v' places' n')
    (hle : v ≤ v') : (n : ℚ) / 10 ^ places ≤ n' / 10 ^ places' := by
  rcases lt_trichotomy places places' with hlt | rfl | hgt
  · exact h.mono_of_lt hbound h' hlt hle
  · have hmono := Rounding.halfEven_mono (mul_le_mul_of_nonneg_right hle
      (by positivity : (0 : ℚ) ≤ 10 ^ places))
    rw [← h.eq, ← h'.eq] at hmono
    exact div_le_div_of_nonneg_right (by exact_mod_cast hmono) (by positivity)
  · have hneg := h'.neg.mono_of_lt hbound h.neg hgt (neg_le_neg hle)
    push_cast at hneg
    rw [neg_div, neg_div] at hneg
    exact neg_le_neg_iff.mp hneg

theorem mulRounded_isSome {x y : ScaledDecimal bound digits} (h : |x.value * y.value| ≤ bound) :
    (mulRounded x y).isSome := by
  unfold mulRounded
  dsimp only
  split
  next hnone =>
    have hlast := List.find?_eq_none.mp hnone (x.scale + y.scale) (List.mem_range.mpr (Nat.lt_succ_self _))
    rw [value_mul] at h
    exact absurd (by simpa using abs_halfEven_le h) (by simpa [dropDigits] using hlast)
  · rfl

/-- Where no rounding at the end of the range goes the wrong way. -/
theorem ordered_rounded (hbound : bound ≤ 10 * Rounding.halfEven ((bound + 1 / 2) / 10)) :
    (rounded : Arithmetic bound digits).Ordered where
  mul_mono _ _ _ _ hle _ hp _ hp' := (roundsTo_of_mem hp).mono hbound (roundsTo_of_mem hp') hle
  mul_isSome _ _ := mulRounded_isSome

end Rounded

end ScaledDecimal
