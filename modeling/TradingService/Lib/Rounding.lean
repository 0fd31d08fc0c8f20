import Mathlib

/-!
# Rounding rational numbers to integers

Truncation towards zero, rounding half to even and rounding half away from zero,
with the bounds and the monotonicity that fixed-point arguments need, and with the errors
that rounding loses.
-/

namespace Rounding

def trunc (x : ℚ) : ℤ := if 0 ≤ x then ⌊x⌋ else ⌈x⌉

/-- Nearest integer, a midpoint going to the even neighbour. -/
def halfEven (x : ℚ) : ℤ :=
  if x - ⌊x⌋ < 1 / 2 then ⌊x⌋
  else if 1 / 2 < x - ⌊x⌋ then ⌊x⌋ + 1
  else if ⌊x⌋ % 2 = 0 then ⌊x⌋ else ⌊x⌋ + 1

def halfAway (x : ℚ) : ℤ := if 0 ≤ x then ⌊x + 1 / 2⌋ else ⌈x - 1 / 2⌉

theorem trunc_of_nonneg {x : ℚ} (h : 0 ≤ x) : trunc x = ⌊x⌋ := if_pos h

theorem halfAway_of_nonneg {x : ℚ} (h : 0 ≤ x) : halfAway x = ⌊x + 1 / 2⌋ := if_pos h

@[simp] theorem trunc_intCast (z : ℤ) : trunc (z : ℚ) = z := by simp [trunc]

@[simp] theorem halfEven_intCast (z : ℤ) : halfEven (z : ℚ) = z := by simp [halfEven]

@[simp] theorem halfAway_intCast (z : ℤ) : halfAway (z : ℚ) = z := by
  unfold halfAway
  split_ifs
  · rw [Int.floor_eq_iff]; constructor <;> linarith
  · rw [Int.ceil_eq_iff]; constructor <;> linarith

theorem halfAway_mono : Monotone halfAway := by
  intro x y hxy
  unfold halfAway
  split_ifs with hx hy hy
  · exact Int.floor_mono (by linarith)
  · exact absurd (hx.trans hxy) hy
  · have hc : ⌈x - 1 / 2⌉ ≤ 0 := Int.ceil_le.mpr (by push_cast; linarith)
    exact hc.trans (Int.floor_nonneg.mpr (by linarith))
  · exact Int.ceil_mono (by linarith)

theorem trunc_mono : Monotone trunc := by
  intro x y hxy
  unfold trunc
  split_ifs with hx hy hy
  · exact Int.floor_mono hxy
  · exact absurd (hx.trans hxy) hy
  · have hc : ⌈x⌉ ≤ 0 := Int.ceil_le.mpr (by push_cast; linarith)
    exact hc.trans (Int.floor_nonneg.mpr hy)
  · exact Int.ceil_mono hxy

theorem halfEven_mono : Monotone halfEven := by
  intro x y hxy
  have hf : ⌊x⌋ ≤ ⌊y⌋ := Int.floor_mono hxy
  rcases hf.lt_or_eq with hlt | heq
  · have hx : halfEven x ≤ ⌊x⌋ + 1 := by unfold halfEven; split_ifs <;> omega
    have hy : ⌊y⌋ ≤ halfEven y := by unfold halfEven; split_ifs <;> omega
    omega
  · unfold halfEven
    rw [heq]
    split_ifs <;> first | omega | (exfalso; linarith)

theorem add_half_le_of_lt_halfEven {n : ℤ} {x : ℚ} (h : n < halfEven x) : n + 1 / 2 ≤ x := by
  have hlow := Int.floor_le x
  unfold halfEven at h
  rcases lt_trichotomy n ⌊x⌋ with hlt | rfl | hgt
  · have hle : (n : ℚ) + 1 ≤ ⌊x⌋ := by exact_mod_cast hlt
    linarith
  · split_ifs at h <;> first | omega | linarith
  · split_ifs at h <;> omega

theorem halfEven_neg (x : ℚ) : halfEven (-x) = -halfEven x := by
  by_cases hx : ∃ z : ℤ, x = z
  · obtain ⟨z, rfl⟩ := hx
    rw [← Int.cast_neg, halfEven_intCast, halfEven_intCast]
  · have hlow : (⌊x⌋ : ℚ) < x := lt_of_le_of_ne (Int.floor_le x) fun heq => hx ⟨_, heq.symm⟩
    have hhigh := Int.lt_floor_add_one x
    have hfloor : ⌊-x⌋ = -⌊x⌋ - 1 := by
      rw [Int.floor_eq_iff]
      push_cast
      constructor <;> linarith
    unfold halfEven
    rw [hfloor]
    push_cast
    split_ifs <;> first | omega | (exfalso; linarith)

theorem trunc_div (a : ℤ) {b : ℕ} (hb : 0 < b) : trunc (a / b) = a.tdiv b := by
  have hb' : (0 : ℚ) < b := by exact_mod_cast hb
  have hsign : 0 ≤ (a : ℚ) / b ↔ 0 ≤ a := by
    rw [le_div_iff₀ hb', zero_mul]
    exact_mod_cast Iff.rfl
  unfold trunc
  split_ifs with h
  · rw [Rat.floor_intCast_div_natCast, Int.tdiv_eq_ediv_of_nonneg (hsign.mp h)]
  · have hneg : 0 ≤ -a := by
      have hlt := lt_of_not_ge fun h0 => h (hsign.mpr h0)
      omega
    have hceil : (a : ℚ) / b = -(((-a : ℤ) : ℚ) / b) := by push_cast; ring
    rw [hceil, Int.ceil_neg, Rat.floor_intCast_div_natCast, ← Int.tdiv_eq_ediv_of_nonneg hneg,
      Int.neg_tdiv, neg_neg]

/-- A midpoint is seen in the next decimal digit. -/
theorem floor_add_half (x : ℚ) : ⌊x + 1 / 2⌋ = (⌊10 * x⌋ + 5) / 10 := by
  have hscaled : x + 1 / 2 = (10 * x + (5 : ℤ)) / (10 : ℕ) := by
    push_cast
    ring
  rw [hscaled, Int.floor_div_natCast, Int.floor_add_intCast]
  rfl

/-- An error of `d` beside a whole number `z` is lost in rounding: it is less than a half, or
it is a half and points to zero. -/
def Absorbs (z d : ℚ) : Prop := |d| < 1 / 2 ∨ d = 1 / 2 ∧ z < 0 ∨ d = -(1 / 2) ∧ 0 < z

instance (z d : ℚ) : Decidable (Absorbs z d) := inferInstanceAs (Decidable (_ ∨ _))

theorem Absorbs.abs_le {z d : ℚ} (h : Absorbs z d) : |d| ≤ 1 / 2 := by
  rcases h with h | ⟨rfl, _⟩ | ⟨rfl, _⟩
  · exact h.le
  · norm_num
  · norm_num

theorem halfAway_add_eq_iff {z : ℤ} {d : ℚ} : halfAway (z + d) = z ↔ Absorbs z d := by
  unfold halfAway Absorbs
  rw [abs_lt]
  split_ifs with hsign
  · rw [Int.floor_eq_iff]
    constructor
    · rintro ⟨hlow, hhigh⟩
      rcases (show -(1 / 2) ≤ d by linarith).lt_or_eq with hlt | rfl
      · exact .inl ⟨hlt, by linarith⟩
      · exact .inr (.inr ⟨rfl, by linarith⟩)
    · rintro (⟨hlow, hhigh⟩ | ⟨rfl, hz⟩ | ⟨rfl, hz⟩)
      · constructor <;> linarith
      · have hz' : z < 0 := by exact_mod_cast hz
        have hle : (z : ℚ) ≤ -1 := by exact_mod_cast (show z ≤ -1 by omega)
        linarith
      · constructor <;> linarith
  · rw [Int.ceil_eq_iff]
    constructor
    · rintro ⟨hlow, hhigh⟩
      rcases (show d ≤ 1 / 2 by linarith).lt_or_eq with hlt | rfl
      · exact .inl ⟨by linarith, hlt⟩
      · exact .inr (.inl ⟨rfl, by linarith⟩)
    · rintro (⟨hlow, hhigh⟩ | ⟨rfl, hz⟩ | ⟨rfl, hz⟩)
      · constructor <;> linarith
      · constructor <;> linarith
      · have hz' : 0 < z := by exact_mod_cast hz
        have hle : (1 : ℚ) ≤ z := by exact_mod_cast (show 1 ≤ z by omega)
        linarith

theorem absorbs_halfAway (x : ℚ) : Absorbs (halfAway x) (x - halfAway x) := by
  rw [← halfAway_add_eq_iff, add_sub_cancel]

/-- Rounding gives `q` beside `q` exactly if `q` is whole and the error is lost. -/
theorem cast_halfAway_add_eq_iff {q d : ℚ} :
    (halfAway (q + d) : ℚ) = q ↔ (∃ z : ℤ, (z : ℚ) = q) ∧ Absorbs q d := by
  constructor
  · intro h
    have hz : halfAway ((halfAway (q + d) : ℚ) + d) = halfAway (q + d) := by rw [h]
    rw [halfAway_add_eq_iff, h] at hz
    exact ⟨⟨halfAway (q + d), h⟩, hz⟩
  · rintro ⟨⟨z, rfl⟩, hd⟩
    exact_mod_cast halfAway_add_eq_iff.mpr hd

theorem exists_cast_eq_div_iff {n k : ℤ} (hk : k ≠ 0) : (∃ z : ℤ, (z : ℚ) = n / k) ↔ k ∣ n := by
  have hk' : (k : ℚ) ≠ 0 := by exact_mod_cast hk
  constructor
  · rintro ⟨z, hz⟩
    refine ⟨z, ?_⟩
    rw [eq_div_iff hk', mul_comm] at hz
    exact_mod_cast hz.symm
  · rintro ⟨z, rfl⟩
    refine ⟨z, ?_⟩
    rw [Int.cast_mul, mul_div_cancel_left₀ _ hk']

end Rounding
