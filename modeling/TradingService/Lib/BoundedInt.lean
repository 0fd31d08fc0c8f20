import Mathlib

/-!
# Integers in a range

A machine integer type is the integers between its two bounds, with the bounds
as fields. The conversions from unbounded integers are the checked one and the
saturating one.
-/

structure BoundedInt (lo hi : ℤ) where
  val : ℤ
  lo_le : lo ≤ val
  le_hi : val ≤ hi
  deriving DecidableEq

namespace BoundedInt

variable {lo hi : ℤ}

instance : CoeOut (BoundedInt lo hi) ℤ := ⟨val⟩

@[ext] theorem ext {a b : BoundedInt lo hi} (h : (a : ℤ) = b) : a = b := by
  cases a; cases b; simpa using h

instance : LinearOrder (BoundedInt lo hi) := LinearOrder.lift' val fun _ _ => ext

theorem le_iff {a b : BoundedInt lo hi} : a ≤ b ↔ (a : ℤ) ≤ b := Iff.rfl

theorem lt_iff {a b : BoundedInt lo hi} : a < b ↔ (a : ℤ) < b := Iff.rfl

def tryFrom (z : ℤ) : Option (BoundedInt lo hi) :=
  if h : lo ≤ z ∧ z ≤ hi then some ⟨z, h.1, h.2⟩ else none

theorem tryFrom_eq_some {z : ℤ} {a : BoundedInt lo hi} : tryFrom z = some a ↔ (a : ℤ) = z := by
  unfold tryFrom
  constructor
  · intro h
    split_ifs at h
    obtain rfl := Option.some.inj h
    rfl
  · rintro rfl
    exact dif_pos ⟨a.lo_le, a.le_hi⟩

variable [hrange : Fact (lo ≤ hi)]

def top : BoundedInt lo hi := ⟨hi, hrange.out, le_rfl⟩

def bottom : BoundedInt lo hi := ⟨lo, le_rfl, hrange.out⟩

def saturate (z : ℤ) : BoundedInt lo hi :=
  ⟨max lo (min hi z), le_max_left _ _, max_le hrange.out (min_le_left _ _)⟩

def saturatingAdd (a b : BoundedInt lo hi) : BoundedInt lo hi := saturate (a + b)

def saturatingSub (a b : BoundedInt lo hi) : BoundedInt lo hi := saturate (a - b)

theorem le_top (a : BoundedInt lo hi) : a ≤ top := a.le_hi

theorem saturate_mono : Monotone (saturate : ℤ → BoundedInt lo hi) := fun _ _ h =>
  le_iff.mpr (max_le_max le_rfl (min_le_min le_rfl h))

theorem saturate_of_mem {z : ℤ} (h₁ : lo ≤ z) (h₂ : z ≤ hi) :
    (saturate z : BoundedInt lo hi) = ⟨z, h₁, h₂⟩ :=
  ext (by simp only [saturate, min_eq_right h₂, max_eq_right h₁])

theorem saturate_of_ge {z : ℤ} (h : hi ≤ z) : (saturate z : BoundedInt lo hi) = top :=
  ext (by simp only [saturate, top, min_eq_left h, max_eq_right hrange.out])

theorem saturate_of_le {z : ℤ} (h : z ≤ lo) : (saturate z : BoundedInt lo hi) = bottom :=
  ext (by simp only [saturate, bottom, min_eq_right (h.trans hrange.out), max_eq_left h])

@[simp] theorem saturate_coe (a : BoundedInt lo hi) : saturate (a : ℤ) = a :=
  saturate_of_mem a.lo_le a.le_hi

theorem saturatingAdd_mono {a a' b b' : BoundedInt lo hi} (ha : a ≤ a') (hb : b ≤ b') :
    saturatingAdd a b ≤ saturatingAdd a' b' :=
  saturate_mono (add_le_add (le_iff.mp ha) (le_iff.mp hb))

theorem saturatingAdd_nonneg {a b : BoundedInt lo hi} (h : 0 ≤ hi) (ha : 0 ≤ (a : ℤ))
    (hb : 0 ≤ (b : ℤ)) : 0 ≤ (saturatingAdd a b : ℤ) := by
  simp only [saturatingAdd, saturate]
  omega

/-- Above the lower bound, the checked conversion with the greatest value as its
fallback is the saturating one. -/
theorem tryFrom_getD_top {z : ℤ} (hz : lo ≤ z) :
    (tryFrom z).getD (top : BoundedInt lo hi) = saturate z := by
  unfold tryFrom
  split_ifs with h
  · exact (saturate_of_mem h.1 h.2).symm
  · have hhi : hi ≤ z := by
      by_contra hlt
      exact h ⟨hz, by omega⟩
    exact (saturate_of_ge hhi).symm

end BoundedInt
