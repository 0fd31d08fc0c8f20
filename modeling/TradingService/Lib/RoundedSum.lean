import TradingService.Lib.Rounding

/-!
# Sums of rounded values

A total that is rounded on its own and the sum of its parts, each rounded on its own, are two
different numbers. They are apart by half a unit for each rounding at most.
-/

namespace Rounding

theorem abs_halfAway_sub_le (x : ℚ) : |(halfAway x : ℚ) - x| ≤ 1 / 2 := by
  rw [abs_sub_comm]
  exact (absorbs_halfAway x).abs_le

/-- Each of the parts adds half a unit at most. -/
theorem abs_sum_halfAway_sub_le (xs : List ℚ) :
    |((xs.map halfAway).sum : ℚ) - xs.sum| ≤ xs.length / 2 := by
  induction xs with
  | nil => simp
  | cons x xs ih =>
    have hhead := abs_halfAway_sub_le x
    have hsplit : ((((x :: xs).map halfAway).sum : ℤ) : ℚ) - (x :: xs).sum =
        ((halfAway x : ℚ) - x) + (((xs.map halfAway).sum : ℤ) - xs.sum) := by
      rw [List.map_cons, List.sum_cons, List.sum_cons, Int.cast_add]
      ring
    calc |((((x :: xs).map halfAway).sum : ℤ) : ℚ) - (x :: xs).sum|
        ≤ |(halfAway x : ℚ) - x| + |(((xs.map halfAway).sum : ℤ) : ℚ) - xs.sum| := by
          rw [hsplit]
          exact abs_add_le _ _
      _ ≤ 1 / 2 + xs.length / 2 := add_le_add hhead ih
      _ = (x :: xs).length / 2 := by
          rw [List.length_cons, Nat.cast_succ]
          ring

/-- The parts and their total, in whole units. -/
theorem abs_sum_halfAway_sub_halfAway_le (xs : List ℚ) :
    |(xs.map halfAway).sum - halfAway xs.sum| ≤ ((xs.length : ℤ) + 1) / 2 := by
  have hparts := abs_sum_halfAway_sub_le xs
  have htotal := abs_halfAway_sub_le xs.sum
  have hapart : |((xs.map halfAway).sum : ℚ) - halfAway xs.sum| ≤ (xs.length + 1) / 2 := by
    have hsplit : ((xs.map halfAway).sum : ℚ) - halfAway xs.sum =
        (((xs.map halfAway).sum : ℚ) - xs.sum) - ((halfAway xs.sum : ℚ) - xs.sum) := by ring
    rw [hsplit]
    refine (abs_sub _ _).trans ?_
    linarith
  apply (Int.le_ediv_iff_mul_le two_pos).mpr
  have hcast : ((|(xs.map halfAway).sum - halfAway xs.sum| * 2 : ℤ) : ℚ) ≤ ((xs.length : ℤ) + 1 : ℤ) := by
    rw [Int.cast_mul, Int.cast_abs, Int.cast_sub, Int.cast_add, Int.cast_natCast, Int.cast_one,
      Int.cast_ofNat]
    linarith
  exact Int.cast_le.mp hcast

theorem abs_sum_map_le {α : Type*} {l : List α} {f : α → ℚ} {c : ℚ} (h : ∀ a ∈ l, |f a| ≤ c) :
    |(l.map f).sum| ≤ c * l.length := by
  induction l with
  | nil => simp
  | cons a l ih =>
    obtain ⟨hhead, htail⟩ := List.forall_mem_cons.mp h
    have hrest := ih htail
    rw [List.map_cons, List.sum_cons, List.length_cons]
    refine (abs_add_le _ _).trans ?_
    push_cast
    linarith

theorem sum_map_le_add {α : Type*} {l : List α} {f g : α → ℚ} {c : ℚ} (h : ∀ a ∈ l, f a ≤ g a + c) :
    (l.map f).sum ≤ (l.map g).sum + c * l.length := by
  induction l with
  | nil => simp
  | cons a l ih =>
    obtain ⟨hhead, htail⟩ := List.forall_mem_cons.mp h
    have hrest := ih htail
    rw [List.map_cons, List.map_cons, List.sum_cons, List.sum_cons, List.length_cons]
    push_cast
    linarith

end Rounding
