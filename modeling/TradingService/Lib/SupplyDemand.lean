import Mathlib

/-!
# Supply and demand of a finite market

Buyers bid and sellers ask, each for a quantity. At one price the demand is what bids
reach it and the supply is what asks do not exceed it. A trade that leaves no crossing
pair with something to trade on both sides moves the smaller of the two at every price, up
to what may be left over.
-/

namespace SupplyDemand

variable {ι κ P : Type*} [LinearOrder P] (buyers : Finset ι) (sellers : Finset κ) (bid : ι → P)
  (ask : κ → P) (wanted bought : ι → ℚ) (offered sold : κ → ℚ)

def demand (p : P) : ℚ := ∑ i ∈ buyers with p ≤ bid i, wanted i

def supply (p : P) : ℚ := ∑ j ∈ sellers with ask j ≤ p, offered j

def executable (p : P) : ℚ :=
  min (demand buyers bid wanted p) (supply sellers ask offered p)

variable {buyers sellers bid ask wanted bought offered sold} {dust : ℚ} {p : P}

/-- A side whose members are all but served has moved what was wanted at the price. -/
theorem sum_le_of_served (hserved : ∀ i ∈ buyers, p ≤ bid i → wanted i - bought i ≤ dust)
    (hbought : ∀ i ∈ buyers, 0 ≤ bought i) (hdust : 0 ≤ dust) :
    demand buyers bid wanted p ≤ ∑ i ∈ buyers, bought i + dust * buyers.card := by
  have hsubset : (buyers.filter fun i => p ≤ bid i) ⊆ buyers := Finset.filter_subset _ _
  have heach : demand buyers bid wanted p ≤ ∑ i ∈ buyers with p ≤ bid i, (bought i + dust) := by
    apply Finset.sum_le_sum
    intro i hi
    obtain ⟨hmem, hreach⟩ := Finset.mem_filter.mp hi
    linarith [hserved i hmem hreach]
  calc
    demand buyers bid wanted p ≤ ∑ i ∈ buyers with p ≤ bid i, (bought i + dust) := heach
    _ ≤ ∑ i ∈ buyers, (bought i + dust) :=
      Finset.sum_le_sum_of_subset_of_nonneg hsubset fun i hi _ => add_nonneg (hbought i hi) hdust
    _ = ∑ i ∈ buyers, bought i + dust * buyers.card := by
      rw [Finset.sum_add_distrib, Finset.sum_const, nsmul_eq_mul, mul_comm]

/-- The supply at a price is the demand with the order of the prices turned around. -/
theorem supply_eq_demand (p : P) :
    supply sellers ask offered p =
      demand sellers (fun j => OrderDual.toDual (ask j)) offered (OrderDual.toDual p) := rfl

/-- Where everything that was bought was bought by bids that reach the price, the demand at
the price covers it. -/
theorem sum_le_demand (hbought : ∀ i ∈ buyers, bought i ≤ wanted i)
    (hreach : ∀ i ∈ buyers, bought i ≠ 0 → p ≤ bid i) :
    ∑ i ∈ buyers, bought i ≤ demand buyers bid wanted p := by
  have hsplit : ∑ i ∈ buyers, bought i = ∑ i ∈ buyers with p ≤ bid i, bought i := by
    rw [Finset.sum_filter]
    apply Finset.sum_congr rfl
    intro i hi
    by_cases hzero : bought i = 0
    · simp [hzero]
    · rw [if_pos (hreach i hi hzero)]
  rw [hsplit]
  exact Finset.sum_le_sum fun i hi => hbought i (Finset.mem_of_mem_filter i hi)

theorem sum_le_supply (hsold : ∀ j ∈ sellers, sold j ≤ offered j)
    (hreach : ∀ j ∈ sellers, sold j ≠ 0 → ask j ≤ p) :
    ∑ j ∈ sellers, sold j ≤ supply sellers ask offered p := by
  rw [supply_eq_demand]
  exact sum_le_demand hsold fun j hj hne => OrderDual.toDual_le_toDual.mpr (hreach j hj hne)

/-- A volume that serves all buyers and all sellers, in the amounts that were wanted and
offered, and leaves no crossing pair with more than `dust` on both sides. -/
structure Exhausts (buyers : Finset ι) (sellers : Finset κ) (bid : ι → P) (ask : κ → P)
    (wanted bought : ι → ℚ) (offered sold : κ → ℚ) (dust volume : ℚ) : Prop where
  bought_nonneg : ∀ i ∈ buyers, 0 ≤ bought i
  sold_nonneg : ∀ j ∈ sellers, 0 ≤ sold j
  sum_bought : ∑ i ∈ buyers, bought i = volume
  sum_sold : ∑ j ∈ sellers, sold j = volume
  spent : ∀ i ∈ buyers, ∀ j ∈ sellers, ask j ≤ bid i →
    wanted i - bought i ≤ dust ∨ offered j - sold j ≤ dust

/-- No uniform price moves more, up to the dust on the longer side. -/
theorem Exhausts.executable_le {volume : ℚ}
    (h : Exhausts buyers sellers bid ask wanted bought offered sold dust volume) (hdust : 0 ≤ dust)
    (p : P) :
    executable buyers sellers bid ask wanted offered p ≤
      volume + dust * max buyers.card sellers.card := by
  have hbuyers : dust * buyers.card ≤ dust * max buyers.card sellers.card :=
    mul_le_mul_of_nonneg_left (by exact_mod_cast le_max_left _ _) hdust
  have hsellers : dust * sellers.card ≤ dust * max buyers.card sellers.card :=
    mul_le_mul_of_nonneg_left (by exact_mod_cast le_max_right _ _) hdust
  by_cases hserved : ∀ i ∈ buyers, p ≤ bid i → wanted i - bought i ≤ dust
  · have hdemand := sum_le_of_served hserved h.bought_nonneg hdust
    rw [h.sum_bought] at hdemand
    exact (min_le_left _ _).trans (by linarith)
  · push Not at hserved
    obtain ⟨i, hi, hreach, hshort⟩ := hserved
    have hsold : ∀ j ∈ sellers, OrderDual.toDual p ≤ OrderDual.toDual (ask j) →
        offered j - sold j ≤ dust := by
      intro j hj hask
      have hcross : ask j ≤ bid i := (OrderDual.toDual_le_toDual.mp hask).trans hreach
      exact (h.spent i hi j hj hcross).resolve_left (not_le.mpr hshort)
    have hsupply := sum_le_of_served hsold h.sold_nonneg hdust
    rw [h.sum_sold] at hsupply
    exact (min_le_right _ _).trans (by rw [supply_eq_demand]; linarith)

end SupplyDemand
