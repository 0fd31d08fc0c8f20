import TradingService.Core.Chain
import TradingService.Orders.Submission

/-!
# The same terms, rounded three times

An order is placed on the chain with its terms truncated to base units, its row keeps
them rounded to eight places, and what is settled is truncated again from the rows. A
row never holds less than an ask was placed with, but rounding up can take it beyond
the bid or the energy of the placement.
-/

namespace TradingService

open BaseUnits

structure PlacedTerms where
  energyAtomic : U64
  priceAtomic : U64
  deriving DecidableEq

def placeOrderOnChain (energyAmount pricePerKwh : Decimal) : Except String PlacedTerms := do
  let energyAtomic ← (truncToU64 energyAmount energyScale).elim (.error "energy amount out of range") .ok
  let priceAtomic ← (truncToU64 pricePerKwh currencyScale).elim (.error "price out of range") .ok
  return ⟨energyAtomic, priceAtomic⟩

structure AtomicAmounts where
  amountAtomic : U64
  priceAtomic : U64
  wheelingVal : U64
  lossVal : U64
  deriving DecidableEq

/-- `.to_u64().unwrap_or(0)`. -/
def truncOrZero (value : Decimal) (scale : ℤ) : U64 :=
  (truncToU64 value scale).getD ⟨0, by decide, by decide⟩

/-- The scaling of `execute_batched_settlements`. -/
def Settlement.atomicAmounts (s : Settlement Numeric) : AtomicAmounts where
  amountAtomic := truncOrZero s.energyAmount.toDecimal energyScale
  priceAtomic := truncOrZero s.price.toDecimal currencyScale
  wheelingVal := truncOrZero s.wheelingCharge.toDecimal currencyScale
  lossVal := truncOrZero s.lossCost.toDecimal currencyScale

section Scaling

variable {d d' : Decimal} {scale : ℤ} {u : U64}

theorem truncToU64_eq_some (h : truncToU64 d scale = some u) : (u : ℤ) = Rounding.trunc (d * scale) := by
  unfold truncToU64 BoundedInt.tryFrom at h
  split_ifs at h
  obtain rfl := Option.some.inj h
  rfl

theorem truncOrZero_eq_or (d : Decimal) (scale : ℤ) :
    (truncOrZero d scale : ℤ) = Rounding.trunc (d * scale) ∨ (truncOrZero d scale : ℤ) = 0 := by
  unfold truncOrZero
  cases h : truncToU64 d scale with
  | none => exact .inr rfl
  | some u => exact .inl (truncToU64_eq_some h)

theorem truncOrZero_le (h0 : 0 ≤ d * scale) : ((truncOrZero d scale : ℤ) : ℚ) ≤ d * scale := by
  rcases truncOrZero_eq_or d scale with h | h
  · rw [h, Rounding.trunc_of_nonneg h0]
    exact Int.floor_le _
  · rw [h]
    exact_mod_cast h0

theorem truncOrZero_of_le (h0 : 0 ≤ d * scale) (hle : d * scale ≤ 18446744073709551615) :
    (truncOrZero d scale : ℤ) = Rounding.trunc (d * scale) := by
  have hmem : 0 ≤ Rounding.trunc (d * scale) ∧ Rounding.trunc (d * scale) ≤ 18446744073709551615 := by
    rw [Rounding.trunc_of_nonneg h0]
    exact ⟨Int.floor_nonneg.mpr h0, Int.floor_le_iff.mpr (by push_cast; linarith)⟩
  unfold truncOrZero truncToU64 BoundedInt.tryFrom
  rw [dif_pos hmem]
  rfl

/-- Nothing that a column holds is too dear to be sent. -/
theorem truncOrZero_price (x : Numeric) (h0 : 0 ≤ x.toDecimal) :
    (truncOrZero x.toDecimal currencyScale : ℤ) = Rounding.trunc (x.toDecimal * currencyScale) := by
  have hunits : ((x.units : ℤ) : ℚ) ≤ 99999999999999999999 := by exact_mod_cast x.units.le_hi
  apply truncOrZero_of_le
  · exact mul_nonneg h0 (by norm_num [currencyScale])
  · unfold Numeric.toDecimal Numeric.scale currencyScale
    push_cast
    linarith

/-- The row of an ask holds at least the price that the ask was placed with. -/
theorem trunc_le_trunc_stored {x : Numeric} (h : Numeric.store d = some x) (h0 : 0 ≤ d) :
    Rounding.trunc (d * currencyScale) ≤ Rounding.trunc (x.toDecimal * currencyScale) := by
  have hscale : (0 : ℚ) < currencyScale := by norm_num [currencyScale]
  have hpos : 0 ≤ d * currencyScale := mul_nonneg h0 hscale.le
  obtain ⟨z, hz⟩ : ∃ z, z = Rounding.trunc (d * currencyScale) := ⟨_, rfl⟩
  have hfloor : (z : ℚ) ≤ d * currencyScale := by
    rw [hz, Rounding.trunc_of_nonneg hpos]
    exact Int.floor_le _
  have hgrid : (z : ℚ) / currencyScale ∈ Numeric.grid := by
    refine AddSubgroup.mem_zmultiples_iff.mpr ⟨z * 100, ?_⟩
    rw [zsmul_eq_mul]
    unfold Numeric.scale currencyScale
    push_cast
    ring
  have hle : (z : ℚ) / currencyScale ≤ x.toDecimal :=
    Numeric.le_store h hgrid ((div_le_iff₀ hscale).mpr hfloor)
  rw [← hz, ← Rounding.trunc_intCast z]
  exact Rounding.trunc_mono ((div_le_iff₀ hscale).mp hle)

end Scaling

structure TradingOrder.Accepted (order : TradingOrder) (row : OrderRow) (placed : PlacedTerms) : Prop where
  energy_pos : 0 < order.energyAmount
  price_pos : 0 < order.pricePerKwh
  stored_pos : 0 < row.pricePerKwh.toDecimal
  energy : Numeric.store order.energyAmount = some row.energyAmount
  price : Numeric.store order.pricePerKwh = some row.pricePerKwh
  placed : placeOrderOnChain order.energyAmount order.pricePerKwh = .ok placed

/-- Settlements of an order within what its row allows. -/
structure OrderRow.Allows (row : OrderRow) (settled : List (Settlement Numeric)) : Prop where
  amount_min : ∀ s ∈ settled, minTradeAmount ≤ s.energyAmount.toDecimal
  total : (settled.map (·.energyAmount.toDecimal)).sum ≤ row.energy
  price_pos : ∀ s ∈ settled, 0 < s.price.toDecimal
  ask : row.side = .sell → ∀ s ∈ settled, row.pricePerKwh.toDecimal ≤ s.price.toDecimal
  bid : row.side = .buy → ∀ s ∈ settled, s.price.toDecimal ≤ row.pricePerKwh.toDecimal

/-- The numbers that are sent for the settlements fit what the order was placed with. -/
structure PlacedTerms.Fits (placed : PlacedTerms) (side : OrderSide) (settled : List (Settlement Numeric)) :
    Prop where
  ask : side = .sell → ∀ s ∈ settled, (placed.priceAtomic : ℤ) ≤ s.atomicAmounts.priceAtomic
  bid : side = .buy → ∀ s ∈ settled, (s.atomicAmounts.priceAtomic : ℤ) ≤ placed.priceAtomic
  energy : (settled.map fun s => (s.atomicAmounts.amountAtomic : ℤ)).sum ≤ placed.energyAtomic

/-- The row is too small to trade, or was not rounded up beyond the request: in energy, and
for a buy in the base units of the price. -/
def OrderRow.NotRoundedUp (row : OrderRow) (order : TradingOrder) : Prop :=
  row.energy < minTradeAmount ∨
    (row.energy ≤ order.energyAmount ∧
      (row.side = .buy → Rounding.trunc (row.pricePerKwh.toDecimal * currencyScale) ≤
        Rounding.trunc (order.pricePerKwh * currencyScale)))

instance (row : OrderRow) (order : TradingOrder) : Decidable (row.NotRoundedUp order) :=
  inferInstanceAs (Decidable (_ ∨ _ ∧ (_ → _)))

theorem placeOrderOnChain_eq_ok {energyAmount pricePerKwh : Decimal} {placed : PlacedTerms}
    (h : placeOrderOnChain energyAmount pricePerKwh = .ok placed) :
    (placed.energyAtomic : ℤ) = Rounding.trunc (energyAmount * energyScale) ∧
      (placed.priceAtomic : ℤ) = Rounding.trunc (pricePerKwh * currencyScale) := by
  unfold placeOrderOnChain at h
  cases henergy : truncToU64 energyAmount energyScale with
  | none =>
    rw [henergy] at h
    cases h
  | some e =>
    cases hprice : truncToU64 pricePerKwh currencyScale with
    | none =>
      rw [henergy, hprice] at h
      cases h
    | some p =>
      rw [henergy, hprice] at h
      cases h
      exact ⟨truncToU64_eq_some henergy, truncToU64_eq_some hprice⟩

section Order

variable {order : TradingOrder} {row row' : OrderRow} {placed : PlacedTerms} {s : Settlement Numeric}
  {settled : List (Settlement Numeric)}

theorem sum_sent_le (hpos : ∀ s ∈ settled, 0 ≤ s.energyAmount.toDecimal) :
    (((settled.map fun s => (s.atomicAmounts.amountAtomic : ℤ)).sum : ℤ) : ℚ) ≤
      (settled.map (·.energyAmount.toDecimal)).sum * energyScale := by
  induction settled with
  | nil => simp
  | cons s settled ih =>
    obtain ⟨hs, hpos⟩ := List.forall_mem_cons.mp hpos
    have hscale : (0 : ℚ) ≤ energyScale := by norm_num [energyScale]
    have hsent : ((s.atomicAmounts.amountAtomic : ℤ) : ℚ) ≤ s.energyAmount.toDecimal * energyScale :=
      truncOrZero_le (mul_nonneg hs hscale)
    have hrest := ih hpos
    simp only [List.map_cons, List.sum_cons, Int.cast_add]
    linarith

namespace OrderRow.Allows

theorem amount_nonneg (h : row.Allows settled) : ∀ s ∈ settled, 0 ≤ s.energyAmount.toDecimal :=
  fun s hs => minTradeAmount_pos.le.trans (h.amount_min s hs)

theorem nil (hpos : 0 ≤ row.energy) : row.Allows [] where
  amount_min := by simp
  total := by simpa using hpos
  price_pos := by simp
  ask := by simp
  bid := by simp

theorem of_terms (h : row.Allows settled) (hterms : row.SameTerms row') : row'.Allows settled where
  amount_min := h.amount_min
  total := hterms.energy ▸ h.total
  price_pos := h.price_pos
  ask hside s hs := by
    rw [hterms.pricePerKwh]
    exact h.ask (hterms.side ▸ hside) s hs
  bid hside s hs := by
    rw [hterms.pricePerKwh]
    exact h.bid (hterms.side ▸ hside) s hs

theorem cons (h : row.Allows settled) (hmin : minTradeAmount ≤ s.energyAmount.toDecimal)
    (hroom : (settled.map (·.energyAmount.toDecimal)).sum + s.energyAmount.toDecimal ≤ row.energy)
    (hpos : 0 < s.price.toDecimal)
    (hask : row.side = .sell → row.pricePerKwh.toDecimal ≤ s.price.toDecimal)
    (hbid : row.side = .buy → s.price.toDecimal ≤ row.pricePerKwh.toDecimal) : row.Allows (s :: settled) where
  amount_min := List.forall_mem_cons.mpr ⟨hmin, h.amount_min⟩
  total := by
    rw [List.map_cons, List.sum_cons, add_comm]
    exact hroom
  price_pos := List.forall_mem_cons.mpr ⟨hpos, h.price_pos⟩
  ask hside := List.forall_mem_cons.mpr ⟨hask hside, h.ask hside⟩
  bid hside := List.forall_mem_cons.mpr ⟨hbid hside, h.bid hside⟩

theorem eq_nil (h : row.Allows settled) (hsmall : row.energy < minTradeAmount) : settled = [] := by
  apply List.eq_nil_iff_forall_not_mem.mpr
  intro s hs
  have hle : s.energyAmount.toDecimal ≤ (settled.map (·.energyAmount.toDecimal)).sum := by
    apply List.single_le_sum
    · intro x hx
      obtain ⟨s', hs', rfl⟩ := List.mem_map.mp hx
      exact h.amount_nonneg s' hs'
    · exact List.mem_map_of_mem hs
  have hmin := h.amount_min s hs
  have htotal := h.total
  linarith

end OrderRow.Allows

theorem PlacedTerms.fits_nil (placed : PlacedTerms) (side : OrderSide) : placed.Fits side [] where
  ask := by simp
  bid := by simp
  energy := placed.energyAtomic.lo_le

/-- Settlements within the row fit the placement, unless the row was rounded up. -/
theorem TradingOrder.Accepted.fits (h : order.Accepted row placed) (hrounded : row.NotRoundedUp order)
    (hallows : row.Allows settled) : placed.Fits row.side settled := by
  rcases hrounded with hsmall | ⟨henergy, hbid⟩
  · rw [hallows.eq_nil hsmall]
    exact placed.fits_nil row.side
  obtain ⟨hplacedEnergy, hplacedPrice⟩ := placeOrderOnChain_eq_ok h.placed
  have hscale : (0 : ℚ) ≤ currencyScale := by norm_num [currencyScale]
  have hsent : ∀ s ∈ settled, (s.atomicAmounts.priceAtomic : ℤ) =
      Rounding.trunc (s.price.toDecimal * currencyScale) :=
    fun s hs => truncOrZero_price s.price (hallows.price_pos s hs).le
  refine ⟨fun hside s hs => ?_, fun hside s hs => ?_, ?_⟩
  · rw [hplacedPrice, hsent s hs]
    exact (trunc_le_trunc_stored h.price h.price_pos.le).trans
      (Rounding.trunc_mono (mul_le_mul_of_nonneg_right (hallows.ask hside s hs) hscale))
  · rw [hplacedPrice, hsent s hs]
    exact (Rounding.trunc_mono (mul_le_mul_of_nonneg_right (hallows.bid hside s hs) hscale)).trans
      (hbid hside)
  · have henergyScale : (0 : ℚ) ≤ energyScale := by norm_num [energyScale]
    rw [hplacedEnergy, Rounding.trunc_of_nonneg (mul_nonneg h.energy_pos.le henergyScale)]
    apply Int.le_floor.mpr
    calc (((settled.map fun s => (s.atomicAmounts.amountAtomic : ℤ)).sum : ℤ) : ℚ)
        ≤ (settled.map (·.energyAmount.toDecimal)).sum * energyScale := sum_sent_le hallows.amount_nonneg
      _ ≤ order.energyAmount * energyScale :=
          mul_le_mul_of_nonneg_right (hallows.total.trans henergy) henergyScale

end Order

end TradingService
