import TradingService.Engine.Rationing
import TradingService.Lib.SupplyDemand

/-!
# The volume that the auction clears

The sweep of a zone moves as much energy as any single price could, up to the amounts
below the minimum that it leaves on the orders, and the price that it settles at is one
that executes what was moved.
-/

namespace TradingService.UniformAuction

open SupplyDemand (Exhausts)
open MatchingEngine (InBounds)

variable {m n : ℕ}

instance (nowNs : I64) (zone : ZoneId) (o : FastOrder) : Decidable (Files nowNs zone o) :=
  decidable_of_iff (o.zoneId = zone ∧ o.isExpired nowNs = false ∧ minTradeAmount ≤ o.remainingAmount)
    ⟨fun h => ⟨h.1, h.2.1, h.2.2⟩, fun h => ⟨h.zone, h.live, h.remaining⟩⟩

section Curves

variable (nowNs : I64) (orders : Fin n → FastOrder) (zone : ZoneId)

def filedIn : Finset (Fin n) := Finset.univ.filter fun i => Files nowNs zone (orders i)

def zoneDemand (price : Decimal) : Decimal :=
  SupplyDemand.demand (filedIn nowNs orders zone) (fun i => (orders i).price.toDecimal)
    (fun i => (orders i).remainingAmount) price

def zoneSupply (price : Decimal) : Decimal :=
  SupplyDemand.supply (filedIn nowNs orders zone) (fun j => (orders j).price.toDecimal)
    (fun j => (orders j).remainingAmount) price

end Curves

/-- What could change hands in the zone at one price. -/
def zoneExecutable (nowNs : I64) (buyOrders : Fin m → FastOrder) (sellOrders : Fin n → FastOrder)
    (zone : ZoneId) (price : Decimal) : Decimal :=
  min (zoneDemand nowNs buyOrders zone price) (zoneSupply nowNs sellOrders zone price)

def zoneDust (nowNs : I64) (buyOrders : Fin m → FastOrder) (sellOrders : Fin n → FastOrder)
    (zone : ZoneId) : Decimal :=
  minTradeAmount * max (filedIn nowNs buyOrders zone).card (filedIn nowNs sellOrders zone).card

def AuctionState.clearedIn (st : AuctionState m n) (zone : ZoneId) : Decimal :=
  ((st.zones.filter (·.zoneId = zone)).map (·.clearedVolume)).sum

theorem AuctionState.clearedIn_report (st : AuctionState m n) (zc : ZoneClearing) (zone : ZoneId) :
    (st.report zc).clearedIn zone =
      st.clearedIn zone + if zc.zoneId = zone then zc.clearedVolume else 0 := by
  unfold clearedIn report
  rw [List.filter_append, List.map_append, List.sum_append]
  by_cases h : zc.zoneId = zone <;> simp [h]

theorem AuctionState.clearedIn_of_not_mem {st : AuctionState m n} {zone : ZoneId}
    (h : ∀ zc ∈ st.zones, zc.zoneId ≠ zone) : st.clearedIn zone = 0 := by
  have hnone : st.zones.filter (·.zoneId = zone) = [] :=
    List.filter_eq_nil_iff.mpr fun zc hzc => by simpa using h zc hzc
  rw [clearedIn, hnone, List.map_nil, List.sum_nil]

section Fills

variable {fills : List (Fin m × Fin n × Decimal)}

theorem bought_cons (f : Fin m × Fin n × Decimal) (i : Fin m) :
    bought (f :: fills) i = (if f.1 = i then f.2.2 else 0) + bought fills i := by
  unfold bought
  by_cases h : f.1 = i <;> simp [h]

theorem sold_cons (f : Fin m × Fin n × Decimal) (j : Fin n) :
    sold (f :: fills) j = (if f.2.1 = j then f.2.2 else 0) + sold fills j := by
  unfold sold
  by_cases h : f.2.1 = j <;> simp [h]

theorem sum_bought {buyers : Finset (Fin m)} (h : ∀ f ∈ fills, f.1 ∈ buyers) :
    ∑ i ∈ buyers, bought fills i = (fills.map fun f => f.2.2).sum := by
  induction fills with
  | nil => simp [bought]
  | cons f fills ih =>
    obtain ⟨hf, hfills⟩ := List.forall_mem_cons.mp h
    simp only [bought_cons, Finset.sum_add_distrib, ih hfills, Finset.sum_ite_eq, if_pos hf,
      List.map_cons, List.sum_cons]

theorem sum_sold {sellers : Finset (Fin n)} (h : ∀ f ∈ fills, f.2.1 ∈ sellers) :
    ∑ j ∈ sellers, sold fills j = (fills.map fun f => f.2.2).sum := by
  induction fills with
  | nil => simp [sold]
  | cons f fills ih =>
    obtain ⟨hf, hfills⟩ := List.forall_mem_cons.mp h
    simp only [sold_cons, Finset.sum_add_distrib, ih hfills, Finset.sum_ite_eq, if_pos hf,
      List.map_cons, List.sum_cons]

theorem bought_nonneg (h : ∀ f ∈ fills, 0 ≤ f.2.2) (i : Fin m) : 0 ≤ bought fills i :=
  List.sum_nonneg (List.forall_mem_map.mpr fun f hf => h f (List.mem_of_mem_filter hf))

theorem sold_nonneg (h : ∀ f ∈ fills, 0 ≤ f.2.2) (j : Fin n) : 0 ≤ sold fills j :=
  List.sum_nonneg (List.forall_mem_map.mpr fun f hf => h f (List.mem_of_mem_filter hf))

theorem exists_fill_of_bought {i : Fin m} (h : bought fills i ≠ 0) : ∃ f ∈ fills, f.1 = i := by
  by_contra hnone
  push Not at hnone
  have hnil : fills.filter (fun f => f.1 = i) = [] :=
    List.filter_eq_nil_iff.mpr fun f hf => by simpa using hnone f hf
  exact h (by rw [bought, hnil, List.map_nil, List.sum_nil])

theorem exists_fill_of_sold {j : Fin n} (h : sold fills j ≠ 0) : ∃ f ∈ fills, f.2.1 = j := by
  by_contra hnone
  push Not at hnone
  have hnil : fills.filter (fun f => f.2.1 = j) = [] :=
    List.filter_eq_nil_iff.mpr fun f hf => by simpa using hnone f hf
  exact h (by rw [sold, hnil, List.map_nil, List.sum_nil])

end Fills

section Zone

variable {nowNs : I64} {zone : ZoneId} {buys₀ : Fin m → FastOrder} {sells₀ : Fin n → FastOrder}
  {st : AuctionState m n} {buys : List (Fin m)} {sells : List (Fin n)}

theorem mem_filedIn {orders : Fin n → FastOrder} {i : Fin n} :
    i ∈ filedIn nowNs orders zone ↔ Files nowNs zone (orders i) := by
  simp [filedIn]

structure Fresh (nowNs : I64) (zone : ZoneId) (buys₀ : Fin m → FastOrder) (sells₀ : Fin n → FastOrder)
    (st : AuctionState m n) (buys : List (Fin m)) (sells : List (Fin n)) : Prop where
  buys_mem : ∀ i, i ∈ buys ↔ Files nowNs zone (buys₀ i)
  sells_mem : ∀ j, j ∈ sells ↔ Files nowNs zone (sells₀ j)
  buys_eq : ∀ i, (buys₀ i).zoneId = zone → st.buyOrders i = buys₀ i
  sells_eq : ∀ j, (sells₀ j).zoneId = zone → st.sellOrders j = sells₀ j

theorem Fresh.fills_filed (h : Fresh nowNs zone buys₀ sells₀ st buys sells) :
    ∀ f ∈ (sweepZone st buys sells).fills, f.1 ∈ filedIn nowNs buys₀ zone ∧
      f.2.1 ∈ filedIn nowNs sells₀ zone ∧ 0 ≤ f.2.2 := by
  intro f hf
  obtain ⟨_, _, hunder, _⟩ := underway_sweepZone st buys sells
  have hfill := hunder.fills f hf
  have hbuyPerm : (sortBuyIndices st.buyOrders buys).Perm buys := List.perm_insertionSort _ _
  have hsellPerm : (sortSellIndices st.sellOrders sells).Perm sells := List.perm_insertionSort _ _
  exact ⟨mem_filedIn.mpr ((h.buys_mem _).mp (hbuyPerm.subset hfill.buy)),
    mem_filedIn.mpr ((h.sells_mem _).mp (hsellPerm.subset hfill.sell)),
    minTradeAmount_pos.le.trans hfill.amount_min⟩

theorem Fresh.remaining_buy (h : Fresh nowNs zone buys₀ sells₀ st buys sells) {i : Fin m}
    (hi : (buys₀ i).zoneId = zone) :
    ((sweepZone st buys sells).buyOrders i).remainingAmount =
      (buys₀ i).remainingAmount - bought (sweepZone st buys sells).fills i := by
  obtain ⟨_, _, hunder, _⟩ := underway_sweepZone st buys sells
  rw [hunder.credited.buys_eq, h.buys_eq i hi, FastOrder.fill_remainingAmount]

theorem Fresh.remaining_sell (h : Fresh nowNs zone buys₀ sells₀ st buys sells) {j : Fin n}
    (hj : (sells₀ j).zoneId = zone) :
    ((sweepZone st buys sells).sellOrders j).remainingAmount =
      (sells₀ j).remainingAmount - sold (sweepZone st buys sells).fills j := by
  obtain ⟨_, _, hunder, _⟩ := underway_sweepZone st buys sells
  rw [hunder.credited.sells_eq, h.sells_eq j hj, FastOrder.fill_remainingAmount]

/-- Where nobody both buys and sells, the sweep leaves no crossing pair of the zone with the
minimum on both sides. -/
theorem Fresh.exhausts (h : Fresh nowNs zone buys₀ sells₀ st buys sells)
    (hseparate : Separate buys₀ sells₀ zone) :
    Exhausts (filedIn nowNs buys₀ zone) (filedIn nowNs sells₀ zone) (fun i => (buys₀ i).price.toDecimal)
      (fun j => (sells₀ j).price.toDecimal) (fun i => (buys₀ i).remainingAmount)
      (bought (sweepZone st buys sells).fills) (fun j => (sells₀ j).remainingAmount)
      (sold (sweepZone st buys sells).fills) minTradeAmount
      ((sweepZone st buys sells).fills.map fun f => f.2.2).sum where
  bought_nonneg i _ := bought_nonneg (fun f hf => (h.fills_filed f hf).2.2) i
  sold_nonneg j _ := sold_nonneg (fun f hf => (h.fills_filed f hf).2.2) j
  sum_bought := sum_bought fun f hf => (h.fills_filed f hf).1
  sum_sold := sum_sold fun f hf => (h.fills_filed f hf).2.1
  spent i hi j hj hcross := by
    have hbuy := mem_filedIn.mp hi
    have hsell := mem_filedIn.mp hj
    obtain ⟨is, js, hunder, happart⟩ := underway_sweepZone st buys sells
    have hbuyPerm : (sortBuyIndices st.buyOrders buys).Perm buys := List.perm_insertionSort _ _
    have hsellPerm : (sortSellIndices st.sellOrders sells).Perm sells := List.perm_insertionSort _ _
    rw [← h.remaining_buy hbuy.zone, ← h.remaining_sell hsell.zone]
    rcases hunder.buys_passed i (hbuyPerm.symm.subset ((h.buys_mem i).mpr hbuy)) with hahead | hdone
    · rcases hunder.sells_passed j (hsellPerm.symm.subset ((h.sells_mem j).mpr hsell)) with
        hahead' | hdust | ⟨k, hk, hown⟩
      · have hlt := happart i hahead j hahead'
        rw [h.buys_eq i hbuy.zone, h.sells_eq j hsell.zone] at hlt
        exact absurd (FastPrice.toDecimal_le.mp hcross) (not_le.mpr hlt)
      · exact .inr hdust.le
      · have hbuyer := (h.buys_mem k).mp (hbuyPerm.subset hk)
        rw [h.buys_eq k hbuyer.zone, h.sells_eq j hsell.zone] at hown
        exact absurd hown (hseparate k j hbuyer.zone hsell.zone)
    · exact .inl hdone.le

theorem Fresh.volume_le (h : Fresh nowNs zone buys₀ sells₀ st buys sells)
    (hbuys : ∀ i, InBounds (st.buyOrders i)) (hsells : ∀ j, InBounds (st.sellOrders j))
    {bid ask : FastPrice} (hmarginal : (sweepZone st buys sells).marginal = some (bid, ask)) :
    ((sweepZone st buys sells).fills.map fun f => f.2.2).sum ≤
      zoneExecutable nowNs buys₀ sells₀ zone (FastPrice.midpoint bid ask).toDecimal := by
  obtain ⟨_, _, hunder, _⟩ := underway_sweepZone st buys sells
  obtain ⟨hcross, hmargin⟩ := hunder.marginal _ hmarginal
  obtain ⟨hlow, hhigh⟩ := midpoint_between hcross
  refine le_min ?_ ?_
  · rw [← sum_bought fun f hf => (h.fills_filed f hf).1]
    refine SupplyDemand.sum_le_demand (fun i hi => ?_) fun i hi hne => ?_
    · have hleft := (hunder.credited.buys_bounds hbuys i).filled_le
      have hremaining := h.remaining_buy (mem_filedIn.mp hi).zone
      unfold FastOrder.remainingAmount at hremaining ⊢
      linarith
    · obtain ⟨f, hf, rfl⟩ := exists_fill_of_bought hne
      have hbid := (hmargin f hf).1
      rw [h.buys_eq _ (mem_filedIn.mp hi).zone] at hbid
      exact FastPrice.toDecimal_le.mpr (hhigh.trans hbid)
  · rw [← sum_sold fun f hf => (h.fills_filed f hf).2.1]
    refine SupplyDemand.sum_le_supply (fun j hj => ?_) fun j hj hne => ?_
    · have hleft := (hunder.credited.sells_bounds hsells j).filled_le
      have hremaining := h.remaining_sell (mem_filedIn.mp hj).zone
      unfold FastOrder.remainingAmount at hremaining ⊢
      linarith
    · obtain ⟨f, hf, rfl⟩ := exists_fill_of_sold hne
      have hask := (hmargin f hf).2
      rw [h.sells_eq _ (mem_filedIn.mp hj).zone] at hask
      exact FastPrice.toDecimal_le.mpr (hask.trans hlow)

theorem Fresh.frame (h : Fresh nowNs zone buys₀ sells₀ st buys sells) :
    (∀ i, (buys₀ i).zoneId ≠ zone → (sweepZone st buys sells).buyOrders i = st.buyOrders i) ∧
      ∀ j, (sells₀ j).zoneId ≠ zone → (sweepZone st buys sells).sellOrders j = st.sellOrders j := by
  obtain ⟨_, _, hunder, _⟩ := underway_sweepZone st buys sells
  refine ⟨fun i hi => ?_, fun j hj => ?_⟩
  · have hnone : bought (sweepZone st buys sells).fills i = 0 := by
      by_contra hne
      obtain ⟨f, hf, rfl⟩ := exists_fill_of_bought hne
      exact hi (mem_filedIn.mp (h.fills_filed f hf).1).zone
    rw [hunder.credited.buys_eq, hnone, FastOrder.fill_zero]
  · have hnone : sold (sweepZone st buys sells).fills j = 0 := by
      by_contra hne
      obtain ⟨f, hf, rfl⟩ := exists_fill_of_sold hne
      exact hj (mem_filedIn.mp (h.fills_filed f hf).2.1).zone
    rw [hunder.credited.sells_eq, hnone, FastOrder.fill_zero]

theorem zoneDust_nonneg : 0 ≤ zoneDust nowNs buys₀ sells₀ zone := by
  unfold zoneDust
  exact mul_nonneg minTradeAmount_pos.le (by positivity)

theorem zoneExecutable_of_empty
    (h : filedIn nowNs buys₀ zone = ∅ ∨ filedIn nowNs sells₀ zone = ∅) (price : Decimal) :
    zoneExecutable nowNs buys₀ sells₀ zone price ≤ 0 := by
  rcases h with h | h
  · refine (min_le_left _ _).trans_eq ?_
    rw [zoneDemand, h, SupplyDemand.demand, Finset.filter_empty, Finset.sum_empty]
  · refine (min_le_right _ _).trans_eq ?_
    rw [zoneSupply, h, SupplyDemand.supply, Finset.filter_empty, Finset.sum_empty]

/-- No single price executes more than the volume, up to the dust. -/
def Maximal (nowNs : I64) (buys₀ : Fin m → FastOrder) (sells₀ : Fin n → FastOrder) (zone : ZoneId)
    (volume : Decimal) : Prop :=
  ∀ price, zoneExecutable nowNs buys₀ sells₀ zone price ≤
    volume + zoneDust nowNs buys₀ sells₀ zone

theorem Maximal.of_empty (h : filedIn nowNs buys₀ zone = ∅ ∨ filedIn nowNs sells₀ zone = ∅) :
    Maximal nowNs buys₀ sells₀ zone 0 := by
  intro price
  rw [zero_add]
  exact (zoneExecutable_of_empty h price).trans zoneDust_nonneg

theorem Fresh.maximal (h : Fresh nowNs zone buys₀ sells₀ st buys sells)
    (hseparate : Separate buys₀ sells₀ zone) :
    Maximal nowNs buys₀ sells₀ zone ((sweepZone st buys sells).fills.map fun f => f.2.2).sum :=
  (h.exhausts hseparate).executable_le minTradeAmount_pos.le

theorem filedIn_of_unlisted {orders : Fin n → FastOrder}
    (h : (partitionByZone orders nowNs).get? zone = none) : filedIn nowNs orders zone = ∅ := by
  apply Finset.eq_empty_of_forall_notMem
  intro i hi
  have hfiled := mem_filedIn.mp hi
  rw [partitionByZone_get?, listed] at h
  split_ifs at h with hnil
  have hmem : i ∈ placesIn orders nowNs zone (List.finRange n) := by
    simp [placesIn, hfiled.zone, hfiled.live, hfiled.remaining]
  rw [hnil] at hmem
  cases hmem

end Zone

section Auction

/-- The invariant of the loop over the zones, of which `done` are behind. -/
structure VolumeSoFar (nowNs : I64) (buys₀ : Fin m → FastOrder) (sells₀ : Fin n → FastOrder)
    (done : List ZoneId) (st : AuctionState m n) : Prop where
  buys_ahead : ∀ i, (buys₀ i).zoneId ∉ done → st.buyOrders i = buys₀ i
  sells_ahead : ∀ j, (sells₀ j).zoneId ∉ done → st.sellOrders j = sells₀ j
  buys_bounds : ∀ i, InBounds (st.buyOrders i)
  sells_bounds : ∀ j, InBounds (st.sellOrders j)
  zones_done : ∀ zc ∈ st.zones, zc.zoneId ∈ done
  behind : ∀ zone ∈ done, Separate buys₀ sells₀ zone →
    Maximal nowNs buys₀ sells₀ zone (st.clearedIn zone)
  priced : ∀ zc ∈ st.zones,
    zc.clearedVolume ≤ zoneExecutable nowNs buys₀ sells₀ zc.zoneId zc.clearingPrice

variable {nowNs : I64} {buys₀ : Fin m → FastOrder} {sells₀ : Fin n → FastOrder} {done : List ZoneId}
  {st : AuctionState m n} {entry : ZoneId × List (Fin m)} {sells : List (Fin n)}

theorem VolumeSoFar.clearedIn_new (h : VolumeSoFar nowNs buys₀ sells₀ done st) {zone : ZoneId}
    (hnew : zone ∉ done) : st.clearedIn zone = 0 :=
  AuctionState.clearedIn_of_not_mem fun zc hzc hzone => hnew (hzone ▸ h.zones_done zc hzc)

theorem VolumeSoFar.fresh (h : VolumeSoFar nowNs buys₀ sells₀ done st) (hnew : entry.1 ∉ done)
    (hentry : ∀ i, i ∈ entry.2 ↔ Files nowNs entry.1 (buys₀ i))
    (hget : (partitionByZone sells₀ nowNs).get? entry.1 = some sells) :
    Fresh nowNs entry.1 buys₀ sells₀ st entry.2 sells where
  buys_mem := hentry
  sells_mem := files_of_mem_partition hget
  buys_eq i hi := h.buys_ahead i (hi ▸ hnew)
  sells_eq j hj := h.sells_ahead j (hj ▸ hnew)

theorem VolumeSoFar.pass (h : VolumeSoFar nowNs buys₀ sells₀ done st) {zone : ZoneId}
    (hnew : zone ∉ done) (hmaximal : Separate buys₀ sells₀ zone → Maximal nowNs buys₀ sells₀ zone 0) :
    VolumeSoFar nowNs buys₀ sells₀ (done ++ [zone]) st :=
  { h with
    buys_ahead := fun i hi => h.buys_ahead i fun hmem => hi (List.mem_append_left _ hmem)
    sells_ahead := fun j hj => h.sells_ahead j fun hmem => hj (List.mem_append_left _ hmem)
    zones_done := fun zc hzc => List.mem_append_left _ (h.zones_done zc hzc)
    behind := List.forall_mem_append.mpr ⟨h.behind, fun z hz hseparate => by
      obtain rfl := List.mem_singleton.mp hz
      rw [h.clearedIn_new hnew]
      exact hmaximal hseparate⟩ }

/-- The orders of the sweep of a zone take the place of its orders. -/
theorem VolumeSoFar.withOrders (h : VolumeSoFar nowNs buys₀ sells₀ (done ++ [entry.1]) st)
    (hfresh : Fresh nowNs entry.1 buys₀ sells₀ st entry.2 sells) :
    VolumeSoFar nowNs buys₀ sells₀ (done ++ [entry.1]) (st.withOrders (sweepZone st entry.2 sells)) := by
  obtain ⟨_, _, hunder, _⟩ := underway_sweepZone st entry.2 sells
  refine ⟨fun i hi => ?_, fun j hj => ?_, hunder.credited.buys_bounds h.buys_bounds,
    hunder.credited.sells_bounds h.sells_bounds, h.zones_done, h.behind, h.priced⟩
  · have hother : (buys₀ i).zoneId ≠ entry.1 := fun he => hi (by simp [he])
    exact (hfresh.frame.1 i hother).trans (h.buys_ahead i hi)
  · have hother : (sells₀ j).zoneId ≠ entry.1 := fun he => hj (by simp [he])
    exact (hfresh.frame.2 j hother).trans (h.sells_ahead j hj)

/-- The zone at whose turn the auction is joins those behind it. -/
theorem VolumeSoFar.report (h : VolumeSoFar nowNs buys₀ sells₀ done st) (hnew : entry.1 ∉ done)
    (hfresh : Fresh nowNs entry.1 buys₀ sells₀ st entry.2 sells) {zc : ZoneClearing}
    (hid : zc.zoneId = entry.1)
    (hvolume : zc.clearedVolume = ((sweepZone st entry.2 sells).fills.map fun f => f.2.2).sum)
    (hpriced : zc.clearedVolume ≤ zoneExecutable nowNs buys₀ sells₀ zc.zoneId zc.clearingPrice) :
    VolumeSoFar nowNs buys₀ sells₀ (done ++ [entry.1])
      ((st.withOrders (sweepZone st entry.2 sells)).report zc) := by
  obtain ⟨_, _, hunder, _⟩ := underway_sweepZone st entry.2 sells
  have hzones : ((st.withOrders (sweepZone st entry.2 sells)).report zc).zones = st.zones ++ [zc] := rfl
  have hcleared : ∀ zone, (st.withOrders (sweepZone st entry.2 sells)).clearedIn zone =
      st.clearedIn zone := fun _ => rfl
  constructor
  · intro i hi
    rw [List.mem_append, List.mem_singleton, not_or] at hi
    exact (hfresh.frame.1 i hi.2).trans (h.buys_ahead i hi.1)
  · intro j hj
    rw [List.mem_append, List.mem_singleton, not_or] at hj
    exact (hfresh.frame.2 j hj.2).trans (h.sells_ahead j hj.1)
  · exact hunder.credited.buys_bounds h.buys_bounds
  · exact hunder.credited.sells_bounds h.sells_bounds
  · rw [hzones]
    exact List.forall_mem_append.mpr ⟨fun z hz => List.mem_append_left _ (h.zones_done z hz), by simp [hid]⟩
  · intro zone hzone hseparate
    rw [AuctionState.clearedIn_report, hcleared, hid]
    rcases List.mem_append.mp hzone with hbehind | hturn
    · have hother : entry.1 ≠ zone := fun he => hnew (he ▸ hbehind)
      rw [if_neg hother, add_zero]
      exact h.behind zone hbehind hseparate
    · obtain rfl := List.mem_singleton.mp hturn
      rw [h.clearedIn_new hnew, zero_add, if_pos rfl, hvolume]
      exact hfresh.maximal hseparate
  · rw [hzones]
    exact List.forall_mem_append.mpr ⟨h.priced, List.forall_mem_singleton.mpr hpriced⟩

theorem fills_of_quiet (hmarginal : (sweepZone st entry.2 sells).marginal = none) :
    (sweepZone st entry.2 sells).fills = [] := by
  obtain ⟨_, _, hunder, _⟩ := underway_sweepZone st entry.2 sells
  by_contra hne
  have hsome := hunder.marginal_isSome hne
  rw [hmarginal] at hsome
  cases hsome

theorem VolumeSoFar.clearZone (h : VolumeSoFar nowNs buys₀ sells₀ done st) (hnew : entry.1 ∉ done)
    (hentry : ∀ i, i ∈ entry.2 ↔ Files nowNs entry.1 (buys₀ i)) (buyMetadata : List OrderMetadata)
    (topology : TopologySnapshot) :
    VolumeSoFar nowNs buys₀ sells₀ (done ++ [entry.1])
      (clearZone buyMetadata topology (partitionByZone sells₀ nowNs) st entry) := by
  apply clearZone_induction
  · intro hnone
    exact h.pass hnew fun _ => .of_empty (.inr (filedIn_of_unlisted hnone))
  · intro sells hget hmarginal
    have hfresh := h.fresh hnew hentry hget
    have hvolume : Separate buys₀ sells₀ entry.1 → Maximal nowNs buys₀ sells₀ entry.1 0 := by
      intro hseparate
      have hmaximal := hfresh.maximal hseparate
      rwa [fills_of_quiet hmarginal, List.map_nil, List.sum_nil] at hmaximal
    exact (h.pass hnew hvolume).withOrders hfresh
  · intro sells bid ask hget hmarginal
    have hfresh := h.fresh hnew hentry hget
    exact h.report hnew hfresh rfl rfl (hfresh.volume_le h.buys_bounds h.sells_bounds hmarginal)

theorem VolumeSoFar.foldl (entries : List (ZoneId × List (Fin m)))
    (h : VolumeSoFar nowNs buys₀ sells₀ done st) (hzones : (done ++ entries.map Prod.fst).Nodup)
    (hentries : ∀ e ∈ entries, ∀ i, i ∈ e.2 ↔ Files nowNs e.1 (buys₀ i))
    (buyMetadata : List OrderMetadata) (topology : TopologySnapshot) :
    VolumeSoFar nowNs buys₀ sells₀ (done ++ entries.map Prod.fst)
      (entries.foldl (UniformAuction.clearZone buyMetadata topology (partitionByZone sells₀ nowNs)) st) := by
  induction entries generalizing done st with
  | nil => simpa using h
  | cons e entries ih =>
    rw [List.map_cons, List.append_cons] at hzones ⊢
    obtain ⟨hhead, htail⟩ := List.forall_mem_cons.mp hentries
    have hnew : e.1 ∉ done := by
      have hfront := (List.nodup_append.mp hzones).1
      rw [List.nodup_append] at hfront
      exact fun hmem => hfront.2.2 _ hmem _ (List.mem_singleton_self _) rfl
    exact ih (h.clearZone hnew hhead buyMetadata topology) hzones htail

end Auction

/-- In a zone where nobody both buys and sells the auction clears what any one price could
execute, up to less than the minimum for each order of the longer side, and the price of a
zone that clears is one that executes all that was cleared there. -/
theorem clearCycle_volume_maximal (buyOrders sellOrders : List FastOrder)
    (buyMetadata : List OrderMetadata) (topology : TopologySnapshot) (nowNs : I64)
    (hfill : ∀ o ∈ buyOrders ++ sellOrders, 0 ≤ o.filledAmount ∧ o.filledAmount ≤ o.energyAmount) :
    let out := clearCycle buyOrders sellOrders buyMetadata topology nowNs
    (∀ zone, Separate buyOrders.get sellOrders.get zone → ∀ price,
      zoneExecutable nowNs buyOrders.get sellOrders.get zone price ≤
        out.clearedIn zone + zoneDust nowNs buyOrders.get sellOrders.get zone) ∧
      ∀ zc ∈ out.zones, zc.clearedVolume ≤
        zoneExecutable nowNs buyOrders.get sellOrders.get zc.zoneId zc.clearingPrice := by
  intro out
  have hstart : VolumeSoFar nowNs buyOrders.get sellOrders.get []
      ⟨buyOrders.get, sellOrders.get, [], 0, 0⟩ :=
    { buys_ahead := fun _ _ => rfl
      sells_ahead := fun _ _ => rfl
      buys_bounds := fun i => by
        obtain ⟨h0, hle⟩ := hfill _ (List.mem_append_left _ (List.get_mem buyOrders i))
        exact ⟨h0, hle⟩
      sells_bounds := fun j => by
        obtain ⟨h0, hle⟩ := hfill _ (List.mem_append_right _ (List.get_mem sellOrders j))
        exact ⟨h0, hle⟩
      zones_done := by simp
      behind := by simp
      priced := by simp }
  have hrun : VolumeSoFar nowNs buyOrders.get sellOrders.get
      ([] ++ (partitionByZone buyOrders.get nowNs).toList.map Prod.fst) out :=
    hstart.foldl _ (by simpa using OrderedMap.keys_nodup (partitionByZone buyOrders.get nowNs))
      (fun e he => files_of_mem_partition (OrderedMap.get?_eq_some.mpr he)) buyMetadata topology
  rw [List.nil_append] at hrun
  refine ⟨fun zone hseparate => ?_, hrun.priced⟩
  by_cases hlisted : zone ∈ (partitionByZone buyOrders.get nowNs).toList.map Prod.fst
  · exact hrun.behind zone hlisted hseparate
  · have hnone : (partitionByZone buyOrders.get nowNs).get? zone = none := by
      simpa [OrderedMap.mem_keys] using hlisted
    rw [hrun.clearedIn_new hlisted]
    exact Maximal.of_empty (.inl (filedIn_of_unlisted hnone))

/-- Three units clear, and no price executes more than three and the dust. -/
theorem clearCycle_volume_maximal_one_zone :
    let buyOrders := [FastOrder.placed 1 10 2 none, FastOrder.placed 2 8 1 none]
    let sellOrders := [FastOrder.placed 3 3 1 none, FastOrder.placed 4 4 5 none]
    let out := clearCycle buyOrders sellOrders [] (.freeGrid fun _ _ => 100) (BoundedInt.saturate 0)
    out.clearedIn none = 3 ∧
      ∀ price, zoneExecutable (BoundedInt.saturate 0) buyOrders.get sellOrders.get none price ≤
        3 + zoneDust (BoundedInt.saturate 0) buyOrders.get sellOrders.get none := by
  have hcleared : (clearCycle [FastOrder.placed 1 10 2 none, FastOrder.placed 2 8 1 none]
      [FastOrder.placed 3 3 1 none, FastOrder.placed 4 4 5 none] [] (.freeGrid fun _ _ => 100)
      (BoundedInt.saturate 0)).clearedIn none = 3 := by decide +kernel
  refine ⟨hcleared, fun price => ?_⟩
  rw [← hcleared]
  have howners : ∀ i j, ([FastOrder.placed 1 10 2 none, FastOrder.placed 2 8 1 none].get i).userId ≠
      ([FastOrder.placed 3 3 1 none, FastOrder.placed 4 4 5 none].get j).userId := by decide
  exact (clearCycle_volume_maximal [FastOrder.placed 1 10 2 none, FastOrder.placed 2 8 1 none]
    [FastOrder.placed 3 3 1 none, FastOrder.placed 4 4 5 none] [] (.freeGrid fun _ _ => 100)
    (BoundedInt.saturate 0) (by decide +kernel)).1 none (fun i j _ _ => howners i j) price

end TradingService.UniformAuction
