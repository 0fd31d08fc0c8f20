import TradingService.Ledger.LimitPrices
import TradingService.Ledger.Replicas
import TradingService.Settlement.Expiry

/-!
# Whether the book crosses

The summary of the unexpired orders that a client reads before it waits for a match. It
compares the limit prices of the rows, where the engine compares what a sell costs once it
has landed in the buyer's zone. A landed price is no less than the ask, so the summary may
count on matches that are not made, and never misses one. The price ranges are answered as
floats, whose conversion is a parameter.
-/

namespace TradingService

structure PriceRange (F : Type) where
  min : F
  max : F
  deriving DecidableEq

structure MatchingStatusResponse (F : Type) where
  pendingBuyOrders : ℕ
  pendingSellOrders : ℕ
  pendingMatches : ℕ
  buyPriceRange : PriceRange F
  sellPriceRange : PriceRange F
  canMatch : Bool
  matchReason : String
  deriving DecidableEq

section Status

variable {F : Type} [Zero F] (decF64 : Decimal → F)

def unexpired (now : ℤ) (orders : List OrderRow) : List OrderRow := orders.filter fun o => !o.hasLapsed now

def lowestPrice (orders : List OrderRow) : Option Decimal := (orders.map (·.pricePerKwh.toDecimal)).min?

def highestPrice (orders : List OrderRow) : Option Decimal := (orders.map (·.pricePerKwh.toDecimal)).max?

def buildMatchingStatus (buys sells : List OrderRow) (now : ℤ) : MatchingStatusResponse F :=
  let buys := unexpired now buys
  let sells := unexpired now sells
  let buyMin := lowestPrice buys
  let buyMax := highestPrice buys
  let sellMin := lowestPrice sells
  let sellMax := highestPrice sells
  let canMatch : Bool := match buyMax, sellMin with
    | some b, some s => decide (s ≤ b)
    | _, _ => false
  let pendingMatches : ℕ := match buyMax, sellMin with
    | some bMax, some sMin =>
      if sMin ≤ bMax then
        min (buys.countP fun o => sMin ≤ o.pricePerKwh.toDecimal)
          (sells.countP fun o => o.pricePerKwh.toDecimal ≤ bMax)
      else 0
    | _, _ => 0
  { pendingBuyOrders := buys.length
    pendingSellOrders := sells.length
    pendingMatches := pendingMatches
    buyPriceRange := ⟨buyMin.elim 0 decF64, buyMax.elim 0 decF64⟩
    sellPriceRange := ⟨sellMin.elim 0 decF64, sellMax.elim 0 decF64⟩
    canMatch := canMatch
    matchReason :=
      if buys = [] ∧ sells = [] then "no orders"
      else if sells = [] then "no sell liquidity"
      else if buys = [] then "no buy liquidity"
      else if canMatch then "orders crossing"
      else "spread too wide" }

def Database.getMatchingStatus (db : Database) (now : ℤ) : MatchingStatusResponse F :=
  buildMatchingStatus decF64 (db.activeOrders .buy) (db.activeOrders .sell) now

end Status

section Extremes

variable {l : List OrderRow} {o : OrderRow}

theorem exists_lowestPrice (h : o ∈ l) : ∃ p, lowestPrice l = some p ∧ ∀ o' ∈ l, p ≤ o'.pricePerKwh.toDecimal := by
  unfold lowestPrice
  cases hmin : (l.map (·.pricePerKwh.toDecimal)).min? with
  | none =>
    rw [List.map_eq_nil_iff.mp (List.min?_eq_none_iff.mp hmin)] at h
    cases h
  | some p =>
    refine ⟨p, rfl, fun o' ho' => ?_⟩
    exact (List.min?_eq_some_iff.mp hmin).2 _ (List.mem_map_of_mem ho')

theorem exists_highestPrice (h : o ∈ l) : ∃ p, highestPrice l = some p ∧ ∀ o' ∈ l, o'.pricePerKwh.toDecimal ≤ p := by
  unfold highestPrice
  cases hmax : (l.map (·.pricePerKwh.toDecimal)).max? with
  | none =>
    rw [List.map_eq_nil_iff.mp (List.max?_eq_none_iff.mp hmax)] at h
    cases h
  | some p =>
    refine ⟨p, rfl, fun o' ho' => ?_⟩
    exact (List.max?_eq_some_iff.mp hmax).2 _ (List.mem_map_of_mem ho')

end Extremes

/-- A match that the summary knows of: two unexpired orders of the rows it was made from, at a
price between their limits. -/
structure MatchResult.Crosses (buys sells : List OrderRow) (now : ℤ) (r : MatchResult) : Prop where
  buy : ∃ b ∈ buys, b.id = r.buyOrderId ∧ b.hasLapsed now = false ∧
    r.settlePrice ≤ b.pricePerKwh.toDecimal
  sell : ∃ s ∈ sells, s.id = r.sellOrderId ∧ s.hasLapsed now = false ∧
    s.pricePerKwh.toDecimal ≤ r.settlePrice

/-- The summary of the rows covers the matches: it says that they can be made, counts on at
least as many, and has their prices between the lowest ask and the highest bid, before these
two are converted to what it shows. -/
structure MatchingStatusResponse.Covers {F : Type} (decF64 : Decimal → F) (buys sells : List OrderRow)
    (status : MatchingStatusResponse F) (results : List MatchResult) : Prop where
  canMatch : results ≠ [] → status.canMatch = true ∧ status.matchReason = "orders crossing"
  counted : min (results.map (·.buyOrderId)).dedup.length (results.map (·.sellOrderId)).dedup.length ≤
    status.pendingMatches
  priced : ∀ r ∈ results, ∃ ask ∈ lowestPrice sells, ∃ bid ∈ highestPrice buys,
    ask ≤ r.settlePrice ∧ r.settlePrice ≤ bid ∧
      status.sellPriceRange.min = decF64 ask ∧ status.buyPriceRange.max = decF64 bid

section Summary

variable {F : Type} [Zero F] (decF64 : Decimal → F)
variable {buys sells : List OrderRow} {now : ℤ} {results : List MatchResult}

theorem length_dedup_le {id : MatchResult → Uuid} {l : List OrderRow} {p : OrderRow → Bool}
    (h : ∀ r ∈ results, ∃ o ∈ l, o.id = id r ∧ p o = true) :
    (results.map id).dedup.length ≤ l.countP p := by
  have hlength : ((l.filter p).map (·.id)).length = l.countP p := by
    rw [List.length_map, List.countP_eq_length_filter]
  rw [← hlength]
  apply List.Subperm.length_le
  apply List.subperm_of_subset (List.nodup_dedup _)
  intro x hx
  obtain ⟨r, hr, rfl⟩ := List.mem_map.mp (List.mem_dedup.mp hx)
  obtain ⟨o, ho, hid, hp⟩ := h r hr
  exact List.mem_map.mpr ⟨o, List.mem_filter.mpr ⟨ho, hp⟩, hid⟩

theorem buildMatchingStatus_of_le {bMax sMin : Decimal}
    (hbMax : highestPrice (unexpired now buys) = some bMax)
    (hsMin : lowestPrice (unexpired now sells) = some sMin) (hle : sMin ≤ bMax) :
    let status := buildMatchingStatus decF64 buys sells now
    status.canMatch = true ∧ status.matchReason = "orders crossing" ∧
      status.pendingMatches = min ((unexpired now buys).countP fun o => sMin ≤ o.pricePerKwh.toDecimal)
        ((unexpired now sells).countP fun o => o.pricePerKwh.toDecimal ≤ bMax) ∧
      status.sellPriceRange.min = decF64 sMin ∧ status.buyPriceRange.max = decF64 bMax := by
  have hsome : unexpired now buys ≠ [] := by
    intro hnil
    rw [hnil] at hbMax
    cases hbMax
  have hsome' : unexpired now sells ≠ [] := by
    intro hnil
    rw [hnil] at hsMin
    cases hsMin
  simp [buildMatchingStatus, hbMax, hsMin, hle, hsome, hsome']

theorem covers_buildMatchingStatus (h : ∀ r ∈ results, r.Crosses buys sells now) :
    (buildMatchingStatus decF64 buys sells now).Covers decF64 (unexpired now buys) (unexpired now sells)
      results := by
  cases hresults : results with
  | nil => exact ⟨fun hne => absurd rfl hne, by simp, by simp⟩
  | cons r₀ rest =>
    rw [← hresults]
    have hr₀ : r₀ ∈ results := hresults ▸ List.mem_cons_self
    have hbuy : ∀ r ∈ results, ∃ b ∈ unexpired now buys, b.id = r.buyOrderId ∧
        r.settlePrice ≤ b.pricePerKwh.toDecimal := by
      intro r hr
      obtain ⟨b, hb, hid, hlapsed, hprice⟩ := (h r hr).buy
      exact ⟨b, List.mem_filter.mpr ⟨hb, by simp [hlapsed]⟩, hid, hprice⟩
    have hsell : ∀ r ∈ results, ∃ s ∈ unexpired now sells, s.id = r.sellOrderId ∧
        s.pricePerKwh.toDecimal ≤ r.settlePrice := by
      intro r hr
      obtain ⟨s, hs, hid, hlapsed, hprice⟩ := (h r hr).sell
      exact ⟨s, List.mem_filter.mpr ⟨hs, by simp [hlapsed]⟩, hid, hprice⟩
    obtain ⟨b₀, hb₀, _⟩ := hbuy r₀ hr₀
    obtain ⟨s₀, hs₀, _⟩ := hsell r₀ hr₀
    obtain ⟨bMax, hbMax, hbids⟩ := exists_highestPrice hb₀
    obtain ⟨sMin, hsMin, hasks⟩ := exists_lowestPrice hs₀
    have hprice : ∀ r ∈ results, sMin ≤ r.settlePrice ∧ r.settlePrice ≤ bMax := by
      intro r hr
      obtain ⟨b, hb, _, hbp⟩ := hbuy r hr
      obtain ⟨s, hs, _, hsp⟩ := hsell r hr
      exact ⟨(hasks s hs).trans hsp, hbp.trans (hbids b hb)⟩
    have hcross : sMin ≤ bMax := (hprice r₀ hr₀).1.trans (hprice r₀ hr₀).2
    obtain ⟨hcan, hreason, hcount, hmin, hmax⟩ := buildMatchingStatus_of_le decF64 hbMax hsMin hcross
    constructor
    · intro _
      exact ⟨hcan, hreason⟩
    · rw [hcount]
      apply min_le_min
      · apply length_dedup_le
        intro r hr
        obtain ⟨b, hb, hid, hbp⟩ := hbuy r hr
        exact ⟨b, hb, hid, decide_eq_true ((hprice r hr).1.trans hbp)⟩
      · apply length_dedup_le
        intro r hr
        obtain ⟨s, hs, hid, hsp⟩ := hsell r hr
        exact ⟨s, hs, hid, decide_eq_true (hsp.trans (hprice r hr).2)⟩
    · exact fun r hr => ⟨sMin, hsMin, bMax, hbMax, (hprice r hr).1, (hprice r hr).2, hmin, hmax⟩

end Summary

section Cycle

variable {buys sells : List OrderRow} {topology : TopologySnapshot} {now : ℤ}

theorem hasLapsed_of_live {o : OrderRow} {i : ℕ} (hnow : InEngineRange now)
    (hexpiry : ∀ e ∈ o.expiresAt, InEngineRange e)
    (hlive : MatchingEngine.Live (timestampNanos now) (o.toFastOrder i)) : o.hasLapsed now = false := by
  have hopen : (o.toFastOrder i).isExpired (timestampNanos now) = false := by simpa using hlive.2
  cases he : o.expiresAt with
  | none => simp [OrderRow.hasLapsed, he]
  | some e =>
    have hexpired := OrderRow.isExpired_iff he i now
    rw [if_pos (hexpiry e he), if_pos hnow, hopen] at hexpired
    simpa [OrderRow.hasLapsed, he] using hexpired

theorem crosses_of_mem_results (hnow : InEngineRange now)
    (hids : ((buys ++ sells).map (·.id)).Nodup)
    (hexpiry : ∀ o ∈ buys ++ sells, ∀ e ∈ o.expiresAt, InEngineRange e)
    (hprices : ∀ o ∈ buys ++ sells, 0 < o.pricePerKwh.toDecimal ∧ o.pricePerKwh.toDecimal ≤ FastPrice.maxPrice) :
    ∀ r ∈ (MatchingEngine.matchCycle (toFastOrders buys).1 (toFastOrders sells).1 (toFastOrders buys).2
        topology FastPrice.one (timestampNanos now)).results, r.Crosses buys sells now := by
  intro r hr
  rw [List.map_append, List.nodup_append] at hids
  obtain ⟨hbuyIds, hsellIds, _⟩ := hids
  have hfast : ((toFastOrders sells).1.map (·.id)).Nodup := (toFastOrders_ids sells).nodup hsellIds
  have hasks : ∀ f ∈ (toFastOrders sells).1, (0 : ℤ) ≤ f.price.raw := by
    intro f hf
    obtain ⟨o, ho, i, rfl⟩ := mem_toFastOrders hf
    exact price_toFastOrder_nonneg (hprices o (List.mem_append_right _ ho)).1 i
  have hexact : ∀ o ∈ buys ++ sells, (FastPrice.ofDecimal o.pricePerKwh.toDecimal).toDecimal =
      o.pricePerKwh.toDecimal := fun o ho => by
    rw [toDecimal_ofDecimal (hprices o ho).1.le, min_eq_left (hprices o ho).2]
  have hlegitimate := MatchingEngine.matchCycle_legitimate hfast r hr
  obtain ⟨i, f, hf, hsell, hbuy, p, hsettle, hask, hbid⟩ := MatchingEngine.matchCycle_between hfast hasks r hr
  constructor
  · obtain ⟨b, hb, k, rfl⟩ := mem_toFastOrders hf
    obtain ⟨f', hf', hid', _, _, hlive⟩ := hlegitimate.buy
    obtain ⟨b', hb', k', rfl⟩ := mem_toFastOrders hf'
    obtain rfl : b = b' := List.inj_on_of_nodup_map hbuyIds hb hb' (hbuy.symm.trans hid')
    have hmem := List.mem_append_left sells hb
    refine ⟨b, hb, hbuy.symm, hasLapsed_of_live hnow (hexpiry b hmem) hlive, ?_⟩
    rw [hsettle, ← hexact b hmem]
    exact FastPrice.toDecimal_le.mpr hbid
  · obtain ⟨s, hs, j, hj⟩ := mem_toFastOrders (List.get_mem (toFastOrders sells).1 i)
    obtain ⟨f', hf', hid', _, _, hlive⟩ := hlegitimate.sell
    obtain ⟨s', hs', j', rfl⟩ := mem_toFastOrders hf'
    rw [hj] at hsell hask
    obtain rfl : s = s' := List.inj_on_of_nodup_map hsellIds hs hs' (hsell.symm.trans hid')
    have hmem := List.mem_append_right buys hs
    refine ⟨s, hs, hsell.symm, hasLapsed_of_live hnow (hexpiry s hmem) hlive, ?_⟩
    rw [hsettle, ← hexact s hmem]
    exact FastPrice.toDecimal_le.mpr hask

end Cycle

/-- The summary at an instant covers every cycle that the matcher could run at it, on any grid. -/
theorem Database.matchingStatus_covers {F : Type} [Zero F] (decF64 : Decimal → F) (db : Database)
    (topology : TopologySnapshot) {now : ℤ}
    (hnow : InEngineRange now)
    (hexpiry : ∀ o ∈ db.orders.rows, ∀ e ∈ o.expiresAt, InEngineRange e)
    (hprices : ∀ o ∈ db.orders.rows,
      0 < o.pricePerKwh.toDecimal ∧ o.pricePerKwh.toDecimal ≤ FastPrice.maxPrice) :
    (db.getMatchingStatus decF64 now).Covers decF64 (unexpired now (db.activeOrders .buy))
      (unexpired now (db.activeOrders .sell))
      (runMatchingCycle (JobKind.matching.select (db.activeOrders .buy))
        (JobKind.matching.select (db.activeOrders .sell)) topology (timestampNanos now)).pending := by
  apply covers_buildMatchingStatus
  intro r hr
  have hsub : ∀ o ∈ JobKind.matching.select (db.activeOrders .buy) ++
      JobKind.matching.select (db.activeOrders .sell), o ∈ db.orders.rows := by
    intro o ho
    rcases List.mem_append.mp ho with ho | ho
    · exact (select_sublist .matching .buy).subset ho
    · exact (select_sublist .matching .sell).subset ho
  have hbuys : BuySnapshot db (JobKind.matching.select (db.activeOrders .buy)) := BuySnapshot.select .matching
  have hids := hbuys.ids_append .matching
  have hcross := crosses_of_mem_results hnow hids (fun o ho => hexpiry o (hsub o ho))
    (fun o ho => hprices o (hsub o ho)) r (pending_runMatchingCycle _ _ _ _ r hr)
  obtain ⟨b, hb, hbuy⟩ := hcross.buy
  obtain ⟨s, hs, hsell⟩ := hcross.sell
  exact ⟨⟨b, List.mem_of_mem_filter hb, hbuy⟩, ⟨s, List.mem_of_mem_filter hs, hsell⟩⟩

def Database.onePair : Database :=
  .ofRows ⟨[OrderRow.placed 1 .buy 6 2, OrderRow.placed 2 .sell 5 3], by decide⟩ .empty

theorem Database.matchingStatus_covers_one_pair :
    let job := runMatchingCycle (JobKind.matching.select (onePair.activeOrders .buy))
      (JobKind.matching.select (onePair.activeOrders .sell)) (.freeGrid fun _ _ => 100) (timestampNanos 0)
    job.pending.map (fun r => (r.buyOrderId, r.sellOrderId)) = [(1, 2)] ∧
      (onePair.getMatchingStatus id 0).matchReason = "orders crossing" := by
  intro job
  have hpending : job.pending.map (fun r => (r.buyOrderId, r.sellOrderId)) = [(1, 2)] := by decide +kernel
  have hcovers := matchingStatus_covers id onePair (.freeGrid fun _ _ => 100) (by decide : InEngineRange 0)
    (by decide +kernel) (by decide +kernel)
  refine ⟨hpending, (hcovers.canMatch fun hnone => ?_).2⟩
  change job.pending = [] at hnone
  rw [hnone] at hpending
  cases hpending

end TradingService
