import TradingService.Engine.Exhaustive

/-!
# Price-time priority

On a grid that lets every flow through, a buy moves on from a sell only when the sell
is used up, and it stops only when it is served or has been through every sell that it
can afford. Both halves of price-time priority come from this: a sell goes to the
first buy that wants it, and a buy takes the cheapest sell first.
-/

namespace TradingService.MatchingEngine

variable {n : ℕ}

def AdmitsAll (topology : TopologySnapshot) : Prop :=
  ∀ fromZone toZone amount, topology.canAccommodateFlow fromZone toZone amount = true

def CycleState.UsedUp (st : CycleState n) (i : Fin n) : Prop :=
  (st.sellOrders i).remainingAmount < minTradeAmount

def buyKey (buy : FastOrder) : FastPriceᵒᵈ ×ₗ I64 ×ₗ Uuid :=
  toLex (OrderDual.toDual buy.price, toLex (buy.createdAtNs, buy.id))

section Affords

variable (topology : TopologySnapshot) (dynamicMultiplier : FastPrice)

def sellKey (buy sell : FastOrder) : FastPrice ×ₗ FastPrice ×ₗ I64 ×ₗ Uuid :=
  toLex (landedCost sell.price (zoneFees buy topology sell.zoneId) dynamicMultiplier, bookKey sell)

/-- Another owner's sell whose ask and landed cost are within the bid. -/
structure Affords (buy sell : FastOrder) : Prop where
  owner : buy.userId ≠ sell.userId
  ask : sell.price ≤ buy.price
  landed : landedCost sell.price (zoneFees buy topology sell.zoneId) dynamicMultiplier ≤ buy.price

end Affords

variable {buyMetadata : List OrderMetadata} {topology : TopologySnapshot} {dynamicMultiplier : FastPrice}
  {nowNs : I64}

theorem affords_fill {buy sell : FastOrder} {amount amount' : Decimal} :
    Affords topology dynamicMultiplier (buy.fill amount) (sell.fill amount') ↔
      Affords topology dynamicMultiplier buy sell :=
  ⟨fun h => ⟨h.owner, h.ask, h.landed⟩, fun h => ⟨h.owner, h.ask, h.landed⟩⟩

theorem affords_fill_buy {buy sell : FastOrder} {amount : Decimal} :
    Affords topology dynamicMultiplier (buy.fill amount) sell ↔
      Affords topology dynamicMultiplier buy sell := by
  conv_lhs => rw [← sell.fill_zero]
  exact affords_fill

theorem affords_fill_sell {buy sell : FastOrder} {amount : Decimal} :
    Affords topology dynamicMultiplier buy (sell.fill amount) ↔
      Affords topology dynamicMultiplier buy sell := by
  conv_lhs => rw [← buy.fill_zero]
  exact affords_fill

theorem admittedTake_of_admitsAll (h : AdmitsAll topology) (sell buy : FastOrder)
    (flow : ZoneId × ZoneId → Decimal) (need : Decimal) :
    admittedTake topology sell buy flow need = fillTake need sell.remainingAmount := by
  unfold admittedTake
  cases fillTake need sell.remainingAmount with
  | none => rfl
  | some take => exact if_pos (h _ _ _)

section Drain

variable (buyMetadata topology) in
theorem drain_later (cs : List (Candidate n)) (p : CycleState n × FastOrder) :
    Later p.1.sellOrders (drain buyMetadata topology cs p).1.sellOrders := by
  refine drain_induction (motive := fun q => Later p.1.sellOrders q.1.sellOrders) cs ?_ p (.refl _)
  intro q c _ amount hq hneed ha
  obtain ⟨hamount, hdust, _⟩ := admittedTake_eq_some topology ha
  exact hq.trans (Later.update _ _ (hamount ▸ minTradeAmount_pos.le.trans (le_min hneed hdust)))

theorem CycleState.UsedUp.later {st st' : CycleState n} {i : Fin n} (h : st.UsedUp i)
    (hlater : Later st.sellOrders st'.sellOrders) : st'.UsedUp i :=
  (hlater.remaining_le i).trans_lt h

variable (buyMetadata) in
/-- What one candidate does to a buy that still needs something: its sell is used up
then, or the buy is served. -/
theorem drainStep_priority (hopen : AdmitsAll topology) (p : CycleState n × FastOrder) (c : Candidate n) :
    (drainStep buyMetadata topology p.1 p.2 c).1.UsedUp c.sellIdx ∨
      (drainStep buyMetadata topology p.1 p.2 c).2.remainingAmount < minTradeAmount := by
  unfold drainStep
  rw [admittedTake_of_admitsAll hopen]
  unfold fillTake
  by_cases hdust : (p.1.sellOrders c.sellIdx).remainingAmount < minTradeAmount
  · rw [if_pos hdust]
    exact .inl hdust
  · rw [if_neg hdust]
    unfold CycleState.UsedUp
    simp only [commitMatch_sellOrders_self, FastOrder.fill_remainingAmount]
    rcases min_choice p.2.remainingAmount (p.1.sellOrders c.sellIdx).remainingAmount with h | h
    · exact .inr (by rw [h, sub_self]; exact minTradeAmount_pos)
    · exact .inl (by rw [h, sub_self]; exact minTradeAmount_pos)

/-- The results of a drain: each comes from a candidate that had enough left, and the
candidates before it are used up. -/
def DrainResult (cs : List (Candidate n)) (p : CycleState n × FastOrder) (st : CycleState n)
    (r : MatchResult) : Prop :=
  r.buyOrderId = p.2.id ∧ ∃ pre c post, cs = pre ++ c :: post ∧
    r.sellOrderId = (p.1.sellOrders c.sellIdx).id ∧
    minTradeAmount ≤ (p.1.sellOrders c.sellIdx).remainingAmount ∧ ∀ d ∈ pre, st.UsedUp d.sellIdx

theorem DrainResult.cons {cs : List (Candidate n)} {p p' : CycleState n × FastOrder} {st : CycleState n}
    {r : MatchResult} (c : Candidate n) (h : DrainResult cs p' st r) (hbuy : p'.2.id = p.2.id)
    (hlater : Later p.1.sellOrders p'.1.sellOrders) (hused : st.UsedUp c.sellIdx) :
    DrainResult (c :: cs) p st r := by
  obtain ⟨hbuyId, pre, d, post, rfl, hsell, hleft, hpre⟩ := h
  exact ⟨hbuyId.trans hbuy, c :: pre, d, post, rfl, hsell.trans (hlater.id _),
    hleft.trans (hlater.remaining_le _), List.forall_mem_cons.mpr ⟨hused, hpre⟩⟩

variable (buyMetadata topology) in
theorem drainStep_spec (p : CycleState n × FastOrder) (c : Candidate n)
    (hneed : minTradeAmount ≤ p.2.remainingAmount) :
    let p' := drainStep buyMetadata topology p.1 p.2 c
    Later p.1.sellOrders p'.1.sellOrders ∧ p'.2.id = p.2.id ∧
      ∃ rs, p'.1.results = p.1.results ++ rs ∧ ∀ r ∈ rs, r.buyOrderId = p.2.id ∧
        r.sellOrderId = (p.1.sellOrders c.sellIdx).id ∧
        minTradeAmount ≤ (p.1.sellOrders c.sellIdx).remainingAmount := by
  intro p'
  have hcases : drainStep buyMetadata topology p.1 p.2 c = p ∨ _ := drainStep_eq_self_or_commit p c
  rcases hcases with heq | ⟨amount, ha, heq⟩
  · rw [show p' = p from heq]
    exact ⟨.refl _, rfl, [], (List.append_nil _).symm, by simp⟩
  · obtain ⟨hamount, hdust, _⟩ := admittedTake_eq_some topology ha
    rw [show p' = _ from heq]
    refine ⟨Later.update _ _ (hamount ▸ minTradeAmount_pos.le.trans (le_min hneed hdust)), rfl,
      [matchResult p.2 (p.1.sellOrders c.sellIdx) c buyMetadata amount], rfl, fun r hr => ?_⟩
    obtain rfl := List.mem_singleton.mp hr
    exact ⟨rfl, rfl, hdust⟩

variable (buyMetadata) in
theorem drain_priority (hopen : AdmitsAll topology) (cs : List (Candidate n))
    (p : CycleState n × FastOrder) :
    ((drain buyMetadata topology cs p).2.remainingAmount < minTradeAmount ∨
        ∀ c ∈ cs, (drain buyMetadata topology cs p).1.UsedUp c.sellIdx) ∧
      ∃ rs, (drain buyMetadata topology cs p).1.results = p.1.results ++ rs ∧
        ∀ r ∈ rs, DrainResult cs p (drain buyMetadata topology cs p).1 r := by
  induction cs generalizing p with
  | nil => exact ⟨.inr (by simp), [], by simp [drain], by simp⟩
  | cons c cs ih =>
    by_cases hneed : p.2.remainingAmount < minTradeAmount
    · rw [drain_of_filled _ hneed]
      exact ⟨.inl hneed, [], (List.append_nil _).symm, by simp⟩
    have hdrain : drain buyMetadata topology (c :: cs) p =
        drain buyMetadata topology cs (drainStep buyMetadata topology p.1 p.2 c) := by
      rw [drain, if_neg hneed]
    have hstep := drainStep_priority buyMetadata hopen p c
    have hspec := drainStep_spec buyMetadata topology p c (not_lt.mp hneed)
    rw [hdrain]
    generalize drainStep buyMetadata topology p.1 p.2 c = p' at hstep hspec
    obtain ⟨hlater, hid, rs₀, hresults, hrs₀⟩ := hspec
    obtain ⟨hend, rs, hrs, hall⟩ := ih p'
    rcases hstep with hused | hserved
    · have hused' := hused.later (drain_later buyMetadata topology cs p')
      refine ⟨hend.imp_right fun h => List.forall_mem_cons.mpr ⟨hused', h⟩, rs₀ ++ rs,
        by rw [hrs, hresults, List.append_assoc], fun r hr => ?_⟩
      rcases List.mem_append.mp hr with hr | hr
      · obtain ⟨hbuy, hsell, hleft⟩ := hrs₀ r hr
        exact ⟨hbuy, [], c, cs, rfl, hsell, hleft, by simp⟩
      · exact (hall r hr).cons c hid hlater hused'
    · rw [drain_of_filled cs hserved]
      refine ⟨.inl hserved, rs₀, hresults, fun r hr => ?_⟩
      obtain ⟨hbuy, hsell, hleft⟩ := hrs₀ r hr
      exact ⟨hbuy, [], c, cs, rfl, hsell, hleft, by simp⟩

end Drain

section Turn

/-- A sell that a buy affords is viable as long as something is left of it. -/
theorem mem_viableSells_of_affords (hopen : AdmitsAll topology) {st : CycleState n} {buy : FastOrder}
    {i : Fin n} (h : Affords topology dynamicMultiplier buy (st.sellOrders i))
    (hleft : ¬st.UsedUp i) (hlive : (st.sellOrders i).isExpired nowNs = false) (needAtStart : Decimal) :
    ∃ c ∈ viableSells nowNs st.sellOrders buy needAtStart topology dynamicMultiplier,
      c.sellIdx = i ∧ c.key = sellKey topology dynamicMultiplier buy (st.sellOrders i) := by
  obtain ⟨c, hpriced⟩ : ∃ c, priceSell st.sellOrders buy needAtStart topology dynamicMultiplier
      (zoneFees buy topology (st.sellOrders i).zoneId) i = some c := by
    unfold priceSell pricedCandidate
    rw [if_neg h.owner, if_neg (not_lt.mpr h.ask), if_neg (by simp [hopen _ _ _]), if_pos h.landed]
    exact ⟨_, rfl⟩
  have hc : viableSell nowNs st.sellOrders buy needAtStart topology dynamicMultiplier i = some c :=
    viableSell_eq_some.mpr ⟨⟨⟨not_lt.mp hleft, by simp [hlive]⟩, hopen _ _ _⟩, hpriced⟩
  have hprices := prices_of_priceSell hpriced
  refine ⟨c, mem_viableSells.mpr (hprices.sellIdx ▸ hc), hprices.sellIdx, ?_⟩
  unfold Candidate.key sellKey
  rw [hprices.landed, hprices.sortKey]

structure Turn (topology : TopologySnapshot) (dynamicMultiplier : FastPrice) (nowNs : I64)
    (st : CycleState n) (buy : FastOrder) (out : CycleState n × FastOrder) : Prop where
  later : Later st.sellOrders out.1.sellOrders
  fill : ∃ amount, out.2 = buy.fill amount
  /-- A buy that is left short has used up everything that it affords. -/
  starved : buy.isExpired nowNs = false → buy.timeInForce ≠ .fok →
    minTradeAmount ≤ out.2.remainingAmount → ∀ i, (st.sellOrders i).isExpired nowNs = false →
      Affords topology dynamicMultiplier buy (st.sellOrders i) → out.1.UsedUp i
  results : ∃ rs, out.1.results = st.results ++ rs ∧ ∀ r ∈ rs, r.buyOrderId = buy.id ∧
    ∃ i, r.sellOrderId = (st.sellOrders i).id ∧ ¬st.UsedUp i ∧ (st.sellOrders i).isExpired nowNs = false ∧
      ∀ j, (st.sellOrders j).isExpired nowNs = false →
        Affords topology dynamicMultiplier buy (st.sellOrders j) →
        sellKey topology dynamicMultiplier buy (st.sellOrders j) <
          sellKey topology dynamicMultiplier buy (st.sellOrders i) → out.1.UsedUp j

theorem turn_idle (st : CycleState n) (buy : FastOrder)
    (h : buy.remainingAmount < minTradeAmount ∨ buy.isExpired nowNs ∨ buy.timeInForce = .fok) :
    Turn topology dynamicMultiplier nowNs st buy (st, buy) where
  later := .refl _
  fill := ⟨0, buy.fill_zero.symm⟩
  starved hlive hfok hneed := by
    rcases h with h | h | h
    · exact absurd hneed (not_le.mpr h)
    · simp [hlive] at h
    · exact absurd h hfok
  results := ⟨[], (List.append_nil _).symm, by simp⟩

theorem turn_exhaustiveBuy (hopen : AdmitsAll topology) (st : CycleState n) (buy : FastOrder) :
    Turn topology dynamicMultiplier nowNs st buy
      (exhaustiveBuy buyMetadata topology dynamicMultiplier nowNs st buy) := by
  simp only [exhaustiveBuy]
  split_ifs with hidle hfok
  · exact turn_idle st buy (hidle.imp_right .inl)
  · exact turn_idle st buy (.inr (.inr hfok.1))
  · have hlater := drain_later buyMetadata topology
      (viableSells nowNs st.sellOrders buy buy.remainingAmount topology dynamicMultiplier) (st, buy)
    obtain ⟨hend, rs, hresults, hrs⟩ := drain_priority buyMetadata hopen
      (viableSells nowNs st.sellOrders buy buy.remainingAmount topology dynamicMultiplier) (st, buy)
    refine ⟨hlater, drain_buy buyMetadata topology _ (st, buy), fun _ _ hneed i hlive hafford => ?_,
      rs, hresults, fun r hr => ?_⟩
    · by_cases hused : st.UsedUp i
      · exact hused.later hlater
      · obtain ⟨c, hc, rfl, _⟩ := mem_viableSells_of_affords hopen hafford hused hlive buy.remainingAmount
        exact hend.resolve_left (not_lt.mpr hneed) c hc
    · obtain ⟨hbuy, pre, c, post, hsplit, hsell, hleft, hpre⟩ := hrs r hr
      have hc : c ∈ viableSells nowNs st.sellOrders buy buy.remainingAmount topology dynamicMultiplier := by
        rw [hsplit]
        exact List.mem_append_right _ List.mem_cons_self
      obtain ⟨hcond, hpriced⟩ := viableSell_eq_some.mp (mem_viableSells.mp hc)
      have hprices := prices_of_priceSell hpriced
      refine ⟨hbuy, c.sellIdx, hsell, not_lt.mpr hleft, by simpa using hcond.1.2,
        fun j hlive hafford hkey => ?_⟩
      by_cases hused : st.UsedUp j
      · exact hused.later hlater
      · obtain ⟨d, hd, rfl, hdkey⟩ := mem_viableSells_of_affords hopen hafford hused hlive buy.remainingAmount
        have hckey : c.key = sellKey topology dynamicMultiplier buy (st.sellOrders c.sellIdx) := by
          unfold Candidate.key sellKey
          rw [hprices.landed, hprices.sortKey]
        have hsorted : (viableSells nowNs st.sellOrders buy buy.remainingAmount topology
          dynamicMultiplier).Pairwise fun a b => a.key ≤ b.key := viableSells_sorted
        rw [hsplit] at hsorted hd
        rcases List.mem_append.mp hd with hd | hd
        · exact hpre d hd
        · exfalso
          rw [← hdkey, ← hckey] at hkey
          rcases List.mem_cons.mp hd with rfl | hd
          · exact lt_irrefl _ hkey
          · have hle := (List.pairwise_cons.mp (List.pairwise_append.mp hsorted).2.1).1 d hd
            exact absurd hkey (not_lt.mpr hle)

end Turn

structure Ranked (topology : TopologySnapshot) (dynamicMultiplier : FastPrice) (nowNs : I64)
    (st : CycleState n) (out : CycleState n × List FastOrder) (r : MatchResult) (i : Fin n)
    (front : List FastOrder) (b : FastOrder) (back : List FastOrder) : Prop where
  split : out.2 = front ++ b :: back
  buy : r.buyOrderId = b.id
  sell : r.sellOrderId = (st.sellOrders i).id
  left : ¬st.UsedUp i
  live : (st.sellOrders i).isExpired nowNs = false
  /-- The buys before that afford the sell are served. -/
  served : ∀ b' ∈ front, b'.isExpired nowNs = false → b'.timeInForce ≠ .fok →
    Affords topology dynamicMultiplier b' (st.sellOrders i) → b'.remainingAmount < minTradeAmount
  /-- The sells that land before this one are used up. -/
  cheaper : ∀ j, (st.sellOrders j).isExpired nowNs = false →
    Affords topology dynamicMultiplier b (st.sellOrders j) →
    sellKey topology dynamicMultiplier b (st.sellOrders j) <
      sellKey topology dynamicMultiplier b (st.sellOrders i) → out.1.UsedUp j

section Run

variable {step : CycleState n → FastOrder → CycleState n × FastOrder}
  (hturn : ∀ st buy, Turn topology dynamicMultiplier nowNs st buy (step st buy))
include hturn

theorem overBuys_later (todo : List FastOrder) (st : CycleState n) :
    Later st.sellOrders (overBuys step todo st).1.sellOrders := by
  induction todo generalizing st with
  | nil => exact .refl _
  | cons buy todo ih => exact (hturn st buy).later.trans (ih _)

theorem overBuys_keys (todo : List FastOrder) (st : CycleState n) :
    (overBuys step todo st).2.map buyKey = todo.map buyKey := by
  induction todo generalizing st with
  | nil => rfl
  | cons buy todo ih =>
    obtain ⟨amount, hfill⟩ := (hturn st buy).fill
    rw [overBuys, List.map_cons, List.map_cons, ih, hfill]
    rfl

/-- A buy that ends short has used up everything that it affords, also at the end of the loop. -/
theorem overBuys_starved (todo : List FastOrder) (st : CycleState n) :
    ∀ b ∈ (overBuys step todo st).2, b.isExpired nowNs = false → b.timeInForce ≠ .fok →
      minTradeAmount ≤ b.remainingAmount → ∀ i, (st.sellOrders i).isExpired nowNs = false →
        Affords topology dynamicMultiplier b (st.sellOrders i) → (overBuys step todo st).1.UsedUp i := by
  induction todo generalizing st with
  | nil => simp [overBuys]
  | cons buy todo ih =>
    have hhead := hturn st buy
    obtain ⟨amount, hfill⟩ := hhead.fill
    refine List.forall_mem_cons.mpr ⟨fun hlive hfok hneed i hsell hafford => ?_,
      fun b hb hlive hfok hneed i hsell hafford => ?_⟩
    · rw [hfill] at hlive hfok hafford
      have hused := hhead.starved hlive hfok hneed i hsell (affords_fill_buy.mp hafford)
      exact hused.later (overBuys_later hturn todo (step st buy).1)
    · obtain ⟨amount', _, heq⟩ := hhead.later i
      refine ih (step st buy).1 b hb hlive hfok hneed i ?_ ?_
      · rw [heq]
        exact hsell
      · rw [heq]
        exact affords_fill_sell.mpr hafford

theorem overBuys_ranked (todo : List FastOrder) (st : CycleState n) :
    ∃ rs, (overBuys step todo st).1.results = st.results ++ rs ∧ ∀ r ∈ rs, ∃ i front b back,
      Ranked topology dynamicMultiplier nowNs st (overBuys step todo st) r i front b back := by
  induction todo generalizing st with
  | nil => exact ⟨[], (List.append_nil _).symm, by simp⟩
  | cons buy todo ih =>
    have hhead := hturn st buy
    obtain ⟨amount, hfill⟩ := hhead.fill
    obtain ⟨rs₀, hresults, hrs₀⟩ := hhead.results
    obtain ⟨rs, hrs, hranked⟩ := ih (step st buy).1
    have hrest := overBuys_later hturn todo (step st buy).1
    refine ⟨rs₀ ++ rs, by rw [overBuys, hrs, hresults, List.append_assoc], fun r hr => ?_⟩
    rcases List.mem_append.mp hr with hr | hr
    · obtain ⟨hbuy, i, hsell, hleft, hlive, hcheaper⟩ := hrs₀ r hr
      refine ⟨i, [], (step st buy).2, (overBuys step todo (step st buy).1).2, rfl, ?_, hsell, hleft, hlive,
        by simp, fun j hj hafford hkey => ?_⟩
      · rw [hbuy, hfill]
        rfl
      · rw [hfill] at hafford hkey
        exact (hcheaper j hj (affords_fill_buy.mp hafford) hkey).later hrest
    · obtain ⟨i, front, b, back, h⟩ := hranked r hr
      obtain ⟨amount', _, hsell⟩ := hhead.later i
      refine ⟨i, (step st buy).2 :: front, b, back, by rw [overBuys, h.split]; rfl, h.buy,
        h.sell.trans (hhead.later.id i), fun hused => h.left (hused.later hhead.later),
        by simpa [hsell] using h.live, List.forall_mem_cons.mpr ⟨fun hlive hfok hafford => ?_,
          fun b' hb' hlive hfok hafford => ?_⟩, fun j hj hafford hkey => ?_⟩
      · -- Had the first buy been left short, the sell would have been used up by it.
        by_contra hshort
        rw [hfill] at hlive hfok hafford
        exact h.left (hhead.starved hlive hfok (not_lt.mp hshort) i (by simpa [hsell] using h.live)
          (affords_fill_buy.mp hafford))
      · exact h.served b' hb' hlive hfok (by rw [hsell]; exact affords_fill_sell.mpr hafford)
      · obtain ⟨amount'', _, hsell'⟩ := hhead.later j
        apply h.cheaper j
        · rw [hsell']
          exact hj
        · rw [hsell']
          exact affords_fill_sell.mpr hafford
        · rw [hsell, hsell']
          exact hkey

end Run

variable (buyMetadata) in
/-- On such a grid nothing is skipped for want of capacity, so nothing fits again. -/
theorem neverReadmits_of_admitsAll (hopen : AdmitsAll topology) (todo : List FastOrder)
    (st : CycleState n) : NeverReadmits buyMetadata topology dynamicMultiplier nowNs todo st := by
  induction todo generalizing st with
  | nil => trivial
  | cons buy todo ih =>
    refine ⟨?_, ih _⟩
    rintro ⟨_, _, _, _, hneed, c, hc, hfits⟩
    obtain ⟨hend, _⟩ := drain_priority buyMetadata hopen
      (coveringSells topology dynamicMultiplier nowNs st buy).1 (st, buy)
    have hused := hend.resolve_left (not_lt.mpr hneed) c hc
    unfold CycleState.UsedUp at hused
    rw [admittedTake_of_admitsAll hopen, fillTake, if_pos hused] at hfits
    cases hfits

theorem matchCycle_of_admitsAll (hopen : AdmitsAll topology) {buyOrders sellOrders : List FastOrder}
    (hids : Function.Injective fun i => (sellOrders.get i).id)
    (hasks : ∀ s ∈ sellOrders, (0 : ℤ) ≤ s.price.raw) :
    matchCycle buyOrders sellOrders buyMetadata topology dynamicMultiplier nowNs =
      finishCycle nowNs (overBuys (exhaustiveBuy buyMetadata topology (guardMultiplier dynamicMultiplier)
        nowNs) (sortBuys buyOrders) (initialState nowNs sellOrders.get)) := by
  have hinv : CycleInv nowNs (initialState nowNs sellOrders.get) :=
    cycleInv_initialState hids fun i => hasks _ (List.get_mem sellOrders i)
  have heq := overBuys_agree (guardMultiplier_pos dynamicMultiplier) _ _ hinv
    (neverReadmits_of_admitsAll buyMetadata hopen (sortBuys buyOrders) _)
  simp only [matchCycle, matchBuys, heq]

theorem sortBuys_keys_sorted (buyOrders : List FastOrder) :
    ((sortBuys buyOrders).map buyKey).Pairwise (· ≤ ·) :=
  List.pairwise_map.mpr (List.pairwise_insertionSort _ _)

/-- In a list sorted by key, what comes strictly before an element stands in front of it. -/
theorem mem_front_of_buyKey_lt {front back : List FastOrder} {b b' : FastOrder}
    (hsorted : ((front ++ b :: back).map buyKey).Pairwise (· ≤ ·)) (hmem : b' ∈ front ++ b :: back)
    (hlt : buyKey b' < buyKey b) : b' ∈ front := by
  rcases List.mem_append.mp hmem with hmem | hmem
  · exact hmem
  · exfalso
    have htail := (List.pairwise_append.mp (List.pairwise_map.mp hsorted)).2.1
    rcases List.mem_cons.mp hmem with rfl | hmem
    · exact lt_irrefl _ hlt
    · exact absurd hlt (not_lt.mpr ((List.pairwise_cons.mp htail).1 b' hmem))

/-- Price-time priority of a cycle: a sell goes to no buy while an earlier buy that
affords it is left short, and a buy takes from no sell while one that lands before it
is left over. -/
theorem matchCycle_priority (buyOrders sellOrders : List FastOrder) (buyMetadata : List OrderMetadata)
    (topology : TopologySnapshot) (dynamicMultiplier : FastPrice) (nowNs : I64)
    (hids : ((buyOrders ++ sellOrders).map (·.id)).Nodup)
    (hasks : ∀ s ∈ sellOrders, (0 : ℤ) ≤ s.price.raw) (hopen : AdmitsAll topology) :
    let out := matchCycle buyOrders sellOrders buyMetadata topology dynamicMultiplier nowNs
    let multiplier := guardMultiplier dynamicMultiplier
    ∀ r ∈ out.results, ∀ b ∈ out.buyOrders, r.buyOrderId = b.id →
      ∀ s ∈ out.sellOrders, r.sellOrderId = s.id →
        (∀ b' ∈ out.buyOrders, buyKey b' < buyKey b → b'.isExpired nowNs = false →
          b'.timeInForce ≠ .fok → Affords topology multiplier b' s →
            b'.remainingAmount < minTradeAmount) ∧
        ∀ s' ∈ out.sellOrders, s'.isExpired nowNs = false → Affords topology multiplier b s' →
          sellKey topology multiplier b s' < sellKey topology multiplier b s →
            s'.remainingAmount < minTradeAmount := by
  intro out multiplier r hr b hb hbid s hs hsid
  have hdistinct := distinct_initialState nowNs hids
  have hbuyIds : ((sortBuys buyOrders).map (·.id)).Nodup := hdistinct.buy_ids
  have hturn : ∀ (st : CycleState sellOrders.length) buy, Turn topology multiplier nowNs st buy
      (exhaustiveBuy buyMetadata topology multiplier nowNs st buy) :=
    fun st buy => turn_exhaustiveBuy hopen st buy
  have hrun : out = finishCycle nowNs (overBuys (exhaustiveBuy buyMetadata topology multiplier nowNs)
      (sortBuys buyOrders) (initialState nowNs sellOrders.get)) :=
    matchCycle_of_admitsAll hopen hdistinct.sell_ids hasks
  clear_value out
  subst hrun
  have hkeys := overBuys_keys hturn (sortBuys buyOrders) (initialState nowNs sellOrders.get)
  have hlater := overBuys_later hturn (sortBuys buyOrders) (initialState nowNs sellOrders.get)
  obtain ⟨rs, hresults, hranked⟩ := overBuys_ranked hturn (sortBuys buyOrders)
    (initialState nowNs sellOrders.get)
  replace hresults : (overBuys (exhaustiveBuy buyMetadata topology multiplier nowNs)
      (sortBuys buyOrders) (initialState nowNs sellOrders.get)).1.results = rs := hresults
  obtain ⟨i, front, b₀, back, h⟩ := hranked r (hresults ▸ hr)
  generalize overBuys (exhaustiveBuy buyMetadata topology multiplier nowNs) (sortBuys buyOrders)
    (initialState nowNs sellOrders.get) = run at *
  have hb₀ : b₀ ∈ run.2 := h.split ▸ List.mem_append_right _ List.mem_cons_self
  have hbuys : (run.2.map (·.id)).Nodup := by
    have hmap := congrArg (List.map fun k => (ofLex (ofLex k).2).2) hkeys
    rw [List.map_map, List.map_map] at hmap
    exact (congrArg List.Nodup hmap).mpr hbuyIds
  obtain rfl : b = b₀ := List.inj_on_of_nodup_map hbuys hb hb₀ (hbid.symm.trans h.buy)
  obtain ⟨k, rfl⟩ := List.mem_ofFn.mp hs
  obtain rfl : k = i := hdistinct.sell_ids ((hlater.id k).symm.trans (hsid.symm.trans h.sell))
  obtain ⟨amount, _, hsell⟩ := hlater k
  refine ⟨fun b' hb' hkey hlive hfok hafford => ?_, fun s' hs' hlive hafford hkey => ?_⟩
  · have hsorted : ((front ++ b :: back).map buyKey).Pairwise (· ≤ ·) := by
      rw [← h.split, hkeys]
      exact sortBuys_keys_sorted buyOrders
    have hmem : b' ∈ front ++ b :: back := h.split ▸ hb'
    have hfront : b' ∈ front := mem_front_of_buyKey_lt hsorted hmem hkey
    refine h.served b' hfront hlive hfok ?_
    rw [hsell] at hafford
    exact affords_fill_sell.mp hafford
  · obtain ⟨j, rfl⟩ := List.mem_ofFn.mp hs'
    obtain ⟨amount', _, hsell'⟩ := hlater j
    rw [hsell'] at hlive hafford
    rw [hsell, hsell'] at hkey
    exact h.cheaper j hlive (affords_fill_sell.mp hafford) hkey

def openGrid : TopologySnapshot where
  canAccommodateFlow _ _ _ := true
  calculateWheelingCharge _ _ := FastPrice.ofInt 0
  calculateLossFactor _ _ := FastPrice.one

theorem matchCycle_priority_two_sells :
    let sellOrders := [FastOrder.placed 2 4 3 none, FastOrder.placed 3 6 4 none]
    let out := matchCycle [.placed 1 10 5 none] sellOrders [] openGrid FastPrice.one
      (BoundedInt.saturate 0)
    let multiplier := guardMultiplier FastPrice.one
    out.results.map (·.sellOrderId) = [2, 3] ∧
      ∀ r ∈ out.results, ∀ b ∈ out.buyOrders, r.buyOrderId = b.id →
        ∀ s ∈ out.sellOrders, r.sellOrderId = s.id →
          ∀ s' ∈ out.sellOrders, s'.isExpired (BoundedInt.saturate 0) = false →
            Affords openGrid multiplier b s' →
            sellKey openGrid multiplier b s' < sellKey openGrid multiplier b s →
              s'.remainingAmount < minTradeAmount := by
  refine ⟨by decide +kernel, fun r hr b hb hbuy s hs hsell => ?_⟩
  exact (matchCycle_priority [.placed 1 10 5 none]
    [FastOrder.placed 2 4 3 none, FastOrder.placed 3 6 4 none] [] openGrid FastPrice.one
    (BoundedInt.saturate 0) (by decide) (by decide +kernel) (fun _ _ _ => rfl)
    r hr b hb hbuy s hs hsell).2

/-- Completeness: on such a grid no tradable pair is left, that is no unexpired buy that may
rest and unexpired sell that it affords, with enough left of both. -/
theorem matchCycle_complete (buyOrders sellOrders : List FastOrder) (buyMetadata : List OrderMetadata)
    (topology : TopologySnapshot) (dynamicMultiplier : FastPrice) (nowNs : I64)
    (hids : (sellOrders.map (·.id)).Nodup)
    (hprices : ∀ o ∈ buyOrders ++ sellOrders, (0 : ℤ) ≤ o.price.raw) (hopen : AdmitsAll topology) :
    let out := matchCycle buyOrders sellOrders buyMetadata topology dynamicMultiplier nowNs
    ∀ b ∈ out.buyOrders, b.isExpired nowNs = false → b.timeInForce ≠ .fok →
      ∀ s ∈ out.sellOrders, s.isExpired nowNs = false →
        Affords topology (guardMultiplier dynamicMultiplier) b s →
          ¬(minTradeAmount ≤ b.remainingAmount ∧ minTradeAmount ≤ s.remainingAmount) := by
  rintro out b hb hlive hfok s hs hsell hafford ⟨hneed, hleft⟩
  have hasks : ∀ s ∈ sellOrders, (0 : ℤ) ≤ s.price.raw := fun s hs =>
    hprices s (List.mem_append_right _ hs)
  have hturn : ∀ (st : CycleState sellOrders.length) buy, Turn topology
      (guardMultiplier dynamicMultiplier) nowNs st buy (exhaustiveBuy buyMetadata topology
        (guardMultiplier dynamicMultiplier) nowNs st buy) :=
    fun st buy => turn_exhaustiveBuy hopen st buy
  have hrun : out = _ := matchCycle_of_admitsAll hopen (get_ids_injective hids) hasks
  clear_value out
  subst hrun
  obtain ⟨i, rfl⟩ := List.mem_ofFn.mp hs
  have hlater := overBuys_later hturn (sortBuys buyOrders) (initialState nowNs sellOrders.get)
  obtain ⟨amount, _, heq⟩ := hlater i
  have hused := overBuys_starved hturn (sortBuys buyOrders) (initialState nowNs sellOrders.get) b hb
    hlive hfok hneed i
  rw [heq] at hsell hafford
  exact absurd hleft (not_le.mpr (hused hsell (affords_fill_sell.mp hafford)))

/-- The buy takes the cheaper sell and two units of the other; what is left of the dearer
one finds nobody. -/
theorem matchCycle_complete_two_sells :
    let sellOrders := [FastOrder.placed 2 4 3 none, FastOrder.placed 3 6 4 none]
    let out := matchCycle [.placed 1 10 5 none] sellOrders [] openGrid FastPrice.one
      (BoundedInt.saturate 0)
    out.sellOrders.map (·.remainingAmount) = [0, 2] ∧
      ∀ b ∈ out.buyOrders, b.isExpired (BoundedInt.saturate 0) = false → b.timeInForce ≠ .fok →
        ∀ s ∈ out.sellOrders, s.isExpired (BoundedInt.saturate 0) = false →
          Affords openGrid (guardMultiplier FastPrice.one) b s →
            ¬(minTradeAmount ≤ b.remainingAmount ∧ minTradeAmount ≤ s.remainingAmount) :=
  ⟨by decide +kernel, matchCycle_complete [.placed 1 10 5 none]
    [FastOrder.placed 2 4 3 none, FastOrder.placed 3 6 4 none] [] openGrid FastPrice.one
    (BoundedInt.saturate 0) (by decide) (by decide) (fun _ _ _ => rfl)⟩

end TradingService.MatchingEngine
