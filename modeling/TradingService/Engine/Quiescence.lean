import TradingService.Engine.Commits

/-!
# What a cycle leaves for the next one

A cycle on a grid that lets every flow through leaves no pair that could trade but those of
fill-or-kill buys. Time can only take from what it leaves: orders are filled elsewhere,
cancelled or reaped, and expire. So until an order arrives the next cycle has nothing to do.
-/

namespace TradingService.MatchingEngine

variable {n : ℕ}

structure Tradable (topology : TopologySnapshot) (dynamicMultiplier : FastPrice) (nowNs : I64)
    (buy sell : FastOrder) : Prop where
  buy_live : Live nowNs buy
  sell_live : Live nowNs sell
  affords : Affords topology dynamicMultiplier buy sell

variable {topology : TopologySnapshot} {dynamicMultiplier : FastPrice} {nowNs nowNs' : I64}
  {buyMetadata : List OrderMetadata} {buyOrders sellOrders : List FastOrder} {buy sell : FastOrder}

theorem affords_of_priceSell {sellOrders : Fin n → FastOrder} {needAtStart : Decimal} {i : Fin n}
    {c : Candidate n}
    (h : priceSell sellOrders buy needAtStart topology dynamicMultiplier
      (zoneFees buy topology (sellOrders i).zoneId) i = some c) :
    Affords topology dynamicMultiplier buy (sellOrders i) := by
  unfold priceSell pricedCandidate at h
  split_ifs at h with hself hask hflow hbid
  exact ⟨hself, not_lt.mp hask, hbid⟩

theorem Commit.affords {start p : CycleState n × FastOrder} {c : Candidate n} {amount : Decimal}
    (h : Commit topology dynamicMultiplier nowNs buy start p c amount) (hfiled : Filed nowNs start.1) :
    Affords topology dynamicMultiplier buy (p.1.sellOrders c.sellIdx) := by
  obtain ⟨needAtStart, earlyStop, hc⟩ := h.gathered
  have hviable := viable_of_mem_gatherCandidates nowNs _ _ _ _ hfiled.booked hc
  have hpriced := affords_of_priceSell (viableSell_eq_some.mp hviable).2
  obtain ⟨filled, hbuy⟩ := h.start_rest
  obtain ⟨filled', _, hsell⟩ := h.later c.sellIdx
  rw [hbuy, affords_fill_buy] at hpriced
  rw [hsell, affords_fill_sell]
  exact hpriced

structure TradableSoFar (topology : TopologySnapshot) (dynamicMultiplier : FastPrice) (nowNs : I64)
    (buyOrders sellOrders : List FastOrder) (st : CycleState sellOrders.length) : Prop where
  later : Later sellOrders.get st.sellOrders
  filed : Filed nowNs st
  results : ∀ r ∈ st.results, ∃ b ∈ buyOrders, ∃ s ∈ sellOrders, r.buyOrderId = b.id ∧
    r.sellOrderId = s.id ∧ Tradable topology dynamicMultiplier nowNs b s

theorem TradableSoFar.commit {start p : CycleState sellOrders.length × FastOrder}
    {c : Candidate sellOrders.length} {amount : Decimal}
    (h : TradableSoFar topology dynamicMultiplier nowNs buyOrders sellOrders p.1)
    (hbuy : buy ∈ buyOrders) (hstart : Filed nowNs start.1)
    (hcommit : Commit topology dynamicMultiplier nowNs buy start p c amount) :
    TradableSoFar topology dynamicMultiplier nowNs buyOrders sellOrders
      (commitMatch p.1 p.2 c buyMetadata amount) := by
  have hafford := hcommit.affords hstart
  obtain ⟨hlive, _⟩ := hcommit.viable hstart
  obtain ⟨filled, hrest⟩ := hcommit.rest
  obtain ⟨filled', _, hsell⟩ := h.later c.sellIdx
  have hleft := hcommit.left.trans (h.later.remaining_le c.sellIdx)
  rw [hsell, FastOrder.fill_isExpired] at hlive
  rw [hsell, affords_fill_sell] at hafford
  constructor
  · exact h.later.trans hcommit.later_after
  · exact h.filed.commitMatch hcommit.amount_pos.le
  · refine List.forall_mem_append.mpr ⟨h.results, fun r hr => ?_⟩
    obtain rfl := List.mem_singleton.mp hr
    refine ⟨buy, hbuy, sellOrders.get c.sellIdx, List.get_mem _ _, ?_, ?_, hcommit.live,
      ⟨hleft, by simpa using hlive⟩, hafford⟩
    · simp only [matchResult, hrest, FastOrder.fill_id]
    · simp only [matchResult, hsell, FastOrder.fill_id]

theorem matchCycle_tradable (hids : (sellOrders.map (·.id)).Nodup) :
    ∀ r ∈ (matchCycle buyOrders sellOrders buyMetadata topology dynamicMultiplier nowNs).results,
      ∃ b ∈ buyOrders, ∃ s ∈ sellOrders, r.buyOrderId = b.id ∧ r.sellOrderId = s.id ∧
        Tradable topology (guardMultiplier dynamicMultiplier) nowNs b s := by
  have hperm : (sortBuys buyOrders).Perm buyOrders := List.perm_insertionSort _ _
  exact (matchBuys_induction (P := TradableSoFar topology (guardMultiplier dynamicMultiplier) nowNs
      buyOrders sellOrders) _
    (fun _ hbuy _ _ _ _ hcommit hstart h => h.commit (hperm.subset hbuy) hstart.filed hcommit) _
    ⟨.refl _, filed_initialState (get_ids_injective hids), by simp [initialState]⟩).results

/-- What is left at some later time of one of the orders: it may have been filled further. -/
def LeftOf (orders : List FastOrder) (o' : FastOrder) : Prop :=
  ∃ o ∈ orders, ∃ amount, 0 ≤ amount ∧ o' = o.fill amount

theorem Live.earlier {o : FastOrder} {amount : Decimal} (h : Live nowNs' (o.fill amount))
    (h0 : 0 ≤ amount) (hnow : nowNs ≤ nowNs') : Live nowNs o := by
  obtain ⟨hleft, hlive⟩ := h
  rw [FastOrder.fill_remainingAmount] at hleft
  refine ⟨by linarith, ?_⟩
  rw [FastOrder.fill_isExpired] at hlive
  unfold FastOrder.isExpired at hlive ⊢
  cases hexpiry : o.expiresAtNs with
  | none => rfl
  | some expiresAt =>
    simp only [hexpiry, Bool.not_eq_true', decide_eq_false_iff_not, not_le] at hlive ⊢
    exact hnow.trans_lt hlive

/-- Of what a cycle leaves, a buy that is not fill-or-kill has nothing more to trade with. -/
theorem not_tradable_of_left (hids : (sellOrders.map (·.id)).Nodup)
    (hasks : ∀ s ∈ sellOrders, (0 : ℤ) ≤ s.price.raw) (hopen : AdmitsAll topology)
    (hnow : nowNs ≤ nowNs')
    (hbuy : LeftOf (matchCycle buyOrders sellOrders buyMetadata topology dynamicMultiplier nowNs).buyOrders buy)
    (hsell : LeftOf (matchCycle buyOrders sellOrders buyMetadata topology dynamicMultiplier nowNs).sellOrders
      sell) (hfok : buy.timeInForce ≠ .fok) :
    ¬Tradable topology (guardMultiplier dynamicMultiplier) nowNs' buy sell := by
  intro htradable
  have hturn : ∀ (st : CycleState sellOrders.length) b, Turn topology
      (guardMultiplier dynamicMultiplier) nowNs st b (exhaustiveBuy buyMetadata topology
        (guardMultiplier dynamicMultiplier) nowNs st b) :=
    fun st b => turn_exhaustiveBuy hopen st b
  obtain ⟨b, hb, amount, h0, rfl⟩ := hbuy
  obtain ⟨s, hs, amount', h0', rfl⟩ := hsell
  obtain ⟨hneed, hlive⟩ := htradable.buy_live.earlier h0 hnow
  obtain ⟨hleft, hsellLive⟩ := htradable.sell_live.earlier h0' hnow
  have hafford := affords_fill.mp htradable.affords
  rw [matchCycle_of_admitsAll hopen (get_ids_injective hids) hasks] at hb hs
  obtain ⟨i, rfl⟩ := List.mem_ofFn.mp hs
  have hlater := overBuys_later hturn (sortBuys buyOrders) (initialState nowNs sellOrders.get)
  obtain ⟨amount'', _, heq⟩ := hlater i
  have hused := overBuys_starved hturn (sortBuys buyOrders) (initialState nowNs sellOrders.get) b hb
    (by simpa using hlive) hfok hneed i
  rw [heq] at hsellLive hafford
  exact absurd hleft (not_le.mpr (hused (by simpa using hsellLive) (affords_fill_sell.mp hafford)))

/-- Quiescence: a later cycle over what is left of a cycle's orders, whatever was cancelled,
reaped or filled in between, makes no match but for a fill-or-kill buy. -/
theorem matchCycle_quiescent (buyOrders sellOrders buyOrders' sellOrders' : List FastOrder)
    (buyMetadata buyMetadata' : List OrderMetadata) (topology : TopologySnapshot)
    (dynamicMultiplier : FastPrice) (nowNs nowNs' : I64) (hids : (sellOrders.map (·.id)).Nodup)
    (hids' : (sellOrders'.map (·.id)).Nodup) (hasks : ∀ s ∈ sellOrders, (0 : ℤ) ≤ s.price.raw)
    (hopen : AdmitsAll topology) (hnow : nowNs ≤ nowNs') :
    let out := matchCycle buyOrders sellOrders buyMetadata topology dynamicMultiplier nowNs
    (∀ b ∈ buyOrders', LeftOf out.buyOrders b) → (∀ s ∈ sellOrders', LeftOf out.sellOrders s) →
      ∀ r ∈ (matchCycle buyOrders' sellOrders' buyMetadata' topology dynamicMultiplier nowNs').results,
        ∃ b ∈ buyOrders', r.buyOrderId = b.id ∧ b.timeInForce = .fok := by
  intro out hbuys hsells r hr
  obtain ⟨b, hb, s, hs, hbuyId, _, htradable⟩ := matchCycle_tradable hids' r hr
  refine ⟨b, hb, hbuyId, ?_⟩
  by_contra hfok
  exact not_tradable_of_left hids hasks hopen hnow (hbuys b hb) (hsells s hs) hfok htradable

/-- After the cycle a unit of the sell that was too dear goes elsewhere, and what is left of
the buy still finds nobody. -/
theorem matchCycle_quiescent_dear_sell :
    let out := matchCycle [.placed 1 10 15 none] [.placed 2 4 3 none, .placed 3 12 4 none] [] openGrid
      FastPrice.one (BoundedInt.saturate 0)
    out.stats.totalVolume = 3 ∧ (matchCycle out.buyOrders [(FastOrder.placed 3 12 4 none).fill 1] []
      openGrid FastPrice.one (BoundedInt.saturate 7)).results = [] := by
  intro out
  have hsell : FastOrder.placed 3 12 4 none ∈ out.sellOrders := by decide +kernel
  have hkinds : ∀ b ∈ out.buyOrders, b.timeInForce ≠ .fok := by decide +kernel
  have hquiet := matchCycle_quiescent [.placed 1 10 15 none] [.placed 2 4 3 none, .placed 3 12 4 none]
    out.buyOrders [(FastOrder.placed 3 12 4 none).fill 1] [] [] openGrid FastPrice.one
    (BoundedInt.saturate 0) (BoundedInt.saturate 7) (by decide) (by decide) (by decide)
    (fun _ _ _ => rfl) (by decide) (fun b hb => ⟨b, hb, 0, le_rfl, b.fill_zero.symm⟩)
    (List.forall_mem_singleton.mpr ⟨_, hsell, 1, by norm_num, rfl⟩)
  refine ⟨by decide +kernel, List.eq_nil_iff_forall_not_mem.mpr fun r hr => ?_⟩
  obtain ⟨b, hb, _, hfok⟩ := hquiet r hr
  exact hkinds b hb hfok

end TradingService.MatchingEngine
