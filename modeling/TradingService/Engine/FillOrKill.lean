import TradingService.Engine.Exhaustive

/-!
# Fill-or-kill buys are all or nothing

The simulation of a fill-or-kill buy predicts what the drain leaves of it: it reads the
sells as they were at the start, and no sell is offered twice. A buy that passes the
check is therefore filled whole, and one that does not is left as it was. What an
immediate order has left after the cycle is reported.
-/

namespace TradingService.MatchingEngine

variable {n : ℕ} {buyMetadata : List OrderMetadata} {topology : TopologySnapshot}
  {dynamicMultiplier : FastPrice} {nowNs : I64} {st : CycleState n} {buy : FastOrder}

variable (topology) in
theorem admittedTake_congr {buy buy' sell sell' : FastOrder} (hbuy : buy'.zoneId = buy.zoneId)
    (hsell : sell' = sell) (flow : ZoneId × ZoneId → Decimal) (need : Decimal) :
    admittedTake topology sell' buy' flow need = admittedTake topology sell buy flow need := by
  unfold admittedTake
  rw [hsell, hbuy]

variable (buyMetadata) in
/-- The drain leaves of a buy what the simulation says. -/
theorem drain_remainingAmount {sellOrders : Fin n → FastOrder} {buy : FastOrder} (cs : List (Candidate n))
    (p : CycleState n × FastOrder) (hnodup : (cs.map (·.sellIdx)).Nodup)
    (hsells : ∀ c ∈ cs, p.1.sellOrders c.sellIdx = sellOrders c.sellIdx)
    (hzone : p.2.zoneId = buy.zoneId) (hneed : ¬p.2.remainingAmount < minTradeAmount) :
    (drain buyMetadata topology cs p).2.remainingAmount =
      simulateFok topology sellOrders buy cs p.1.committedFlow p.2.remainingAmount := by
  induction cs generalizing p with
  | nil => rfl
  | cons c cs ih =>
    obtain ⟨hfresh, hnodup⟩ := List.nodup_cons.mp hnodup
    have hsell := hsells c List.mem_cons_self
    have htake := admittedTake_congr topology hzone hsell p.1.committedFlow
      p.2.remainingAmount
    rw [drain, if_neg hneed, simulateFok, drainStep, htake]
    cases admittedTake topology (sellOrders c.sellIdx) buy p.1.committedFlow p.2.remainingAmount with
    | none => exact ih p hnodup (fun d hd => hsells d (List.mem_cons_of_mem _ hd)) hzone hneed
    | some take =>
      have hafter : (p.2.fill take).remainingAmount = p.2.remainingAmount - take :=
        FastOrder.fill_remainingAmount _ _
      by_cases hdone : p.2.remainingAmount - take < minTradeAmount
      · simp only [if_pos hdone]
        rw [drain_of_filled cs (hafter ▸ hdone), hafter]
      · simp only [if_neg hdone]
        rw [ih (commitMatch p.1 p.2 c buyMetadata take, p.2.fill take) hnodup ?_ hzone
          (by rw [hafter]; exact hdone), hafter]
        · simp only [commitMatch, hsell, hzone]
        · intro d hd
          have hne : d.sellIdx ≠ c.sellIdx := fun he =>
            hfresh (List.mem_map.mpr ⟨d, hd, he⟩)
          rw [commitMatch_sellOrders_of_ne _ _ _ _ _ hne]
          exact hsells d (List.mem_cons_of_mem _ hd)

theorem drain_remainingAmount_nonneg (cs : List (Candidate n)) (p : CycleState n × FastOrder)
    (h : 0 ≤ p.2.remainingAmount) : 0 ≤ (drain buyMetadata topology cs p).2.remainingAmount := by
  refine drain_induction (motive := fun q => 0 ≤ q.2.remainingAmount) cs ?_ p h
  intro q c _ amount hq _ ha
  obtain ⟨rfl, _, _⟩ := admittedTake_eq_some topology ha
  rw [FastOrder.fill_remainingAmount]
  have hle : min q.2.remainingAmount (q.1.sellOrders c.sellIdx).remainingAmount ≤ q.2.remainingAmount :=
    min_le_left _ _
  linarith

theorem scanPass_whole (h : Filed nowNs st) (hfok : buy.timeInForce = .fok)
    (hneed : ¬buy.remainingAmount < minTradeAmount) (needAtStart : Decimal) (fullScan : Bool) :
    (scanPass buyMetadata topology dynamicMultiplier needAtStart fullScan (st, buy)).1.2 = buy ∨
      (scanPass buyMetadata topology dynamicMultiplier needAtStart fullScan
        (st, buy)).1.2.remainingAmount = 0 := by
  simp only [scanPass]
  split_ifs with hsim
  · exact .inl rfl
  · right
    have hle := not_lt.mp fun h => hsim ⟨hfok, h⟩
    have hnodup := gatherCandidates_sellIdx_nodup nowNs buy needAtStart topology dynamicMultiplier
      h.booked (!fullScan)
    rw [← drain_remainingAmount buyMetadata _ (st, buy) hnodup (fun _ _ => rfl) rfl hneed] at hle
    exact le_antisymm hle (drain_remainingAmount_nonneg _ (st, buy)
      (minTradeAmount_pos.le.trans (not_lt.mp hneed)))

theorem matchBuy_whole (h : Filed nowNs st) (hfok : buy.timeInForce = .fok) :
    (matchBuy buyMetadata topology dynamicMultiplier nowNs st buy).2 = buy ∨
      (matchBuy buyMetadata topology dynamicMultiplier nowNs st buy).2.remainingAmount = 0 := by
  -- A fill-or-kill buy scans everything at once, so there is no second turn.
  have honce : (scanPass buyMetadata topology dynamicMultiplier buy.remainingAmount
      (buy.timeInForce = .fok) (st, buy)).2 = false := by
    simp only [scanPass, hfok, decide_true, Bool.not_true, Bool.false_and]
    split_ifs <;> rfl
  simp only [matchBuy, honce, Bool.false_eq_true, if_false]
  split_ifs with hidle
  · exact .inl rfl
  · exact scanPass_whole h hfok (fun hlt => hidle (.inl hlt)) _ _

theorem Filed.scanPass {needAtStart : Decimal} {fullScan : Bool} {p : CycleState n × FastOrder}
    (h : Filed nowNs p.1) :
    Filed nowNs (scanPass buyMetadata topology dynamicMultiplier needAtStart fullScan p).1.1 := by
  simp only [MatchingEngine.scanPass]
  split_ifs
  · exact h
  · exact h.drain _

theorem Filed.matchBuy (h : Filed nowNs st) :
    Filed nowNs (matchBuy buyMetadata topology dynamicMultiplier nowNs st buy).1 := by
  simp only [MatchingEngine.matchBuy]
  split_ifs
  · exact h
  · exact h.scanPass.scanPass
  · exact h.scanPass

variable (buyMetadata topology dynamicMultiplier) in
theorem scanPass_buy (needAtStart : Decimal) (fullScan : Bool) (p : CycleState n × FastOrder) :
    ∃ amount, (scanPass buyMetadata topology dynamicMultiplier needAtStart fullScan p).1.2 =
      p.2.fill amount := by
  simp only [scanPass]
  split_ifs
  · exact ⟨0, p.2.fill_zero.symm⟩
  · exact drain_buy buyMetadata topology _ p

variable (buyMetadata topology dynamicMultiplier nowNs st buy) in
theorem matchBuy_buy :
    ∃ amount, (matchBuy buyMetadata topology dynamicMultiplier nowNs st buy).2 = buy.fill amount := by
  simp only [matchBuy]
  split_ifs
  · exact ⟨0, buy.fill_zero.symm⟩
  · obtain ⟨amount, hfirst⟩ := scanPass_buy buyMetadata topology dynamicMultiplier buy.remainingAmount
      (buy.timeInForce = .fok) (st, buy)
    obtain ⟨amount', hsecond⟩ := scanPass_buy buyMetadata topology dynamicMultiplier
      buy.remainingAmount true (scanPass buyMetadata topology dynamicMultiplier buy.remainingAmount
        (buy.timeInForce = .fok) (st, buy)).1
    exact ⟨amount + amount', by rw [hsecond, hfirst, FastOrder.fill_fill]⟩
  · exact scanPass_buy buyMetadata topology dynamicMultiplier _ _ (st, buy)

/-- After the loop a fill-or-kill buy is as it was or has nothing left to fill. -/
theorem overBuys_whole (todo : List FastOrder)
    (st : CycleState n) (h : Filed nowNs st) :
    ∀ b ∈ (overBuys (matchBuy buyMetadata topology dynamicMultiplier nowNs) todo st).2,
      b.timeInForce = .fok → b ∈ todo ∨ b.remainingAmount = 0 := by
  induction todo generalizing st with
  | nil => simp [overBuys]
  | cons buy todo ih =>
    refine List.forall_mem_cons.mpr ⟨fun hfok => ?_, fun b hb hfok => ?_⟩
    · have hkind : buy.timeInForce = .fok := by
        obtain ⟨amount, hfill⟩ := matchBuy_buy buyMetadata topology dynamicMultiplier nowNs st buy
        rw [hfill] at hfok
        exact hfok
      rcases matchBuy_whole h hkind with he | he
      · left
        rw [he]
        exact List.mem_cons_self
      · exact .inr he
    · exact (ih _ h.matchBuy b hb hfok).imp_left (List.mem_cons_of_mem _)

theorem matchCycle_whole {buyOrders sellOrders : List FastOrder}
    (hids : ((buyOrders ++ sellOrders).map (·.id)).Nodup) :
    ∀ b ∈ (matchCycle buyOrders sellOrders buyMetadata topology dynamicMultiplier nowNs).buyOrders,
      b.timeInForce = .fok → b ∈ buyOrders ∨ b.remainingAmount = 0 := by
  intro b hb hfok
  have hfiled : Filed nowNs (initialState nowNs sellOrders.get) :=
    filed_initialState (distinct_initialState nowNs hids).sell_ids
  have hperm : (sortBuys buyOrders).Perm buyOrders := List.perm_insertionSort _ _
  exact (overBuys_whole (sortBuys buyOrders) _ hfiled b hb hfok).imp_left fun h => hperm.subset h

section Reports

variable {buyOrders sellOrders : List FastOrder}

theorem tradedAmount_of_buy {out : CycleOutcome} (hids : ((buyOrders ++ sellOrders).map (·.id)).Nodup)
    (h : Conserves buyOrders sellOrders out) {b : FastOrder} (hb : b ∈ buyOrders) :
    tradedAmount out.results b.id =
      ((out.results.filter (·.buyOrderId = b.id)).map (·.matchAmount)).sum := by
  rw [List.map_append, List.nodup_append] at hids
  unfold tradedAmount
  congr 2
  refine List.filter_congr fun r hr => decide_eq_decide.mpr ⟨fun hname => ?_, .inl⟩
  rcases hname with hbuy | hsell
  · exact hbuy
  · obtain ⟨s, hs, hid⟩ := h.sell_mem r hr
    exact absurd (hsell.symm.trans hid)
      (hids.2.2 _ (List.mem_map_of_mem hb) _ (List.mem_map_of_mem hs))

theorem count_immediateSweep {orders : List FastOrder} (hids : (orders.map (·.id)).Nodup) (id : Uuid) :
    (immediateSweep nowNs orders).count id =
      if ∃ o ∈ orders, o.id = id ∧ o.timeInForce.isImmediate ∧ o.isExpired nowNs = false ∧
        0 < o.remainingAmount then 1 else 0 := by
  have hnodup : (immediateSweep nowNs orders).Nodup := (List.filter_sublist.map _).nodup hids
  have hmem : id ∈ immediateSweep nowNs orders ↔ ∃ o ∈ orders, o.id = id ∧
      o.timeInForce.isImmediate ∧ o.isExpired nowNs = false ∧ 0 < o.remainingAmount := by
    simp only [immediateSweep, List.mem_map, List.mem_filter, Bool.and_eq_true, Bool.not_eq_true',
      decide_eq_true_eq]
    constructor
    · rintro ⟨o, ⟨ho, ⟨himm, hlive⟩, hleft⟩, hid⟩
      exact ⟨o, ho, hid, himm, hlive, hleft⟩
    · rintro ⟨o, ho, hid, himm, hlive, hleft⟩
      exact ⟨o, ⟨ho, ⟨himm, hlive⟩, hleft⟩, hid⟩
  rw [hnodup.count]
  simp only [hmem]

end Reports

/-- A fill-or-kill buy trades nothing or all that it still needed, and the immediate
orders with something left are reported, each once, and no others. -/
theorem matchCycle_all_or_nothing (buyOrders sellOrders : List FastOrder)
    (buyMetadata : List OrderMetadata) (topology : TopologySnapshot) (dynamicMultiplier : FastPrice)
    (nowNs : I64) (hids : ((buyOrders ++ sellOrders).map (·.id)).Nodup) :
    let out := matchCycle buyOrders sellOrders buyMetadata topology dynamicMultiplier nowNs
    (∀ b ∈ buyOrders, b.timeInForce = .fok →
      (b ∈ out.buyOrders ∧ ∀ r ∈ out.results, r.buyOrderId ≠ b.id) ∨
        ((out.results.filter (·.buyOrderId = b.id)).map (·.matchAmount)).sum = b.remainingAmount) ∧
      ∀ id, out.stats.iocCancellations.count id =
        if ∃ o ∈ out.buyOrders ++ out.sellOrders, o.id = id ∧ o.timeInForce.isImmediate ∧
          o.isExpired nowNs = false ∧ 0 < o.remainingAmount then 1 else 0 := by
  intro out
  have h : Conserves buyOrders sellOrders out :=
    conserves_matchCycle nowNs buyMetadata topology dynamicMultiplier hids
  constructor
  · intro b hb hfok
    have hfinal : b.credit out.results ∈ out.buyOrders :=
      h.buys_perm.symm.subset (List.mem_map_of_mem hb)
    rcases matchCycle_whole hids _ hfinal hfok with hsame | hwhole
    · left
      have hbuyIds : (buyOrders.map (·.id)).Nodup :=
        (List.nodup_append.mp (List.map_append ▸ hids)).1
      have heq : b.credit out.results = b := List.inj_on_of_nodup_map hbuyIds hsame hb rfl
      have hfill : b.filledAmount + tradedAmount out.results b.id = b.filledAmount :=
        congrArg FastOrder.filledAmount heq
      have hnone := not_names_of_tradedAmount_eq_zero
        (fun r hr => minTradeAmount_pos.trans_le (h.amount_min r hr)) (add_eq_left.mp hfill)
      exact ⟨heq ▸ hfinal, fun r hr hbuy => hnone r hr (.inl hbuy)⟩
    · right
      rw [← tradedAmount_of_buy hids h hb]
      have hleft : b.remainingAmount - tradedAmount out.results b.id = 0 :=
        (FastOrder.fill_remainingAmount b _).symm.trans hwhole
      linarith
  · intro id
    have hout : ((out.buyOrders ++ out.sellOrders).map (·.id)).Nodup := by
      refine (h.orders_perm.map _).nodup_iff.mpr ?_
      rwa [List.map_map]
    exact count_immediateSweep hout id

/-- The link carries four units in all: the first buy takes three, and of the second,
which needs two at once, none is filled. -/
theorem matchCycle_all_or_nothing_capacity :
    let first := FastOrder.placed 1 10 3 none
    let second := { FastOrder.placed 2 9 2 none with timeInForce := .fok }
    let out := matchCycle [first, second] [.placed 3 4 5 none] [] (.freeGrid fun _ _ => 4)
      FastPrice.one (BoundedInt.saturate 0)
    out.results.map (·.matchAmount) = [3] ∧ out.stats.iocCancellations = [2] ∧
      ((second ∈ out.buyOrders ∧ ∀ r ∈ out.results, r.buyOrderId ≠ second.id) ∨
        ((out.results.filter (·.buyOrderId = second.id)).map (·.matchAmount)).sum =
          second.remainingAmount) := by
  intro first second out
  refine ⟨by decide +kernel, by decide +kernel, ?_⟩
  exact (matchCycle_all_or_nothing [first, second] [.placed 3 4 5 none] [] (.freeGrid fun _ _ => 4)
    FastPrice.one (BoundedInt.saturate 0) (by decide)).1 second (by simp [first, second]) rfl

end TradingService.MatchingEngine
