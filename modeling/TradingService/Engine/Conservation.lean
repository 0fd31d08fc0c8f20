import TradingService.Engine.MatchCycle

/-!
# Conservation of energy in a cycle

Every part of the buy loop emits some results and changes the orders by the
credits of these results and by nothing else. `Traded` says so of one part; it is
proved of one candidate, carried through the drain loop and the turns of a buy,
and extended to all buys by a frame rule. The amounts stay in whatever grid of
decimals the orders are on, so that a ledger of a fixed scale can store them.
-/

namespace TradingService.MatchingEngine

variable {n : ℕ} {grid : AddSubgroup Decimal}

structure OnGrid (grid : AddSubgroup Decimal) (o : FastOrder) : Prop where
  filled_mem : o.filledAmount ∈ grid
  energy_mem : o.energyAmount ∈ grid

structure InBounds (o : FastOrder) : Prop where
  filled_nonneg : 0 ≤ o.filledAmount
  filled_le : o.filledAmount ≤ o.energyAmount

theorem OnGrid.remaining_mem {o : FastOrder} (h : OnGrid grid o) : o.remainingAmount ∈ grid :=
  grid.sub_mem h.energy_mem h.filled_mem

theorem OnGrid.fill {o : FastOrder} (h : OnGrid grid o) {amount : Decimal} (hmem : amount ∈ grid) :
    OnGrid grid (o.fill amount) where
  filled_mem := grid.add_mem h.filled_mem hmem
  energy_mem := h.energy_mem

theorem InBounds.fill {o : FastOrder} (h : InBounds o) {amount : Decimal} (h0 : 0 ≤ amount)
    (hle : amount ≤ o.remainingAmount) : InBounds (o.fill amount) where
  filled_nonneg := add_nonneg h.filled_nonneg h0
  filled_le := by
    simp only [FastOrder.fill_filledAmount, FastOrder.fill_energyAmount]
    linarith [show amount ≤ o.energyAmount - o.filledAmount from hle]

theorem min_remaining_mem {o o' : FastOrder} (h : OnGrid grid o) (h' : OnGrid grid o') :
    min o.remainingAmount o'.remainingAmount ∈ grid := by
  rcases min_choice o.remainingAmount o'.remainingAmount with he | he
  · rw [he]; exact h.remaining_mem
  · rw [he]; exact h'.remaining_mem

structure Distinct (st : CycleState n) (buys : List FastOrder) : Prop where
  buy_ids : (buys.map (·.id)).Nodup
  sell_ids : Function.Injective fun i => (st.sellOrders i).id
  disjoint : ∀ b ∈ buys, ∀ i, (st.sellOrders i).id ≠ b.id

structure AllOrders (P : FastOrder → Prop) (st : CycleState n) (buys : List FastOrder) : Prop where
  buys : ∀ b ∈ buys, P b
  sells : ∀ i, P (st.sellOrders i)

/-- Between two states with their buys, `rs` was emitted and credited to both
sides, and nothing else happened to an order. -/
structure Traded (st : CycleState n) (buys : List FastOrder) (rs : List MatchResult)
    (st' : CycleState n) (buys' : List FastOrder) : Prop where
  results : st'.results = st.results ++ rs
  created : st'.matchesCreated = st.matchesCreated + rs.length
  volume : st'.totalVolume = st.totalVolume + (rs.map (·.matchAmount)).sum
  buys_eq : buys' = buys.map (·.credit rs)
  sells_eq : st'.sellOrders = fun i => (st.sellOrders i).credit rs
  buy_mem : ∀ r ∈ rs, ∃ b ∈ buys, r.buyOrderId = b.id
  sell_mem : ∀ r ∈ rs, ∃ i, r.sellOrderId = (st.sellOrders i).id
  amount_min : ∀ r ∈ rs, minTradeAmount ≤ r.matchAmount
  amount_mem : ∀ grid, AllOrders (OnGrid grid) st buys → ∀ r ∈ rs, r.matchAmount ∈ grid
  onGrid : ∀ grid, AllOrders (OnGrid grid) st buys → AllOrders (OnGrid grid) st' buys'
  inBounds : AllOrders InBounds st buys → AllOrders InBounds st' buys'

section Composition

variable {st st' st'' : CycleState n} {bs bs' bs'' cs : List FastOrder} {rs rs' : List MatchResult}

theorem Distinct.tail {b : FastOrder} (h : Distinct st (b :: bs)) : Distinct st bs where
  buy_ids := (List.nodup_cons.mp h.buy_ids).2
  sell_ids := h.sell_ids
  disjoint c hc := h.disjoint c (List.mem_cons_of_mem _ hc)

theorem Distinct.head {b : FastOrder} (h : Distinct st (b :: bs)) : Distinct st [b] where
  buy_ids := List.nodup_singleton _
  sell_ids := h.sell_ids
  disjoint c hc := h.disjoint c (List.mem_singleton.mp hc ▸ List.mem_cons_self)

theorem Traded.refl : Traded st bs [] st bs where
  results := (List.append_nil _).symm
  created := rfl
  volume := (add_zero _).symm
  buys_eq := by simp
  sells_eq := by simp
  buy_mem := by simp
  sell_mem := by simp
  amount_min := by simp
  amount_mem := by simp
  onGrid _ h := h
  inBounds h := h

theorem Traded.sell_id (h : Traded st bs rs st' bs') (i : Fin n) :
    (st'.sellOrders i).id = (st.sellOrders i).id := by rw [h.sells_eq]; rfl

theorem Traded.distinct (h : Traded st bs rs st' bs') (hr : Distinct st bs) :
    Distinct st' bs' where
  buy_ids := by simpa only [h.buys_eq, List.map_map, Function.comp_def, FastOrder.credit_id] using hr.buy_ids
  sell_ids := by simpa only [h.sells_eq, FastOrder.credit_id] using hr.sell_ids
  disjoint b hb i := by
    rw [h.buys_eq] at hb
    obtain ⟨c, hc, rfl⟩ := List.mem_map.mp hb
    rw [h.sell_id]
    exact hr.disjoint c hc i

theorem Traded.trans (h : Traded st bs rs st' bs') (h' : Traded st' bs' rs' st'' bs'') :
    Traded st bs (rs ++ rs') st'' bs'' where
  results := by rw [h'.results, h.results, List.append_assoc]
  created := by rw [h'.created, h.created, List.length_append, add_assoc]
  volume := by rw [h'.volume, h.volume, List.map_append, List.sum_append, add_assoc]
  buys_eq := by
    rw [h'.buys_eq, h.buys_eq, List.map_map]
    exact List.map_congr_left fun b _ => (FastOrder.credit_append rs rs' b).symm
  sells_eq := by
    rw [h'.sells_eq, h.sells_eq]
    exact funext fun i => (FastOrder.credit_append rs rs' _).symm
  buy_mem r hr := by
    rcases List.mem_append.mp hr with hr | hr
    · exact h.buy_mem r hr
    · obtain ⟨b', hb', hid⟩ := h'.buy_mem r hr
      rw [h.buys_eq] at hb'
      obtain ⟨b, hb, rfl⟩ := List.mem_map.mp hb'
      exact ⟨b, hb, hid⟩
  sell_mem r hr := by
    rcases List.mem_append.mp hr with hr | hr
    · exact h.sell_mem r hr
    · obtain ⟨i, hi⟩ := h'.sell_mem r hr
      exact ⟨i, hi.trans (h.sell_id i)⟩
  amount_min := List.forall_mem_append.mpr ⟨h.amount_min, h'.amount_min⟩
  amount_mem grid hb := List.forall_mem_append.mpr
    ⟨h.amount_mem grid hb, h'.amount_mem grid (h.onGrid grid hb)⟩
  onGrid grid hb := h'.onGrid grid (h.onGrid grid hb)
  inBounds hb := h'.inBounds (h.inBounds hb)

theorem Traded.credit_bystander (h : Traded st bs rs st' bs') {c : FastOrder}
    (hbuys : ∀ b ∈ bs, b.id ≠ c.id) (hsells : ∀ i, (st.sellOrders i).id ≠ c.id) :
    c.credit rs = c := by
  refine FastOrder.credit_of_not_named fun r hr hnames => ?_
  rcases hnames with hb | hs
  · obtain ⟨b, hb', hid⟩ := h.buy_mem r hr
    exact hbuys b hb' (hid.symm.trans hb)
  · obtain ⟨i, hid⟩ := h.sell_mem r hr
    exact hsells i (hid.symm.trans hs)

theorem AllOrders.inner {P : FastOrder → Prop} {left right : List FastOrder}
    (h : AllOrders P st (left ++ bs ++ right)) : AllOrders P st bs where
  buys b hb := h.buys b (by simp [hb])
  sells := h.sells

/-- The inner buys may be replaced together with the sells. -/
theorem AllOrders.replace {P : FastOrder → Prop} {left right : List FastOrder}
    (h : AllOrders P st (left ++ bs ++ right)) (h' : AllOrders P st' bs') :
    AllOrders P st' (left ++ bs' ++ right) where
  buys := by
    intro b hb
    rcases List.mem_append.mp hb with hb | hb
    · rcases List.mem_append.mp hb with hb | hb
      · exact h.buys b (by simp [hb])
      · exact h'.buys b hb
    · exact h.buys b (by simp [hb])
  sells := h'.sells

/-- The frame rule: what happened to some buys happened to any larger list of
buys, the others unchanged. -/
theorem Traded.frame (left right : List FastOrder) (h : Traded st bs rs st' bs')
    (hr : Distinct st (left ++ bs ++ right)) :
    Traded st (left ++ bs ++ right) rs st' (left ++ bs' ++ right) := by
  have hdis : ∀ c, c ∈ left ∨ c ∈ right → ∀ b ∈ bs, b.id ≠ c.id := by
    intro c hc b hb
    have hids := hr.buy_ids
    simp only [List.map_append, List.nodup_append, List.mem_append, List.mem_map] at hids
    rcases hc with hc | hc
    · exact fun he => hids.1.2.2 _ ⟨c, hc, rfl⟩ _ ⟨b, hb, rfl⟩ he.symm
    · exact hids.2.2 _ (.inr ⟨b, hb, rfl⟩) _ ⟨c, hc, rfl⟩
  have hout : ∀ c, c ∈ left ∨ c ∈ right → c.credit rs = c := fun c hc =>
    h.credit_bystander (hdis c hc) (hr.disjoint c (by
      rcases hc with hc | hc <;> simp [hc]))
  have hmap : ∀ l : List FastOrder, (∀ c ∈ l, c.credit rs = c) → l.map (·.credit rs) = l :=
    fun l hl => (List.map_congr_left hl).trans (List.map_id _)
  exact
    { h with
      buys_eq := by
        rw [List.map_append, List.map_append, hmap left fun c hc => hout c (.inl hc),
          hmap right fun c hc => hout c (.inr hc), ← h.buys_eq]
      buy_mem := fun r hrs => by
        obtain ⟨b, hb, hid⟩ := h.buy_mem r hrs
        exact ⟨b, by simp [hb], hid⟩
      amount_mem := fun grid hb => h.amount_mem grid hb.inner
      onGrid := fun grid hb => hb.replace (h.onGrid grid hb.inner)
      inBounds := fun hb => hb.replace (h.inBounds hb.inner) }

theorem overBuys_traded {step : CycleState n → FastOrder → CycleState n × FastOrder}
    (hstep : ∀ st b, Distinct st [b] → ∃ rs, Traded st [b] rs (step st b).1 [(step st b).2])
    (buys : List FastOrder) (st : CycleState n) (h : Distinct st buys) :
    ∃ rs, Traded st buys rs (overBuys step buys st).1 (overBuys step buys st).2 := by
  induction buys generalizing st with
  | nil => exact ⟨[], Traded.refl⟩
  | cons buy buys ih =>
    obtain ⟨rs, hbuy⟩ := hstep st buy h.head
    have hfirst := hbuy.frame [] buys h
    have hdistinct := hfirst.distinct h
    obtain ⟨rs', hrest⟩ := ih _ hdistinct.tail
    have hsecond := hrest.frame [_] [] (by simpa using hdistinct)
    simp only [List.append_nil] at hsecond
    exact ⟨rs ++ rs', hfirst.trans hsecond⟩

end Composition

section Steps

variable {st : CycleState n} {buy : FastOrder} (buyMetadata : List OrderMetadata)
  (topology : TopologySnapshot) (dynamicMultiplier : FastPrice) (nowNs : I64)

/-- What the fill rule grants lies between the minimum and either side's remainder. -/
theorem admittedTake_eq_some {sell : FastOrder} {flow : ZoneId × ZoneId → Decimal}
    {need take : Decimal} (h : admittedTake topology sell buy flow need = some take) :
    take = min need sell.remainingAmount ∧ minTradeAmount ≤ sell.remainingAmount ∧
      topology.canAccommodateFlow sell.zoneId buy.zoneId
        (flow (sell.zoneId, buy.zoneId) + take) = true := by
  unfold admittedTake fillTake at h
  by_cases hdust : sell.remainingAmount < minTradeAmount
  · simp [hdust] at h
  · simp only [if_neg hdust] at h
    split_ifs at h with hflow
    obtain rfl := Option.some.inj h
    exact ⟨rfl, not_lt.mp hdust, hflow⟩

theorem commitMatch_traded (h : Distinct st [buy]) (c : Candidate n) {amount : Decimal}
    (hmin : minTradeAmount ≤ amount)
    (hamount : amount = min buy.remainingAmount (st.sellOrders c.sellIdx).remainingAmount) :
    Traded st [buy] [matchResult buy (st.sellOrders c.sellIdx) c buyMetadata amount]
      (commitMatch st buy c buyMetadata amount) [buy.fill amount] := by
  have h0 : 0 ≤ amount := minTradeAmount_pos.le.trans hmin
  have hbuyer : buy.credit [matchResult buy (st.sellOrders c.sellIdx) c buyMetadata amount] =
      buy.fill amount := FastOrder.credit_singleton (.inl rfl)
  have hsells : (commitMatch st buy c buyMetadata amount).sellOrders = fun i =>
      (st.sellOrders i).credit [matchResult buy (st.sellOrders c.sellIdx) c buyMetadata amount] := by
    funext i
    by_cases hi : i = c.sellIdx
    · subst hi
      rw [FastOrder.credit_singleton (.inr rfl), commitMatch_sellOrders_self]
      rfl
    · rw [FastOrder.credit_of_not_named, commitMatch_sellOrders_of_ne _ _ _ _ _ hi]
      rintro r hr (hb | hs)
      · obtain rfl := List.mem_singleton.mp hr
        exact h.disjoint buy (List.mem_singleton_self _) i hb.symm
      · obtain rfl := List.mem_singleton.mp hr
        exact hi (h.sell_ids hs.symm)
  have hafter : ∀ P : FastOrder → Prop, AllOrders P st [buy] →
      (∀ o, P o → amount ≤ o.remainingAmount → P (o.fill amount)) →
      AllOrders P (commitMatch st buy c buyMetadata amount) [buy.fill amount] := by
    intro P hP hfill
    refine ⟨by simpa using hfill buy (hP.buys buy (by simp)) (hamount ▸ min_le_left _ _), fun i => ?_⟩
    by_cases hi : i = c.sellIdx
    · rw [hi, commitMatch_sellOrders_self]
      exact hfill _ (hP.sells c.sellIdx) (hamount ▸ min_le_right _ _)
    · rw [commitMatch_sellOrders_of_ne _ _ _ _ _ hi]
      exact hP.sells i
  have hmem : ∀ grid, AllOrders (OnGrid grid) st [buy] → amount ∈ grid := fun grid hb =>
    hamount ▸ min_remaining_mem (hb.buys buy (by simp)) (hb.sells c.sellIdx)
  exact
    { results := rfl
      created := rfl
      volume := by simp [commitMatch, matchResult]
      buys_eq := by rw [List.map_singleton, hbuyer]
      sells_eq := hsells
      buy_mem := by simp [matchResult]
      sell_mem := fun r hr => ⟨c.sellIdx, by rw [List.mem_singleton.mp hr]; rfl⟩
      amount_min := by simpa [matchResult] using hmin
      amount_mem := by simpa [matchResult] using hmem
      onGrid := fun grid hb => hafter _ hb fun o ho _ => ho.fill (hmem grid hb)
      inBounds := fun hb => hafter _ hb fun o ho hle => ho.fill h0 hle }

theorem drainStep_traded (h : Distinct st [buy]) (c : Candidate n)
    (hneed : minTradeAmount ≤ buy.remainingAmount) :
    ∃ rs, Traded st [buy] rs (drainStep buyMetadata topology st buy c).1
      [(drainStep buyMetadata topology st buy c).2] := by
  unfold drainStep
  cases ht : admittedTake topology (st.sellOrders c.sellIdx) buy st.committedFlow
      buy.remainingAmount with
  | none => exact ⟨[], Traded.refl⟩
  | some amount =>
    obtain ⟨hamount, hdust, _⟩ := admittedTake_eq_some topology ht
    exact ⟨_, commitMatch_traded buyMetadata h c (hamount ▸ le_min hneed hdust) hamount⟩

theorem drain_traded (cs : List (Candidate n)) (p : CycleState n × FastOrder)
    (h : Distinct p.1 [p.2]) :
    ∃ rs, Traded p.1 [p.2] rs (drain buyMetadata topology cs p).1
      [(drain buyMetadata topology cs p).2] := by
  induction cs generalizing p with
  | nil => exact ⟨[], Traded.refl⟩
  | cons c cs ih =>
    rw [drain]
    split_ifs with hneed
    · exact ⟨[], Traded.refl⟩
    · obtain ⟨rs, hstep⟩ := drainStep_traded buyMetadata topology h c (not_lt.mp hneed)
      obtain ⟨rs', hrest⟩ := ih _ (hstep.distinct h)
      exact ⟨rs ++ rs', hstep.trans hrest⟩

theorem scanPass_traded (needAtStart : Decimal) (fullScan : Bool) (p : CycleState n × FastOrder)
    (h : Distinct p.1 [p.2]) :
    ∃ rs, Traded p.1 [p.2] rs
      (scanPass buyMetadata topology dynamicMultiplier needAtStart fullScan p).1.1
      [(scanPass buyMetadata topology dynamicMultiplier needAtStart fullScan p).1.2] := by
  simp only [scanPass]
  split_ifs
  · exact ⟨[], Traded.refl⟩
  · exact drain_traded buyMetadata topology _ p h

theorem matchBuy_traded (h : Distinct st [buy]) :
    ∃ rs, Traded st [buy] rs (matchBuy buyMetadata topology dynamicMultiplier nowNs st buy).1
      [(matchBuy buyMetadata topology dynamicMultiplier nowNs st buy).2] := by
  simp only [matchBuy]
  split_ifs
  · exact ⟨[], Traded.refl⟩
  · obtain ⟨rs, hfirst⟩ := scanPass_traded buyMetadata topology dynamicMultiplier buy.remainingAmount
      (buy.timeInForce = .fok) (st, buy) h
    obtain ⟨rs', hsecond⟩ := scanPass_traded buyMetadata topology dynamicMultiplier
      buy.remainingAmount true _ (hfirst.distinct h)
    exact ⟨rs ++ rs', hfirst.trans hsecond⟩
  · exact scanPass_traded buyMetadata topology dynamicMultiplier buy.remainingAmount
      (buy.timeInForce = .fok) (st, buy) h

end Steps

/-- A cycle on given slices credits both sides with its results and reports them
truthfully. -/
structure Conserves (buys sells : List FastOrder) (out : CycleOutcome) : Prop where
  buys_perm : out.buyOrders.Perm (buys.map (·.credit out.results))
  sells_eq : out.sellOrders = sells.map (·.credit out.results)
  buy_mem : ∀ r ∈ out.results, ∃ b ∈ buys, r.buyOrderId = b.id
  sell_mem : ∀ r ∈ out.results, ∃ s ∈ sells, r.sellOrderId = s.id
  amount_min : ∀ r ∈ out.results, minTradeAmount ≤ r.matchAmount
  amount_mem : ∀ grid, (∀ o ∈ buys ++ sells, OnGrid grid o) → ∀ r ∈ out.results, r.matchAmount ∈ grid
  inBounds : (∀ o ∈ buys ++ sells, InBounds o) → ∀ o ∈ out.buyOrders ++ out.sellOrders, InBounds o
  created : out.stats.matchesCreated = out.results.length
  volume : out.stats.totalVolume = (out.results.map (·.matchAmount)).sum

theorem Conserves.orders_perm {buys sells : List FastOrder} {out : CycleOutcome}
    (h : Conserves buys sells out) :
    (out.buyOrders ++ out.sellOrders).Perm ((buys ++ sells).map (·.credit out.results)) := by
  rw [List.map_append, h.sells_eq]
  exact h.buys_perm.append_right _

section Cycle

variable {buyOrders sellOrders : List FastOrder} (nowNs : I64)

theorem get_ids_injective (hids : (sellOrders.map (·.id)).Nodup) :
    Function.Injective fun i => (sellOrders.get i).id := by
  intro i j hij
  have hget := List.inj_on_of_nodup_map hids (List.get_mem sellOrders i) (List.get_mem sellOrders j) hij
  exact List.nodup_iff_injective_get.mp (List.Nodup.of_map _ hids) hget

theorem distinct_initialState (hids : ((buyOrders ++ sellOrders).map (·.id)).Nodup) :
    Distinct (initialState nowNs sellOrders.get) (sortBuys buyOrders) := by
  have hperm : (sortBuys buyOrders).Perm buyOrders := List.perm_insertionSort _ _
  simp only [List.map_append, List.nodup_append] at hids
  obtain ⟨hbuys, hsells, hdis⟩ := hids
  exact
    { buy_ids := ((hperm.map _).nodup_iff).mpr hbuys
      sell_ids := get_ids_injective hsells
      disjoint := fun b hb i => (hdis _ (List.mem_map.mpr ⟨b, hperm.subset hb, rfl⟩) _
        (List.mem_map.mpr ⟨_, List.get_mem sellOrders i, rfl⟩)).symm }

theorem conserves_finishCycle {st : CycleState sellOrders.length} {buys' : List FastOrder}
    {rs : List MatchResult} (h : Traded (initialState nowNs sellOrders.get)
      (sortBuys buyOrders) rs st buys') :
    Conserves buyOrders sellOrders (finishCycle nowNs (st, buys')) := by
  have hperm : (sortBuys buyOrders).Perm buyOrders := List.perm_insertionSort _ _
  have hrs : st.results = rs := h.results
  have hentry : ∀ P : FastOrder → Prop, (∀ o ∈ buyOrders ++ sellOrders, P o) →
      AllOrders P (initialState nowNs sellOrders.get) (sortBuys buyOrders) := fun P hP =>
    { buys := fun b hb => hP b (List.mem_append_left _ (hperm.subset hb))
      sells := fun i => hP _ (List.mem_append_right _ (List.get_mem sellOrders i)) }
  exact
    { buys_perm := by
        simp only [finishCycle, hrs, h.buys_eq]
        exact hperm.map _
      sells_eq := by
        simp only [finishCycle, hrs, h.sells_eq, initialState]
        rw [← Function.comp_def (FastOrder.credit rs), ← List.map_ofFn, List.ofFn_get]
      buy_mem := fun r hr => by
        obtain ⟨b, hb, hid⟩ := h.buy_mem r (hrs ▸ hr)
        exact ⟨b, hperm.subset hb, hid⟩
      sell_mem := fun r hr => by
        obtain ⟨i, hid⟩ := h.sell_mem r (hrs ▸ hr)
        exact ⟨_, List.get_mem sellOrders i, hid⟩
      amount_min := fun r hr => h.amount_min r (hrs ▸ hr)
      amount_mem := fun grid hg r hr => h.amount_mem grid (hentry _ hg) r (hrs ▸ hr)
      inBounds := fun hb o ho => by
        have hexit := h.inBounds (hentry _ hb)
        rcases List.mem_append.mp ho with ho | ho
        · exact hexit.buys o ho
        · obtain ⟨i, rfl⟩ := List.mem_ofFn.mp ho
          exact hexit.sells i
      created := by simpa [finishCycle, hrs, initialState] using h.created
      volume := by simpa [finishCycle, hrs, initialState] using h.volume }

variable (buyMetadata : List OrderMetadata) (topology : TopologySnapshot)
  (dynamicMultiplier : FastPrice)

theorem conserves_matchCycle (hids : ((buyOrders ++ sellOrders).map (·.id)).Nodup) :
    Conserves buyOrders sellOrders
      (matchCycle buyOrders sellOrders buyMetadata topology dynamicMultiplier nowNs) := by
  obtain ⟨rs, h⟩ := overBuys_traded
    (fun _ _ => matchBuy_traded buyMetadata topology (guardMultiplier dynamicMultiplier) nowNs) _ _
    (distinct_initialState nowNs hids)
  exact conserves_finishCycle nowNs h

end Cycle

/-- Conservation of energy: after a cycle each order carries the fill it had plus
the amounts of the results that name it, and is otherwise as it was; fills stay
in bounds, no result is below the minimum, and the statistics count the results. -/
theorem matchCycle_conservation (buyOrders sellOrders : List FastOrder)
    (buyMetadata : List OrderMetadata) (topology : TopologySnapshot)
    (dynamicMultiplier : FastPrice) (nowNs : I64)
    (hids : ((buyOrders ++ sellOrders).map (·.id)).Nodup)
    (hfill : ∀ o ∈ buyOrders ++ sellOrders,
      0 ≤ o.filledAmount ∧ o.filledAmount ≤ o.energyAmount) :
    let out := matchCycle buyOrders sellOrders buyMetadata topology dynamicMultiplier nowNs
    out.buyOrders.Perm (buyOrders.map fun o =>
        { o with filledAmount := o.filledAmount + tradedAmount out.results o.id }) ∧
      (out.sellOrders = sellOrders.map fun o =>
        { o with filledAmount := o.filledAmount + tradedAmount out.results o.id }) ∧
      (∀ o ∈ out.buyOrders ++ out.sellOrders,
        0 ≤ o.filledAmount ∧ o.filledAmount ≤ o.energyAmount) ∧
      (∀ r ∈ out.results, minTradeAmount ≤ r.matchAmount) ∧
      out.stats.matchesCreated = out.results.length ∧
      out.stats.totalVolume = (out.results.map (·.matchAmount)).sum := by
  have h := conserves_matchCycle nowNs buyMetadata topology dynamicMultiplier hids
  have hbounds := h.inBounds fun o ho => ⟨(hfill o ho).1, (hfill o ho).2⟩
  exact ⟨h.buys_perm, h.sells_eq, fun o ho => ⟨(hbounds o ho).filled_nonneg,
    (hbounds o ho).filled_le⟩, h.amount_min, h.created, h.volume⟩

theorem matchCycle_conservation_three_orders :
    let buyOrders := [FastOrder.placed 1 10 5 none]
    let sellOrders := [FastOrder.placed 2 4 3 none, FastOrder.placed 3 6 4 none]
    let out := matchCycle buyOrders sellOrders [] (.freeGrid fun _ _ => 100) FastPrice.one
      (BoundedInt.saturate 0)
    (out.results.map (·.matchAmount) = [3, 2]) ∧
      out.sellOrders = sellOrders.map fun o =>
        { o with filledAmount := o.filledAmount + tradedAmount out.results o.id } :=
  ⟨by decide +kernel, (matchCycle_conservation [FastOrder.placed 1 10 5 none]
    [FastOrder.placed 2 4 3 none, FastOrder.placed 3 6 4 none] [] (.freeGrid fun _ _ => 100)
    FastPrice.one (BoundedInt.saturate 0) (by decide) (by decide +kernel)).2.1⟩

end TradingService.MatchingEngine
