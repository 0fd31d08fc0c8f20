import TradingService.Engine.Reaping

/-!
# Islands of the grid

Where no link leads from one part of the grid to another, a cycle over all orders is a cycle
over the orders of each part: a buy finds the sells of its own island only, takes from no
other, and leaves the links of the others as they were.
-/

namespace KWayMerge

theorem takeCovering_map {α β Q : Type*} [Add Q] [LE Q] [DecidableLE Q] (g : α → β) {size : α → Q}
    {size' : β → Q} (hsize : ∀ a, size' (g a) = size a) (need : Q) (stop : Bool) (gathered : Q) (l : List α) :
    takeCovering size' need stop gathered (l.map g) =
      ((takeCovering size need stop gathered l).1.map g, (takeCovering size need stop gathered l).2) := by
  induction l generalizing gathered with
  | nil => rfl
  | cons a l ih =>
    rw [List.map_cons, takeCovering, takeCovering, hsize, ih]
    split_ifs <;> rfl

end KWayMerge

namespace TradingService.MatchingEngine

variable {n n' : ℕ}

/-- No link leads from one island to another. -/
def Severs {ι : Type*} (topology : TopologySnapshot) (island : ZoneId → ι) : Prop :=
  ∀ fromZone toZone, island fromZone ≠ island toZone →
    topology.canAccommodateFlow fromZone toZone minTradeAmount = false

structure Shares (own : ZoneId → Bool) (f : Fin n → Fin n') (st : CycleState n) (st' : CycleState n') :
    Prop where
  sells : ∀ i, st'.sellOrders (f i) = st.sellOrders i
  owned : ∀ i, own (st.sellOrders i).zoneId
  places : ∀ j, own (st'.sellOrders j).zoneId → ∃ i, f i = j
  flow : ∀ link : ZoneId × ZoneId, own link.2 → st'.committedFlow link = st.committedFlow link
  results : st'.results.filter (fun r => own r.buyerZoneId) = st.results

structure SharesPass (own : ZoneId → Bool) (f : Fin n → Fin n') (p : CycleState n × FastOrder)
    (p' : CycleState n' × FastOrder) : Prop where
  state : Shares own f p.1 p'.1
  buy : p'.2 = p.2
  buy_owned : own p.2.zoneId

section Invariant

variable {buyMetadata : List OrderMetadata} {topology : TopologySnapshot} {dynamicMultiplier : FastPrice}
  {nowNs : I64}

theorem CycleInv.scanPass {needAtStart : Decimal} {fullScan : Bool} {p : CycleState n × FastOrder}
    (h : CycleInv nowNs p.1) :
    CycleInv nowNs (scanPass buyMetadata topology dynamicMultiplier needAtStart fullScan p).1.1 := by
  simp only [MatchingEngine.scanPass]
  split_ifs
  · exact h
  · exact h.drain _

theorem CycleInv.matchBuy {st : CycleState n} {buy : FastOrder} (h : CycleInv nowNs st) :
    CycleInv nowNs (matchBuy buyMetadata topology dynamicMultiplier nowNs st buy).1 := by
  simp only [MatchingEngine.matchBuy]
  split_ifs
  · exact h
  · exact h.scanPass.scanPass
  · exact h.scanPass

end Invariant

variable {own : ZoneId → Bool} {f : Fin n → Fin n'} {st : CycleState n} {st' : CycleState n'}
  {buy : FastOrder} {nowNs : I64} {topology : TopologySnapshot}

section OwnTurn

variable (hf : Function.Injective f) (hcut : Severs topology own) (dynamicMultiplier : FastPrice)
  (buyMetadata : List OrderMetadata)

include hf hcut in
/-- A buy of the island finds the sells of the island. -/
theorem Shares.viableSells_eq (h : Shares own f st st')
    (hids : Function.Injective fun j => (st'.sellOrders j).id) (hbuy : own buy.zoneId)
    (needAtStart : Decimal) :
    viableSells nowNs st'.sellOrders buy needAtStart topology dynamicMultiplier =
      (viableSells nowNs st.sellOrders buy needAtStart topology dynamicMultiplier).map
        (Candidate.rename f) := by
  have hviable : ∀ i, viableSell nowNs st'.sellOrders buy needAtStart topology dynamicMultiplier (f i) =
      (viableSell nowNs st.sellOrders buy needAtStart topology dynamicMultiplier i).map
        (Candidate.rename f) := by
    intro i
    unfold viableSell
    rw [h.sells, priceSell_rename h.sells]
    split_ifs <;> rfl
  have hinj : Function.Injective (Candidate.rename f) := by
    rintro ⟨⟩ ⟨⟩ heq
    simp only [Candidate.rename, Candidate.mk.injEq] at heq ⊢
    exact ⟨hf heq.1, heq.2⟩
  symm
  apply eq_viableSells hids
  · exact List.pairwise_map.mpr (viableSells_sorted.imp id)
  · apply (List.perm_ext_iff_of_nodup (viableSells_nodup.map hinj) viableSells_nodup).mpr
    intro d
    rw [List.mem_map, mem_viableSells]
    constructor
    · rintro ⟨c, hc, rfl⟩
      exact (hviable c.sellIdx).trans (congrArg _ (mem_viableSells.mp hc))
    · intro hd
      have hlink := (viableSell_eq_some.mp hd).1.2
      have hown : own (st'.sellOrders d.sellIdx).zoneId := by
        by_contra hother
        rw [hcut _ _ (by rw [hbuy]; exact hother)] at hlink
        cases hlink
      obtain ⟨i, hi⟩ := h.places _ hown
      rw [← hi, hviable] at hd
      obtain ⟨c, hc, rfl⟩ := Option.map_eq_some_iff.mp hd
      have hidx : c.sellIdx = i := hf hi.symm
      exact ⟨c, mem_viableSells.mpr (hidx ▸ hc), rfl⟩

include hf hcut in
theorem Shares.gatherCandidates_eq (h : Shares own f st st') (hinv : CycleInv nowNs st)
    (hinv' : CycleInv nowNs st') (hmul : (0 : ℤ) < dynamicMultiplier.raw) (hbuy : own buy.zoneId)
    (needAtStart : Decimal) (earlyStop : Bool) :
    gatherCandidates st'.zoneBooks st'.sellOrders buy needAtStart topology dynamicMultiplier earlyStop =
      renameGathered f (gatherCandidates st.zoneBooks st.sellOrders buy needAtStart topology
        dynamicMultiplier earlyStop) := by
  have hsize : ∀ c, restingEnergy st'.sellOrders (Candidate.rename f c) = restingEnergy st.sellOrders c :=
    fun c => congrArg FastOrder.remainingAmount (h.sells c.sellIdx)
  rw [hinv.gatherCandidates_eq hmul, hinv'.gatherCandidates_eq hmul,
    h.viableSells_eq hf hcut dynamicMultiplier hinv'.sell_ids hbuy]
  exact KWayMerge.takeCovering_map (Candidate.rename f) hsize needAtStart earlyStop 0 _

/-- The simulation reads the links into the island only. -/
theorem simulateFok_shares {sellOrders : Fin n → FastOrder} {sellOrders' : Fin n' → FastOrder}
    (hsells : ∀ i, sellOrders' (f i) = sellOrders i) (hbuy : own buy.zoneId) (cs : List (Candidate n))
    {flow flow' : ZoneId × ZoneId → Decimal} (hflow : ∀ link, own link.2 → flow' link = flow link)
    (need : Decimal) :
    simulateFok topology sellOrders' buy (cs.map (Candidate.rename f)) flow' need =
      simulateFok topology sellOrders buy cs flow need := by
  induction cs generalizing flow flow' need with
  | nil => rfl
  | cons c cs ih =>
    have hsell : sellOrders' (c.rename f).sellIdx = sellOrders c.sellIdx := hsells c.sellIdx
    have hlink := hflow ((sellOrders c.sellIdx).zoneId, buy.zoneId) hbuy
    rw [List.map_cons, simulateFok, simulateFok]
    simp only [hsell, admittedTake, hlink]
    split
    · exact ih hflow need
    · split_ifs
      · rfl
      · apply ih
        intro link hown
        by_cases hl : link = ((sellOrders c.sellIdx).zoneId, buy.zoneId)
        · rw [hl, Function.update_self, Function.update_self]
        · rw [Function.update_of_ne hl, Function.update_of_ne hl, hflow link hown]

include hf in
theorem SharesPass.commitMatch {p : CycleState n × FastOrder} {p' : CycleState n' × FastOrder}
    (h : SharesPass own f p p') (c : Candidate n) (amount : Decimal) :
    SharesPass own f (commitMatch p.1 p.2 c buyMetadata amount, p.2.fill amount)
      (commitMatch p'.1 p'.2 (c.rename f) buyMetadata amount, p'.2.fill amount) := by
  have hsell : p'.1.sellOrders (c.rename f).sellIdx = p.1.sellOrders c.sellIdx := h.state.sells c.sellIdx
  have hlater : ∀ j, ((MatchingEngine.commitMatch p'.1 p'.2 (c.rename f) buyMetadata amount).sellOrders
      j).zoneId = (p'.1.sellOrders j).zoneId := by
    intro j
    by_cases hj : j = (c.rename f).sellIdx
    · rw [hj, commitMatch_sellOrders_self, FastOrder.fill_zoneId]
    · rw [commitMatch_sellOrders_of_ne _ _ _ _ _ hj]
  refine ⟨⟨fun i => ?_, fun i => ?_, fun j hj => ?_, fun link hown => ?_, ?_⟩, ?_, h.buy_owned⟩
  · by_cases hi : i = c.sellIdx
    · rw [hi]
      exact (commitMatch_sellOrders_self p'.1 p'.2 (c.rename f) buyMetadata amount).trans
        ((congrArg (FastOrder.fill · amount) hsell).trans
          (commitMatch_sellOrders_self p.1 p.2 c buyMetadata amount).symm)
    · rw [commitMatch_sellOrders_of_ne p.1 p.2 c buyMetadata amount hi,
        commitMatch_sellOrders_of_ne p'.1 p'.2 (c.rename f) buyMetadata amount fun he => hi (hf he)]
      exact h.state.sells i
  · by_cases hi : i = c.sellIdx
    · rw [hi, commitMatch_sellOrders_self, FastOrder.fill_zoneId]
      exact h.state.owned c.sellIdx
    · rw [commitMatch_sellOrders_of_ne _ _ _ _ _ hi]
      exact h.state.owned i
  · rw [hlater] at hj
    exact h.state.places j hj
  · have hlink := h.state.flow link hown
    simp only [MatchingEngine.commitMatch, hsell, h.buy]
    by_cases hl : link = ((p.1.sellOrders c.sellIdx).zoneId, p.2.zoneId)
    · rw [hl] at hlink ⊢
      rw [Function.update_self, Function.update_self, hlink]
    · rw [Function.update_of_ne hl, Function.update_of_ne hl, hlink]
  · have hresult : matchResult p'.2 (p'.1.sellOrders (c.rename f).sellIdx) (c.rename f) buyMetadata amount =
        matchResult p.2 (p.1.sellOrders c.sellIdx) c buyMetadata amount := by
      rw [hsell, h.buy]
      rfl
    simp only [MatchingEngine.commitMatch, hresult, List.filter_append, h.state.results]
    exact congrArg (p.1.results ++ ·) (List.filter_cons_of_pos h.buy_owned)
  · rw [h.buy]

include hf in
theorem SharesPass.drain (cs : List (Candidate n)) {p : CycleState n × FastOrder}
    {p' : CycleState n' × FastOrder} (h : SharesPass own f p p') :
    SharesPass own f (drain buyMetadata topology cs p)
      (drain buyMetadata topology (cs.map (Candidate.rename f)) p') := by
  induction cs generalizing p p' with
  | nil => exact h
  | cons c cs ih =>
    have hsell : p'.1.sellOrders (c.rename f).sellIdx = p.1.sellOrders c.sellIdx := h.state.sells c.sellIdx
    have hlink := h.state.flow ((p.1.sellOrders c.sellIdx).zoneId, p.2.zoneId) h.buy_owned
    have hadmitted : admittedTake topology (p'.1.sellOrders (c.rename f).sellIdx) p'.2 p'.1.committedFlow
        p'.2.remainingAmount =
        admittedTake topology (p.1.sellOrders c.sellIdx) p.2 p.1.committedFlow p.2.remainingAmount := by
      simp only [admittedTake, hsell, h.buy, hlink]
    rw [List.map_cons, MatchingEngine.drain, MatchingEngine.drain, h.buy]
    split_ifs
    · exact h
    · apply ih
      rw [h.buy] at hadmitted
      unfold drainStep
      rw [hadmitted]
      cases admittedTake topology (p.1.sellOrders c.sellIdx) p.2 p.1.committedFlow p.2.remainingAmount with
      | none => exact ⟨h.state, rfl, h.buy_owned⟩
      | some amount =>
        have hcommit := h.commitMatch hf buyMetadata c amount
        rwa [h.buy] at hcommit

include hf hcut in
theorem SharesPass.scanPass {p : CycleState n × FastOrder} {p' : CycleState n' × FastOrder}
    (h : SharesPass own f p p') (hinv : CycleInv nowNs p.1) (hinv' : CycleInv nowNs p'.1)
    (hmul : (0 : ℤ) < dynamicMultiplier.raw) (needAtStart : Decimal) (fullScan : Bool) :
    SharesPass own f (scanPass buyMetadata topology dynamicMultiplier needAtStart fullScan p).1
        (scanPass buyMetadata topology dynamicMultiplier needAtStart fullScan p').1 ∧
      (scanPass buyMetadata topology dynamicMultiplier needAtStart fullScan p').2 =
        (scanPass buyMetadata topology dynamicMultiplier needAtStart fullScan p).2 := by
  have hgather := h.state.gatherCandidates_eq hf hcut dynamicMultiplier hinv hinv' hmul h.buy_owned
    needAtStart (!fullScan)
  have hdrain : ∀ cs : List (Candidate n), SharesPass own f (MatchingEngine.drain buyMetadata topology cs p)
      (MatchingEngine.drain buyMetadata topology (cs.map (Candidate.rename f)) p') :=
    fun cs => h.drain hf buyMetadata cs
  unfold MatchingEngine.scanPass
  simp only [h.buy, hgather, renameGathered,
    simulateFok_shares h.state.sells h.buy_owned _ h.state.flow]
  split_ifs
  · exact ⟨⟨h.state, h.buy, h.buy_owned⟩, rfl⟩
  · exact ⟨hdrain _, by rw [(hdrain _).buy]⟩

include hf hcut in
theorem Shares.matchBuy_own (h : Shares own f st st') (hinv : CycleInv nowNs st)
    (hinv' : CycleInv nowNs st') (hmul : (0 : ℤ) < dynamicMultiplier.raw) (hbuy : own buy.zoneId) :
    SharesPass own f (matchBuy buyMetadata topology dynamicMultiplier nowNs st buy)
      (matchBuy buyMetadata topology dynamicMultiplier nowNs st' buy) := by
  have hstart : SharesPass own f (st, buy) (st', buy) := ⟨h, rfl, hbuy⟩
  obtain ⟨hfirst, hflag⟩ := hstart.scanPass hf hcut dynamicMultiplier buyMetadata hinv hinv' hmul
    buy.remainingAmount (buy.timeInForce = .fok)
  have hagain := hfirst.scanPass hf hcut dynamicMultiplier buyMetadata (CycleInv.scanPass hinv)
    (CycleInv.scanPass hinv') hmul buy.remainingAmount true
  unfold MatchingEngine.matchBuy
  simp only [hflag]
  split_ifs
  · exact hstart
  · exact hagain.1
  · exact hfirst

end OwnTurn

section Run

variable (hf : Function.Injective f) (hcut : Severs topology own) (dynamicMultiplier : FastPrice)
  (buyMetadata : List OrderMetadata)

include hcut in
theorem Shares.matchBuy_other (h : Shares own f st st') (hfiled : Filed nowNs st')
    (hbuy : own buy.zoneId = false) :
    Shares own f st (matchBuy buyMetadata topology dynamicMultiplier nowNs st' buy).1 := by
  have hturn : Shares own f st (matchBuy buyMetadata topology dynamicMultiplier nowNs st' buy).1 ∧
      Filed nowNs (matchBuy buyMetadata topology dynamicMultiplier nowNs st' buy).1 ∧
      (matchBuy buyMetadata topology dynamicMultiplier nowNs st' buy).2.zoneId = buy.zoneId := by
    apply matchBuy_induction (motive := fun q : CycleState n' × FastOrder =>
      Shares own f st q.1 ∧ Filed nowNs q.1 ∧ q.2.zoneId = buy.zoneId) _ st' ⟨h, hfiled, rfl⟩
    rintro start p c amount hcommit ⟨_, hstart, _⟩ ⟨hshares, hbooks, hzone⟩
    have hother : own (p.1.sellOrders c.sellIdx).zoneId = false := by
      have hlink := (hcommit.viable hstart).2
      by_contra hown
      rw [hcut _ _ (by rw [hbuy]; exact hown)] at hlink
      cases hlink
    have hzones : ∀ j, ((commitMatch p.1 p.2 c buyMetadata amount).sellOrders j).zoneId =
        (p.1.sellOrders j).zoneId := by
      intro j
      by_cases hj : j = c.sellIdx
      · rw [hj, commitMatch_sellOrders_self, FastOrder.fill_zoneId]
      · rw [commitMatch_sellOrders_of_ne _ _ _ _ _ hj]
    refine ⟨⟨fun i => ?_, hshares.owned, fun j hj => ?_, fun link hown => ?_, ?_⟩,
      hbooks.commitMatch hcommit.amount_pos.le, hzone⟩
    · have hne : f i ≠ c.sellIdx := by
        intro he
        have hown := hshares.owned i
        rw [← hshares.sells, he, hother] at hown
        cases hown
      rw [commitMatch_sellOrders_of_ne _ _ _ _ _ hne]
      exact hshares.sells i
    · rw [hzones] at hj
      exact hshares.places j hj
    · have hne : link ≠ ((p.1.sellOrders c.sellIdx).zoneId, p.2.zoneId) := by
        rintro rfl
        rw [hzone, hbuy] at hown
        cases hown
      exact (Function.update_of_ne hne _ _).trans (hshares.flow link hown)
    · have hdropped : [matchResult p.2 (p.1.sellOrders c.sellIdx) c buyMetadata amount].filter
          (fun r => own r.buyerZoneId) = [] :=
        List.filter_cons_of_neg (by
          change ¬own p.2.zoneId = true
          rw [hzone, hbuy]
          exact Bool.false_ne_true)
      simp only [commitMatch, List.filter_append, hdropped, List.append_nil]
      exact hshares.results
  exact hturn.1

include hf hcut in
/-- The loop over the buys of the island, and the loop over all. -/
theorem Shares.matchBuys (hmul : (0 : ℤ) < dynamicMultiplier.raw) (buys : List FastOrder)
    (h : Shares own f st st') (hinv : CycleInv nowNs st) (hinv' : CycleInv nowNs st') :
    let part := matchBuys buyMetadata topology dynamicMultiplier nowNs
      (buys.filter fun b => own b.zoneId) st
    let all := matchBuys buyMetadata topology dynamicMultiplier nowNs buys st'
    Shares own f part.1 all.1 ∧ part.2 = all.2.filter fun b => own b.zoneId := by
  simp only [MatchingEngine.matchBuys]
  induction buys generalizing st st' with
  | nil => exact ⟨h, rfl⟩
  | cons buy buys ih =>
    have hzone : (matchBuy buyMetadata topology dynamicMultiplier nowNs st' buy).2.zoneId = buy.zoneId := by
      obtain ⟨amount, hfill⟩ := matchBuy_buy buyMetadata topology dynamicMultiplier nowNs st' buy
      rw [hfill, FastOrder.fill_zoneId]
    cases hbuy : own buy.zoneId with
    | true =>
      have hturn := h.matchBuy_own hf hcut dynamicMultiplier buyMetadata hinv hinv' hmul hbuy
      obtain ⟨hrest, hbuys⟩ := ih hturn.state hinv.matchBuy hinv'.matchBuy
      have hhead : (buy :: buys).filter (fun b => own b.zoneId) = buy :: buys.filter fun b => own b.zoneId :=
        List.filter_cons_of_pos hbuy
      have hfilled : own (MatchingEngine.matchBuy buyMetadata topology dynamicMultiplier nowNs st'
          buy).2.zoneId = true := by rw [hzone, hbuy]
      rw [hhead, overBuys, overBuys]
      exact ⟨hrest, (congrArg₂ List.cons hturn.buy.symm hbuys).trans
        (List.filter_cons_of_pos (p := fun b : FastOrder => own b.zoneId) hfilled).symm⟩
    | false =>
      have hturn := h.matchBuy_other hcut dynamicMultiplier buyMetadata hinv'.filed hbuy
      obtain ⟨hrest, hbuys⟩ := ih hturn hinv hinv'.matchBuy
      have hhead : (buy :: buys).filter (fun b => own b.zoneId) = buys.filter fun b => own b.zoneId :=
        List.filter_cons_of_neg (by simp [hbuy])
      have hfilled : ¬own (MatchingEngine.matchBuy buyMetadata topology dynamicMultiplier nowNs st'
          buy).2.zoneId = true := by
        rw [hzone, hbuy]
        exact Bool.false_ne_true
      rw [hhead, overBuys]
      exact ⟨hrest, hbuys.trans (List.filter_cons_of_neg (p := fun b : FastOrder => own b.zoneId) hfilled).symm⟩

end Run

/-- A cycle over all orders is, on each island, the cycle over the orders of the island alone,
and no match leads from one island to another. -/
theorem matchCycle_islands {ι : Type*} [DecidableEq ι] (buyOrders sellOrders : List FastOrder)
    (buyMetadata : List OrderMetadata) (topology : TopologySnapshot) (dynamicMultiplier : FastPrice)
    (nowNs : I64) (island : ZoneId → ι) (hbuyIds : (buyOrders.map (·.id)).Nodup)
    (hsellIds : (sellOrders.map (·.id)).Nodup) (hasks : ∀ s ∈ sellOrders, (0 : ℤ) ≤ s.price.raw)
    (hcut : Severs topology island) :
    let out := matchCycle buyOrders sellOrders buyMetadata topology dynamicMultiplier nowNs
    (∀ r ∈ out.results, island r.sellerZoneId = island r.buyerZoneId) ∧
      ∀ k,
        let part := matchCycle (buyOrders.filter (island ·.zoneId = k))
          (sellOrders.filter (island ·.zoneId = k)) buyMetadata topology dynamicMultiplier nowNs
        part.results = out.results.filter (island ·.buyerZoneId = k) ∧
          part.buyOrders = out.buyOrders.filter (island ·.zoneId = k) ∧
          part.sellOrders = out.sellOrders.filter (island ·.zoneId = k) := by
  intro out
  constructor
  · intro r hr
    have hlink := (matchCycle_legitimate hsellIds r hr).link
    by_contra hne
    rw [hcut _ _ hne] at hlink
    cases hlink
  · intro k part
    have hown : Severs topology fun zoneId => decide (island zoneId = k) := by
      intro fromZone toZone hne
      apply hcut
      exact fun heq => hne (congrArg (fun x => decide (x = k)) heq)
    have hmul := guardMultiplier_pos dynamicMultiplier
    obtain ⟨f, hf⟩ := exists_selects (fun o => decide (island o.zoneId = k)) hsellIds
    have hsublist : (sellOrders.filter (island ·.zoneId = k)).Sublist sellOrders := List.filter_sublist
    have hinv : CycleInv nowNs (initialState nowNs (sellOrders.filter (island ·.zoneId = k)).get) :=
      cycleInv_initialState (get_ids_injective (hsellIds.sublist (hsublist.map _)))
        fun i => hasks _ (hsublist.subset (List.get_mem _ i))
    have hinv' : CycleInv nowNs (initialState nowNs sellOrders.get) :=
      cycleInv_initialState (get_ids_injective hsellIds) fun i => hasks _ (List.get_mem _ i)
    have hinitial : Shares (fun zoneId => decide (island zoneId = k)) f
        (initialState nowNs (sellOrders.filter (island ·.zoneId = k)).get)
        (initialState nowNs sellOrders.get) := by
      refine ⟨hf.get, fun i => ?_, fun j hj => ?_, fun _ _ => rfl, rfl⟩
      · exact (List.mem_filter.mp (List.get_mem (sellOrders.filter (island ·.zoneId = k)) i)).2
      · have hplace : j ∈ (List.finRange sellOrders.length).filter
            fun j => decide (island (sellOrders.get j).zoneId = k) := List.mem_filter.mpr ⟨List.mem_finRange j, hj⟩
        rw [hf.places] at hplace
        obtain ⟨i, _, hi⟩ := List.mem_map.mp hplace
        exact ⟨i, hi⟩
    obtain ⟨hshares, hbuys⟩ := hinitial.matchBuys hf.injective hown _ buyMetadata hmul
      (sortBuys buyOrders) hinv hinv'
    have hlater := matchBuys_later nowNs buyMetadata topology (guardMultiplier dynamicMultiplier)
      (sortBuys buyOrders) (initialState nowNs sellOrders.get)
    have hsort : sortBuys (buyOrders.filter (island ·.zoneId = k)) =
        (sortBuys buyOrders).filter (island ·.zoneId = k) := sortBuys_filter _ hbuyIds
    simp only [part, out, matchCycle, finishCycle, hsort]
    refine ⟨hshares.results.symm, hbuys, hf.ofFn (fun j => ?_) hshares.sells⟩
    obtain ⟨amount, _, heq⟩ := hlater j
    rw [heq, FastOrder.fill_zoneId]
    rfl

/-- Two zones without a link. The dear buy of the one does not reach the cheap sell of the other. -/
theorem matchCycle_islands_two_zones :
    let grid := TopologySnapshot.freeGrid fun fromZone toZone => if fromZone = toZone then 100 else 0
    let other : ZoneId := WithBot.some ⟨1, by norm_num, by norm_num⟩
    let buys := [FastOrder.placed 1 20 5 ⊥, .placed 2 10 5 other]
    let sells := [FastOrder.placed 3 15 5 ⊥, .placed 4 5 5 other]
    let out := matchCycle buys sells [] grid FastPrice.one (BoundedInt.saturate 0)
    out.stats.totalVolume = 10 ∧
      (matchCycle [.placed 2 10 5 other] [.placed 4 5 5 other] [] grid FastPrice.one
        (BoundedInt.saturate 0)).results = out.results.filter (·.buyerZoneId = other) := by
  intro grid other buys sells out
  have hcut : Severs grid (fun zoneId : ZoneId => zoneId) := by
    intro fromZone toZone hne
    simp only [grid, TopologySnapshot.freeGrid, if_neg hne]
    exact decide_eq_false (not_le.mpr minTradeAmount_pos)
  have hislands := matchCycle_islands buys sells [] grid FastPrice.one (BoundedInt.saturate 0) _ (by decide)
    (by decide) (by decide) hcut
  exact ⟨by decide +kernel, (hislands.2 other).1⟩

end TradingService.MatchingEngine
