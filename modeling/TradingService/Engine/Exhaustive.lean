import TradingService.Engine.Conservation
import TradingService.Engine.Gather

/-!
# The exhaustive reference engine

The reference takes each buy in the same priority order, collects all its viable
sells, and drains the sorted list once. The cycle differs from it in one place: a
buy that the early stop left short gathers again, and the second gather offers it
once more the sells that a full link made the first drain skip. `Readmits` says
that one of these now fits; the two engines agree exactly on the runs without it.
-/

namespace TradingService.MatchingEngine

variable {n : ℕ} (buyMetadata : List OrderMetadata) (topology : TopologySnapshot)
  (dynamicMultiplier : FastPrice) (nowNs : I64)

def exhaustiveBuy (st : CycleState n) (buy : FastOrder) : CycleState n × FastOrder :=
  if buy.remainingAmount < minTradeAmount ∨ buy.isExpired nowNs then (st, buy)
  else
    let candidates := viableSells nowNs st.sellOrders buy buy.remainingAmount topology dynamicMultiplier
    if buy.timeInForce = .fok ∧
        0 < simulateFok topology st.sellOrders buy candidates st.committedFlow
          buy.remainingAmount then (st, buy)
    else drain buyMetadata topology candidates (st, buy)

/-- The reference shares the state of the cycle but never reads the zone books. -/
def exhaustiveCycle (buyOrders sellOrders : List FastOrder) : CycleOutcome :=
  finishCycle nowNs
    (overBuys (exhaustiveBuy buyMetadata topology (guardMultiplier dynamicMultiplier) nowNs)
      (sortBuys buyOrders) (initialState nowNs sellOrders.get))

/-- The viable sells that the early stop collects for a buy. -/
def coveringSells (st : CycleState n) (buy : FastOrder) : List (Candidate n) × Bool :=
  KWayMerge.takeCovering (restingEnergy st.sellOrders) buy.remainingAmount true 0
    (viableSells nowNs st.sellOrders buy buy.remainingAmount topology dynamicMultiplier)

/-- The early stop leaves the buy short, and a sell it had to skip for want of
capacity fits what the buy still needs. -/
def Readmits (st : CycleState n) (buy : FastOrder) : Prop :=
  let covering := coveringSells topology dynamicMultiplier nowNs st buy
  let drained := drain buyMetadata topology covering.1 (st, buy)
  buy.timeInForce ≠ .fok ∧ minTradeAmount ≤ buy.remainingAmount ∧ !buy.isExpired nowNs ∧
    covering.2 ∧ minTradeAmount ≤ drained.2.remainingAmount ∧
    ∃ c ∈ covering.1, (admittedTake topology (drained.1.sellOrders c.sellIdx) drained.2
      drained.1.committedFlow drained.2.remainingAmount).isSome

instance (st : CycleState n) (buy : FastOrder) :
    Decidable (Readmits buyMetadata topology dynamicMultiplier nowNs st buy) :=
  inferInstanceAs (Decidable (_ ∧ _))

/-- No buy of a run of the reference meets a skipped sell that fits again. -/
def NeverReadmits : List FastOrder → CycleState n → Prop
  | [], _ => True
  | buy :: buys, st =>
    ¬ Readmits buyMetadata topology dynamicMultiplier nowNs st buy ∧
      NeverReadmits buys (exhaustiveBuy buyMetadata topology dynamicMultiplier nowNs st buy).1

section Drain

variable {buyMetadata topology}

theorem drain_of_filled (cs : List (Candidate n)) {p : CycleState n × FastOrder}
    (h : p.2.remainingAmount < minTradeAmount) : drain buyMetadata topology cs p = p := by
  cases cs with
  | nil => rfl
  | cons c cs => rw [drain, if_pos h]

theorem drain_append (cs ds : List (Candidate n)) (p : CycleState n × FastOrder) :
    drain buyMetadata topology (cs ++ ds) p =
      drain buyMetadata topology ds (drain buyMetadata topology cs p) := by
  induction cs generalizing p with
  | nil => rfl
  | cons c cs ih =>
    rw [List.cons_append, drain, drain]
    split_ifs with h
    · exact (drain_of_filled ds h).symm
    · exact ih _

theorem drain_of_refused {cs : List (Candidate n)} {p : CycleState n × FastOrder}
    (h : ∀ c ∈ cs, admittedTake topology (p.1.sellOrders c.sellIdx) p.2 p.1.committedFlow
      p.2.remainingAmount = none) : drain buyMetadata topology cs p = p := by
  induction cs with
  | nil => rfl
  | cons c cs ih =>
    rw [drain]
    split_ifs
    · rfl
    · rw [drainStep, h c List.mem_cons_self]
      exact ih fun d hd => h d (List.mem_cons_of_mem _ hd)

theorem drainStep_eq_self_or_commit (p : CycleState n × FastOrder) (c : Candidate n) :
    drainStep buyMetadata topology p.1 p.2 c = p ∨
      ∃ amount, admittedTake topology (p.1.sellOrders c.sellIdx) p.2 p.1.committedFlow
          p.2.remainingAmount = some amount ∧
        drainStep buyMetadata topology p.1 p.2 c =
          (commitMatch p.1 p.2 c buyMetadata amount, p.2.fill amount) := by
  unfold drainStep
  cases admittedTake topology (p.1.sellOrders c.sellIdx) p.2 p.1.committedFlow
      p.2.remainingAmount with
  | none => exact .inl rfl
  | some amount => exact .inr ⟨amount, rfl, rfl⟩

/-- Induction over a drain: a property of state and buy that every commit keeps. -/
theorem drain_induction {motive : CycleState n × FastOrder → Prop} (cs : List (Candidate n))
    (hstep : ∀ p, ∀ c ∈ cs, ∀ amount, motive p → minTradeAmount ≤ p.2.remainingAmount →
      admittedTake topology (p.1.sellOrders c.sellIdx) p.2 p.1.committedFlow p.2.remainingAmount =
        some amount →
      motive (commitMatch p.1 p.2 c buyMetadata amount, p.2.fill amount))
    (p : CycleState n × FastOrder) (h : motive p) :
    motive (drain buyMetadata topology cs p) := by
  induction cs generalizing p with
  | nil => exact h
  | cons c cs ih =>
    rw [drain]
    split_ifs with hneed
    · exact h
    · refine ih (fun q d hd => hstep q d (List.mem_cons_of_mem _ hd)) _ ?_
      rcases drainStep_eq_self_or_commit p c with he | ⟨amount, ha, he⟩
      · rwa [he]
      · rw [he]
        exact hstep p c List.mem_cons_self amount h (not_lt.mp hneed) ha

variable (buyMetadata topology) in
theorem drain_buy (cs : List (Candidate n)) (p : CycleState n × FastOrder) :
    ∃ amount, (drain buyMetadata topology cs p).2 = p.2.fill amount := by
  refine drain_induction (motive := fun q => ∃ amount, q.2 = p.2.fill amount) cs ?_ p
    ⟨0, p.2.fill_zero.symm⟩
  rintro q c _ amount ⟨before, hq⟩ _ _
  exact ⟨before + amount, by rw [hq, FastOrder.fill_fill]⟩

variable (buyMetadata topology) in
theorem drain_results (cs : List (Candidate n)) (p : CycleState n × FastOrder) :
    ∃ rs, (drain buyMetadata topology cs p).1.results = p.1.results ++ rs ∧
      ∀ r ∈ rs, ∃ c ∈ cs, r.sellOrderId = (p.1.sellOrders c.sellIdx).id := by
  refine (drain_induction
    (motive := fun q => (∀ i, (q.1.sellOrders i).id = (p.1.sellOrders i).id) ∧
      ∃ rs, q.1.results = p.1.results ++ rs ∧
        ∀ r ∈ rs, ∃ c ∈ cs, r.sellOrderId = (p.1.sellOrders c.sellIdx).id) cs ?_ p
    ⟨fun _ => rfl, [], by simp⟩).2
  rintro q c hc amount ⟨hids, rs, hrs, hmem⟩ _ _
  refine ⟨fun i => ?_, rs ++ [matchResult q.2 (q.1.sellOrders c.sellIdx) c buyMetadata amount], ?_, ?_⟩
  · by_cases hi : i = c.sellIdx
    · rw [hi, commitMatch_sellOrders_self, FastOrder.fill_id, hids]
    · rw [commitMatch_sellOrders_of_ne _ _ _ _ _ hi, hids]
  · rw [← List.append_assoc, ← hrs]
    rfl
  · refine List.forall_mem_append.mpr ⟨hmem, fun r hr => ⟨c, hc, ?_⟩⟩
    rw [List.mem_singleton.mp hr]
    exact hids c.sellIdx

variable (buyMetadata) in
/-- The first candidate that fits is the next result. -/
theorem drain_first_fit (cs : List (Candidate n)) (p : CycleState n × FastOrder)
    (hneed : minTradeAmount ≤ p.2.remainingAmount)
    (hfits : ∃ c ∈ cs, (admittedTake topology (p.1.sellOrders c.sellIdx) p.2 p.1.committedFlow
      p.2.remainingAmount).isSome) :
    ∃ c ∈ cs, ∃ amount rs, (drain buyMetadata topology cs p).1.results = p.1.results ++
      matchResult p.2 (p.1.sellOrders c.sellIdx) c buyMetadata amount :: rs := by
  induction cs with
  | nil => simp at hfits
  | cons d cs ih =>
    rw [drain, if_neg (not_lt.mpr hneed), drainStep]
    cases ha : admittedTake topology (p.1.sellOrders d.sellIdx) p.2 p.1.committedFlow
        p.2.remainingAmount with
    | none =>
      have hfits' : ∃ c ∈ cs, (admittedTake topology (p.1.sellOrders c.sellIdx) p.2
          p.1.committedFlow p.2.remainingAmount).isSome := by simpa [ha] using hfits
      obtain ⟨c, hc, hres⟩ := ih hfits'
      exact ⟨c, List.mem_cons_of_mem _ hc, hres⟩
    | some amount =>
      obtain ⟨rs, hrs, _⟩ := drain_results buyMetadata topology cs
        (commitMatch p.1 p.2 d buyMetadata amount, p.2.fill amount)
      exact ⟨d, List.mem_cons_self, amount, rs, hrs.trans (List.append_assoc _ _ _)⟩

theorem drain_sellOrders_of_not_mem {cs : List (Candidate n)} {i : Fin n}
    (hi : ∀ c ∈ cs, c.sellIdx ≠ i) (p : CycleState n × FastOrder) :
    (drain buyMetadata topology cs p).1.sellOrders i = p.1.sellOrders i := by
  refine drain_induction (motive := fun q => q.1.sellOrders i = p.1.sellOrders i) cs ?_ p rfl
  intro q c hc amount hq _ _
  rw [commitMatch_sellOrders_of_ne _ _ _ _ _ (hi c hc).symm, hq]

/-- As long as the buy is short, a drained sell is drained to nothing. -/
theorem drain_untouched_or_empty (cs : List (Candidate n)) (p : CycleState n × FastOrder)
    (h : minTradeAmount ≤ (drain buyMetadata topology cs p).2.remainingAmount) (i : Fin n) :
    (drain buyMetadata topology cs p).1.sellOrders i = p.1.sellOrders i ∨
      ((drain buyMetadata topology cs p).1.sellOrders i).remainingAmount = 0 := by
  refine (drain_induction (motive := fun q => q.2.remainingAmount < minTradeAmount ∨
    (q.1.sellOrders i = p.1.sellOrders i ∨ (q.1.sellOrders i).remainingAmount = 0)) cs ?_ p
      (.inr (.inl rfl))).resolve_left (not_lt.mpr h)
  intro q c _ amount hq hneed ha
  obtain ⟨hamount, _, _⟩ := admittedTake_eq_some topology ha
  rcases le_total q.2.remainingAmount (q.1.sellOrders c.sellIdx).remainingAmount with hle | hle
  · left
    rw [FastOrder.fill_remainingAmount, hamount, min_eq_left hle, sub_self]
    exact minTradeAmount_pos
  · right
    by_cases hi : i = c.sellIdx
    · right
      rw [hi, commitMatch_sellOrders_self, FastOrder.fill_remainingAmount, hamount,
        min_eq_right hle, sub_self]
    · rw [commitMatch_sellOrders_of_ne _ _ _ _ _ hi]
      exact hq.resolve_left (not_lt.mpr hneed)

end Drain

structure Filed (st : CycleState n) : Prop where
  booked : Booked nowNs st.sellOrders st.zoneBooks
  sell_ids : Function.Injective fun i => (st.sellOrders i).id

/-- What the lazy gather relies on: the books file the live sells, whose ids are
distinct and whose asks are not negative. -/
structure CycleInv (st : CycleState n) : Prop where
  booked : Booked nowNs st.sellOrders st.zoneBooks
  sell_ids : Function.Injective fun i => (st.sellOrders i).id
  asks : ∀ i, (0 : ℤ) ≤ (st.sellOrders i).price.raw

section Invariant

variable {buyMetadata topology dynamicMultiplier nowNs} {st : CycleState n} {buy : FastOrder}

theorem CycleInv.filed (h : CycleInv nowNs st) : Filed nowNs st := ⟨h.booked, h.sell_ids⟩

theorem Filed.commitMatch {c : Candidate n} {amount : Decimal} (h : Filed nowNs st)
    (h0 : 0 ≤ amount) : Filed nowNs (commitMatch st buy c buyMetadata amount) where
  booked := booked_commitMatch h.sell_ids h0 h.booked
  sell_ids := by
    have hid : (fun i => ((MatchingEngine.commitMatch st buy c buyMetadata amount).sellOrders i).id) =
        fun i => (st.sellOrders i).id := by
      funext i
      by_cases hi : i = c.sellIdx
      · rw [hi, commitMatch_sellOrders_self, FastOrder.fill_id]
      · rw [commitMatch_sellOrders_of_ne _ _ _ _ _ hi]
    exact hid ▸ h.sell_ids

theorem Filed.drain {p : CycleState n × FastOrder} (cs : List (Candidate n))
    (h : Filed nowNs p.1) : Filed nowNs (drain buyMetadata topology cs p).1 := by
  refine drain_induction (motive := fun q => Filed nowNs q.1) cs ?_ p h
  intro q c _ amount hq hneed ha
  obtain ⟨hamount, hdust, _⟩ := admittedTake_eq_some topology ha
  exact hq.commitMatch (hamount ▸ (minTradeAmount_pos.le.trans (le_min hneed hdust)))

theorem filed_initialState {sellOrders : Fin n → FastOrder}
    (hids : Function.Injective fun i => (sellOrders i).id) : Filed nowNs (initialState nowNs sellOrders) :=
  ⟨booked_buildZoneBooks hids, hids⟩

theorem CycleInv.commitMatch {c : Candidate n} {amount : Decimal} (h : CycleInv nowNs st)
    (h0 : 0 ≤ amount) : CycleInv nowNs (commitMatch st buy c buyMetadata amount) := by
  have hfiled : Filed nowNs (MatchingEngine.commitMatch st buy c buyMetadata amount) :=
    h.filed.commitMatch h0
  refine ⟨hfiled.booked, hfiled.sell_ids, fun i => ?_⟩
  by_cases hi : i = c.sellIdx
  · rw [hi, commitMatch_sellOrders_self]
    exact h.asks c.sellIdx
  · rw [commitMatch_sellOrders_of_ne _ _ _ _ _ hi]
    exact h.asks i

theorem CycleInv.drain {p : CycleState n × FastOrder} (cs : List (Candidate n))
    (h : CycleInv nowNs p.1) : CycleInv nowNs (drain buyMetadata topology cs p).1 := by
  refine drain_induction (motive := fun q => CycleInv nowNs q.1) cs ?_ p h
  intro q c _ amount hq hneed ha
  obtain ⟨hamount, hdust, _⟩ := admittedTake_eq_some topology ha
  exact hq.commitMatch (hamount ▸ (minTradeAmount_pos.le.trans (le_min hneed hdust)))

theorem CycleInv.gatherCandidates_eq (h : CycleInv nowNs st) (hmul : (0 : ℤ) < dynamicMultiplier.raw)
    (needAtStart : Decimal) (earlyStop : Bool) :
    gatherCandidates st.zoneBooks st.sellOrders buy needAtStart topology dynamicMultiplier earlyStop =
      KWayMerge.takeCovering (restingEnergy st.sellOrders) needAtStart earlyStop 0
        (viableSells nowNs st.sellOrders buy needAtStart topology dynamicMultiplier) :=
  MatchingEngine.gatherCandidates_eq nowNs buy needAtStart topology h.booked h.sell_ids h.asks hmul
    earlyStop

theorem CycleInv.exhaustiveBuy (h : CycleInv nowNs st) :
    CycleInv nowNs (exhaustiveBuy buyMetadata topology dynamicMultiplier nowNs st buy).1 := by
  simp only [MatchingEngine.exhaustiveBuy]
  split_ifs
  · exact h
  · exact h
  · exact CycleInv.drain _ h

theorem cycleInv_initialState {sellOrders : Fin n → FastOrder}
    (hids : Function.Injective fun i => (sellOrders i).id)
    (hasks : ∀ i, (0 : ℤ) ≤ (sellOrders i).price.raw) : CycleInv nowNs (initialState nowNs sellOrders) where
  booked := (filed_initialState hids).booked
  sell_ids := hids
  asks := hasks

variable (buyMetadata topology dynamicMultiplier nowNs) in
theorem exhaustiveBuy_traded (h : Distinct st [buy]) :
    ∃ rs, Traded st [buy] rs (exhaustiveBuy buyMetadata topology dynamicMultiplier nowNs st buy).1
      [(exhaustiveBuy buyMetadata topology dynamicMultiplier nowNs st buy).2] := by
  simp only [exhaustiveBuy]
  split_ifs
  · exact ⟨[], Traded.refl⟩
  · exact ⟨[], Traded.refl⟩
  · exact drain_traded buyMetadata topology _ (st, buy) h

theorem viableSell_congr {sellOrders sellOrders' : Fin n → FastOrder} {i : Fin n}
    (h : sellOrders' i = sellOrders i) (needAtStart amount : Decimal) :
    viableSell nowNs sellOrders' (buy.fill amount) needAtStart topology dynamicMultiplier i =
      viableSell nowNs sellOrders buy needAtStart topology dynamicMultiplier i := by
  unfold viableSell priceSell
  rw [h]
  rfl

theorem viableSells_sellIdx_ne {sellOrders : Fin n → FastOrder} {needAtStart : Decimal}
    {shown rest : List (Candidate n)}
    (hsplit : viableSells nowNs sellOrders buy needAtStart topology dynamicMultiplier = shown ++ rest)
    {c d : Candidate n} (hc : c ∈ shown) (hd : d ∈ rest) : c.sellIdx ≠ d.sellIdx := by
  intro hidx
  have hnodup : (shown ++ rest).Nodup := hsplit ▸ viableSells_nodup
  have hc' := mem_viableSells.mp (hsplit ▸ List.mem_append_left rest hc)
  have hd' := mem_viableSells.mp (hsplit ▸ List.mem_append_right shown hd)
  rw [hidx] at hc'
  exact (List.nodup_append.mp hnodup).2.2 c hc d hd (Option.some.inj (hc'.symm.trans hd'))

/-- After a drain that left the buy short, the viable sells are those that the
drain skipped and those it was not shown. -/
theorem viableSells_drain (h : CycleInv nowNs st) {needAtStart : Decimal}
    {shown rest : List (Candidate n)}
    (hsplit : viableSells nowNs st.sellOrders buy needAtStart topology dynamicMultiplier = shown ++ rest)
    (hshort : minTradeAmount ≤ (drain buyMetadata topology shown (st, buy)).2.remainingAmount) :
    let q := drain buyMetadata topology shown (st, buy)
    viableSells nowNs q.1.sellOrders q.2 needAtStart topology dynamicMultiplier =
      shown.filter (fun c => q.1.sellOrders c.sellIdx = st.sellOrders c.sellIdx) ++ rest := by
  intro q
  have hq : CycleInv nowNs q.1 := h.drain shown
  have hrest : ∀ c ∈ rest, q.1.sellOrders c.sellIdx = st.sellOrders c.sellIdx := fun c hc =>
    drain_sellOrders_of_not_mem (fun d hd => viableSells_sellIdx_ne hsplit hd hc) (st, buy)
  have hfilter : shown.filter (fun c => q.1.sellOrders c.sellIdx = st.sellOrders c.sellIdx) ++ rest =
      (viableSells nowNs st.sellOrders buy needAtStart topology dynamicMultiplier).filter
        fun c => q.1.sellOrders c.sellIdx = st.sellOrders c.sellIdx := by
    rw [hsplit, List.filter_append, List.filter_eq_self.mpr fun c hc => decide_eq_true (hrest c hc)]
  rw [hfilter]
  refine (eq_viableSells hq.sell_ids (viableSells_sorted.sublist List.filter_sublist) ?_).symm
  refine (List.perm_ext_iff_of_nodup (viableSells_nodup.sublist List.filter_sublist)
    viableSells_nodup).mpr fun c => ?_
  obtain ⟨amount, hbuy⟩ := drain_buy buyMetadata topology shown (st, buy)
  rw [List.mem_filter, mem_viableSells, mem_viableSells, decide_eq_true_iff, hbuy]
  constructor
  · rintro ⟨hc, huntouched⟩
    rwa [viableSell_congr huntouched]
  · intro hc
    have huntouched : q.1.sellOrders c.sellIdx = st.sellOrders c.sellIdx := by
      refine (drain_untouched_or_empty shown (st, buy) hshort c.sellIdx).resolve_right fun hempty => ?_
      obtain ⟨hlive, _⟩ := viableSell_eq_some.mp hc
      exact not_le.mpr minTradeAmount_pos (hempty ▸ hlive.1.1)
    rw [viableSell_congr huntouched] at hc
    exact ⟨hc, huntouched⟩

end Invariant

section OneBuy

variable {buyMetadata topology dynamicMultiplier nowNs} {st : CycleState n} {buy : FastOrder}
  (h : CycleInv nowNs st) (hmul : (0 : ℤ) < dynamicMultiplier.raw)
include h hmul

theorem scanPass_full (needAtStart : Decimal) (hfok : buy.timeInForce ≠ .fok) :
    (scanPass buyMetadata topology dynamicMultiplier needAtStart true (st, buy)).1 =
      drain buyMetadata topology
        (viableSells nowNs st.sellOrders buy needAtStart topology dynamicMultiplier) (st, buy) := by
  simp only [scanPass, Bool.not_true, h.gatherCandidates_eq hmul, KWayMerge.takeCovering_full]
  rw [if_neg fun hc => hfok hc.1]

/-- The first pass drains the covering sells, and asks for another if that left
the buy short. -/
theorem scanPass_first (hfok : buy.timeInForce ≠ .fok) :
    scanPass buyMetadata topology dynamicMultiplier buy.remainingAmount false (st, buy) =
      (drain buyMetadata topology (coveringSells topology dynamicMultiplier nowNs st buy).1 (st, buy),
        !decide ((drain buyMetadata topology (coveringSells topology dynamicMultiplier nowNs st buy).1
          (st, buy)).2.remainingAmount < minTradeAmount) &&
          (coveringSells topology dynamicMultiplier nowNs st buy).2) := by
  simp only [scanPass, Bool.not_false, h.gatherCandidates_eq hmul]
  rw [if_neg fun hc => hfok hc.1]
  rfl

theorem matchBuy_fok (hfok : buy.timeInForce = .fok) :
    matchBuy buyMetadata topology dynamicMultiplier nowNs st buy =
      exhaustiveBuy buyMetadata topology dynamicMultiplier nowNs st buy := by
  simp only [matchBuy, exhaustiveBuy, hfok, decide_true, scanPass, Bool.not_true, Bool.false_and,
    h.gatherCandidates_eq hmul, KWayMerge.takeCovering_full, true_and]
  split_ifs <;> first | rfl | contradiction

/-- The second gather shows the skipped sells again, then the rest. -/
theorem matchBuy_eq (hactive : ¬ (buy.remainingAmount < minTradeAmount ∨ buy.isExpired nowNs))
    (hfok : buy.timeInForce ≠ .fok) :
    let covering := coveringSells topology dynamicMultiplier nowNs st buy
    let q := drain buyMetadata topology covering.1 (st, buy)
    matchBuy buyMetadata topology dynamicMultiplier nowNs st buy =
      if minTradeAmount ≤ q.2.remainingAmount ∧ covering.2 then
        drain buyMetadata topology
          (viableSells nowNs q.1.sellOrders q.2 buy.remainingAmount topology dynamicMultiplier) q
      else q := by
  intro covering q
  have hq : CycleInv nowNs q.1 := h.drain _
  obtain ⟨amount, hbuy⟩ := drain_buy buyMetadata topology covering.1 (st, buy)
  have hfok' : q.2.timeInForce ≠ .fok := by
    rw [show q.2 = buy.fill amount from hbuy, FastOrder.fill_timeInForce]
    exact hfok
  simp only [matchBuy, if_neg hactive, decide_eq_false hfok]
  rw [scanPass_first h hmul hfok]
  by_cases hagain : minTradeAmount ≤ q.2.remainingAmount ∧ covering.2
  · rw [if_pos hagain, if_pos (by
      rw [Bool.and_eq_true, Bool.not_eq_true', decide_eq_false_iff_not, not_lt]
      exact hagain)]
    exact scanPass_full hq hmul _ hfok'
  · rw [if_neg hagain, if_neg (by
      rw [Bool.and_eq_true, Bool.not_eq_true', decide_eq_false_iff_not, not_lt]
      exact hagain)]

theorem matchBuy_agrees
    (hnot : ¬ Readmits buyMetadata topology dynamicMultiplier nowNs st buy) :
    matchBuy buyMetadata topology dynamicMultiplier nowNs st buy =
      exhaustiveBuy buyMetadata topology dynamicMultiplier nowNs st buy := by
  by_cases hactive : buy.remainingAmount < minTradeAmount ∨ buy.isExpired nowNs
  · simp only [matchBuy, exhaustiveBuy, if_pos hactive]
  by_cases hfok : buy.timeInForce = .fok
  · exact matchBuy_fok h hmul hfok
  rw [matchBuy_eq h hmul hactive hfok]
  simp only [exhaustiveBuy, if_neg hactive, if_neg fun hc : _ ∧ _ => hfok hc.1]
  obtain ⟨rest, hsplit⟩ : (coveringSells topology dynamicMultiplier nowNs st buy).1 <+: _ :=
    KWayMerge.takeCovering_prefix _ _ _ _ _
  rw [← hsplit, drain_append]
  split_ifs with hagain
  · have hq := viableSells_drain h hsplit.symm hagain.1
    dsimp only at hq
    rw [hq, drain_append]
    refine congrArg (drain buyMetadata topology rest) (drain_of_refused fun c hc => ?_)
    by_contra hsome
    obtain ⟨hneed, hunexpired⟩ := not_or.mp hactive
    exact hnot ⟨hfok, not_lt.mp hneed, by simpa using hunexpired, hagain.2, hagain.1, c,
      List.mem_of_mem_filter hc, Option.isSome_iff_ne_none.mpr hsome⟩
  · by_cases hshort : minTradeAmount ≤ (drain buyMetadata topology
        (coveringSells topology dynamicMultiplier nowNs st buy).1 (st, buy)).2.remainingAmount
    · have hcov : (coveringSells topology dynamicMultiplier nowNs st buy).2 = false :=
        Bool.eq_false_iff.mpr fun hcov => hagain ⟨hshort, hcov⟩
      have hrest : rest = [] := by
        rw [coveringSells, KWayMerge.takeCovering_exhausted hcov] at hsplit
        exact List.append_right_eq_self.mp hsplit
      rw [hrest]
      rfl
    · rw [drain_of_filled rest (not_le.mp hshort)]

/-- The engine hands a readmitted sell to the buy where the reference has moved on
to sells not shown yet. -/
theorem matchBuy_diverges (hre : Readmits buyMetadata topology dynamicMultiplier nowNs st buy) :
    ∃ base r rs ys,
      (matchBuy buyMetadata topology dynamicMultiplier nowNs st buy).1.results = base ++ r :: rs ∧
      (exhaustiveBuy buyMetadata topology dynamicMultiplier nowNs st buy).1.results = base ++ ys ∧
      r.buyOrderId = buy.id ∧ r ∉ ys := by
  obtain ⟨hfok, hneed, hunexpired, hcov, hshort, c, hc, hfits⟩ := hre
  have hactive : ¬ (buy.remainingAmount < minTradeAmount ∨ buy.isExpired nowNs) :=
    not_or.mpr ⟨not_lt.mpr hneed, by simpa using hunexpired⟩
  obtain ⟨rest, hsplit⟩ : (coveringSells topology dynamicMultiplier nowNs st buy).1 <+: _ :=
    KWayMerge.takeCovering_prefix _ _ _ _ _
  obtain ⟨shown, hshown⟩ : ∃ l, l = (coveringSells topology dynamicMultiplier nowNs st buy).1 :=
    ⟨_, rfl⟩
  obtain ⟨q, hq⟩ : ∃ q, q = drain buyMetadata topology shown (st, buy) := ⟨_, rfl⟩
  have hagain := viableSells_drain h hsplit.symm hshort
  simp only [← hshown, ← hq] at hc hfits hshort hsplit hagain
  have huntouched : q.1.sellOrders c.sellIdx = st.sellOrders c.sellIdx := by
    refine hq ▸ (drain_untouched_or_empty shown (st, buy) (hq ▸ hshort) c.sellIdx).resolve_right ?_
    intro hempty
    obtain ⟨amount, ha⟩ := Option.isSome_iff_exists.mp hfits
    rw [← hq] at hempty
    exact not_le.mpr minTradeAmount_pos (hempty ▸ (admittedTake_eq_some topology ha).2.1)
  obtain ⟨d, hd, amount, rs, hrs⟩ := drain_first_fit buyMetadata
    (shown.filter fun c => q.1.sellOrders c.sellIdx = st.sellOrders c.sellIdx) q hshort
    ⟨c, List.mem_filter.mpr ⟨hc, decide_eq_true huntouched⟩, hfits⟩
  obtain ⟨more, hmore, _⟩ := drain_results buyMetadata topology rest (drain buyMetadata topology
    (shown.filter fun c => q.1.sellOrders c.sellIdx = st.sellOrders c.sellIdx) q)
  obtain ⟨ys, hys, hysell⟩ := drain_results buyMetadata topology rest q
  obtain ⟨before, hbuy⟩ := drain_buy buyMetadata topology shown (st, buy)
  have hinv : CycleInv nowNs q.1 := hq ▸ h.drain shown
  refine ⟨q.1.results, matchResult q.2 (q.1.sellOrders d.sellIdx) d buyMetadata amount, rs ++ more,
    ys, ?_, ?_, ?_, fun hr => ?_⟩
  · rw [matchBuy_eq h hmul hactive hfok, ← hshown, ← hq, if_pos ⟨hshort, hcov⟩, hagain, drain_append,
      hmore, hrs, List.append_assoc, List.cons_append]
  · simp only [exhaustiveBuy, if_neg hactive, if_neg fun hc : _ ∧ _ => hfok hc.1]
    rw [← hsplit, drain_append, ← hq, hys]
  · rw [← hq] at hbuy
    exact hbuy ▸ rfl
  · obtain ⟨e, he, hid⟩ := hysell _ hr
    exact viableSells_sellIdx_ne hsplit.symm (List.mem_of_mem_filter hd) he (hinv.sell_ids hid)

end OneBuy

section AllBuys

variable {buyMetadata topology dynamicMultiplier nowNs} (hmul : (0 : ℤ) < dynamicMultiplier.raw)
include hmul

theorem overBuys_agree (buys : List FastOrder) (st : CycleState n) (h : CycleInv nowNs st)
    (hnever : NeverReadmits buyMetadata topology dynamicMultiplier nowNs buys st) :
    overBuys (matchBuy buyMetadata topology dynamicMultiplier nowNs) buys st =
      overBuys (exhaustiveBuy buyMetadata topology dynamicMultiplier nowNs) buys st := by
  induction buys generalizing st with
  | nil => rfl
  | cons buy buys ih =>
    simp only [overBuys, matchBuy_agrees h hmul hnever.1, ih _ h.exhaustiveBuy hnever.2]

/-- From the first readmission on, the engine has emitted a result that the
reference never emits. -/
theorem overBuys_diverge (buys : List FastOrder) (st : CycleState n) (h : CycleInv nowNs st)
    (hdistinct : Distinct st buys)
    (hnot : ¬ NeverReadmits buyMetadata topology dynamicMultiplier nowNs buys st) :
    (overBuys (matchBuy buyMetadata topology dynamicMultiplier nowNs) buys st).1.results ≠
      (overBuys (exhaustiveBuy buyMetadata topology dynamicMultiplier nowNs) buys st).1.results := by
  induction buys generalizing st with
  | nil => exact absurd trivial hnot
  | cons buy buys ih =>
    obtain ⟨_, hslow⟩ := exhaustiveBuy_traded buyMetadata topology dynamicMultiplier nowNs
      hdistinct.head
    have hslow' := ((hslow.frame [] buys hdistinct).distinct hdistinct).tail
    by_cases hre : Readmits buyMetadata topology dynamicMultiplier nowNs st buy
    · obtain ⟨_, hfast⟩ := matchBuy_traded buyMetadata topology dynamicMultiplier nowNs hdistinct.head
      have hfast' := ((hfast.frame [] buys hdistinct).distinct hdistinct).tail
      obtain ⟨base, r, rs, ys, hbase, hbase', hbuy, hr⟩ := matchBuy_diverges h hmul hre
      obtain ⟨rs', hrs'⟩ := overBuys_traded (fun _ _ => matchBuy_traded buyMetadata topology
        dynamicMultiplier nowNs) buys _ hfast'
      obtain ⟨ys', hys'⟩ := overBuys_traded (fun _ _ => exhaustiveBuy_traded buyMetadata
        topology dynamicMultiplier nowNs) buys _ hslow'
      intro heq
      simp only [overBuys] at heq
      rw [hrs'.results, hys'.results, hbase, hbase', List.append_assoc, List.append_assoc,
        List.append_cancel_left_eq, List.cons_append] at heq
      have hmem : r ∈ ys ++ ys' := heq ▸ List.mem_cons_self
      obtain ⟨b, hb, hid⟩ := hys'.buy_mem r ((List.mem_append.mp hmem).resolve_left hr)
      exact (List.nodup_cons.mp hdistinct.buy_ids).1
        (List.mem_map.mpr ⟨b, hb, hid.symm.trans hbuy⟩)
    · have hrest : ¬ NeverReadmits buyMetadata topology dynamicMultiplier nowNs buys
          (exhaustiveBuy buyMetadata topology dynamicMultiplier nowNs st buy).1 :=
        fun hn => hnot ⟨hre, hn⟩
      simp only [overBuys, matchBuy_agrees h hmul hre]
      exact ih _ h.exhaustiveBuy hslow' hrest

end AllBuys

theorem guardMultiplier_pos (dynamicMultiplier : FastPrice) :
    (0 : ℤ) < (guardMultiplier dynamicMultiplier).raw := by
  unfold guardMultiplier
  split_ifs with h
  · exact FastPrice.one_raw_pos
  · exact not_le.mp h

/-- The engines agree on the matches and the final fills of a cycle exactly when no
buy meets a skipped sell that fits again. -/
theorem matchCycle_agrees_iff (buyOrders sellOrders : List FastOrder)
    (buyMetadata : List OrderMetadata) (topology : TopologySnapshot)
    (dynamicMultiplier : FastPrice) (nowNs : I64)
    (hids : ((buyOrders ++ sellOrders).map (·.id)).Nodup)
    (hasks : ∀ s ∈ sellOrders, (0 : ℤ) ≤ s.price.raw) :
    let out := matchCycle buyOrders sellOrders buyMetadata topology dynamicMultiplier nowNs
    let ref := exhaustiveCycle buyMetadata topology dynamicMultiplier nowNs buyOrders sellOrders
    (out.results = ref.results ∧ out.buyOrders = ref.buyOrders ∧ out.sellOrders = ref.sellOrders) ↔
      NeverReadmits buyMetadata topology (guardMultiplier dynamicMultiplier) nowNs
        (sortBuys buyOrders) (initialState nowNs sellOrders.get) := by
  have hdistinct := distinct_initialState nowNs hids
  have hinv : CycleInv nowNs (initialState nowNs sellOrders.get) :=
    cycleInv_initialState hdistinct.sell_ids fun i => hasks _ (List.get_mem sellOrders i)
  have hmul := guardMultiplier_pos dynamicMultiplier
  constructor
  · rintro ⟨hresults, _⟩
    by_contra hnot
    exact overBuys_diverge hmul _ _ hinv hdistinct hnot hresults
  · intro hnever
    have heq := overBuys_agree hmul _ _ hinv hnever
    simp only [matchCycle, exhaustiveCycle, matchBuys, heq, and_self]

/-- One link carries ten units: the first sell fills three of them, the second is
skipped and fits again once the third, from another zone, has been taken. -/
def readmittedSells : List FastOrder :=
  [.placed 2 1 3 (.number 1), .placed 3 2 8 (.number 1),
    .placed 4 3 5 (.number 2), .placed 5 4 20 (.number 3)]

def cappedGrid : TopologySnapshot := .freeGrid fun fromZone _ =>
  if fromZone = .number 1 then 10 else 1000

theorem matchCycle_readmits :
    let out := matchCycle [.placed 1 10 15 none] readmittedSells [] cappedGrid FastPrice.one
      (BoundedInt.saturate 0)
    let ref := exhaustiveCycle [] cappedGrid FastPrice.one (BoundedInt.saturate 0)
      [.placed 1 10 15 none] readmittedSells
    out.results.map (fun r => (r.sellOrderId, r.matchAmount)) = [(2, 3), (4, 5), (3, 7)] ∧
      ref.results.map (fun r => (r.sellOrderId, r.matchAmount)) = [(2, 3), (4, 5), (5, 7)] ∧
      ¬ (out.results = ref.results ∧ out.buyOrders = ref.buyOrders ∧
        out.sellOrders = ref.sellOrders) := by
  refine ⟨by decide +kernel, by decide +kernel, by decide +kernel⟩

theorem matchCycle_agrees_iff_uncapped :
    NeverReadmits [] (.freeGrid fun _ _ => 1000) (guardMultiplier FastPrice.one)
      (BoundedInt.saturate 0) (sortBuys [.placed 1 10 15 none])
      (initialState (BoundedInt.saturate 0) readmittedSells.get) :=
  (matchCycle_agrees_iff [.placed 1 10 15 none] readmittedSells [] (.freeGrid fun _ _ => 1000)
    FastPrice.one (BoundedInt.saturate 0) (by decide) (by decide +kernel)).mp (by decide +kernel)

end TradingService.MatchingEngine
