import TradingService.Engine.FillOrKill
import TradingService.Ledger.Replicas

/-!
# What a cycle decides about an immediate order

An immediate order that the engine leaves short is going to be swept, and a fill-or-kill
buy is matched with all that it needs or not at all.
-/

namespace TradingService

variable {nowNs : I64} {buys sells : List OrderRow} {row : OrderRow}

structure OrderRow.ImmediateAt (row : OrderRow) (nowNs : I64) : Prop where
  immediate : row.timeInForce.isImmediate
  realtime : row.marketSegment = .realtime
  epochId : row.epochId.isSome
  unexpired : (row.toFastOrder 0).isExpired nowNs = false

instance (row : OrderRow) (nowNs : I64) : Decidable (row.ImmediateAt nowNs) :=
  decidable_of_iff (row.timeInForce.isImmediate ∧ row.marketSegment = .realtime ∧ row.epochId.isSome ∧
    (row.toFastOrder 0).isExpired nowNs = false)
    ⟨fun ⟨h, h', h'', h'''⟩ => ⟨h, h', h'', h'''⟩, fun h => ⟨h.1, h.2, h.3, h.4⟩⟩

def OrderRow.FillsOrKills (row : OrderRow) : Prop :=
  row.timeInForce = .fok ∧ row.side = .buy ∧ row.marketSegment = .realtime

instance (row : OrderRow) : Decidable row.FillsOrKills := inferInstanceAs (Decidable (_ ∧ _ ∧ _))

theorem exists_toFastOrder {orders : List OrderRow} {row : OrderRow} (h : row ∈ orders)
    (hepoch : row.epochId.isSome) : ∃ i, row.toFastOrder i ∈ (toFastOrders orders).1 := by
  obtain ⟨epochId, he⟩ := Option.isSome_iff_exists.mp hepoch
  have hkept : (row, epochId) ∈ orders.filterMap fun o => o.epochId.map fun epochId => (o, epochId) := by
    refine List.mem_filterMap.mpr ⟨row, h, ?_⟩
    rw [he]
    rfl
  obtain ⟨i, hi, hget⟩ := List.getElem_of_mem hkept
  refine ⟨i, List.mem_map.mpr ⟨((row, epochId), i), ?_, rfl⟩⟩
  rw [List.mem_zipIdx_iff_getElem?]
  simp [hi, hget]

theorem runMatchingCycle_eq (topology : TopologySnapshot) {row : OrderRow} (hrow : row ∈ buys ++ sells) :
    runMatchingCycle buys sells topology nowNs =
      let out := MatchingEngine.matchCycle (toFastOrders buys).1 (toFastOrders sells).1
        (toFastOrders buys).2 topology FastPrice.one nowNs
      { pending := out.results
        sweep := (out.buyOrders ++ out.sellOrders).filter fun o => o.id ∈ out.stats.iocCancellations
        buyMetadata := (toFastOrders buys).2
        sellMetadata := (toFastOrders sells).2
        owners := buys ++ sells
        refused := []
        nowNs := nowNs } := by
  refine if_neg ?_
  rintro ⟨rfl, rfl⟩
  cases hrow

theorem exists_sweep (topology : TopologySnapshot) (hids : ((buys ++ sells).map (·.id)).Nodup)
    (hrow : row ∈ buys ++ sells) (himm : row.ImmediateAt nowNs)
    (hleft : row.filled + tradedAmount (runMatchingCycle buys sells topology nowNs).pending row.id <
      row.energy) :
    ∃ f ∈ (runMatchingCycle buys sells topology nowNs).sweep, f.id = row.id := by
  let out := MatchingEngine.matchCycle (toFastOrders buys).1 (toFastOrders sells).1
    (toFastOrders buys).2 topology FastPrice.one nowNs
  have hperm := (MatchingEngine.conserves_matchCycle nowNs (toFastOrders buys).2 topology FastPrice.one
    (toFastOrders_append_ids hids)).orders_perm
  rw [runMatchingCycle_eq topology hrow] at hleft ⊢
  change row.filled + tradedAmount out.results row.id < row.energy at hleft
  change ∃ f ∈ (out.buyOrders ++ out.sellOrders).filter fun o => o.id ∈ out.stats.iocCancellations, f.id = row.id
  obtain ⟨i, hfast⟩ : ∃ i, row.toFastOrder i ∈ (toFastOrders buys).1 ++ (toFastOrders sells).1 := by
    rcases List.mem_append.mp hrow with h | h
    · exact (exists_toFastOrder h himm.epochId).imp fun i h => List.mem_append_left _ h
    · exact (exists_toFastOrder h himm.epochId).imp fun i h => List.mem_append_right _ h
  let final := (row.toFastOrder i).credit out.results
  have hfinal : final ∈ out.buyOrders ++ out.sellOrders :=
    hperm.symm.subset (List.mem_map_of_mem hfast)
  have hunexpired : final.isExpired nowNs = false := himm.unexpired
  have himmediate : final.timeInForce.isImmediate = true := himm.immediate
  have hpos : 0 < final.remainingAmount := by
    change 0 < row.energy - (row.filled + tradedAmount out.results row.id)
    linarith
  have hswept : final.id ∈ out.stats.iocCancellations :=
    List.mem_map.mpr ⟨final, List.mem_filter.mpr ⟨hfinal, by simp [himmediate, hunexpired, hpos]⟩, rfl⟩
  exact ⟨final, List.mem_filter.mpr ⟨hfinal, decide_eq_true hswept⟩, rfl⟩

theorem sweep_short (topology : TopologySnapshot) (hids : ((buys ++ sells).map (·.id)).Nodup)
    {f : FastOrder} (hf : f ∈ (runMatchingCycle buys sells topology nowNs).sweep) :
    f.filledAmount < f.energyAmount := by
  have hsome : ∃ row, row ∈ buys ++ sells := by
    obtain ⟨row, hrow, _⟩ := (Job.decided_runMatchingCycle topology nowNs hids).sweep_mem f hf
    exact ⟨row, hrow⟩
  obtain ⟨row, hrow⟩ := hsome
  rw [runMatchingCycle_eq topology hrow] at hf
  let out := MatchingEngine.matchCycle (toFastOrders buys).1 (toFastOrders sells).1
    (toFastOrders buys).2 topology FastPrice.one nowNs
  have hperm := (MatchingEngine.conserves_matchCycle nowNs (toFastOrders buys).2 topology FastPrice.one
    (toFastOrders_append_ids hids)).orders_perm
  have houtIds : ((out.buyOrders ++ out.sellOrders).map (·.id)).Nodup := by
    apply (hperm.map _).nodup_iff.mpr
    simpa only [List.map_map, Function.comp_def, FastOrder.credit_id] using toFastOrders_append_ids hids
  obtain ⟨hmem, hswept⟩ := List.mem_filter.mp hf
  obtain ⟨g, hg, hgid⟩ := List.mem_map.mp (of_decide_eq_true hswept)
  obtain ⟨hgmem, hgleft⟩ := List.mem_filter.mp hg
  obtain rfl : g = f := List.inj_on_of_nodup_map houtIds hgmem hmem hgid
  simp only [Bool.and_eq_true, decide_eq_true_eq] at hgleft
  exact sub_pos.mp hgleft.2

/-- The engine matches a fill-or-kill buy whole or not at all. -/
theorem whole_or_unmatched (topology : TopologySnapshot) (hids : ((buys ++ sells).map (·.id)).Nodup)
    (hside : ∀ s ∈ sells, s.side = .sell) (hrow : row ∈ buys ++ sells) (hfok : row.FillsOrKills) :
    (∀ m ∈ (runMatchingCycle buys sells topology nowNs).pending, ¬m.names row.id) ∨
      row.filled + tradedAmount (runMatchingCycle buys sells topology nowNs).pending row.id = row.energy := by
  let out := MatchingEngine.matchCycle (toFastOrders buys).1 (toFastOrders sells).1
    (toFastOrders buys).2 topology FastPrice.one nowNs
  have hfastIds := toFastOrders_append_ids hids
  have hout := MatchingEngine.conserves_matchCycle nowNs (toFastOrders buys).2 topology FastPrice.one hfastIds
  rw [runMatchingCycle_eq topology hrow]
  change (∀ m ∈ out.results, ¬m.names row.id) ∨ row.filled + tradedAmount out.results row.id = row.energy
  by_cases hnone : ∀ m ∈ out.results, ¬m.names row.id
  · exact .inl hnone
  push Not at hnone
  obtain ⟨m, hm, hname⟩ := hnone
  obtain ⟨f, hf, hfid⟩ : ∃ f ∈ (toFastOrders buys).1 ++ (toFastOrders sells).1, f.id = row.id := by
    rcases hname with hbuy | hsell
    · obtain ⟨f, hf, hid⟩ := hout.buy_mem m hm
      exact ⟨f, List.mem_append_left _ hf, hid.symm.trans hbuy⟩
    · obtain ⟨f, hf, hid⟩ := hout.sell_mem m hm
      exact ⟨f, List.mem_append_right _ hf, hid.symm.trans hsell⟩
  obtain ⟨i, hfast⟩ : ∃ i, row.toFastOrder i ∈ (toFastOrders buys).1 := by
    rcases List.mem_append.mp hf with hf | hf
    · obtain ⟨o, ho, i, rfl⟩ := mem_toFastOrders hf
      obtain rfl := List.inj_on_of_nodup_map hids (List.mem_append_left _ ho) hrow hfid
      exact ⟨i, hf⟩
    · obtain ⟨o, ho, i, rfl⟩ := mem_toFastOrders hf
      obtain rfl := List.inj_on_of_nodup_map hids (List.mem_append_right _ ho) hrow hfid
      exact absurd ((hside o ho).symm.trans hfok.2.1) (by decide)
  have hfinal : (row.toFastOrder i).credit out.results ∈ out.buyOrders :=
    hout.buys_perm.symm.subset (List.mem_map_of_mem hfast)
  rcases MatchingEngine.matchCycle_whole hfastIds _ hfinal hfok.1 with hsame | hwhole
  · left
    have hbuyIds : ((toFastOrders buys).1.map (·.id)).Nodup :=
      (List.nodup_append.mp (List.map_append ▸ hfastIds)).1
    have heq : (row.toFastOrder i).credit out.results = row.toFastOrder i :=
      List.inj_on_of_nodup_map hbuyIds hsame hfast rfl
    have hfilled : row.filled + tradedAmount out.results row.id = row.filled :=
      congrArg FastOrder.filledAmount heq
    exact not_names_of_tradedAmount_eq_zero (fun r hr => minTradeAmount_pos.trans_le (hout.amount_min r hr))
      (add_eq_left.mp hfilled)
  · right
    have hzero : row.energy - (row.filled + tradedAmount out.results row.id) = 0 := hwhole
    linarith

/-- A fill-or-kill buy that is swept has the fill that it was read with. -/
theorem sweep_unmatched (topology : TopologySnapshot) (hids : ((buys ++ sells).map (·.id)).Nodup)
    (hside : ∀ s ∈ sells, s.side = .sell) (hrow : row ∈ buys ++ sells) (hfok : row.FillsOrKills)
    {f : FastOrder} (hf : f ∈ (runMatchingCycle buys sells topology nowNs).sweep) (hid : f.id = row.id) :
    f.filledAmount = row.filled ∧ ∀ m ∈ (runMatchingCycle buys sells topology nowNs).pending, ¬m.names row.id := by
  obtain ⟨row', hrow', hid', henergy, hfilled⟩ :=
    (Job.decided_runMatchingCycle topology nowNs hids).sweep_mem f hf
  obtain rfl := List.inj_on_of_nodup_map hids hrow' hrow (hid'.trans hid)
  rcases whole_or_unmatched topology hids hside hrow hfok with hnone | hwhole
  · rw [hid, tradedAmount_of_not_named hnone, add_zero] at hfilled
    exact ⟨hfilled, hnone⟩
  · have hshort := sweep_short topology hids hf
    rw [hfilled, hid, hwhole, henergy] at hshort
    exact absurd hshort (lt_irrefl _)

end TradingService
