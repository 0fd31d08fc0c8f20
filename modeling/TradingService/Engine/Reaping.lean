import TradingService.Engine.Commits
import TradingService.Engine.RowOrder

/-!
# Orders that cannot trade any more

The reaper works behind the clock and the active orders are read without their expiry, so
a cycle is given orders that have lapsed or have nothing left. It does with them what it
does without them: no book files such a sell and no such buy has a turn.
-/

namespace OrderedMap

variable {K V W : Type*} [LinearOrder K]

theorem get?_mapValues (g : V → W) (m : OrderedMap K V) (k : K) :
    (m.mapValues g).get? k = (m.get? k).map g := by
  unfold get? mapValues
  rw [List.find?_map, Option.map_map, Option.map_map]
  rfl

theorem insert_mapValues (g : V → W) (m : OrderedMap K V) (k : K) (v : V) :
    (m.mapValues g).insert k (g v) = (m.insert k v).mapValues g := by
  unfold insert mapValues
  congr 1
  rw [List.map_append, List.map_cons, List.filter_map, List.filter_map]
  rfl

end OrderedMap

namespace TradingService.MatchingEngine

variable {n n' : ℕ}

section Books

variable {f : Fin n → Fin n'} {orders : Fin n → FastOrder} {orders' : Fin n' → FastOrder} {nowNs : I64}

theorem fileSell_rename (hget : ∀ i, orders' (f i) = orders i) (zoneBooks : ZoneBooks n) (i : Fin n) :
    fileSell nowNs orders' (renameBooks f zoneBooks) (f i) =
      renameBooks f (fileSell nowNs orders zoneBooks i) := by
  unfold fileSell renameBooks
  simp only [hget]
  split_ifs
  · have hbook : (((zoneBooks.mapValues (OrderedMap.mapValues f)).get? (orders i).zoneId).getD ∅) =
        ((zoneBooks.get? (orders i).zoneId).getD ∅).mapValues f := by
      rw [OrderedMap.get?_mapValues]
      cases zoneBooks.get? (orders i).zoneId with
      | none => rfl
      | some book => rfl
    rw [hbook, OrderedMap.insert_mapValues, OrderedMap.insert_mapValues]
  · rfl

theorem foldl_fileSell_rename (hget : ∀ i, orders' (f i) = orders i) (is : List (Fin n))
    (zoneBooks : ZoneBooks n) :
    (is.map f).foldl (fileSell nowNs orders') (renameBooks f zoneBooks) =
      renameBooks f (is.foldl (fileSell nowNs orders) zoneBooks) := by
  induction is generalizing zoneBooks with
  | nil => rfl
  | cons i is ih => rw [List.map_cons, List.foldl_cons, List.foldl_cons, fileSell_rename hget, ih]

theorem fileSell_of_not_live {zoneBooks : ZoneBooks n} {i : Fin n} (h : ¬Live nowNs (orders i)) :
    fileSell nowNs orders zoneBooks i = zoneBooks := if_neg h

theorem foldl_fileSell_filter (p : Fin n → Bool) (hdead : ∀ i, p i = false → ¬Live nowNs (orders i))
    (is : List (Fin n)) (zoneBooks : ZoneBooks n) :
    (is.filter p).foldl (fileSell nowNs orders) zoneBooks =
      is.foldl (fileSell nowNs orders) zoneBooks := by
  induction is generalizing zoneBooks with
  | nil => rfl
  | cons i is ih =>
    cases hp : p i with
    | true => rw [List.filter_cons_of_pos hp, List.foldl_cons, List.foldl_cons, ih]
    | false =>
      rw [List.filter_cons_of_neg (by simp [hp]), List.foldl_cons, fileSell_of_not_live (hdead i hp), ih]

end Books

section Selection

variable {p : FastOrder → Bool}

structure Selects (p : FastOrder → Bool) (orders : Fin n → FastOrder) (orders' : Fin n' → FastOrder)
    (f : Fin n → Fin n') : Prop where
  injective : Function.Injective f
  get : ∀ i, orders' (f i) = orders i
  places : (List.finRange n').filter (fun j => p (orders' j)) = (List.finRange n).map f

theorem exists_selects (p : FastOrder → Bool) {orders : List FastOrder} (hids : (orders.map (·.id)).Nodup) :
    ∃ f, Selects p (orders.filter p).get orders.get f := by
  obtain ⟨f, hf⟩ : ∃ f : Fin (orders.filter p).length ↪o Fin orders.length,
      ∀ i, (orders.filter p).get i = orders.get (f i) :=
    List.sublist_iff_exists_fin_orderEmbedding_get_eq.mp List.filter_sublist
  refine ⟨f, f.injective, fun i => (hf i).symm, ?_⟩
  have hmem : ∀ j, j ∈ (List.finRange orders.length).filter (fun j => p (orders.get j)) ↔
      j ∈ (List.finRange (orders.filter p).length).map f := by
    intro j
    rw [List.mem_filter, List.mem_map]
    constructor
    · rintro ⟨_, hp⟩
      have hselected : orders.get j ∈ orders.filter p := List.mem_filter.mpr ⟨List.get_mem orders j, hp⟩
      obtain ⟨i, hi⟩ := List.mem_iff_get.mp hselected
      exact ⟨i, List.mem_finRange i, get_ids_injective hids (congrArg FastOrder.id ((hf i).symm.trans hi))⟩
    · rintro ⟨i, _, rfl⟩
      rw [← hf]
      exact ⟨List.mem_finRange _, (List.mem_filter.mp (List.get_mem (orders.filter p) i)).2⟩
  have hsorted : ((List.finRange orders.length).filter fun j => p (orders.get j)).Pairwise (· < ·) :=
    (List.pairwise_lt_finRange _).filter _
  have hsorted' : ((List.finRange (orders.filter p).length).map f).Pairwise (· < ·) :=
    List.pairwise_map.mpr ((List.pairwise_lt_finRange _).imp fun h => f.strictMono h)
  have hperm := (List.perm_ext_iff_of_nodup (hsorted.imp fun h => h.ne) (hsorted'.imp fun h => h.ne)).mpr
    hmem
  exact hperm.eq_of_pairwise (fun a b _ _ hab hba => absurd hab hba.asymm) hsorted hsorted'

/-- The selected orders of a slice at a later time are those of the slice of the selected ones. -/
theorem Selects.ofFn {orders final : Fin n → FastOrder} {orders' final' : Fin n' → FastOrder}
    {f : Fin n → Fin n'} (h : Selects p orders orders' f) (hp : ∀ j, p (final' j) = p (orders' j))
    (hget : ∀ i, final' (f i) = final i) : List.ofFn final = (List.ofFn final').filter p := by
  rw [List.ofFn_eq_map, List.ofFn_eq_map, List.filter_map]
  have hplaces : (List.finRange n').filter (p ∘ final') = (List.finRange n).map f := by
    rw [← h.places]
    exact List.filter_congr fun j _ => hp j
  rw [hplaces, List.map_map]
  exact List.map_congr_left fun i _ => (hget i).symm

theorem sortBuys_filter (p : FastOrder → Bool) {buyOrders : List FastOrder}
    (hids : (buyOrders.map (·.id)).Nodup) :
    sortBuys (buyOrders.filter p) = (sortBuys buyOrders).filter p := by
  have hperm : ((sortBuys buyOrders).filter p).Perm (buyOrders.filter p) :=
    (List.perm_insertionSort buyPriority buyOrders).filter _
  have hsub : ((buyOrders.filter p).map (·.id)).Nodup :=
    hids.sublist (List.filter_sublist.map _)
  have hsorted : sortBuys ((sortBuys buyOrders).filter p) = (sortBuys buyOrders).filter p :=
    ((List.pairwise_map.mp (sortBuys_keys_sorted buyOrders)).filter _).insertionSort_eq
  rw [← hsorted]
  exact (sortBuys_perm hperm hsub).symm

end Selection

def kept (keep : Uuid → Bool) (orders : List FastOrder) : List FastOrder :=
  orders.filter fun o => keep o.id

variable {keep : Uuid → Bool} {nowNs : I64}

/-- The order has lapsed, or nothing is left of it. -/
def Over (nowNs : I64) (o : FastOrder) : Prop := o.isExpired nowNs = true ∨ o.remainingAmount ≤ 0

instance (o : FastOrder) : Decidable (Over nowNs o) := inferInstanceAs (Decidable (_ ∨ _))

theorem Over.not_live {o : FastOrder} (h : Over nowNs o) : ¬Live nowNs o := by
  rintro ⟨hleft, hlive⟩
  rcases h with h | h
  · simp [h] at hlive
  · exact absurd (minTradeAmount_pos.trans_le hleft) (not_lt.mpr h)

theorem Over.fill {o : FastOrder} (h : Over nowNs o) {amount : Decimal} (h0 : 0 ≤ amount) :
    Over nowNs (o.fill amount) := by
  rcases h with h | h
  · exact .inl h
  · right
    rw [FastOrder.fill_remainingAmount]
    linarith

theorem Selects.initialState {orders : Fin n → FastOrder} {orders' : Fin n' → FastOrder}
    {f : Fin n → Fin n'} (h : Selects (fun o => keep o.id) orders orders' f)
    (hover : ∀ j, keep (orders' j).id = false → Over nowNs (orders' j)) :
    Renames f (initialState nowNs orders) (initialState nowNs orders') := by
  refine ⟨h.get, ?_, rfl, rfl, rfl, rfl⟩
  have hfiled := foldl_fileSell_filter (fun j => keep (orders' j).id)
    (fun j hj => (hover j hj).not_live) (List.finRange n') ∅
  rw [h.places] at hfiled
  exact hfiled.symm.trans (foldl_fileSell_rename h.get (List.finRange n) ∅)

section Buys

variable {step : CycleState n → FastOrder → CycleState n × FastOrder}

/-- A loop that leaves some orders alone does without them what it does with them. -/
theorem overBuys_kept (buys : List FastOrder)
    (hidle : ∀ b ∈ buys, keep b.id = false → ∀ st, step st b = (st, b))
    (hid : ∀ st b, (step st b).2.id = b.id) (st : CycleState n) :
    (overBuys step (kept keep buys) st).1 = (overBuys step buys st).1 ∧
      (overBuys step (kept keep buys) st).2 = kept keep (overBuys step buys st).2 := by
  induction buys generalizing st with
  | nil => exact ⟨rfl, rfl⟩
  | cons b buys ih =>
    obtain ⟨hhead, htail⟩ := List.forall_mem_cons.mp hidle
    cases hb : keep b.id with
    | true =>
      obtain ⟨hstate, hbuys⟩ := ih htail (step st b).1
      have hkept : kept keep (b :: buys) = b :: kept keep buys := List.filter_cons_of_pos hb
      have hfilled : kept keep ((step st b).2 :: (overBuys step buys (step st b).1).2) =
          (step st b).2 :: kept keep (overBuys step buys (step st b).1).2 :=
        List.filter_cons_of_pos (by rw [hid]; exact hb)
      rw [hkept]
      exact ⟨hstate, by rw [overBuys, overBuys, hfilled, hbuys]⟩
    | false =>
      obtain ⟨hstate, hbuys⟩ := ih htail st
      have hdropped : kept keep (b :: buys) = kept keep buys := List.filter_cons_of_neg (by simp [hb])
      have hunfilled : kept keep (b :: (overBuys step buys st).2) = kept keep (overBuys step buys st).2 :=
        List.filter_cons_of_neg (by simp [hb])
      rw [hdropped, overBuys, hhead hb st]
      exact ⟨hstate, hbuys.trans hunfilled.symm⟩

theorem overBuys_dropped (buys : List FastOrder)
    (hidle : ∀ b ∈ buys, keep b.id = false → ∀ st, step st b = (st, b))
    (hid : ∀ st b, (step st b).2.id = b.id) (st : CycleState n) :
    ∀ b ∈ (overBuys step buys st).2, keep b.id = false → b ∈ buys := by
  induction buys generalizing st with
  | nil => simp [overBuys]
  | cons b buys ih =>
    obtain ⟨hhead, htail⟩ := List.forall_mem_cons.mp hidle
    intro b' hb' hdropped
    rcases List.mem_cons.mp hb' with rfl | hrest
    · rw [hid] at hdropped
      rw [hhead hdropped]
      exact List.mem_cons_self
    · exact List.mem_cons_of_mem _ (ih htail _ b' hrest hdropped)

variable (buyMetadata : List OrderMetadata) (topology : TopologySnapshot) (dynamicMultiplier : FastPrice)

theorem matchBuy_of_over (st : CycleState n) {buy : FastOrder} (h : Over nowNs buy) :
    matchBuy buyMetadata topology dynamicMultiplier nowNs st buy = (st, buy) := by
  unfold matchBuy
  rw [if_pos]
  rcases h with h | h
  · exact .inr h
  · exact .inl (h.trans_lt minTradeAmount_pos)

theorem matchBuy_id (st : CycleState n) (buy : FastOrder) :
    (matchBuy buyMetadata topology dynamicMultiplier nowNs st buy).2.id = buy.id := by
  obtain ⟨amount, hfill⟩ := matchBuy_buy buyMetadata topology dynamicMultiplier nowNs st buy
  rw [hfill, FastOrder.fill_id]

theorem matchBuys_kept {buys : List FastOrder} (hover : ∀ b ∈ buys, keep b.id = false → Over nowNs b)
    (st : CycleState n) :
    let run := matchBuys buyMetadata topology dynamicMultiplier nowNs buys st
    matchBuys buyMetadata topology dynamicMultiplier nowNs (kept keep buys) st =
        (run.1, kept keep run.2) ∧ ∀ b ∈ run.2, keep b.id = false → b ∈ buys := by
  intro run
  have hidle : ∀ b ∈ buys, keep b.id = false → ∀ st : CycleState n,
      matchBuy buyMetadata topology dynamicMultiplier nowNs st b = (st, b) :=
    fun b hb hdropped st => matchBuy_of_over _ _ _ st (hover b hb hdropped)
  have hid : ∀ (st : CycleState n) b,
      (matchBuy buyMetadata topology dynamicMultiplier nowNs st b).2.id = b.id :=
    fun st b => matchBuy_id _ _ _ st b
  obtain ⟨hstate, hbuys⟩ := overBuys_kept buys hidle hid st
  exact ⟨Prod.ext hstate hbuys, overBuys_dropped buys hidle hid st⟩

variable (nowNs) in
theorem matchBuys_later (buys : List FastOrder) (st : CycleState n) :
    Later st.sellOrders
      (matchBuys buyMetadata topology dynamicMultiplier nowNs buys st).1.sellOrders :=
  matchBuys_induction (P := fun st' => Later st.sellOrders st'.sellOrders) _
    (fun _ _ _ _ _ _ hcommit _ h => h.trans hcommit.later_after) _ (.refl _)

end Buys

theorem immediateSweep_kept {orders : List FastOrder}
    (hover : ∀ o ∈ orders, keep o.id = false → Over nowNs o) :
    immediateSweep nowNs (kept keep orders) = immediateSweep nowNs orders := by
  unfold immediateSweep kept
  rw [List.filter_filter]
  congr 1
  apply List.filter_congr
  intro o ho
  cases hkeep : keep o.id with
  | true => simp
  | false =>
    rcases hover o ho hkeep with h | h
    · simp [h]
    · simp [not_lt.mpr h]

/-- A cycle that is given orders that have lapsed or are used up makes of the others what it
makes of them alone: the same results and statistics, and the same amounts filled. -/
theorem matchCycle_reaped (buyOrders sellOrders : List FastOrder) (buyMetadata : List OrderMetadata)
    (topology : TopologySnapshot) (dynamicMultiplier : FastPrice) (nowNs : I64) (keep : Uuid → Bool)
    (hids : ((buyOrders ++ sellOrders).map (·.id)).Nodup)
    (hover : ∀ o ∈ buyOrders ++ sellOrders, keep o.id = false → Over nowNs o) :
    let out := matchCycle buyOrders sellOrders buyMetadata topology dynamicMultiplier nowNs
    let out' := matchCycle (kept keep buyOrders) (kept keep sellOrders) buyMetadata topology
      dynamicMultiplier nowNs
    out'.results = out.results ∧ out'.stats = out.stats ∧
      out'.buyOrders = kept keep out.buyOrders ∧ out'.sellOrders = kept keep out.sellOrders := by
  intro out out'
  rw [List.map_append, List.nodup_append] at hids
  obtain ⟨hoverBuys, hoverSells⟩ := List.forall_mem_append.mp hover
  obtain ⟨f, hf⟩ : ∃ f, Selects (fun o => keep o.id) (kept keep sellOrders).get sellOrders.get f :=
    exists_selects _ hids.2.1
  have hsortBuys : sortBuys (kept keep buyOrders) = kept keep (sortBuys buyOrders) :=
    sortBuys_filter (fun o => keep o.id) hids.1
  have hsortPerm : (sortBuys buyOrders).Perm buyOrders := List.perm_insertionSort _ _
  have hinitial := hf.initialState fun j hj => hoverSells _ (List.get_mem sellOrders j) hj
  obtain ⟨hstate, hbuys⟩ := hinitial.matchBuys hf.injective buyMetadata topology
    (guardMultiplier dynamicMultiplier) nowNs (kept keep (sortBuys buyOrders))
  obtain ⟨hkept, hdropped⟩ := matchBuys_kept buyMetadata topology (guardMultiplier dynamicMultiplier)
    (fun b hb => hoverBuys b (hsortPerm.subset hb)) (initialState nowNs sellOrders.get)
  have hlater := matchBuys_later nowNs buyMetadata topology (guardMultiplier dynamicMultiplier)
    (sortBuys buyOrders) (initialState nowNs sellOrders.get)
  rw [hkept] at hstate hbuys
  simp only [out, out', matchCycle, hsortBuys]
  generalize matchBuys buyMetadata topology (guardMultiplier dynamicMultiplier) nowNs
    (kept keep (sortBuys buyOrders)) (initialState nowNs (kept keep sellOrders).get) = less at hstate hbuys ⊢
  generalize matchBuys buyMetadata topology (guardMultiplier dynamicMultiplier) nowNs
    (sortBuys buyOrders) (initialState nowNs sellOrders.get) = all at hstate hbuys hdropped hlater ⊢
  have hstate : Renames f less.1 all.1 := hstate
  have hsells : List.ofFn less.1.sellOrders = kept keep (List.ofFn all.1.sellOrders) :=
    hf.ofFn (fun j => congrArg keep (hlater.id j)) hstate.sells
  have hsweep : ∀ o ∈ all.2 ++ List.ofFn all.1.sellOrders, keep o.id = false → Over nowNs o := by
    intro o ho hgone
    rcases List.mem_append.mp ho with hbuy | hsell
    · exact hoverBuys o (hsortPerm.subset (hdropped o hbuy hgone)) hgone
    · obtain ⟨j, rfl⟩ := List.mem_ofFn.mp hsell
      obtain ⟨amount, h0, heq⟩ := hlater j
      rw [heq] at hgone ⊢
      exact (hoverSells _ (List.get_mem sellOrders j) hgone).fill h0
  have happend : less.2 ++ List.ofFn less.1.sellOrders =
      kept keep (all.2 ++ List.ofFn all.1.sellOrders) := by
    rw [← hbuys, hsells]
    exact (List.filter_append _ _).symm
  refine ⟨hstate.results.symm, ?_, hbuys.symm, hsells⟩
  simp only [finishCycle, happend, immediateSweep_kept hsweep, hstate.created, hstate.volume]

theorem matchCycle_reaped_two_over :
    let lapsed := { FastOrder.placed 2 4 5 none with expiresAtNs := some (BoundedInt.saturate 0) }
    let filled := { FastOrder.placed 4 9 5 none with filledAmount := 5 }
    let out := matchCycle [.placed 1 10 5 none, filled] [lapsed, .placed 3 6 7 none] [] openGrid
      FastPrice.one (BoundedInt.saturate 0)
    let out' := matchCycle [.placed 1 10 5 none] [.placed 3 6 7 none] [] openGrid FastPrice.one
      (BoundedInt.saturate 0)
    out.stats.totalVolume = 5 ∧ out'.results = out.results := by
  refine ⟨by decide +kernel, ?_⟩
  exact (matchCycle_reaped
    [.placed 1 10 5 none, { FastOrder.placed 4 9 5 none with filledAmount := 5 }]
    [{ FastOrder.placed 2 4 5 none with expiresAtNs := some (BoundedInt.saturate 0) },
      .placed 3 6 7 none] [] openGrid FastPrice.one (BoundedInt.saturate 0) (fun id => id = 1 ∨ id = 3)
    (by decide) (by decide +kernel)).1

end TradingService.MatchingEngine
