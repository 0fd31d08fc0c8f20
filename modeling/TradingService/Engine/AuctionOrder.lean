import TradingService.Engine.Completeness
import TradingService.Engine.RowOrder

/-!
# The order of the rows in the auction

The auction files its orders by zone in the order of the slices, and sorts the orders
of a zone before it sweeps them. The sort has no ties, so what it yields is the same
for every order of the slices, and so is the sweep.
-/

namespace TradingService.UniformAuction

open MatchingEngine (SameOrders)

variable {m m' n n' : ℕ} {f : Fin m → Fin m'} {g : Fin n → Fin n'}

section Partition

def placesIn (orders : Fin n → FastOrder) (nowNs : I64) (zone : ZoneId) (places : List (Fin n)) :
    List (Fin n) :=
  places.filter fun i =>
    (minTradeAmount ≤ (orders i).remainingAmount ∧ !(orders i).isExpired nowNs) ∧ (orders i).zoneId = zone

def listed (places : List (Fin n)) : Option (List (Fin n)) := if places = [] then none else some places

theorem listed_getD (places : List (Fin n)) : (listed places).getD [] = places := by
  unfold listed
  split_ifs with h
  · exact h.symm
  · rfl

variable {orders : Fin n → FastOrder} {orders' : Fin n' → FastOrder} {nowNs : I64}

theorem partitionByZone_get? (zone : ZoneId) :
    (partitionByZone orders nowNs).get? zone =
      listed (placesIn orders nowNs zone (List.finRange n)) := by
  suffices hfold : ∀ (is filed : List (Fin n)) (zones : OrderedMap ZoneId (List (Fin n))),
      (∀ z, zones.get? z = listed (placesIn orders nowNs z filed)) →
        ∀ z, (is.foldl (fun zones idx =>
          if minTradeAmount ≤ (orders idx).remainingAmount ∧ !(orders idx).isExpired nowNs then
            zones.insert (orders idx).zoneId ((zones.get? (orders idx).zoneId).getD [] ++ [idx])
          else zones) zones).get? z = listed (placesIn orders nowNs z (filed ++ is)) from
    hfold (List.finRange n) [] ∅ (fun _ => rfl) zone
  intro is
  induction is with
  | nil =>
    intro filed zones hzones z
    rw [List.append_nil]
    exact hzones z
  | cons i is ih =>
    intro filed zones hzones z
    rw [List.foldl_cons, List.append_cons filed i is]
    refine ih (filed ++ [i]) _ (fun z' => ?_) z
    have happend : placesIn orders nowNs z' (filed ++ [i]) =
        placesIn orders nowNs z' filed ++ placesIn orders nowNs z' [i] := List.filter_append _ _
    rw [happend]
    by_cases hlive : minTradeAmount ≤ (orders i).remainingAmount ∧ !(orders i).isExpired nowNs
    · rw [if_pos hlive, OrderedMap.get?_insert, hzones, listed_getD]
      by_cases hz : z' = (orders i).zoneId
      · have hsingle : placesIn orders nowNs z' [i] = [i] := by
          rw [placesIn, List.filter_cons, if_pos (decide_eq_true ⟨hlive, hz.symm⟩), List.filter_nil]
        rw [if_pos hz, hsingle, hz, listed, if_neg (by simp)]
      · have hnone : placesIn orders nowNs z' [i] = [] := by
          rw [placesIn, List.filter_cons, if_neg (by simp [Ne.symm hz]), List.filter_nil]
        rw [if_neg hz, hnone, List.append_nil, hzones]
    · have hnone : placesIn orders nowNs z' [i] = [] := by
        rw [placesIn, List.filter_cons, if_neg (fun h => hlive (of_decide_eq_true h).1), List.filter_nil]
      rw [if_neg hlive, hnone, List.append_nil, hzones]

variable (nowNs) in
theorem placesIn_perm {h : Fin n → Fin n'} (hsame : SameOrders h orders orders') (zone : ZoneId) :
    (placesIn orders' nowNs zone (List.finRange n')).Perm
      ((placesIn orders nowNs zone (List.finRange n)).map h) := by
  refine (List.perm_ext_iff_of_nodup ((List.nodup_finRange n').filter _)
    (((List.nodup_finRange n).filter _).map hsame.bijective.1)).mpr fun j => ?_
  obtain ⟨i, rfl⟩ := hsame.bijective.2 j
  rw [List.mem_map_of_injective hsame.bijective.1]
  simp only [List.mem_filter, List.mem_finRange, hsame.get, true_and]

variable (nowNs) in
theorem partitionByZone_rel {h : Fin n → Fin n'} (hsame : SameOrders h orders orders') (zone : ZoneId) :
    Option.Rel (fun places places' => places'.Perm (places.map h))
      ((partitionByZone orders nowNs).get? zone) ((partitionByZone orders' nowNs).get? zone) := by
  have hperm := placesIn_perm nowNs hsame zone
  rw [partitionByZone_get?, partitionByZone_get?]
  unfold listed
  by_cases hnil : placesIn orders nowNs zone (List.finRange n) = []
  · rw [hnil, List.map_nil] at hperm
    rw [if_pos hnil, if_pos hperm.eq_nil]
    exact .none
  · have hnil' : placesIn orders' nowNs zone (List.finRange n') ≠ [] := by
      intro he
      rw [he] at hperm
      exact hnil (List.map_eq_nil_iff.mp hperm.symm.eq_nil)
    rw [if_neg hnil, if_neg hnil']
    exact .some hperm

end Partition

section Sorting

variable {orders : Fin n → FastOrder} {orders' : Fin n' → FastOrder} {h : Fin n → Fin n'}

theorem sortPlaces_rename {K : Type*} [LinearOrder K] (key : FastOrder → K)
    (hkey : ∀ a b, key a = key b → a.id = b.id) (hsame : SameOrders h orders orders')
    {places : List (Fin n)} {places' : List (Fin n')} (hperm : places'.Perm (places.map h)) :
    places'.insertionSort (fun a b => key (orders' a) ≤ key (orders' b)) =
      (places.insertionSort fun a b => key (orders a) ≤ key (orders b)).map h := by
  have htotal : Std.Total fun a b => key (orders a) ≤ key (orders b) := ⟨fun a b => le_total _ _⟩
  have htrans : IsTrans (Fin n) fun a b => key (orders a) ≤ key (orders b) := ⟨fun _ _ _ h h' => h.trans h'⟩
  have htotal' : Std.Total fun a b => key (orders' a) ≤ key (orders' b) := ⟨fun a b => le_total _ _⟩
  have htrans' : IsTrans (Fin n') fun a b => key (orders' a) ≤ key (orders' b) :=
    ⟨fun _ _ _ h h' => h.trans h'⟩
  have hall : (places'.insertionSort fun a b => key (orders' a) ≤ key (orders' b)).Perm
      ((places.insertionSort fun a b => key (orders a) ≤ key (orders b)).map h) :=
    ((List.perm_insertionSort _ _).trans hperm).trans ((List.perm_insertionSort _ _).map h).symm
  refine hall.eq_of_pairwise (fun a b _ _ hab hba => ?_) (List.pairwise_insertionSort _ _)
    (List.pairwise_map.mpr ?_)
  · exact hsame.ids' (hkey _ _ (le_antisymm hab hba))
  · simp only [hsame.get]
    exact List.pairwise_insertionSort _ _

theorem sortBuyIndices_rename (hsame : SameOrders h orders orders') {places : List (Fin n)}
    {places' : List (Fin n')} (hperm : places'.Perm (places.map h)) :
    sortBuyIndices orders' places' = (sortBuyIndices orders places).map h :=
  sortPlaces_rename MatchingEngine.buyKey
    (fun _ _ he => congrArg (fun k => (ofLex (ofLex k).2).2) he) hsame hperm

theorem sortSellIndices_rename (hsame : SameOrders h orders orders') {places : List (Fin n)}
    {places' : List (Fin n')} (hperm : places'.Perm (places.map h)) :
    sortSellIndices orders' places' = (sortSellIndices orders places).map h :=
  sortPlaces_rename MatchingEngine.bookKey
    (fun _ _ he => congrArg (fun k => (ofLex (ofLex k).2).2) he) hsame hperm

theorem SameOrders.fill (hsame : SameOrders h orders orders') (i : Fin n) (amount : Decimal) :
    SameOrders h (Function.update orders i ((orders i).fill amount))
      (Function.update orders' (h i) ((orders' (h i)).fill amount)) where
  bijective := hsame.bijective
  get k := by
    by_cases hk : k = i
    · rw [hk, Function.update_self, Function.update_self, hsame.get]
    · rw [Function.update_of_ne hk, Function.update_of_ne fun he => hk (hsame.bijective.1 he), hsame.get]
  ids j k hjk := hsame.ids (by simpa only [update_fill_id] using hjk)
  ids' j k hjk := hsame.ids' (by simpa only [update_fill_id] using hjk)

end Sorting

structure SweepRenames (f : Fin m → Fin m') (g : Fin n → Fin n') (st : SweepState m n)
    (st' : SweepState m' n') : Prop where
  buys : SameOrders f st.buyOrders st'.buyOrders
  sells : SameOrders g st.sellOrders st'.sellOrders
  fills : st'.fills = st.fills.map fun x => (f x.1, g x.2.1, x.2.2)
  marginal : st'.marginal = st.marginal

section Sweep

variable {st : SweepState m n} {st' : SweepState m' n'}

theorem SweepRenames.fill (h : SweepRenames f g st st') (i : Fin m) (j : Fin n) (amount : Decimal) :
    SweepRenames f g (st.fill i j amount) (st'.fill (f i) (g j) amount) where
  buys := SameOrders.fill h.buys i amount
  sells := SameOrders.fill h.sells j amount
  fills := by
    simp only [SweepState.fill, h.fills, List.map_append]
    rfl
  marginal := by
    simp only [SweepState.fill, h.buys.get, h.sells.get]

theorem SweepRenames.sweep (fuel : ℕ) (is : List (Fin m)) (js : List (Fin n))
    (h : SweepRenames f g st st') :
    SweepRenames f g (sweep fuel is js st) (sweep fuel (is.map f) (js.map g) st') := by
  induction fuel generalizing is js st st' with
  | zero => exact h
  | succ fuel ih =>
    cases is with
    | nil => exact h
    | cons i is =>
      cases js with
      | nil => exact h
      | cons j js =>
        have hbuy := h.buys.get i
        have hsell := h.sells.get j
        have hfill := h.fill i j
          (min (st.buyOrders i).remainingAmount (st.sellOrders j).remainingAmount)
        have hbuy' := hfill.buys.get i
        have hsell' := hfill.sells.get j
        simp only [List.map_cons, UniformAuction.sweep, hbuy, hsell, hbuy', hsell']
        split_ifs
        · exact h
        · exact ih (i :: is) js h
        · exact ih is (j :: js) h
        · exact ih (i :: is) js h
        · exact ih is js hfill
        · exact ih is (j :: js) hfill
        · exact ih (i :: is) js hfill
        · exact ih (i :: is) (j :: js) hfill

theorem settleFills_rename (h : SweepRenames f g st st') (buyMetadata : List OrderMetadata)
    (topology : TopologySnapshot) (zone : ZoneId) (pStar : FastPrice) :
    settleFills buyMetadata topology zone pStar st' = settleFills buyMetadata topology zone pStar st := by
  simp only [settleFills, h.fills, List.map_map, Function.comp_def, h.buys.get, h.sells.get]

end Sweep

structure AuctionRenames (f : Fin m → Fin m') (g : Fin n → Fin n') (st : AuctionState m n)
    (st' : AuctionState m' n') : Prop where
  buys : SameOrders f st.buyOrders st'.buyOrders
  sells : SameOrders g st.sellOrders st'.sellOrders
  zones : st'.zones = st.zones

section Auction

variable {st : AuctionState m n} {st' : AuctionState m' n'} (buyMetadata : List OrderMetadata)
  (topology : TopologySnapshot)

theorem AuctionRenames.sweepZone (h : AuctionRenames f g st st') {buys : List (Fin m)}
    {buys' : List (Fin m')} {sells : List (Fin n)} {sells' : List (Fin n')}
    (hbuys : buys'.Perm (buys.map f)) (hsells : sells'.Perm (sells.map g)) :
    SweepRenames f g (sweepZone st buys sells) (sweepZone st' buys' sells') := by
  have hlength : buys'.length + sells'.length = buys.length + sells.length := by
    rw [hbuys.length_eq, hsells.length_eq, List.length_map, List.length_map]
  unfold UniformAuction.sweepZone
  rw [hlength, sortBuyIndices_rename h.buys hbuys, sortSellIndices_rename h.sells hsells]
  apply SweepRenames.sweep
  exact ⟨h.buys, h.sells, rfl, rfl⟩

theorem AuctionRenames.clearZone {sellsByZone : OrderedMap ZoneId (List (Fin n))}
    {sellsByZone' : OrderedMap ZoneId (List (Fin n'))}
    (hsells : ∀ zone, Option.Rel (fun places places' => places'.Perm (places.map g))
      (sellsByZone.get? zone) (sellsByZone'.get? zone))
    (h : AuctionRenames f g st st') {entry : ZoneId × List (Fin m)} {entry' : ZoneId × List (Fin m')}
    (hentry : entry'.1 = entry.1 ∧ entry'.2.Perm (entry.2.map f)) :
    AuctionRenames f g (clearZone buyMetadata topology sellsByZone st entry)
      (clearZone buyMetadata topology sellsByZone' st' entry') := by
  have hrel := hsells entry.1
  unfold UniformAuction.clearZone
  rw [hentry.1]
  generalize sellsByZone.get? entry.1 = places at hrel ⊢
  generalize sellsByZone'.get? entry.1 = places' at hrel ⊢
  cases hrel with
  | none => exact h
  | @some sells sells' hperm =>
    have hswept := h.sweepZone hentry.2 hperm
    simp only [hswept.marginal]
    cases hmarginal : (UniformAuction.sweepZone st entry.2 sells).marginal with
    | none => exact ⟨hswept.buys, hswept.sells, h.zones⟩
    | some pair =>
      refine ⟨hswept.buys, hswept.sells, ?_⟩
      simp only [h.zones, settleFills_rename hswept]

theorem AuctionRenames.foldl {sellsByZone : OrderedMap ZoneId (List (Fin n))}
    {sellsByZone' : OrderedMap ZoneId (List (Fin n'))}
    (hsells : ∀ zone, Option.Rel (fun places places' => places'.Perm (places.map g))
      (sellsByZone.get? zone) (sellsByZone'.get? zone))
    {entries : List (ZoneId × List (Fin m))} {entries' : List (ZoneId × List (Fin m'))}
    (hentries : List.Forall₂ (fun e e' => e'.1 = e.1 ∧ e'.2.Perm (e.2.map f)) entries entries')
    (h : AuctionRenames f g st st') :
    AuctionRenames f g (entries.foldl (UniformAuction.clearZone buyMetadata topology sellsByZone) st)
      (entries'.foldl (UniformAuction.clearZone buyMetadata topology sellsByZone') st') := by
  induction hentries generalizing st st' with
  | nil => exact h
  | cons hentry _ ih => exact ih (h.clearZone buyMetadata topology hsells hentry)

end Auction

theorem clearCycle_row_order {buyOrders buyOrders' sellOrders sellOrders' : List FastOrder}
    (hbuys : buyOrders'.Perm buyOrders) (hsells : sellOrders'.Perm sellOrders)
    (hbuyIds : (buyOrders.map (·.id)).Nodup) (hsellIds : (sellOrders.map (·.id)).Nodup)
    (buyMetadata : List OrderMetadata) (topology : TopologySnapshot) (nowNs : I64) :
    (clearCycle buyOrders' sellOrders' buyMetadata topology nowNs).zones =
      (clearCycle buyOrders sellOrders buyMetadata topology nowNs).zones := by
  obtain ⟨f, hf⟩ := MatchingEngine.exists_sameOrders hbuys hbuyIds
  obtain ⟨g, hg⟩ := MatchingEngine.exists_sameOrders hsells hsellIds
  have hentries := OrderedMap.forall₂_of_get? (partitionByZone_rel nowNs hf)
  exact (AuctionRenames.foldl buyMetadata topology (partitionByZone_rel nowNs hg) hentries
    ⟨hf, hg, rfl⟩).zones

end TradingService.UniformAuction

namespace TradingService

/-- Neither mechanism depends on the order in which the rows came. -/
theorem matching_row_order {buyOrders buyOrders' sellOrders sellOrders' : List FastOrder}
    (hbuys : buyOrders'.Perm buyOrders) (hsells : sellOrders'.Perm sellOrders)
    (hbuyIds : (buyOrders.map (·.id)).Nodup) (hsellIds : (sellOrders.map (·.id)).Nodup)
    (buyMetadata : List OrderMetadata) (topology : TopologySnapshot) (dynamicMultiplier : FastPrice)
    (nowNs : I64) :
    (let out := MatchingEngine.matchCycle buyOrders sellOrders buyMetadata topology dynamicMultiplier nowNs
      let out' := MatchingEngine.matchCycle buyOrders' sellOrders' buyMetadata topology dynamicMultiplier
        nowNs
      out'.results = out.results ∧ out'.stats.iocCancellations.Perm out.stats.iocCancellations ∧
        out'.buyOrders = out.buyOrders ∧ out'.sellOrders.Perm out.sellOrders) ∧
      (UniformAuction.clearCycle buyOrders' sellOrders' buyMetadata topology nowNs).zones =
        (UniformAuction.clearCycle buyOrders sellOrders buyMetadata topology nowNs).zones :=
  ⟨MatchingEngine.matchCycle_row_order hbuys hsells hbuyIds hsellIds buyMetadata topology
      dynamicMultiplier nowNs,
    UniformAuction.clearCycle_row_order hbuys hsells hbuyIds hsellIds buyMetadata topology nowNs⟩

theorem matching_row_order_two_sells :
    let buyOrders := [FastOrder.placed 1 10 5 none]
    let sellOrders := [FastOrder.placed 2 4 3 none, FastOrder.placed 3 6 4 none]
    let sellOrders' := [FastOrder.placed 3 6 4 none, FastOrder.placed 2 4 3 none]
    let grid := MatchingEngine.openGrid
    let now : I64 := BoundedInt.saturate 0
    (let out := MatchingEngine.matchCycle buyOrders sellOrders [] grid FastPrice.one now
      let out' := MatchingEngine.matchCycle buyOrders sellOrders' [] grid FastPrice.one now
      out'.results = out.results ∧ out'.stats.iocCancellations.Perm out.stats.iocCancellations ∧
        out'.buyOrders = out.buyOrders ∧ out'.sellOrders.Perm out.sellOrders) ∧
      (UniformAuction.clearCycle buyOrders sellOrders' [] grid now).zones =
        (UniformAuction.clearCycle buyOrders sellOrders [] grid now).zones :=
  matching_row_order (.refl _) (.swap _ _ _) (by decide) (by decide) [] _ _ _

end TradingService
