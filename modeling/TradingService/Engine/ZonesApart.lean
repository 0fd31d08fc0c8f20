import TradingService.Engine.Volume

/-!
# The zones of the auction are apart

The auction works on two slices that all zones share. `SweepsAlike` relates two sweeps whose
pointers are at the same orders, in whatever slices these lie; what they fill from there on is
the same. Since the zones before its turn leave the orders of a zone as they were, the turn is
that of an auction that begins with the zone, and what the zone clears is decided by its own
orders and its own tariff.
-/

namespace TradingService.UniformAuction

variable {m n m' n' : ℕ}

def filed (nowNs : I64) (zone : ZoneId) (orders : List FastOrder) : List FastOrder :=
  orders.filter fun o =>
    (minTradeAmount ≤ o.remainingAmount ∧ !o.isExpired nowNs) ∧ o.zoneId = zone

theorem filed_filed (nowNs : I64) (zone : ZoneId) (orders : List FastOrder) :
    filed nowNs zone (filed nowNs zone orders) = filed nowNs zone orders := by
  unfold filed
  rw [List.filter_filter]
  simp only [Bool.and_self]

theorem map_placesIn (orders : List FastOrder) (nowNs : I64) (zone : ZoneId) :
    (placesIn orders.get nowNs zone (List.finRange orders.length)).map orders.get =
      filed nowNs zone orders := by
  have hall : (List.finRange orders.length).map orders.get = orders := List.map_get_finRange orders
  conv_rhs => rw [← hall]
  unfold placesIn filed
  rw [List.filter_map]
  rfl

section Sorting

variable {orders : Fin n → FastOrder} {orders' : Fin n' → FastOrder} {places : List (Fin n)}
  {places' : List (Fin n')}

theorem pairwise_sortPlaces {K : Type*} [LinearOrder K] (key : FastOrder → K) :
    ((places.insertionSort fun a b => key (orders a) ≤ key (orders b)).map orders).Pairwise
      fun a b => key a ≤ key b := by
  have htotal : Std.Total fun a b => key (orders a) ≤ key (orders b) := ⟨fun a b => le_total _ _⟩
  have htrans : IsTrans (Fin n) fun a b => key (orders a) ≤ key (orders b) :=
    ⟨fun _ _ _ h h' => h.trans h'⟩
  exact List.pairwise_map.mpr (List.pairwise_insertionSort _ _)

/-- Slices with the same orders at their places are sorted alike, if the key tells the orders
apart. -/
theorem map_sortPlaces {K : Type*} [LinearOrder K] (key : FastOrder → K)
    (hkey : ∀ a b, key a = key b → a.id = b.id)
    (hperm : (places'.map orders').Perm (places.map orders))
    (hids : ((places.map orders).map (·.id)).Nodup) :
    (places'.insertionSort fun a b => key (orders' a) ≤ key (orders' b)).map orders' =
      (places.insertionSort fun a b => key (orders a) ≤ key (orders b)).map orders := by
  have hsorted : ((places.insertionSort fun a b => key (orders a) ≤ key (orders b)).map orders).Perm
      (places.map orders) := (List.perm_insertionSort _ _).map orders
  have hsorted' : ((places'.insertionSort fun a b => key (orders' a) ≤ key (orders' b)).map orders').Perm
      (places.map orders) := ((List.perm_insertionSort _ _).map orders').trans hperm
  apply (hsorted'.trans hsorted.symm).eq_of_pairwise _ (pairwise_sortPlaces key) (pairwise_sortPlaces key)
  intro a b ha hb hab hba
  exact List.inj_on_of_nodup_map hids (hsorted'.subset ha) (hsorted.subset hb) (hkey a b (le_antisymm hab hba))

theorem map_sortBuyIndices (hperm : (places'.map orders').Perm (places.map orders))
    (hids : ((places.map orders).map (·.id)).Nodup) :
    (sortBuyIndices orders' places').map orders' = (sortBuyIndices orders places).map orders :=
  map_sortPlaces MatchingEngine.buyKey (fun _ _ he => congrArg (fun k => (ofLex (ofLex k).2).2) he)
    hperm hids

theorem map_sortSellIndices (hperm : (places'.map orders').Perm (places.map orders))
    (hids : ((places.map orders).map (·.id)).Nodup) :
    (sortSellIndices orders' places').map orders' = (sortSellIndices orders places).map orders :=
  map_sortPlaces MatchingEngine.bookKey (fun _ _ he => congrArg (fun k => (ofLex (ofLex k).2).2) he)
    hperm hids

end Sorting

section Sweep

variable {buyMetadata : List OrderMetadata} {topology topology' : TopologySnapshot} {zone : ZoneId}
  {is : List (Fin m)} {js : List (Fin n)} {is' : List (Fin m')} {js' : List (Fin n')}
  {st : SweepState m n} {st' : SweepState m' n'} {i : Fin m} {j : Fin n} {i' : Fin m'} {j' : Fin n'}

structure SameFees (topology topology' : TopologySnapshot) (zone : ZoneId) : Prop where
  loss : topology'.calculateLossFactor zone zone = topology.calculateLossFactor zone zone
  wheeling : topology'.calculateWheelingCharge zone zone = topology.calculateWheelingCharge zone zone

theorem SameFees.refl (topology : TopologySnapshot) (zone : ZoneId) : SameFees topology topology zone :=
  ⟨rfl, rfl⟩

theorem settleFills_fill (buyMetadata : List OrderMetadata) (topology : TopologySnapshot) (zone : ZoneId)
    (pStar : FastPrice) (st : SweepState m n) (i : Fin m) (j : Fin n) (amount : Decimal) :
    (settleFills buyMetadata topology zone pStar (st.fill i j amount)).results =
      (settleFills buyMetadata topology zone pStar st).results ++
        [settleFill buyMetadata topology zone pStar (st.buyOrders i) (st.sellOrders j) amount] := by
  have hterms : ∀ {k : ℕ} (orders : Fin k → FastOrder) (p q : Fin k), ∃ given,
      Function.update orders p ((orders p).fill amount) q = (orders q).fill given := by
    intro k orders p q
    by_cases hq : q = p
    · exact ⟨amount, by rw [hq, Function.update_self]⟩
    · exact ⟨0, by rw [Function.update_of_ne hq, FastOrder.fill_zero]⟩
  have hresult : ∀ f : Fin m × Fin n × Decimal,
      settleFill buyMetadata topology zone pStar ((st.fill i j amount).buyOrders f.1)
          ((st.fill i j amount).sellOrders f.2.1) f.2.2 =
        settleFill buyMetadata topology zone pStar (st.buyOrders f.1) (st.sellOrders f.2.1) f.2.2 := by
    intro f
    obtain ⟨given, hbuy⟩ := hterms st.buyOrders i f.1
    obtain ⟨given', hsell⟩ := hterms st.sellOrders j f.2.1
    simp only [SweepState.fill, hbuy, hsell]
    rfl
  simp only [settleFills, hresult]
  simp only [SweepState.fill, List.map_append, List.map_cons, List.map_nil]

structure SweepsAlike (buyMetadata : List OrderMetadata) (topology topology' : TopologySnapshot)
    (zone : ZoneId) (is : List (Fin m)) (js : List (Fin n)) (is' : List (Fin m')) (js' : List (Fin n'))
    (st : SweepState m n) (st' : SweepState m' n') : Prop where
  buys : is'.map st'.buyOrders = is.map st.buyOrders
  sells : js'.map st'.sellOrders = js.map st.sellOrders
  buys_nodup : is.Nodup ∧ is'.Nodup
  sells_nodup : js.Nodup ∧ js'.Nodup
  results : ∀ pStar, (settleFills buyMetadata topology' zone pStar st').results =
    (settleFills buyMetadata topology zone pStar st).results
  marginal : st'.marginal = st.marginal

theorem map_update_of_not_mem {orders : Fin n → FastOrder} {places : List (Fin n)} {k : Fin n}
    (hk : k ∉ places) (o : FastOrder) : places.map (Function.update orders k o) = places.map orders :=
  List.map_congr_left fun _ hp => Function.update_of_ne (fun he => hk (by rwa [← he])) _ _

theorem SweepsAlike.tail_buys
    (h : SweepsAlike buyMetadata topology topology' zone (i :: is) js (i' :: is') js' st st') :
    SweepsAlike buyMetadata topology topology' zone is js is' js' st st' :=
  { h with
    buys := (List.cons.inj h.buys).2
    buys_nodup := ⟨h.buys_nodup.1.of_cons, h.buys_nodup.2.of_cons⟩ }

theorem SweepsAlike.tail_sells
    (h : SweepsAlike buyMetadata topology topology' zone is (j :: js) is' (j' :: js') st st') :
    SweepsAlike buyMetadata topology topology' zone is js is' js' st st' :=
  { h with
    sells := (List.cons.inj h.sells).2
    sells_nodup := ⟨h.sells_nodup.1.of_cons, h.sells_nodup.2.of_cons⟩ }

theorem map_update_head {orders : Fin n → FastOrder} {orders' : Fin n' → FastOrder} {k : Fin n}
    {k' : Fin n'} {places : List (Fin n)} {places' : List (Fin n')}
    (h : (k' :: places').map orders' = (k :: places).map orders) (hk : (k :: places).Nodup)
    (hk' : (k' :: places').Nodup) (amount : Decimal) :
    (k' :: places').map (Function.update orders' k' ((orders' k').fill amount)) =
      (k :: places).map (Function.update orders k ((orders k).fill amount)) := by
  obtain ⟨hhead, htail⟩ := List.cons.inj h
  rw [List.map_cons, List.map_cons, Function.update_self, Function.update_self, hhead,
    map_update_of_not_mem (List.nodup_cons.mp hk).1, map_update_of_not_mem (List.nodup_cons.mp hk').1]
  exact congrArg _ htail

theorem SweepsAlike.fill
    (h : SweepsAlike buyMetadata topology topology' zone (i :: is) (j :: js) (i' :: is') (j' :: js') st st')
    (hfees : SameFees topology topology' zone)
    (amount : Decimal) :
    SweepsAlike buyMetadata topology topology' zone (i :: is) (j :: js) (i' :: is') (j' :: js')
      (st.fill i j amount) (st'.fill i' j' amount) := by
  have hbuy : st'.buyOrders i' = st.buyOrders i := (List.cons.inj h.buys).1
  have hsell : st'.sellOrders j' = st.sellOrders j := (List.cons.inj h.sells).1
  constructor
  · exact map_update_head h.buys h.buys_nodup.1 h.buys_nodup.2 amount
  · exact map_update_head h.sells h.sells_nodup.1 h.sells_nodup.2 amount
  · exact h.buys_nodup
  · exact h.sells_nodup
  · intro pStar
    have hsettle : settleFill buyMetadata topology' zone pStar (st.buyOrders i) (st.sellOrders j) amount =
        settleFill buyMetadata topology zone pStar (st.buyOrders i) (st.sellOrders j) amount := by
      unfold settleFill
      rw [hfees.loss, hfees.wheeling]
    rw [settleFills_fill, settleFills_fill, h.results, hbuy, hsell, hsettle]
  · simp only [SweepState.fill, hbuy, hsell]

theorem SweepsAlike.sweep
    (hfees : SameFees topology topology' zone)
    (fuel : ℕ) (h : SweepsAlike buyMetadata topology topology' zone is js is' js' st st') :
    (∀ pStar, (settleFills buyMetadata topology' zone pStar (sweep fuel is' js' st')).results =
        (settleFills buyMetadata topology zone pStar (sweep fuel is js st)).results) ∧
      (sweep fuel is' js' st').marginal = (sweep fuel is js st).marginal := by
  induction fuel generalizing is js is' js' st st' with
  | zero => exact ⟨h.results, h.marginal⟩
  | succ fuel ih =>
    cases is with
    | nil =>
      obtain rfl := List.map_eq_nil_iff.mp h.buys
      exact ⟨h.results, h.marginal⟩
    | cons i is =>
      obtain ⟨i', is', rfl, hbuy, _⟩ := List.map_eq_cons_iff.mp h.buys
      cases js with
      | nil =>
        obtain rfl := List.map_eq_nil_iff.mp h.sells
        exact ⟨h.results, h.marginal⟩
      | cons j js =>
        obtain ⟨j', js', rfl, hsell, _⟩ := List.map_eq_cons_iff.mp h.sells
        have hfill := h.fill hfees (min (st.buyOrders i).remainingAmount (st.sellOrders j).remainingAmount)
        have hbuyLeft := (List.cons.inj hfill.buys).1
        have hsellLeft := (List.cons.inj hfill.sells).1
        simp only [UniformAuction.sweep, hbuy, hsell, hbuyLeft, hsellLeft]
        split_ifs
        · exact ⟨h.results, h.marginal⟩
        · exact ih h.tail_sells
        · exact ih h.tail_buys
        · exact ih h.tail_sells
        · exact ih hfill.tail_buys.tail_sells
        · exact ih hfill.tail_buys
        · exact ih hfill.tail_sells
        · exact ih hfill

end Sweep

section Turn

variable {buyMetadata : List OrderMetadata} {topology topology' : TopologySnapshot}
  {st : AuctionState m n} {st' : AuctionState m' n'} {zone : ZoneId}

theorem settleFills_eq_of_results {pStar : FastPrice} {swept : SweepState m n} {swept' : SweepState m' n'}
    (h : (settleFills buyMetadata topology' zone pStar swept').results =
      (settleFills buyMetadata topology zone pStar swept).results) :
    settleFills buyMetadata topology' zone pStar swept' = settleFills buyMetadata topology zone pStar swept := by
  have hvolume : (settleFills buyMetadata topology' zone pStar swept').clearedVolume =
      (settleFills buyMetadata topology zone pStar swept).clearedVolume := by
    rw [clearedVolume_settleFills, clearedVolume_settleFills, h]
  exact ZoneClearing.mk.injEq .. ▸ ⟨rfl, rfl, hvolume, h⟩

structure HoldSame (orders : Fin n → FastOrder) (orders' : Fin n' → FastOrder) (places : List (Fin n))
    (places' : List (Fin n')) : Prop where
  perm : (places'.map orders').Perm (places.map orders)
  ids : ((places.map orders).map (·.id)).Nodup

theorem HoldSame.nodup {orders : Fin n → FastOrder} {orders' : Fin n' → FastOrder} {places : List (Fin n)}
    {places' : List (Fin n')} (h : HoldSame orders orders' places places') : places.Nodup ∧ places'.Nodup :=
  ⟨h.ids.of_map.of_map, (((h.perm.map _).nodup_iff.mpr h.ids).of_map).of_map⟩

variable (buyMetadata) in
theorem sweepZone_alike {buys : List (Fin m)} {buys' : List (Fin m')} {sells : List (Fin n)}
    {sells' : List (Fin n')} (hbuys : HoldSame st.buyOrders st'.buyOrders buys buys')
    (hsells : HoldSame st.sellOrders st'.sellOrders sells sells')
    (hfees : SameFees topology topology' zone) :
    (∀ pStar, (settleFills buyMetadata topology' zone pStar (sweepZone st' buys' sells')).results =
        (settleFills buyMetadata topology zone pStar (sweepZone st buys sells)).results) ∧
      (sweepZone st' buys' sells').marginal = (sweepZone st buys sells).marginal := by
  have hlength : buys'.length + sells'.length = buys.length + sells.length := by
    have hbuy := hbuys.perm.length_eq
    have hsell := hsells.perm.length_eq
    simp only [List.length_map] at hbuy hsell
    omega
  have hsorted : ∀ {k : ℕ} {r : Fin k → Fin k → Prop} [DecidableRel r] {places : List (Fin k)},
      places.Nodup → (places.insertionSort r).Nodup :=
    fun h => (List.perm_insertionSort _ _).nodup_iff.mpr h
  unfold sweepZone
  rw [hlength]
  apply SweepsAlike.sweep hfees
  constructor
  · exact map_sortBuyIndices hbuys.perm hbuys.ids
  · exact map_sortSellIndices hsells.perm hsells.ids
  · exact ⟨hsorted hbuys.nodup.1, hsorted hbuys.nodup.2⟩
  · exact ⟨hsorted hsells.nodup.1, hsorted hsells.nodup.2⟩
  · intro pStar
    rfl
  · rfl

variable (buyMetadata st st') in
/-- Two auctions that are at the same orders of a zone report the same of it. -/
theorem clearZone_reports {sellsByZone : OrderedMap ZoneId (List (Fin n))}
    {sellsByZone' : OrderedMap ZoneId (List (Fin n'))} {buys : List (Fin m)} {buys' : List (Fin m')}
    (hbuys : HoldSame st.buyOrders st'.buyOrders buys buys')
    (hsells : Option.Rel (HoldSame st.sellOrders st'.sellOrders) (sellsByZone.get? zone)
      (sellsByZone'.get? zone))
    (hfees : SameFees topology topology' zone) :
    ∃ report : List ZoneClearing, (report.map (·.zoneId)).Sublist [zone] ∧
      (clearZone buyMetadata topology sellsByZone st (zone, buys)).zones = st.zones ++ report ∧
      (clearZone buyMetadata topology' sellsByZone' st' (zone, buys')).zones = st'.zones ++ report := by
  unfold clearZone
  dsimp only
  generalize sellsByZone.get? zone = places at hsells ⊢
  generalize sellsByZone'.get? zone = places' at hsells ⊢
  cases hsells with
  | none => exact ⟨[], List.nil_sublist _, (List.append_nil _).symm, (List.append_nil _).symm⟩
  | @some sells sells' hsells =>
    obtain ⟨hresults, hmarginal⟩ := sweepZone_alike buyMetadata hbuys hsells hfees
    dsimp only
    rw [hmarginal]
    cases (sweepZone st buys sells).marginal with
    | none => exact ⟨[], List.nil_sublist _, (List.append_nil _).symm, (List.append_nil _).symm⟩
    | some pair =>
      exact ⟨[_], List.Sublist.refl _, rfl,
        congrArg (fun zc => st'.zones ++ [zc]) (settleFills_eq_of_results (hresults _))⟩

end Turn

section Auction

variable {nowNs nowNs' : I64} {buys₀ : Fin m → FastOrder} {sells₀ : Fin n → FastOrder}
  {buys₀' : Fin m' → FastOrder} {sells₀' : Fin n' → FastOrder} {buyMetadata : List OrderMetadata}
  {topology topology' : TopologySnapshot} {done : List ZoneId} {st : AuctionState m n}
  {entry : ZoneId × List (Fin m)} {zone : ZoneId}

/-- What the auction would report of the zone if it began with it. -/
def zoneReport (nowNs : I64) (buys₀ : Fin m → FastOrder) (sells₀ : Fin n → FastOrder)
    (buyMetadata : List OrderMetadata) (topology : TopologySnapshot) (zone : ZoneId) : List ZoneClearing :=
  ((partitionByZone buys₀ nowNs).get? zone).elim [] fun buys =>
    (clearZone buyMetadata topology (partitionByZone sells₀ nowNs) ⟨buys₀, sells₀, [], 0, 0⟩
      (zone, buys)).zones

structure DistinctPlaces (nowNs : I64) (orders : Fin n → FastOrder) : Prop where
  ids : ∀ zone, (((placesIn orders nowNs zone (List.finRange n)).map orders).map (·.id)).Nodup

/-- The invariant of the loop over the zones, of which `done` are behind. -/
structure TurnsSoFar (nowNs : I64) (buys₀ : Fin m → FastOrder) (sells₀ : Fin n → FastOrder)
    (buyMetadata : List OrderMetadata) (topology : TopologySnapshot) (done : List ZoneId)
    (st : AuctionState m n) : Prop where
  buys_ahead : ∀ i, (buys₀ i).zoneId ∉ done → st.buyOrders i = buys₀ i
  sells_ahead : ∀ j, (sells₀ j).zoneId ∉ done → st.sellOrders j = sells₀ j
  zone_ids : (st.zones.map (·.zoneId)).Sublist done
  reported : ∀ zone ∈ done, st.zones.filter (·.zoneId = zone) =
    zoneReport nowNs buys₀ sells₀ buyMetadata topology zone

theorem TurnsSoFar.fresh (h : TurnsSoFar nowNs buys₀ sells₀ buyMetadata topology done st)
    (hnew : entry.1 ∉ done) (hget : (partitionByZone buys₀ nowNs).get? entry.1 = some entry.2)
    {sells : List (Fin n)} (hsells : (partitionByZone sells₀ nowNs).get? entry.1 = some sells) :
    Fresh nowNs entry.1 buys₀ sells₀ st entry.2 sells where
  buys_mem := files_of_mem_partition hget
  sells_mem := files_of_mem_partition hsells
  buys_eq i hi := h.buys_ahead i (hi ▸ hnew)
  sells_eq j hj := h.sells_ahead j (hj ▸ hnew)

/-- The turn of a zone leaves the orders of the others. -/
theorem TurnsSoFar.frame (h : TurnsSoFar nowNs buys₀ sells₀ buyMetadata topology done st)
    (hnew : entry.1 ∉ done) (hget : (partitionByZone buys₀ nowNs).get? entry.1 = some entry.2) :
    (∀ i, (buys₀ i).zoneId ≠ entry.1 → (clearZone buyMetadata topology (partitionByZone sells₀ nowNs) st
        entry).buyOrders i = st.buyOrders i) ∧
      ∀ j, (sells₀ j).zoneId ≠ entry.1 → (clearZone buyMetadata topology (partitionByZone sells₀ nowNs) st
        entry).sellOrders j = st.sellOrders j := by
  apply clearZone_induction (motive := fun out =>
    (∀ i, (buys₀ i).zoneId ≠ entry.1 → out.buyOrders i = st.buyOrders i) ∧
      ∀ j, (sells₀ j).zoneId ≠ entry.1 → out.sellOrders j = st.sellOrders j)
  · intro _
    exact ⟨fun _ _ => rfl, fun _ _ => rfl⟩
  · intro sells hsells _
    exact (h.fresh hnew hget hsells).frame
  · intro sells bid ask hsells _
    exact (h.fresh hnew hget hsells).frame

theorem placesIn_of_get? {orders : Fin n → FastOrder} {places : List (Fin n)}
    (hget : (partitionByZone orders nowNs).get? zone = some places) :
    places = placesIn orders nowNs zone (List.finRange n) := by
  rw [partitionByZone_get?, listed] at hget
  split_ifs at hget
  exact (Option.some.inj hget).symm

/-- Orders that are as they were on entry are the same at the places of their zone. -/
theorem HoldSame.of_ahead {orders₀ orders : Fin n → FastOrder} {places : List (Fin n)}
    (hdistinct : DistinctPlaces nowNs orders₀)
    (hget : (partitionByZone orders₀ nowNs).get? zone = some places)
    (h : ∀ i, (orders₀ i).zoneId = zone → orders i = orders₀ i) :
    HoldSame orders₀ orders places places where
  perm := by
    rw [List.map_congr_left fun i hi => h i ((files_of_mem_partition hget i).mp hi).zone]
  ids := by
    rw [placesIn_of_get? hget]
    exact hdistinct.ids zone

/-- The turn of a zone adds the report that the zone would have on its own. -/
theorem TurnsSoFar.report (h : TurnsSoFar nowNs buys₀ sells₀ buyMetadata topology done st)
    (hbuys : DistinctPlaces nowNs buys₀) (hsells : DistinctPlaces nowNs sells₀)
    (hnew : entry.1 ∉ done) (hget : (partitionByZone buys₀ nowNs).get? entry.1 = some entry.2) :
    ((zoneReport nowNs buys₀ sells₀ buyMetadata topology entry.1).map (·.zoneId)).Sublist [entry.1] ∧
      (clearZone buyMetadata topology (partitionByZone sells₀ nowNs) st entry).zones =
        st.zones ++ zoneReport nowNs buys₀ sells₀ buyMetadata topology entry.1 := by
  have hbuy : HoldSame buys₀ st.buyOrders entry.2 entry.2 :=
    .of_ahead hbuys hget fun i hi => h.buys_ahead i (hi ▸ hnew)
  have hsell : Option.Rel (HoldSame sells₀ st.sellOrders) ((partitionByZone sells₀ nowNs).get? entry.1)
      ((partitionByZone sells₀ nowNs).get? entry.1) := by
    cases hplaces : (partitionByZone sells₀ nowNs).get? entry.1 with
    | none => exact .none
    | some places => exact .some (.of_ahead hsells hplaces fun j hj => h.sells_ahead j (hj ▸ hnew))
  obtain ⟨report, hzones, hown, hturn⟩ := clearZone_reports buyMetadata ⟨buys₀, sells₀, [], 0, 0⟩ st hbuy
    hsell (.refl topology entry.1)
  have hreport : zoneReport nowNs buys₀ sells₀ buyMetadata topology entry.1 = report := by
    rw [zoneReport, hget]
    exact hown
  rw [hreport]
  exact ⟨hzones, hturn⟩

theorem TurnsSoFar.clearZone (h : TurnsSoFar nowNs buys₀ sells₀ buyMetadata topology done st)
    (hbuys : DistinctPlaces nowNs buys₀) (hsells : DistinctPlaces nowNs sells₀)
    (hnew : entry.1 ∉ done) (hget : (partitionByZone buys₀ nowNs).get? entry.1 = some entry.2) :
    TurnsSoFar nowNs buys₀ sells₀ buyMetadata topology (done ++ [entry.1])
      (clearZone buyMetadata topology (partitionByZone sells₀ nowNs) st entry) := by
  obtain ⟨hbuysFrame, hsellsFrame⟩ := h.frame hnew hget
  obtain ⟨hown, hzones⟩ := h.report hbuys hsells hnew hget
  have hreport : ∀ zc ∈ zoneReport nowNs buys₀ sells₀ buyMetadata topology entry.1, zc.zoneId = entry.1 :=
    fun zc hzc => List.mem_singleton.mp (hown.subset (List.mem_map_of_mem hzc))
  constructor
  · intro i hi
    rw [List.mem_append, List.mem_singleton, not_or] at hi
    exact (hbuysFrame i hi.2).trans (h.buys_ahead i hi.1)
  · intro j hj
    rw [List.mem_append, List.mem_singleton, not_or] at hj
    exact (hsellsFrame j hj.2).trans (h.sells_ahead j hj.1)
  · rw [hzones, List.map_append]
    exact h.zone_ids.append hown
  · intro zone hzone
    rw [hzones, List.filter_append]
    rcases List.mem_append.mp hzone with hbehind | hturn
    · have hnone : (zoneReport nowNs buys₀ sells₀ buyMetadata topology entry.1).filter
          (·.zoneId = zone) = [] := by
        apply List.filter_eq_nil_iff.mpr
        intro zc hzc hid
        exact hnew (hreport zc hzc ▸ of_decide_eq_true hid ▸ hbehind)
      rw [hnone, List.append_nil, h.reported zone hbehind]
    · obtain rfl := List.mem_singleton.mp hturn
      have hnone : st.zones.filter (·.zoneId = entry.1) = [] := by
        apply List.filter_eq_nil_iff.mpr
        intro zc hzc hid
        exact hnew (of_decide_eq_true hid ▸ h.zone_ids.subset (List.mem_map_of_mem hzc))
      rw [hnone, List.nil_append]
      exact List.filter_eq_self.mpr fun zc hzc => decide_eq_true (hreport zc hzc)

theorem TurnsSoFar.foldl (entries : List (ZoneId × List (Fin m)))
    (h : TurnsSoFar nowNs buys₀ sells₀ buyMetadata topology done st)
    (hbuys : DistinctPlaces nowNs buys₀) (hsells : DistinctPlaces nowNs sells₀)
    (hzones : (done ++ entries.map Prod.fst).Nodup)
    (hentries : ∀ e ∈ entries, (partitionByZone buys₀ nowNs).get? e.1 = some e.2) :
    TurnsSoFar nowNs buys₀ sells₀ buyMetadata topology (done ++ entries.map Prod.fst)
      (entries.foldl (UniformAuction.clearZone buyMetadata topology (partitionByZone sells₀ nowNs)) st) := by
  induction entries generalizing done st with
  | nil => simpa using h
  | cons e entries ih =>
    rw [List.map_cons, List.append_cons] at hzones ⊢
    obtain ⟨hhead, htail⟩ := List.forall_mem_cons.mp hentries
    have hnew : e.1 ∉ done := by
      have hfront := (List.nodup_append.mp hzones).1
      rw [List.nodup_append] at hfront
      exact fun hmem => hfront.2.2 _ hmem _ (List.mem_singleton_self _) rfl
    exact ih (h.clearZone hbuys hsells hnew hhead) hzones htail

/-- What a zone would report on its own is decided by the orders it sweeps and by its tariff. -/
theorem zoneReport_congr
    (hbuys : HoldSame buys₀ buys₀' (placesIn buys₀ nowNs zone (List.finRange m))
      (placesIn buys₀' nowNs' zone (List.finRange m')))
    (hsells : HoldSame sells₀ sells₀' (placesIn sells₀ nowNs zone (List.finRange n))
      (placesIn sells₀' nowNs' zone (List.finRange n')))
    (hfees : SameFees topology topology' zone) :
    zoneReport nowNs' buys₀' sells₀' buyMetadata topology' zone =
      zoneReport nowNs buys₀ sells₀ buyMetadata topology zone := by
  have hlisted : ∀ {k k' : ℕ} {orders : Fin k → FastOrder} {orders' : Fin k' → FastOrder}
      {places : List (Fin k)} {places' : List (Fin k')}, HoldSame orders orders' places places' →
        Option.Rel (HoldSame orders orders') (listed places) (listed places') := by
    intro k k' orders orders' places places' h
    have hlength := h.perm.length_eq
    simp only [List.length_map] at hlength
    unfold listed
    cases places with
    | nil =>
      rw [List.length_eq_zero_iff.mp hlength]
      exact .none
    | cons p places =>
      cases places' with
      | nil => cases hlength
      | cons p' places' => exact .some h
  have hbuy := hlisted hbuys
  have hsell := hlisted hsells
  rw [← partitionByZone_get?, ← partitionByZone_get?] at hbuy hsell
  unfold zoneReport
  generalize (partitionByZone buys₀ nowNs).get? zone = places at hbuy ⊢
  generalize (partitionByZone buys₀' nowNs').get? zone = places' at hbuy ⊢
  cases hbuy with
  | none => rfl
  | @some buys buys' hbuy =>
    obtain ⟨report, _, hown, hown'⟩ := clearZone_reports buyMetadata ⟨buys₀, sells₀, [], 0, 0⟩
      ⟨buys₀', sells₀', [], 0, 0⟩ hbuy hsell hfees
    exact hown'.trans hown.symm

end Auction

section Cycle

variable {buyOrders sellOrders buyOrders' sellOrders' : List FastOrder}

theorem DistinctPlaces.of_nodup {orders : List FastOrder} (nowNs : I64)
    (hids : (orders.map (·.id)).Nodup) : DistinctPlaces nowNs orders.get where
  ids zone := by
    rw [map_placesIn]
    exact hids.sublist (List.filter_sublist.map _)

/-- What the auction reports of a zone is what it would report of the zone alone, and the zones
are reported in ascending order. -/
theorem clearCycle_turns (hbuyIds : (buyOrders.map (·.id)).Nodup)
    (hsellIds : (sellOrders.map (·.id)).Nodup) (buyMetadata : List OrderMetadata)
    (topology : TopologySnapshot) (nowNs : I64) :
    let out := clearCycle buyOrders sellOrders buyMetadata topology nowNs
    (out.zones.map (·.zoneId)).Sublist ((partitionByZone buyOrders.get nowNs).toList.map Prod.fst) ∧
      ∀ zone, out.zones.filter (·.zoneId = zone) =
        zoneReport nowNs buyOrders.get sellOrders.get buyMetadata topology zone := by
  intro out
  have hstart : TurnsSoFar nowNs buyOrders.get sellOrders.get buyMetadata topology []
      ⟨buyOrders.get, sellOrders.get, [], 0, 0⟩ :=
    ⟨fun _ _ => rfl, fun _ _ => rfl, .refl _, fun _ h => absurd h List.not_mem_nil⟩
  have hrun : TurnsSoFar nowNs buyOrders.get sellOrders.get buyMetadata topology
      ([] ++ (partitionByZone buyOrders.get nowNs).toList.map Prod.fst) out :=
    hstart.foldl _ (.of_nodup nowNs hbuyIds) (.of_nodup nowNs hsellIds)
      (by simpa using OrderedMap.keys_nodup (partitionByZone buyOrders.get nowNs))
      fun e he => OrderedMap.get?_eq_some.mpr he
  rw [List.nil_append] at hrun
  refine ⟨hrun.zone_ids, fun zone => ?_⟩
  by_cases hlisted : zone ∈ (partitionByZone buyOrders.get nowNs).toList.map Prod.fst
  · exact hrun.reported zone hlisted
  · have hnone : (partitionByZone buyOrders.get nowNs).get? zone = none := by
      simpa [OrderedMap.mem_keys] using hlisted
    have hfilter : out.zones.filter (·.zoneId = zone) = [] := by
      apply List.filter_eq_nil_iff.mpr
      intro zc hzc hid
      exact hlisted (of_decide_eq_true hid ▸ hrun.zone_ids.subset (List.mem_map_of_mem hzc))
    rw [hfilter, zoneReport, hnone]
    rfl

/-- Two auctions whose slices hold the same orders of a zone report the same of it. -/
theorem clearCycle_zone_congr {nowNs nowNs' : I64} {topology topology' : TopologySnapshot} {zone : ZoneId}
    (hbuyIds : (buyOrders.map (·.id)).Nodup) (hsellIds : (sellOrders.map (·.id)).Nodup)
    (hbuyIds' : (buyOrders'.map (·.id)).Nodup) (hsellIds' : (sellOrders'.map (·.id)).Nodup)
    (hbuys : (filed nowNs' zone buyOrders').Perm (filed nowNs zone buyOrders))
    (hsells : (filed nowNs' zone sellOrders').Perm (filed nowNs zone sellOrders))
    (hfees : SameFees topology topology' zone) (buyMetadata : List OrderMetadata) :
    (clearCycle buyOrders' sellOrders' buyMetadata topology' nowNs').zones.filter (·.zoneId = zone) =
      (clearCycle buyOrders sellOrders buyMetadata topology nowNs).zones.filter (·.zoneId = zone) := by
  rw [(clearCycle_turns hbuyIds hsellIds buyMetadata topology nowNs).2,
    (clearCycle_turns hbuyIds' hsellIds' buyMetadata topology' nowNs').2]
  apply zoneReport_congr
  · refine ⟨?_, (DistinctPlaces.of_nodup nowNs hbuyIds).ids zone⟩
    rw [map_placesIn, map_placesIn]
    exact hbuys
  · refine ⟨?_, (DistinctPlaces.of_nodup nowNs hsellIds).ids zone⟩
    rw [map_placesIn, map_placesIn]
    exact hsells
  · exact hfees

end Cycle

/-- Every zone is auctioned on its own. The zones are reported in ascending order, each at most
once; what is reported of a zone is the whole report of an auction over the zone's live orders,
and it is the same for every other book, clock and tariff that agree on these orders and on the
tariff inside the zone. -/
theorem clearCycle_zones_apart (buyOrders sellOrders : List FastOrder) (buyMetadata : List OrderMetadata)
    (topology : TopologySnapshot) (nowNs : I64) (hbuyIds : (buyOrders.map (·.id)).Nodup)
    (hsellIds : (sellOrders.map (·.id)).Nodup) :
    let out := clearCycle buyOrders sellOrders buyMetadata topology nowNs
    out.zones.Pairwise (fun zc zc' => zc.zoneId < zc'.zoneId) ∧
      ∀ zone, out.zones.filter (·.zoneId = zone) =
          (clearCycle (filed nowNs zone buyOrders) (filed nowNs zone sellOrders) buyMetadata topology
            nowNs).zones ∧
        ∀ (buyOrders' sellOrders' : List FastOrder) (topology' : TopologySnapshot) (nowNs' : I64),
          (buyOrders'.map (·.id)).Nodup → (sellOrders'.map (·.id)).Nodup →
          (filed nowNs' zone buyOrders').Perm (filed nowNs zone buyOrders) →
          (filed nowNs' zone sellOrders').Perm (filed nowNs zone sellOrders) →
          SameFees topology topology' zone →
            (clearCycle buyOrders' sellOrders' buyMetadata topology' nowNs').zones.filter
              (·.zoneId = zone) = out.zones.filter (·.zoneId = zone) := by
  intro out
  have hturns := clearCycle_turns hbuyIds hsellIds buyMetadata topology nowNs
  refine ⟨?_, fun zone => ⟨?_, fun _ _ _ _ hbuyIds' hsellIds' hbuys hsells hfees =>
    clearCycle_zone_congr hbuyIds hsellIds hbuyIds' hsellIds' hbuys hsells hfees buyMetadata⟩⟩
  · have hkeys : ((partitionByZone buyOrders.get nowNs).toList.map Prod.fst).Pairwise (· < ·) :=
      List.pairwise_map.mpr (partitionByZone buyOrders.get nowNs).sorted
    exact List.pairwise_map.mp (hkeys.sublist hturns.1)
  · have hbuyIds' : ((filed nowNs zone buyOrders).map (·.id)).Nodup :=
      hbuyIds.sublist (List.filter_sublist.map _)
    have hsellIds' : ((filed nowNs zone sellOrders).map (·.id)).Nodup :=
      hsellIds.sublist (List.filter_sublist.map _)
    have hsame := clearCycle_zone_congr hbuyIds hsellIds hbuyIds' hsellIds'
      (.of_eq (filed_filed nowNs zone buyOrders)) (.of_eq (filed_filed nowNs zone sellOrders))
      (.refl topology zone) buyMetadata
    rw [← hsame]
    apply List.filter_eq_self.mpr
    intro zc hzc
    have hkey := (clearCycle_turns hbuyIds' hsellIds' buyMetadata topology nowNs).1.subset
      (List.mem_map_of_mem hzc)
    obtain ⟨places, hplaces⟩ := Option.isSome_iff_exists.mp (OrderedMap.mem_keys.mp hkey)
    have hne : placesIn (filed nowNs zone buyOrders).get nowNs zc.zoneId
        (List.finRange (filed nowNs zone buyOrders).length) ≠ [] := by
      intro hnil
      rw [partitionByZone_get?, hnil] at hplaces
      cases hplaces
    obtain ⟨i, hi⟩ := List.exists_mem_of_ne_nil _ hne
    have hown : ((filed nowNs zone buyOrders).get i).zoneId = zc.zoneId :=
      (of_decide_eq_true (List.mem_filter.mp hi).2).2
    have hzone : ((filed nowNs zone buyOrders).get i).zoneId = zone :=
      (of_decide_eq_true (List.mem_filter.mp (List.get_mem _ i)).2).2
    exact decide_eq_true (hown.symm.trans hzone)

theorem clearCycle_zones_apart_two_zones :
    let nowhere : ZoneId := none
    let first : ZoneId := some (BoundedInt.saturate 1)
    let buys := [FastOrder.placed 1 6 2 nowhere]
    let sells := [FastOrder.placed 2 4 3 nowhere]
    let buys' := FastOrder.placed 3 9 5 first :: buys
    let sells' := FastOrder.placed 4 1 5 first :: sells
    let grid := MatchingEngine.openGrid
    let now : I64 := BoundedInt.saturate 0
    ((clearCycle buys' sells' [] grid now).zones.map (·.clearedVolume)) = [2, 5] ∧
      (clearCycle buys' sells' [] grid now).zones.filter (·.zoneId = nowhere) =
        (clearCycle buys sells [] grid now).zones.filter (·.zoneId = nowhere) := by
  intro nowhere first buys sells buys' sells' grid now
  refine ⟨by decide +kernel, ?_⟩
  obtain ⟨_, hzones⟩ := clearCycle_zones_apart buys sells [] grid now
    (by decide) (by decide)
  obtain ⟨_, hlocal⟩ := hzones nowhere
  apply hlocal
  · decide
  · decide
  · exact .of_eq (by decide +kernel)
  · exact .of_eq (by decide +kernel)
  · exact .refl grid nowhere

end TradingService.UniformAuction
