import TradingService.Engine.Priority

/-!
# The order of the rows

The engine refers to sells by their place in the slice. Two slices of the same orders
differ by a renaming of these places, and every part of the cycle commutes with it:
the books, the merge, the simulation and the drain. The books of the two slices
themselves are renamings of each other, since a key holds the id of its order.
-/

namespace TradingService.MatchingEngine

variable {n n' : ℕ}

def Candidate.rename (f : Fin n → Fin n') (c : Candidate n) : Candidate n' :=
  { sellIdx := f c.sellIdx
    landed := c.landed
    wheeling := c.wheeling
    loss := c.loss
    lossCost := c.lossCost
    sortPrice := c.sortPrice
    sortTime := c.sortTime
    sortId := c.sortId }

def renameRange (f : Fin n → Fin n') (range : List (BookKey × Fin n)) : List (BookKey × Fin n') :=
  range.map fun e => (e.1, f e.2)

def HeapHead.rename (f : Fin n → Fin n') (h : HeapHead n) : HeapHead n' :=
  { cand := h.cand.rename f
    fees := h.fees
    range := renameRange f h.range }

def renameGathered (f : Fin n → Fin n') (p : List (Candidate n) × Bool) : List (Candidate n') × Bool :=
  (p.1.map (Candidate.rename f), p.2)

section Gather

variable {f : Fin n → Fin n'} {sellOrders : Fin n → FastOrder} {sellOrders' : Fin n' → FastOrder}
  (hsells : ∀ i, sellOrders' (f i) = sellOrders i) (buy : FastOrder) (needAtStart : Decimal)
  (topology : TopologySnapshot) (dynamicMultiplier : FastPrice) (earlyStop : Bool)
include hsells

theorem priceSell_rename (fees : ZoneFees) (i : Fin n) :
    priceSell sellOrders' buy needAtStart topology dynamicMultiplier fees (f i) =
      (priceSell sellOrders buy needAtStart topology dynamicMultiplier fees i).map (Candidate.rename f) := by
  unfold priceSell pricedCandidate
  rw [hsells]
  split_ifs <;> rfl

theorem drainRange_rename (fees : ZoneFees) (gathered : Decimal) (range : List (BookKey × Fin n)) :
    drainRange sellOrders' buy needAtStart topology dynamicMultiplier earlyStop fees gathered
        (renameRange f range) =
      renameGathered f (drainRange sellOrders buy needAtStart topology dynamicMultiplier earlyStop fees
        gathered range) := by
  induction range generalizing gathered with
  | nil => rfl
  | cons e range ih =>
    have hrange : renameRange f (e :: range) = (e.1, f e.2) :: renameRange f range := rfl
    rw [hrange, drainRange, drainRange, priceSell_rename hsells]
    cases priceSell sellOrders buy needAtStart topology dynamicMultiplier fees e.2 with
    | none => exact ih gathered
    | some c =>
      simp only [Option.map_some, hsells, ih]
      split_ifs <;> rfl

theorem nextPriced_rename (fees : ZoneFees) (range : List (BookKey × Fin n)) :
    nextPriced sellOrders' buy needAtStart topology dynamicMultiplier fees (renameRange f range) =
      (nextPriced sellOrders buy needAtStart topology dynamicMultiplier fees range).map
        fun p => (p.1.rename f, renameRange f p.2) := by
  induction range with
  | nil => rfl
  | cons e range ih =>
    have hrange : renameRange f (e :: range) = (e.1, f e.2) :: renameRange f range := rfl
    rw [hrange, nextPriced, nextPriced, priceSell_rename hsells]
    cases priceSell sellOrders buy needAtStart topology dynamicMultiplier fees e.2 with
    | none => exact ih
    | some c => rfl

theorem drainCursor_rename (fees : ZoneFees) (fuel : ℕ) (gathered : Decimal)
    (range : List (BookKey × Fin n)) :
    drainCursor sellOrders' buy needAtStart topology dynamicMultiplier earlyStop fees fuel gathered
        (renameRange f range) =
      renameGathered f (drainCursor sellOrders buy needAtStart topology dynamicMultiplier earlyStop fees
        fuel gathered range) := by
  induction fuel generalizing gathered range with
  | zero => rfl
  | succ fuel ih =>
    rw [drainCursor, drainCursor, nextPriced_rename hsells]
    cases nextPriced sellOrders buy needAtStart topology dynamicMultiplier fees range with
    | none => rfl
    | some p =>
      simp only [Option.map_some, Candidate.rename, hsells, ih]
      split_ifs <;> rfl

theorem pushNext_rename (fees : ZoneFees) (range : List (BookKey × Fin n)) :
    pushNext sellOrders' buy needAtStart topology dynamicMultiplier fees (renameRange f range) =
      (pushNext sellOrders buy needAtStart topology dynamicMultiplier fees range).map
        (HeapHead.rename f) := by
  unfold pushNext
  rw [nextPriced_rename hsells]
  cases nextPriced sellOrders buy needAtStart topology dynamicMultiplier fees range with
  | none => rfl
  | some p => rfl

theorem drainHeap_rename (fuel : ℕ) (gathered : Decimal) (heap : List (HeapHead n)) :
    drainHeap sellOrders' buy needAtStart topology dynamicMultiplier earlyStop fuel gathered
        (heap.map (HeapHead.rename f)) =
      renameGathered f (drainHeap sellOrders buy needAtStart topology dynamicMultiplier earlyStop fuel
        gathered heap) := by
  induction fuel generalizing gathered heap with
  | zero => rfl
  | succ fuel ih =>
    have hkey : (fun h : HeapHead n => (h.rename f).cand.key) = fun h => h.cand.key := rfl
    rw [drainHeap, drainHeap, KWayMerge.popMin_map, hkey]
    cases KWayMerge.popMin (fun h : HeapHead n => h.cand.key) heap with
    | none => rfl
    | some p =>
      have hpush := pushNext_rename hsells buy needAtStart topology dynamicMultiplier p.1.fees p.1.range
      simp only [Option.map_some, HeapHead.rename, Candidate.rename, hsells] at hpush ⊢
      split_ifs
      · rfl
      · have hrest := ih (gathered + (sellOrders p.1.cand.sellIdx).remainingAmount)
          (pushNext sellOrders buy needAtStart topology dynamicMultiplier p.1.fees p.1.range ++ p.2)
        rw [List.map_append, ← pushNext_rename hsells] at hrest
        exact congrArg (fun rest : List (Candidate n') × Bool => (p.1.cand.rename f :: rest.1, rest.2)) hrest

def renameBooks (f : Fin n → Fin n') (zoneBooks : ZoneBooks n) : ZoneBooks n' :=
  zoneBooks.mapValues (OrderedMap.mapValues f)

omit hsells in
theorem crossingRange_rename (book : OrderedMap BookKey (Fin n)) :
    crossingRange buy (book.mapValues f) = renameRange f (crossingRange buy book) :=
  OrderedMap.rangeTo_mapValues f book _

omit hsells in
theorem reachableCursors_rename (zoneBooks : ZoneBooks n) :
    reachableCursors (renameBooks f zoneBooks) buy topology =
      (reachableCursors zoneBooks buy topology).map fun c => (c.1, renameRange f c.2) := by
  unfold reachableCursors renameBooks OrderedMap.mapValues
  rw [List.filterMap_map, List.map_filterMap]
  apply List.filterMap_congr
  intro e _
  simp only [Function.comp_apply]
  split_ifs
  · exact congrArg (fun r => some (zoneFees buy topology e.1, r)) (crossingRange_rename buy e.2)
  · rfl

theorem gatherCandidates_rename (zoneBooks : ZoneBooks n) :
    gatherCandidates (renameBooks f zoneBooks) sellOrders' buy needAtStart topology dynamicMultiplier
        earlyStop =
      renameGathered f (gatherCandidates zoneBooks sellOrders buy needAtStart topology dynamicMultiplier
        earlyStop) := by
  have hcursors := reachableCursors_rename (f := f) buy topology zoneBooks
  have hbooks : (renameBooks f zoneBooks).toList =
      zoneBooks.toList.map fun e => (e.1, e.2.mapValues f) := rfl
  unfold gatherCandidates
  rw [hbooks, hcursors]
  rcases zoneBooks.toList with - | ⟨⟨zone, book⟩, - | ⟨next, rest⟩⟩
  · rfl
  · simp only [List.map_cons, List.map_nil]
    split_ifs
    · rw [crossingRange_rename]
      exact drainRange_rename hsells buy needAtStart topology dynamicMultiplier earlyStop _ 0 _
    · rfl
  · simp only [List.map_cons]
    rcases reachableCursors zoneBooks buy topology with - | ⟨⟨fees, range⟩, - | ⟨c, cs⟩⟩
    · rfl
    · have hlength : (renameRange f range).length = range.length := List.length_map _
      simp only [List.map_cons, List.map_nil, hlength]
      exact drainCursor_rename hsells buy needAtStart topology dynamicMultiplier earlyStop fees _ 0 range
    · have hheap : ((((fees, range) :: c :: cs).map fun c => (c.1, renameRange f c.2)).flatMap fun cur =>
          pushNext sellOrders' buy needAtStart topology dynamicMultiplier cur.1 cur.2) =
          (((fees, range) :: c :: cs).flatMap fun cur =>
            pushNext sellOrders buy needAtStart topology dynamicMultiplier cur.1 cur.2).map
              (HeapHead.rename f) := by
        rw [List.flatMap_map, List.map_flatMap]
        apply List.flatMap_congr
        intro cur _
        exact pushNext_rename hsells buy needAtStart topology dynamicMultiplier cur.1 cur.2
      have hfuel : ∀ heap : List (HeapHead n),
          ((heap.map (HeapHead.rename f)).map fun h => h.range.length + 1) =
            heap.map fun h => h.range.length + 1 := by
        intro heap
        rw [List.map_map]
        apply List.map_congr_left
        intro h _
        exact congrArg (· + 1) (List.length_map _)
      simp only [List.map_cons] at hheap ⊢
      rw [hheap, hfuel]
      exact drainHeap_rename hsells buy needAtStart topology dynamicMultiplier earlyStop _ 0 _

end Gather

structure Renames (f : Fin n → Fin n') (st : CycleState n) (st' : CycleState n') : Prop where
  sells : ∀ i, st'.sellOrders (f i) = st.sellOrders i
  books : st'.zoneBooks = renameBooks f st.zoneBooks
  flow : st'.committedFlow = st.committedFlow
  results : st'.results = st.results
  created : st'.matchesCreated = st.matchesCreated
  volume : st'.totalVolume = st.totalVolume

section Cycle

variable {f : Fin n → Fin n'} (hf : Function.Injective f) {st : CycleState n} {st' : CycleState n'}
  {buy : FastOrder} (buyMetadata : List OrderMetadata) (topology : TopologySnapshot)
  (dynamicMultiplier : FastPrice) (nowNs : I64)

theorem cleanupBook_rename (zoneBooks : ZoneBooks n) (sell : FastOrder) :
    cleanupBook (renameBooks f zoneBooks) sell = renameBooks f (cleanupBook zoneBooks sell) := by
  unfold cleanupBook
  split_ifs
  · exact OrderedMap.adjust_mapValues (fun book => OrderedMap.erase_mapValues f book _) zoneBooks sell.zoneId
  · rfl

include hf in
theorem Renames.commitMatch (h : Renames f st st') (c : Candidate n) (amount : Decimal) :
    Renames f (commitMatch st buy c buyMetadata amount)
      (commitMatch st' buy (c.rename f) buyMetadata amount) := by
  have hsell : st'.sellOrders (c.rename f).sellIdx = st.sellOrders c.sellIdx := h.sells c.sellIdx
  refine ⟨fun i => ?_, ?_, ?_, ?_, ?_, ?_⟩
  · by_cases hi : i = c.sellIdx
    · rw [hi]
      exact (commitMatch_sellOrders_self st' buy (c.rename f) buyMetadata amount).trans
        ((congrArg (FastOrder.fill · amount) hsell).trans
          (commitMatch_sellOrders_self st buy c buyMetadata amount).symm)
    · rw [commitMatch_sellOrders_of_ne st buy c buyMetadata amount hi,
        commitMatch_sellOrders_of_ne st' buy (c.rename f) buyMetadata amount fun he => hi (hf he)]
      exact h.sells i
  · simp only [MatchingEngine.commitMatch, hsell, h.books]
    exact cleanupBook_rename st.zoneBooks _
  · simp only [MatchingEngine.commitMatch, hsell, h.flow]
  · simp only [MatchingEngine.commitMatch, hsell, h.results]
    rfl
  · simp only [MatchingEngine.commitMatch, h.created]
  · simp only [MatchingEngine.commitMatch, h.volume]

def RenamesPass (f : Fin n → Fin n') (p : CycleState n × FastOrder) (p' : CycleState n' × FastOrder) :
    Prop := Renames f p.1 p'.1 ∧ p'.2 = p.2

include hf in
theorem RenamesPass.drain (cs : List (Candidate n)) {p : CycleState n × FastOrder}
    {p' : CycleState n' × FastOrder} (h : RenamesPass f p p') :
    RenamesPass f (drain buyMetadata topology cs p)
      (drain buyMetadata topology (cs.map (Candidate.rename f)) p') := by
  induction cs generalizing p p' with
  | nil => exact h
  | cons c cs ih =>
    have hsell : p'.1.sellOrders (c.rename f).sellIdx = p.1.sellOrders c.sellIdx := h.1.sells c.sellIdx
    rw [List.map_cons, MatchingEngine.drain, MatchingEngine.drain, h.2]
    split_ifs
    · exact h
    · apply ih
      unfold drainStep
      rw [hsell, h.1.flow]
      cases admittedTake topology (p.1.sellOrders c.sellIdx) p.2 p.1.committedFlow p.2.remainingAmount with
      | none => exact ⟨h.1, rfl⟩
      | some amount => exact ⟨h.1.commitMatch hf buyMetadata c amount, rfl⟩

theorem simulateFok_rename {sellOrders : Fin n → FastOrder} {sellOrders' : Fin n' → FastOrder}
    (hsells : ∀ i, sellOrders' (f i) = sellOrders i) (cs : List (Candidate n))
    (flow : ZoneId × ZoneId → Decimal) (need : Decimal) :
    simulateFok topology sellOrders' buy (cs.map (Candidate.rename f)) flow need =
      simulateFok topology sellOrders buy cs flow need := by
  induction cs generalizing flow need with
  | nil => rfl
  | cons c cs ih =>
    have hsell : sellOrders' (c.rename f).sellIdx = sellOrders c.sellIdx := hsells c.sellIdx
    rw [List.map_cons, simulateFok, simulateFok]
    simp only [hsell, ih]

include hf in
theorem RenamesPass.scanPass {p : CycleState n × FastOrder} {p' : CycleState n' × FastOrder}
    (h : RenamesPass f p p') (needAtStart : Decimal) (fullScan : Bool) :
    RenamesPass f (scanPass buyMetadata topology dynamicMultiplier needAtStart fullScan p).1
        (scanPass buyMetadata topology dynamicMultiplier needAtStart fullScan p').1 ∧
      (scanPass buyMetadata topology dynamicMultiplier needAtStart fullScan p').2 =
        (scanPass buyMetadata topology dynamicMultiplier needAtStart fullScan p).2 := by
  have hgather := gatherCandidates_rename h.1.sells p.2 needAtStart topology dynamicMultiplier (!fullScan)
    p.1.zoneBooks
  have hdrain := h.drain hf buyMetadata topology (gatherCandidates p.1.zoneBooks p.1.sellOrders p.2
    needAtStart topology dynamicMultiplier (!fullScan)).1
  unfold MatchingEngine.scanPass
  simp only [h.1.books, h.2, hgather, renameGathered, h.1.flow, simulateFok_rename topology h.1.sells]
  split_ifs
  · exact ⟨⟨h.1, h.2⟩, rfl⟩
  · exact ⟨hdrain, by rw [hdrain.2]⟩

include hf in
theorem Renames.matchBuy (buy : FastOrder) (h : Renames f st st') :
    RenamesPass f (matchBuy buyMetadata topology dynamicMultiplier nowNs st buy)
      (matchBuy buyMetadata topology dynamicMultiplier nowNs st' buy) := by
  have hstart : RenamesPass f (st, buy) (st', buy) := ⟨h, rfl⟩
  obtain ⟨hfirst, hflag⟩ := hstart.scanPass hf buyMetadata topology dynamicMultiplier buy.remainingAmount
    (buy.timeInForce = .fok)
  unfold MatchingEngine.matchBuy
  simp only [hflag]
  split_ifs
  · exact hstart
  · exact (hfirst.scanPass hf buyMetadata topology dynamicMultiplier buy.remainingAmount true).1
  · exact hfirst

include hf in
theorem Renames.matchBuys (buys : List FastOrder) (h : Renames f st st') :
    Renames f (matchBuys buyMetadata topology dynamicMultiplier nowNs buys st).1
        (matchBuys buyMetadata topology dynamicMultiplier nowNs buys st').1 ∧
      (matchBuys buyMetadata topology dynamicMultiplier nowNs buys st').2 =
        (matchBuys buyMetadata topology dynamicMultiplier nowNs buys st).2 := by
  unfold MatchingEngine.matchBuys
  induction buys generalizing st st' with
  | nil => exact ⟨h, rfl⟩
  | cons buy buys ih =>
    obtain ⟨hstate, hbuy⟩ := h.matchBuy hf buyMetadata topology dynamicMultiplier nowNs buy
    obtain ⟨hrest, hbuys⟩ := ih hstate
    exact ⟨hrest, by simp only [overBuys, hbuy, hbuys]⟩

end Cycle

section Slices

/-- Two slices of the same orders, and the renaming of their places. -/
structure SameOrders (f : Fin n → Fin n') (orders : Fin n → FastOrder) (orders' : Fin n' → FastOrder) :
    Prop where
  bijective : Function.Bijective f
  get : ∀ i, orders' (f i) = orders i
  ids : Function.Injective fun i => (orders i).id
  ids' : Function.Injective fun i => (orders' i).id

theorem exists_sameOrders {orders orders' : List FastOrder} (hperm : orders'.Perm orders)
    (hids : (orders.map (·.id)).Nodup) :
    ∃ f : Fin orders.length → Fin orders'.length, SameOrders f orders.get orders'.get := by
  have hids' : (orders'.map (·.id)).Nodup := (hperm.map _).nodup_iff.mpr hids
  have hinj : ∀ {l : List FastOrder}, (l.map (·.id)).Nodup → Function.Injective fun i => (l.get i).id := by
    intro l hl i j hij
    exact List.nodup_iff_injective_get.mp hl.of_map
      (List.inj_on_of_nodup_map hl (List.get_mem l i) (List.get_mem l j) hij)
  have hplace : ∀ i : Fin orders.length, ∃ j, orders'.get j = orders.get i :=
    fun i => List.mem_iff_get.mp (hperm.symm.subset (List.get_mem orders i))
  choose f hf using hplace
  refine ⟨f, ⟨fun i j hij => ?_, fun j => ?_⟩, hf, hinj hids, hinj hids'⟩
  · apply hinj hids
    show (orders.get i).id = (orders.get j).id
    rw [← hf i, ← hf j, hij]
  · obtain ⟨i, hi⟩ := List.mem_iff_get.mp (hperm.subset (List.get_mem orders' j))
    refine ⟨i, hinj hids' ?_⟩
    show (orders'.get (f i)).id = (orders'.get j).id
    rw [hf, hi]

variable {f : Fin n → Fin n'} {orders : Fin n → FastOrder} {orders' : Fin n' → FastOrder} {nowNs : I64}

theorem buildZoneBooks_ne_nil {zone : ZoneId} {book : OrderedMap BookKey (Fin n)}
    (h : (zone, book) ∈ (buildZoneBooks nowNs orders).toList) : book.toList ≠ [] := by
  suffices hfold : ∀ (is : List (Fin n)) (zoneBooks : ZoneBooks n),
      (∀ e ∈ zoneBooks.toList, e.2.toList ≠ []) →
        ∀ e ∈ (is.foldl (fileSell nowNs orders) zoneBooks).toList, e.2.toList ≠ [] from
    hfold _ ∅ (by simp) _ h
  intro is
  induction is with
  | nil => exact fun _ h => h
  | cons i is ih =>
    intro zoneBooks hbooks
    refine ih _ fun e he => ?_
    unfold fileSell at he
    dsimp only at he
    split_ifs at he
    · obtain ⟨zone', book'⟩ := e
      rcases OrderedMap.mem_insert.mp he with ⟨_, rfl⟩ | ⟨_, he⟩
      · have hkey := OrderedMap.mem_insert.mpr (.inl ⟨rfl, rfl⟩ :
          bookKey (orders i) = bookKey (orders i) ∧ i = i ∨ bookKey (orders i) ≠ bookKey (orders i) ∧
            (bookKey (orders i), i) ∈ ((zoneBooks.get? (orders i).zoneId).getD ∅).toList)
        exact List.ne_nil_of_mem hkey
      · exact hbooks _ he
    · exact hbooks e he

theorem SameOrders.books (h : SameOrders f orders orders') :
    buildZoneBooks nowNs orders' = renameBooks f (buildZoneBooks nowNs orders) := by
  have hbooked : Booked nowNs orders (buildZoneBooks nowNs orders) := booked_buildZoneBooks h.ids
  have hbooked' : Booked nowNs orders' (buildZoneBooks nowNs orders') := booked_buildZoneBooks h.ids'
  have hbook : ∀ zone book book', (zone, book) ∈ (buildZoneBooks nowNs orders).toList →
      (zone, book') ∈ (buildZoneBooks nowNs orders').toList → book' = book.mapValues f := by
    intro zone book book' hb hb'
    apply OrderedMap.ext_of_mem
    rintro ⟨k, j⟩
    obtain ⟨i, rfl⟩ := h.bijective.2 j
    rw [OrderedMap.mem_mapValues]
    have hiff := hbooked.mem_iff hb (k := k) (i := i)
    have hiff' := hbooked'.mem_iff hb' (k := k) (i := f i)
    simp only [h.get] at hiff'
    constructor
    · intro hmem
      exact ⟨i, hiff.mpr (hiff'.mp hmem), rfl⟩
    · rintro ⟨i', hi', heq⟩
      obtain rfl := h.bijective.1 heq
      exact hiff'.mpr (hiff.mp hi')
  apply OrderedMap.ext_of_mem
  rintro ⟨zone, book'⟩
  unfold renameBooks
  rw [OrderedMap.mem_mapValues]
  constructor
  · intro hmem
    obtain ⟨⟨k, j⟩, hj⟩ := List.exists_mem_of_ne_nil _ (buildZoneBooks_ne_nil hmem)
    obtain ⟨hlive, rfl, _⟩ := hbooked'.sound zone book' hmem k j hj
    obtain ⟨i, rfl⟩ := h.bijective.2 j
    rw [h.get] at hlive hmem ⊢
    obtain ⟨book, hb, _⟩ := hbooked.complete i hlive
    exact ⟨book, hb, (hbook _ book book' hb hmem).symm⟩
  · rintro ⟨book, hb, rfl⟩
    obtain ⟨⟨k, i⟩, hi⟩ := List.exists_mem_of_ne_nil _ (buildZoneBooks_ne_nil hb)
    obtain ⟨hlive, hzone, _⟩ := hbooked.sound zone book hb k i hi
    have hlive' := hlive
    rw [← h.get] at hlive'
    obtain ⟨book', hb', _⟩ := hbooked'.complete (f i) hlive'
    rw [h.get, hzone] at hb'
    rwa [hbook zone book book' hb hb'] at hb'

theorem SameOrders.initialState (h : SameOrders f orders orders') :
    Renames f (initialState nowNs orders) (initialState nowNs orders') :=
  ⟨h.get, h.books, rfl, rfl, rfl, rfl⟩

theorem ofFn_perm (hf : Function.Bijective f) (h : ∀ i, orders' (f i) = orders i) :
    (List.ofFn orders').Perm (List.ofFn orders) := by
  have hplaces : (List.finRange n').Perm ((List.finRange n).map f) := by
    refine (List.perm_ext_iff_of_nodup (List.nodup_finRange n')
      ((List.nodup_finRange n).map hf.1)).mpr fun j => ?_
    obtain ⟨i, rfl⟩ := hf.2 j
    simp
  have hmap := hplaces.map orders'
  rw [List.map_map] at hmap
  rw [List.ofFn_eq_map, List.ofFn_eq_map]
  convert hmap using 2
  funext i
  exact (h i).symm

theorem sortBuys_perm {buyOrders buyOrders' : List FastOrder} (hperm : buyOrders'.Perm buyOrders)
    (hids : (buyOrders.map (·.id)).Nodup) : sortBuys buyOrders' = sortBuys buyOrders := by
  have hsorted : (sortBuys buyOrders').Perm (sortBuys buyOrders) :=
    ((List.perm_insertionSort _ _).trans hperm).trans (List.perm_insertionSort _ _).symm
  refine hsorted.eq_of_pairwise (fun a b ha hb hab hba => ?_)
    (List.pairwise_map.mp (sortBuys_keys_sorted buyOrders'))
    (List.pairwise_map.mp (sortBuys_keys_sorted buyOrders))
  have hkey : buyKey a = buyKey b := le_antisymm hab hba
  have hid : a.id = b.id := congrArg (fun k => (ofLex (ofLex k).2).2) hkey
  have ha : a ∈ buyOrders := hperm.subset ((List.perm_insertionSort _ _).subset ha)
  have hb : b ∈ buyOrders := (List.perm_insertionSort _ _).subset hb
  exact List.inj_on_of_nodup_map hids ha hb hid

end Slices

/-- The cycle does not depend on the order of its slices. -/
theorem matchCycle_row_order {buyOrders buyOrders' sellOrders sellOrders' : List FastOrder}
    (hbuys : buyOrders'.Perm buyOrders) (hsells : sellOrders'.Perm sellOrders)
    (hbuyIds : (buyOrders.map (·.id)).Nodup) (hsellIds : (sellOrders.map (·.id)).Nodup)
    (buyMetadata : List OrderMetadata) (topology : TopologySnapshot) (dynamicMultiplier : FastPrice)
    (nowNs : I64) :
    let out := matchCycle buyOrders sellOrders buyMetadata topology dynamicMultiplier nowNs
    let out' := matchCycle buyOrders' sellOrders' buyMetadata topology dynamicMultiplier nowNs
    out'.results = out.results ∧
      out'.stats.iocCancellations.Perm out.stats.iocCancellations ∧
      out'.buyOrders = out.buyOrders ∧ out'.sellOrders.Perm out.sellOrders := by
  intro out out'
  obtain ⟨f, hf⟩ := exists_sameOrders hsells hsellIds
  have hinitial : Renames f (initialState nowNs sellOrders.get) (initialState nowNs sellOrders'.get) :=
    hf.initialState
  obtain ⟨hstate, hfinal⟩ := hinitial.matchBuys hf.bijective.1 buyMetadata topology
    (guardMultiplier dynamicMultiplier) nowNs (sortBuys buyOrders)
  have hsort := sortBuys_perm hbuys hbuyIds
  have hsellsOut : out'.sellOrders.Perm out.sellOrders := by
    simp only [out, out', matchCycle, finishCycle, hsort]
    exact ofFn_perm hf.bijective hstate.sells
  have hbuysOut : out'.buyOrders = out.buyOrders := by
    simp only [out, out', matchCycle, finishCycle, hsort]
    exact hfinal
  refine ⟨?_, ?_, hbuysOut, hsellsOut⟩
  · simp only [out, out', matchCycle, finishCycle, hsort]
    exact hstate.results
  · have hall : (out'.buyOrders ++ out'.sellOrders).Perm (out.buyOrders ++ out.sellOrders) := by
      rw [hbuysOut]
      exact hsellsOut.append_left _
    exact (hall.filter _).map _

end TradingService.MatchingEngine
