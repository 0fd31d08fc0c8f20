import TradingService.Engine.MatchCycle

/-!
# The ways of gathering

Candidates are gathered from the only book, along the cursor of the only
reachable zone, or by merging the cursors of several. Where two of the three
apply they collect the same candidates and stop at the same one, and on books
that file each sell under its own key the merge gives the landed order.
-/

namespace TradingService.MatchingEngine

variable {n : ℕ}

def Keyed (sellOrders : Fin n → FastOrder) (zoneBooks : ZoneBooks n) : Prop :=
  ∀ zb ∈ zoneBooks.toList, ∀ e ∈ zb.2.toList, bookKey (sellOrders e.2) = e.1

instance (sellOrders : Fin n → FastOrder) (zoneBooks : ZoneBooks n) :
    Decidable (Keyed sellOrders zoneBooks) := inferInstanceAs (Decidable (∀ _ ∈ _, _))

def AsksNonneg (sellOrders : Fin n → FastOrder) (zoneBooks : ZoneBooks n) : Prop :=
  ∀ zb ∈ zoneBooks.toList, ∀ e ∈ zb.2.toList, (0 : ℤ) ≤ (sellOrders e.2).price.raw

instance (sellOrders : Fin n → FastOrder) (zoneBooks : ZoneBooks n) :
    Decidable (AsksNonneg sellOrders zoneBooks) := inferInstanceAs (Decidable (∀ _ ∈ _, _))

section Prices

variable {sellOrders : Fin n → FastOrder} {buy : FastOrder} {needAtStart : Decimal}
  {topology : TopologySnapshot} {dynamicMultiplier : FastPrice}

structure Prices (sellOrders : Fin n → FastOrder) (buy : FastOrder) (fees : ZoneFees)
    (dynamicMultiplier : FastPrice) (i : Fin n) (c : Candidate n) : Prop where
  sellIdx : c.sellIdx = i
  landed : c.landed = landedCost (sellOrders i).price fees dynamicMultiplier
  sortKey : toLex (c.sortPrice, toLex (c.sortTime, c.sortId)) = bookKey (sellOrders i)
  crosses : (sellOrders i).price ≤ buy.price

theorem prices_of_priceSell {fees : ZoneFees} {i : Fin n} {c : Candidate n}
    (h : priceSell sellOrders buy needAtStart topology dynamicMultiplier fees i = some c) :
    Prices sellOrders buy fees dynamicMultiplier i c := by
  unfold priceSell pricedCandidate at h
  split_ifs at h with hself hask hflow hbid
  obtain rfl := Option.some.inj h
  exact ⟨rfl, rfl, rfl, not_lt.mp hask⟩

end Prices

section Ranges

variable (sellOrders : Fin n → FastOrder) (buy : FastOrder) (needAtStart : Decimal)
  (topology : TopologySnapshot) (dynamicMultiplier : FastPrice)

def pricedRange (fees : ZoneFees) (range : List (BookKey × Fin n)) : List (Candidate n) :=
  range.filterMap fun e => priceSell sellOrders buy needAtStart topology dynamicMultiplier fees e.2

variable {sellOrders buy needAtStart topology dynamicMultiplier} {zoneBooks : ZoneBooks n}

/-- Inside one zone the book order is the landed order. -/
theorem pricedRange_sorted (hkeyed : Keyed sellOrders zoneBooks)
    (hasks : AsksNonneg sellOrders zoneBooks) (hmul : (0 : ℤ) ≤ dynamicMultiplier.raw)
    {zone : ZoneId} {book : OrderedMap BookKey (Fin n)} (hbook : (zone, book) ∈ zoneBooks.toList)
    (fees : ZoneFees) :
    (pricedRange sellOrders buy needAtStart topology dynamicMultiplier fees
      (crossingRange buy book)).Pairwise fun a b => a.key < b.key := by
  refine List.pairwise_filterMap.mpr ((book.rangeTo_sorted _).imp_of_mem ?_)
  rintro ⟨k, i⟩ ⟨l, j⟩ hk hl hlt a ha b hb
  have hpa := prices_of_priceSell ha
  have hpb := prices_of_priceSell hb
  have hki : bookKey (sellOrders i) = k := hkeyed _ hbook _ (OrderedMap.mem_rangeTo.mp hk).1
  have hlj : bookKey (sellOrders j) = l := hkeyed _ hbook _ (OrderedMap.mem_rangeTo.mp hl).1
  have hsort : bookKey (sellOrders i) < bookKey (sellOrders j) := by rwa [hki, hlj]
  have hask : (sellOrders i).price ≤ (sellOrders j).price := by
    rcases Prod.Lex.toLex_lt_toLex.mp hsort with h | h
    · exact h.le
    · exact h.1.le
  have hlanded : a.landed ≤ b.landed := by
    rw [hpa.landed, hpb.landed]
    exact landedCost_mono fees (hasks _ hbook _ (OrderedMap.mem_rangeTo.mp hk).1) hask hmul
  unfold Candidate.key
  rw [Prod.Lex.toLex_lt_toLex, hpa.sortKey, hpb.sortKey]
  rcases hlanded.lt_or_eq with h | h
  · exact .inl h
  · exact .inr ⟨h, hsort⟩

/-- A crossing ask is inside the range whatever its arrival and id. -/
theorem bookKey_le_crossing {i : Fin n} (h : (sellOrders i).price ≤ buy.price) :
    bookKey (sellOrders i) ≤ toLex (buy.price, toLex (BoundedInt.top, Uuid.max)) := by
  refine Prod.Lex.toLex_le_toLex.mpr ?_
  rcases h.lt_or_eq with hlt | heq
  · exact .inl hlt
  · refine .inr ⟨heq, Prod.Lex.toLex_le_toLex.mpr ?_⟩
    have htop : (sellOrders i).createdAtNs ≤ BoundedInt.top := BoundedInt.le_top _
    rcases htop.lt_or_eq with hlt | heq
    · exact .inl hlt
    · exact .inr ⟨heq, Fin.le_last _⟩

end Ranges

section Paths

variable (sellOrders : Fin n → FastOrder) (buy : FastOrder) (needAtStart : Decimal)
  (topology : TopologySnapshot) (dynamicMultiplier : FastPrice) (earlyStop : Bool)

def restingEnergy (c : Candidate n) : Decimal := (sellOrders c.sellIdx).remainingAmount

theorem drainRange_eq (fees : ZoneFees) (gathered : Decimal) (range : List (BookKey × Fin n)) :
    drainRange sellOrders buy needAtStart topology dynamicMultiplier earlyStop fees gathered range =
      KWayMerge.takeCovering (restingEnergy sellOrders) needAtStart earlyStop gathered
        (pricedRange sellOrders buy needAtStart topology dynamicMultiplier fees range) := by
  induction range generalizing gathered with
  | nil => rfl
  | cons e range ih =>
    unfold drainRange pricedRange
    rw [List.filterMap_cons]
    cases hc : priceSell sellOrders buy needAtStart topology dynamicMultiplier fees e.2 with
    | none => exact ih gathered
    | some c =>
      simp only [KWayMerge.takeCovering, restingEnergy, (prices_of_priceSell hc).sellIdx]
      rw [ih]
      rfl

theorem nextPriced_none {fees : ZoneFees} {range : List (BookKey × Fin n)}
    (h : nextPriced sellOrders buy needAtStart topology dynamicMultiplier fees range = none) :
    pricedRange sellOrders buy needAtStart topology dynamicMultiplier fees range = [] := by
  induction range with
  | nil => rfl
  | cons e range ih =>
    unfold nextPriced at h
    unfold pricedRange
    rw [List.filterMap_cons]
    cases hc : priceSell sellOrders buy needAtStart topology dynamicMultiplier fees e.2 with
    | none => exact ih (by simpa only [hc] using h)
    | some c => simp only [hc, reduceCtorEq] at h

theorem nextPriced_some {fees : ZoneFees} {range range' : List (BookKey × Fin n)} {c : Candidate n}
    (h : nextPriced sellOrders buy needAtStart topology dynamicMultiplier fees range =
      some (c, range')) :
    pricedRange sellOrders buy needAtStart topology dynamicMultiplier fees range =
        c :: pricedRange sellOrders buy needAtStart topology dynamicMultiplier fees range' ∧
      range'.length < range.length := by
  induction range with
  | nil => simp only [nextPriced, reduceCtorEq] at h
  | cons e range ih =>
    unfold nextPriced at h
    unfold pricedRange
    rw [List.filterMap_cons, List.length_cons]
    cases hc : priceSell sellOrders buy needAtStart topology dynamicMultiplier fees e.2 with
    | none =>
      obtain ⟨hlist, hlen⟩ := ih (by simpa only [hc] using h)
      exact ⟨hlist, hlen.trans (Nat.lt_succ_self _)⟩
    | some d =>
      simp only [hc, Option.some.injEq, Prod.mk.injEq] at h
      obtain ⟨rfl, rfl⟩ := h
      exact ⟨rfl, Nat.lt_succ_self _⟩

theorem drainCursor_eq (fees : ZoneFees) (fuel : ℕ) (gathered : Decimal)
    (range : List (BookKey × Fin n)) (hfuel : range.length < fuel) :
    drainCursor sellOrders buy needAtStart topology dynamicMultiplier earlyStop fees fuel gathered
        range =
      KWayMerge.takeCovering (restingEnergy sellOrders) needAtStart earlyStop gathered
        (pricedRange sellOrders buy needAtStart topology dynamicMultiplier fees range) := by
  induction fuel generalizing gathered range with
  | zero => omega
  | succ fuel ih =>
    rw [drainCursor]
    cases hn : nextPriced sellOrders buy needAtStart topology dynamicMultiplier fees range with
    | none =>
      rw [nextPriced_none _ _ _ _ _ hn]
      rfl
    | some p =>
      obtain ⟨hlist, hlen⟩ := nextPriced_some _ _ _ _ _ hn
      rw [hlist, KWayMerge.takeCovering]
      dsimp only
      rw [ih _ _ (by omega)]
      rfl

def HeapHead.stream (h : HeapHead n) : KWayMerge.Stream (Candidate n) :=
  (h.cand, pricedRange sellOrders buy needAtStart topology dynamicMultiplier h.fees h.range)

theorem pushNext_stream (fees : ZoneFees) (range : List (BookKey × Fin n)) :
    (pushNext sellOrders buy needAtStart topology dynamicMultiplier fees range).map
        (HeapHead.stream sellOrders buy needAtStart topology dynamicMultiplier) =
      KWayMerge.Stream.ofList
        (pricedRange sellOrders buy needAtStart topology dynamicMultiplier fees range) := by
  unfold pushNext
  cases hn : nextPriced sellOrders buy needAtStart topology dynamicMultiplier fees range with
  | none =>
    rw [nextPriced_none _ _ _ _ _ hn]
    rfl
  | some p =>
    rw [(nextPriced_some _ _ _ _ _ hn).1]
    rfl

theorem drainHeap_eq (fuel : ℕ) (gathered : Decimal) (heap : List (HeapHead n)) :
    drainHeap sellOrders buy needAtStart topology dynamicMultiplier earlyStop fuel gathered heap =
      KWayMerge.takeCovering (restingEnergy sellOrders) needAtStart earlyStop gathered
        (KWayMerge.mergeHeads Candidate.key fuel
          (heap.map (HeapHead.stream sellOrders buy needAtStart topology dynamicMultiplier))) := by
  induction fuel generalizing gathered heap with
  | zero => rfl
  | succ fuel ih =>
    rw [drainHeap, KWayMerge.mergeHeads, KWayMerge.popMin_map]
    have hkey : (fun h : HeapHead n => Candidate.key (HeapHead.stream sellOrders buy needAtStart
        topology dynamicMultiplier h).1) = fun h => h.cand.key := rfl
    rw [hkey]
    cases hp : KWayMerge.popMin (fun h : HeapHead n => h.cand.key) heap with
    | none => rfl
    | some p =>
      obtain ⟨head, heap'⟩ := p
      dsimp only [Option.map_some]
      rw [KWayMerge.takeCovering]
      dsimp only
      rw [ih, List.map_append, pushNext_stream]
      rfl

end Paths

section Merge

variable (zoneBooks : ZoneBooks n) (sellOrders : Fin n → FastOrder) (buy : FastOrder)
  (needAtStart : Decimal) (topology : TopologySnapshot) (dynamicMultiplier : FastPrice)

/-- What the merge of all cursors gives when nothing stops it. -/
def mergedCursors : List (Candidate n) :=
  let heap := (reachableCursors zoneBooks buy topology).flatMap fun cur =>
    pushNext sellOrders buy needAtStart topology dynamicMultiplier cur.1 cur.2
  KWayMerge.mergeHeads Candidate.key (heap.map fun h => h.range.length + 1).sum
    (heap.map (HeapHead.stream sellOrders buy needAtStart topology dynamicMultiplier))

theorem pending_le_fuel (heap : List (HeapHead n)) :
    KWayMerge.pending
        (heap.map (HeapHead.stream sellOrders buy needAtStart topology dynamicMultiplier)) ≤
      (heap.map fun h => h.range.length + 1).sum := by
  rw [KWayMerge.pending, List.map_map]
  exact List.sum_le_sum fun h _ => Nat.succ_le_succ (List.length_filterMap_le _ _)

variable {zoneBooks sellOrders buy needAtStart topology dynamicMultiplier}

theorem cursors_streams :
    ((reachableCursors zoneBooks buy topology).flatMap fun cur =>
        pushNext sellOrders buy needAtStart topology dynamicMultiplier cur.1 cur.2).map
        (HeapHead.stream sellOrders buy needAtStart topology dynamicMultiplier) =
      (reachableCursors zoneBooks buy topology).flatMap fun cur => KWayMerge.Stream.ofList
        (pricedRange sellOrders buy needAtStart topology dynamicMultiplier cur.1 cur.2) := by
  rw [List.map_flatMap]
  exact congrArg (List.flatMap · _) (funext fun cur => pushNext_stream _ _ _ _ _ _ _)

theorem mergedCursors_perm :
    (mergedCursors zoneBooks sellOrders buy needAtStart topology dynamicMultiplier).Perm
      ((reachableCursors zoneBooks buy topology).flatMap fun cur =>
        pricedRange sellOrders buy needAtStart topology dynamicMultiplier cur.1 cur.2) := by
  refine (KWayMerge.mergeHeads_perm Candidate.key _ _ (pending_le_fuel _ _ _ _ _ _)).trans ?_
  rw [cursors_streams, KWayMerge.contents_flatMap_ofList]

/-- Every cursor is in landed order, so what they merge into is. -/
theorem mergedCursors_sorted (hkeyed : Keyed sellOrders zoneBooks)
    (hasks : AsksNonneg sellOrders zoneBooks) (hmul : (0 : ℤ) ≤ dynamicMultiplier.raw) :
    (mergedCursors zoneBooks sellOrders buy needAtStart topology dynamicMultiplier).Pairwise
      fun a b => a.key ≤ b.key := by
  refine KWayMerge.mergeHeads_sorted Candidate.key _ _ (pending_le_fuel _ _ _ _ _ _) fun h hh => ?_
  rw [cursors_streams] at hh
  obtain ⟨cur, hcur, hh⟩ := List.mem_flatMap.mp hh
  obtain ⟨⟨zone, book⟩, hbook, hcur⟩ := List.mem_filterMap.mp hcur
  dsimp only at hcur
  split_ifs at hcur
  obtain rfl := Option.some.inj hcur
  rw [← KWayMerge.Stream.mem_ofList.mp hh]
  exact (pricedRange_sorted hkeyed hasks hmul hbook _).imp le_of_lt

theorem mergedCursors_of_none (h : reachableCursors zoneBooks buy topology = []) :
    mergedCursors zoneBooks sellOrders buy needAtStart topology dynamicMultiplier = [] := by
  rw [mergedCursors, h]
  rfl

/-- A single cursor needs no merge, whatever order its range is in. -/
theorem mergedCursors_of_single {fees : ZoneFees} {range : List (BookKey × Fin n)}
    (h : reachableCursors zoneBooks buy topology = [(fees, range)]) :
    mergedCursors zoneBooks sellOrders buy needAtStart topology dynamicMultiplier =
      pricedRange sellOrders buy needAtStart topology dynamicMultiplier fees range := by
  have hfuel := pending_le_fuel sellOrders buy needAtStart topology dynamicMultiplier
    (pushNext sellOrders buy needAtStart topology dynamicMultiplier fees range)
  rw [pushNext_stream, KWayMerge.pending_eq_length, KWayMerge.contents_ofList] at hfuel
  rw [mergedCursors, h, List.flatMap_singleton, pushNext_stream]
  exact KWayMerge.mergeHeads_ofList Candidate.key _ _ hfuel

end Merge

section Gathers

variable (zoneBooks : ZoneBooks n) (sellOrders : Fin n → FastOrder) (buy : FastOrder)
  (needAtStart : Decimal) (topology : TopologySnapshot) (dynamicMultiplier : FastPrice)
  (earlyStop : Bool)

def gatherOnlyBook : Option (List (Candidate n) × Bool) :=
  match zoneBooks.toList with
  | [] => some ([], false)
  | [(sellZoneId, book)] =>
    some (if topology.canAccommodateFlow sellZoneId buy.zoneId minTradeAmount then
      drainRange sellOrders buy needAtStart topology dynamicMultiplier earlyStop
        (zoneFees buy topology sellZoneId) 0 (crossingRange buy book)
    else ([], false))
  | _ => none

def gatherOnlyCursor : Option (List (Candidate n) × Bool) :=
  match reachableCursors zoneBooks buy topology with
  | [(fees, range)] =>
    some (drainCursor sellOrders buy needAtStart topology dynamicMultiplier earlyStop fees
      (range.length + 1) 0 range)
  | _ => none

def gatherHeap : List (Candidate n) × Bool :=
  let heap := (reachableCursors zoneBooks buy topology).flatMap fun (fees, range) =>
    pushNext sellOrders buy needAtStart topology dynamicMultiplier fees range
  drainHeap sellOrders buy needAtStart topology dynamicMultiplier earlyStop
    ((heap.map fun h => h.range.length + 1).sum) 0 heap

theorem gatherCandidates_paths :
    gatherCandidates zoneBooks sellOrders buy needAtStart topology dynamicMultiplier earlyStop =
      ((gatherOnlyBook zoneBooks sellOrders buy needAtStart topology dynamicMultiplier earlyStop).or
        (gatherOnlyCursor zoneBooks sellOrders buy needAtStart topology dynamicMultiplier
          earlyStop)).getD
        (gatherHeap zoneBooks sellOrders buy needAtStart topology dynamicMultiplier earlyStop) := by
  rcases hbooks : zoneBooks.toList with _ | ⟨⟨zone, book⟩, _ | ⟨zb, rest⟩⟩
  · simp only [gatherCandidates, gatherOnlyBook, hbooks, Option.some_or, Option.getD_some]
  · simp only [gatherCandidates, gatherOnlyBook, hbooks, Option.some_or, Option.getD_some]
  · simp only [gatherCandidates, gatherOnlyBook, gatherOnlyCursor, hbooks, Option.none_or]
    rcases hcur : reachableCursors zoneBooks buy topology with _ | ⟨⟨fees, range⟩, _ | ⟨cur, curs⟩⟩
    · simp only [gatherHeap, hcur, Option.getD_none]
    · simp only [Option.getD_some]
    · simp only [gatherHeap, hcur, Option.getD_none]

variable {zoneBooks sellOrders buy needAtStart topology dynamicMultiplier earlyStop}

theorem gatherHeap_eq :
    gatherHeap zoneBooks sellOrders buy needAtStart topology dynamicMultiplier earlyStop =
      KWayMerge.takeCovering (restingEnergy sellOrders) needAtStart earlyStop 0
        (mergedCursors zoneBooks sellOrders buy needAtStart topology dynamicMultiplier) :=
  drainHeap_eq _ _ _ _ _ _ _ _ _

/-- Where the only cursor applies, the heap would collect the same. -/
theorem gatherHeap_of_onlyCursor {r : List (Candidate n) × Bool}
    (h : gatherOnlyCursor zoneBooks sellOrders buy needAtStart topology dynamicMultiplier
      earlyStop = some r) :
    gatherHeap zoneBooks sellOrders buy needAtStart topology dynamicMultiplier earlyStop = r := by
  unfold gatherOnlyCursor at h
  split at h
  next fees range hcur =>
    rw [gatherHeap_eq, mergedCursors_of_single hcur, ← Option.some.inj h]
    exact (drainCursor_eq _ _ _ _ _ _ _ _ _ _ (Nat.lt_succ_self _)).symm
  next => exact absurd h (Option.some_ne_none r).symm

/-- Where there is no book or one, the heap would collect the same. -/
theorem gatherHeap_of_onlyBook {r : List (Candidate n) × Bool}
    (h : gatherOnlyBook zoneBooks sellOrders buy needAtStart topology dynamicMultiplier
      earlyStop = some r) :
    gatherHeap zoneBooks sellOrders buy needAtStart topology dynamicMultiplier earlyStop = r := by
  unfold gatherOnlyBook at h
  rw [gatherHeap_eq]
  split at h
  next hbooks =>
    have hcur : reachableCursors zoneBooks buy topology = [] := by simp [reachableCursors, hbooks]
    rw [mergedCursors_of_none hcur, ← Option.some.inj h]
    rfl
  next zone book hbooks =>
    rw [← Option.some.inj h]
    by_cases hflow : topology.canAccommodateFlow zone buy.zoneId minTradeAmount
    · have hcur : reachableCursors zoneBooks buy topology =
          [(zoneFees buy topology zone, crossingRange buy book)] := by
        simp [reachableCursors, hbooks, hflow]
      rw [mergedCursors_of_single hcur, if_pos hflow, drainRange_eq]
    · have hcur : reachableCursors zoneBooks buy topology = [] := by
        simp [reachableCursors, hbooks, hflow]
      rw [mergedCursors_of_none hcur, if_neg hflow]
      rfl
  next => exact absurd h (Option.some_ne_none r).symm

/-- Whatever the books hold, the candidates are those of the merged cursors, up to
the first that covers the need when the engine may stop early. -/
theorem gatherCandidates_merged (earlyStop : Bool) :
    gatherCandidates zoneBooks sellOrders buy needAtStart topology dynamicMultiplier earlyStop =
      KWayMerge.takeCovering (restingEnergy sellOrders) needAtStart earlyStop 0
        (mergedCursors zoneBooks sellOrders buy needAtStart topology dynamicMultiplier) := by
  rw [gatherCandidates_paths, ← gatherHeap_eq]
  cases hbook : gatherOnlyBook zoneBooks sellOrders buy needAtStart topology dynamicMultiplier
      earlyStop with
  | some r => exact (gatherHeap_of_onlyBook hbook).symm
  | none =>
    cases hcur : gatherOnlyCursor zoneBooks sellOrders buy needAtStart topology dynamicMultiplier
        earlyStop with
    | some r => exact (gatherHeap_of_onlyCursor hcur).symm
    | none => rfl

end Gathers

section Accepted

variable (zoneBooks : ZoneBooks n) (sellOrders : Fin n → FastOrder) (buy : FastOrder)
  (needAtStart : Decimal) (topology : TopologySnapshot) (dynamicMultiplier : FastPrice)

def acceptedSells : List (Candidate n) :=
  zoneBooks.toList.flatMap fun (sellZoneId, book) =>
    if topology.canAccommodateFlow sellZoneId buy.zoneId minTradeAmount then
      book.toList.filterMap fun (_, sellIdx) => priceSell sellOrders buy needAtStart topology
        dynamicMultiplier (zoneFees buy topology sellZoneId) sellIdx
    else []

variable {zoneBooks sellOrders buy needAtStart topology dynamicMultiplier}

/-- The range leaves out only asks above the bid, which are never accepted. -/
theorem pricedRange_crossingRange {book : OrderedMap BookKey (Fin n)}
    (hkeyed : ∀ e ∈ book.toList, bookKey (sellOrders e.2) = e.1) (fees : ZoneFees) :
    pricedRange sellOrders buy needAtStart topology dynamicMultiplier fees
        (crossingRange buy book) =
      book.toList.filterMap fun e =>
        priceSell sellOrders buy needAtStart topology dynamicMultiplier fees e.2 := by
  unfold pricedRange crossingRange OrderedMap.rangeTo
  rw [List.filterMap_filter]
  refine List.filterMap_congr fun e he => ?_
  cases hc : priceSell sellOrders buy needAtStart topology dynamicMultiplier fees e.2 with
  | none => exact ite_self _
  | some c =>
    have hle := bookKey_le_crossing (prices_of_priceSell hc).crosses
    rw [hkeyed e he] at hle
    exact if_pos (decide_eq_true hle)

theorem cursors_accepted (hkeyed : Keyed sellOrders zoneBooks) :
    ((reachableCursors zoneBooks buy topology).flatMap fun cur =>
        pricedRange sellOrders buy needAtStart topology dynamicMultiplier cur.1 cur.2) =
      acceptedSells zoneBooks sellOrders buy needAtStart topology dynamicMultiplier := by
  unfold reachableCursors acceptedSells
  rw [List.filterMap_eq_flatMap_toList, List.flatMap_assoc]
  refine List.flatMap_congr fun zb hzb => ?_
  dsimp only
  split_ifs with hflow
  · rw [Option.toList_some, List.flatMap_singleton, pricedRange_crossingRange (hkeyed zb hzb)]
  · rfl

/-- A gather is a sorted prefix of the accepted sells, on each of its paths. Without
early stop it holds all of them, in landed order as long as the multiplier is not
negative. With early stop it is cut at the shortest prefix that is not empty and
reaches the need, and says so. -/
theorem gatherCandidates_landed_cut (hkeyed : Keyed sellOrders zoneBooks)
    (hasks : AsksNonneg sellOrders zoneBooks) :
    let gather := gatherCandidates zoneBooks sellOrders buy needAtStart topology dynamicMultiplier
    let onlyBook := gatherOnlyBook zoneBooks sellOrders buy needAtStart topology dynamicMultiplier
    let onlyCursor :=
      gatherOnlyCursor zoneBooks sellOrders buy needAtStart topology dynamicMultiplier
    let heap := gatherHeap zoneBooks sellOrders buy needAtStart topology dynamicMultiplier
    let Reaches := fun p : List (Candidate n) =>
      p ≠ [] ∧ needAtStart ≤ (p.map (restingEnergy sellOrders)).sum
    (gather false).1.Perm
        (acceptedSells zoneBooks sellOrders buy needAtStart topology dynamicMultiplier) ∧
      (gather false).2 = false ∧
      ((0 : ℤ) ≤ dynamicMultiplier.raw → (gather false).1.Pairwise fun a b => a.key ≤ b.key) ∧
      KWayMerge.CutAt Reaches (gather false).1 (gather true) ∧
      ((gather true).2 = true ↔ ∃ p, p <+: (gather false).1 ∧ Reaches p) ∧
      ∀ earlyStop,
        gather earlyStop = ((onlyBook earlyStop).or (onlyCursor earlyStop)).getD (heap earlyStop) ∧
        (∀ r, onlyBook earlyStop = some r → heap earlyStop = r) ∧
        ∀ r, onlyCursor earlyStop = some r → heap earlyStop = r := by
  intro gather onlyBook onlyCursor heap Reaches
  have hfull : gather false =
      (mergedCursors zoneBooks sellOrders buy needAtStart topology dynamicMultiplier, false) := by
    simp only [gather, gatherCandidates_merged, KWayMerge.takeCovering_full]
  have hcut : KWayMerge.CutAt Reaches (gather false).1 (gather true) := by
    have h := KWayMerge.takeCovering_cutAt (restingEnergy sellOrders) needAtStart 0
      (mergedCursors zoneBooks sellOrders buy needAtStart topology dynamicMultiplier)
    simp only [zero_add] at h
    rw [hfull]
    simpa only [gather, gatherCandidates_merged] using h
  refine ⟨?_, ?_, fun hmul => ?_, hcut, hcut.flag_iff, fun earlyStop =>
    ⟨gatherCandidates_paths _ _ _ _ _ _ _, fun r => gatherHeap_of_onlyBook,
      fun r => gatherHeap_of_onlyCursor⟩⟩
  · rw [hfull, ← cursors_accepted hkeyed]
    exact mergedCursors_perm
  · rw [hfull]
  · rw [hfull]
    exact mergedCursors_sorted hkeyed hasks hmul

end Accepted

section Inputs

def twoSells : List FastOrder := [.placed 2 3 5 (ZoneId.number 1), .placed 3 4 6 (ZoneId.number 2)]

def twoBooks : ZoneBooks twoSells.length := buildZoneBooks (BoundedInt.saturate 0) twoSells.get

theorem gatherCandidates_two_zones :
    let gather := gatherCandidates twoBooks twoSells.get (.placed 1 10 5 none) 5
      (.freeGrid fun _ _ => 100) FastPrice.one
    Keyed twoSells.get twoBooks ∧ AsksNonneg twoSells.get twoBooks ∧
      (gather true).1.map (·.sortId) = [2] ∧
      (gather false).1.Pairwise (fun a b => a.key ≤ b.key) ∧
      ((gather true).2 = true ↔ ∃ p, p <+: (gather false).1 ∧ p ≠ [] ∧
        5 ≤ (p.map (restingEnergy twoSells.get)).sum) := by
  have hkeyed : Keyed twoSells.get twoBooks := by decide +kernel
  have hasks : AsksNonneg twoSells.get twoBooks := by decide +kernel
  obtain ⟨_, _, hsorted, _, hflag, _⟩ := @gatherCandidates_landed_cut _ _ _ (.placed 1 10 5 none)
    5 (.freeGrid fun _ _ => 100) FastPrice.one hkeyed hasks
  exact ⟨hkeyed, hasks, by decide +kernel, hsorted (by decide +kernel), hflag⟩

def zoneSells : List FastOrder := [.placed 2 3 5 none, .placed 3 4 6 none]

def zoneBook : ZoneBooks zoneSells.length := buildZoneBooks (BoundedInt.saturate 0) zoneSells.get

/-- A negative multiplier lands the dearer ask cheaper, so the book order is not the
landed order; and a need of zero is reached by no candidate at all, yet one is
collected. -/
theorem gatherCandidates_not_landed_order :
    let buy := FastOrder.placed 1 10 5 none
    let gather := gatherCandidates zoneBook zoneSells.get buy
    let grid := TopologySnapshot.freeGrid fun _ _ => 100
    ((0 : ℤ) ≤ buy.price.raw ∧ Keyed zoneSells.get zoneBook ∧ AsksNonneg zoneSells.get zoneBook) ∧
      (¬(gather 5 grid (FastPrice.ofInt (-1)) false).1.Pairwise fun a b => a.key ≤ b.key) ∧
      ¬KWayMerge.CutAt (fun p => 0 ≤ (p.map (restingEnergy zoneSells.get)).sum)
        (gather 0 grid FastPrice.one false).1 (gather 0 grid FastPrice.one true) := by
  intro buy gather grid
  refine ⟨by decide +kernel, by decide +kernel, ?_⟩
  rintro (⟨⟨_, _, hleast⟩, _⟩ | ⟨hnone, _⟩)
  · have hempty : (gather 0 grid FastPrice.one true).1.length ≤ 0 :=
      hleast [] List.nil_prefix (le_refl (0 : Decimal))
    exact absurd hempty (by decide +kernel)
  · exact hnone [] List.nil_prefix (le_refl (0 : Decimal))

end Inputs

end TradingService.MatchingEngine
