import TradingService.Engine.GatherPaths

/-!
# What a gather collects

The zone books file every sell that can still trade, each under its zone and in
price-time order. On such books each of the three ways of gathering walks the
viable sells of a buy in landed order and stops where a walk over the sorted list
of all of them would stop.
-/

namespace TradingService.MatchingEngine

variable {n : ℕ} (nowNs : I64)

def Live (sell : FastOrder) : Prop :=
  minTradeAmount ≤ sell.remainingAmount ∧ !sell.isExpired nowNs

instance (sell : FastOrder) : Decidable (Live nowNs sell) := inferInstanceAs (Decidable (_ ∧ _))

abbrev Booked (sellOrders : Fin n → FastOrder) (zoneBooks : ZoneBooks n) : Prop :=
  GroupedIndex.Files (fun i => (sellOrders i).zoneId) (fun i => bookKey (sellOrders i)) zoneBooks
    fun i => Live nowNs (sellOrders i)

section Books

variable {nowNs} {sellOrders : Fin n → FastOrder} {zoneBooks : ZoneBooks n}

theorem bookKey_injective (hids : Function.Injective fun i => (sellOrders i).id) {i j : Fin n}
    (h : bookKey (sellOrders i) = bookKey (sellOrders j)) : i = j :=
  hids (congrArg (fun k : BookKey => (ofLex (ofLex k).2).2) h)

theorem fileSell_files (hids : Function.Injective fun i => (sellOrders i).id) {P : Fin n → Prop}
    (h : GroupedIndex.Files (fun i => (sellOrders i).zoneId) (fun i => bookKey (sellOrders i))
      zoneBooks P) (i : Fin n) :
    GroupedIndex.Files (fun i => (sellOrders i).zoneId) (fun i => bookKey (sellOrders i))
      (fileSell nowNs sellOrders zoneBooks i)
      fun j => (j = i ∧ Live nowNs (sellOrders j)) ∨ P j := by
  by_cases hlive : Live nowNs (sellOrders i)
  · have hfile : fileSell nowNs sellOrders zoneBooks i = GroupedIndex.file
        (fun i => (sellOrders i).zoneId) (fun i => bookKey (sellOrders i)) zoneBooks i :=
      if_pos hlive
    rw [hfile]
    refine (h.file fun j _ _ hkey => bookKey_injective hids hkey).congr fun j => ?_
    exact or_congr_left ⟨fun hji => ⟨hji, hji ▸ hlive⟩, And.left⟩
  · have hskip : fileSell nowNs sellOrders zoneBooks i = zoneBooks := if_neg hlive
    rw [hskip]
    exact h.congr fun j => ⟨.inr, fun hj => hj.resolve_left fun hi => hlive (hi.1 ▸ hi.2)⟩

theorem foldl_fileSell_files (hids : Function.Injective fun i => (sellOrders i).id)
    (is : List (Fin n)) (zoneBooks : ZoneBooks n) {P : Fin n → Prop}
    (h : GroupedIndex.Files (fun i => (sellOrders i).zoneId) (fun i => bookKey (sellOrders i))
      zoneBooks P) :
    GroupedIndex.Files (fun i => (sellOrders i).zoneId) (fun i => bookKey (sellOrders i))
      (is.foldl (fileSell nowNs sellOrders) zoneBooks)
      fun j => (j ∈ is ∧ Live nowNs (sellOrders j)) ∨ P j := by
  induction is generalizing zoneBooks P with
  | nil => exact h.congr fun j => by simp
  | cons i is ih =>
    refine (ih _ (fileSell_files hids h i)).congr fun j => ?_
    simp only [List.mem_cons]
    tauto

theorem keyed_of_booked (h : Booked nowNs sellOrders zoneBooks) : Keyed sellOrders zoneBooks :=
  fun zb hzb e he => (h.sound zb.1 zb.2 hzb e.1 e.2 he).2.2

theorem booked_buildZoneBooks (hids : Function.Injective fun i => (sellOrders i).id) :
    Booked nowNs sellOrders (buildZoneBooks nowNs sellOrders) :=
  (foldl_fileSell_files hids _ _ GroupedIndex.files_empty).congr fun j => by simp

theorem booked_commitMatch {st : CycleState n} {buy : FastOrder} {c : Candidate n}
    {buyMetadata : List OrderMetadata} {amount : Decimal}
    (hids : Function.Injective fun i => (st.sellOrders i).id) (h0 : 0 ≤ amount)
    (h : Booked nowNs st.sellOrders st.zoneBooks) :
    Booked nowNs (commitMatch st buy c buyMetadata amount).sellOrders
      (commitMatch st buy c buyMetadata amount).zoneBooks := by
  have hzone : (fun i => ((commitMatch st buy c buyMetadata amount).sellOrders i).zoneId) =
      fun i => (st.sellOrders i).zoneId := by
    funext i
    by_cases hi : i = c.sellIdx
    · rw [hi, commitMatch_sellOrders_self, FastOrder.fill_zoneId]
    · rw [commitMatch_sellOrders_of_ne _ _ _ _ _ hi]
  have hkey : (fun i => bookKey ((commitMatch st buy c buyMetadata amount).sellOrders i)) =
      fun i => bookKey (st.sellOrders i) := by
    funext i
    by_cases hi : i = c.sellIdx
    · rw [hi, commitMatch_sellOrders_self]; rfl
    · rw [commitMatch_sellOrders_of_ne _ _ _ _ _ hi]
  unfold Booked
  rw [hzone, hkey]
  by_cases hdust : ((st.sellOrders c.sellIdx).fill amount).remainingAmount < minTradeAmount
  · have hbooks : (commitMatch st buy c buyMetadata amount).zoneBooks = GroupedIndex.remove
        (fun i => (st.sellOrders i).zoneId) (fun i => bookKey (st.sellOrders i)) st.zoneBooks
        c.sellIdx := if_pos hdust
    rw [hbooks]
    refine (h.remove fun j _ _ hk => bookKey_injective hids hk).congr fun j => ?_
    by_cases hj : j = c.sellIdx
    · rw [hj, commitMatch_sellOrders_self]
      exact iff_of_false (fun hl => hl.2 rfl) fun hl => not_le.mpr hdust hl.1
    · rw [commitMatch_sellOrders_of_ne _ _ _ _ _ hj]
      exact and_iff_left hj
  · have hbooks : (commitMatch st buy c buyMetadata amount).zoneBooks = st.zoneBooks := if_neg hdust
    rw [hbooks]
    refine h.congr fun j => ?_
    by_cases hj : j = c.sellIdx
    · rw [hj, commitMatch_sellOrders_self]
      have hbefore : minTradeAmount ≤ (st.sellOrders c.sellIdx).remainingAmount := by
        rw [FastOrder.fill_remainingAmount] at hdust
        linarith
      exact and_congr (iff_of_true hbefore (not_lt.mp hdust)) Iff.rfl
    · rw [commitMatch_sellOrders_of_ne _ _ _ _ _ hj]

end Books

section Gather

variable (zoneBooks : ZoneBooks n) (sellOrders : Fin n → FastOrder) (buy : FastOrder)
  (needAtStart : Decimal) (topology : TopologySnapshot) (dynamicMultiplier : FastPrice)

def viableSell (i : Fin n) : Option (Candidate n) :=
  if Live nowNs (sellOrders i) ∧
      topology.canAccommodateFlow (sellOrders i).zoneId buy.zoneId minTradeAmount then
    priceSell sellOrders buy needAtStart topology dynamicMultiplier
      (zoneFees buy topology (sellOrders i).zoneId) i
  else none

def viableSells : List (Candidate n) :=
  ((List.finRange n).filterMap
    (viableSell nowNs sellOrders buy needAtStart topology dynamicMultiplier)).insertionSort
      fun a b => a.key ≤ b.key

variable {zoneBooks sellOrders buy needAtStart topology dynamicMultiplier nowNs}

theorem viableSell_eq_some {i : Fin n} {c : Candidate n} :
    viableSell nowNs sellOrders buy needAtStart topology dynamicMultiplier i = some c ↔
      (Live nowNs (sellOrders i) ∧
        topology.canAccommodateFlow (sellOrders i).zoneId buy.zoneId minTradeAmount) ∧
      priceSell sellOrders buy needAtStart topology dynamicMultiplier
        (zoneFees buy topology (sellOrders i).zoneId) i = some c :=
  Option.ite_none_right_eq_some

theorem mem_viableSells {c : Candidate n} :
    c ∈ viableSells nowNs sellOrders buy needAtStart topology dynamicMultiplier ↔
      viableSell nowNs sellOrders buy needAtStart topology dynamicMultiplier c.sellIdx = some c := by
  unfold viableSells
  rw [(List.perm_insertionSort _ _).mem_iff, List.mem_filterMap]
  constructor
  · rintro ⟨i, _, hi⟩
    have hidx : c.sellIdx = i := (prices_of_priceSell (viableSell_eq_some.mp hi).2).sellIdx
    rwa [hidx]
  · exact fun h => ⟨c.sellIdx, List.mem_finRange _, h⟩

theorem viableSells_nodup :
    (viableSells nowNs sellOrders buy needAtStart topology dynamicMultiplier).Nodup := by
  unfold viableSells
  rw [(List.perm_insertionSort _ _).nodup_iff]
  refine List.Nodup.filterMap (fun i j c hi hj => ?_) (List.nodup_finRange n)
  have hi := prices_of_priceSell (viableSell_eq_some.mp hi).2
  have hj := prices_of_priceSell (viableSell_eq_some.mp hj).2
  exact hi.sellIdx.symm.trans hj.sellIdx

theorem viableSells_sellIdx_nodup :
    ((viableSells nowNs sellOrders buy needAtStart topology dynamicMultiplier).map (·.sellIdx)).Nodup := by
  refine List.Nodup.map_on (fun c hc d hd hidx => ?_) viableSells_nodup
  have hc := mem_viableSells.mp hc
  have hd := mem_viableSells.mp hd
  rw [hidx, hd] at hc
  exact (Option.some.inj hc).symm

theorem viableSells_sorted :
    (viableSells nowNs sellOrders buy needAtStart topology dynamicMultiplier).Pairwise
      fun a b => a.key ≤ b.key := List.pairwise_insertionSort _ _

/-- The landed order of the viable sells is the only one: their ids break every tie. -/
theorem eq_viableSells (hids : Function.Injective fun i => (sellOrders i).id)
    {l : List (Candidate n)} (hsorted : l.Pairwise fun a b => a.key ≤ b.key)
    (hperm : l.Perm (viableSells nowNs sellOrders buy needAtStart topology dynamicMultiplier)) :
    l = viableSells nowNs sellOrders buy needAtStart topology dynamicMultiplier := by
  refine hperm.eq_of_pairwise (fun a b ha hb hab hba => ?_) hsorted viableSells_sorted
  have ha' := mem_viableSells.mp (hperm.subset ha)
  have hb' := mem_viableSells.mp hb
  have hkey : a.key = b.key := le_antisymm hab hba
  have hsort : toLex (a.sortPrice, toLex (a.sortTime, a.sortId)) =
      toLex (b.sortPrice, toLex (b.sortTime, b.sortId)) :=
    congrArg (fun k => (ofLex k).2) hkey
  have hpa : bookKey (sellOrders a.sellIdx) = bookKey (sellOrders b.sellIdx) := by
    have hpa := prices_of_priceSell (viableSell_eq_some.mp ha').2
    have hpb := prices_of_priceSell (viableSell_eq_some.mp hb').2
    rw [← hpa.sortKey, ← hpb.sortKey, hsort]
  have hidx := bookKey_injective hids hpa
  rw [hidx] at ha'
  exact Option.some.inj (ha'.symm.trans hb')

end Gather

section Zones

variable {nowNs} {sellOrders : Fin n → FastOrder} {buy : FastOrder} {needAtStart : Decimal}
  {topology : TopologySnapshot} {dynamicMultiplier : FastPrice} {zoneBooks : ZoneBooks n}
  (hbooked : Booked nowNs sellOrders zoneBooks)
include hbooked

theorem mem_cursors {c : Candidate n} :
    c ∈ (reachableCursors zoneBooks buy topology).flatMap (fun cur =>
        pricedRange sellOrders buy needAtStart topology dynamicMultiplier cur.1 cur.2) ↔
      viableSell nowNs sellOrders buy needAtStart topology dynamicMultiplier c.sellIdx = some c := by
  simp only [reachableCursors, List.mem_flatMap, List.mem_filterMap, pricedRange, Prod.exists]
  constructor
  · rintro ⟨fees, range, ⟨zone, book, hbook, hcur⟩, k, i, hk, hi⟩
    split_ifs at hcur with hflow
    obtain ⟨rfl, rfl⟩ := Prod.mk.inj (Option.some.inj hcur)
    obtain ⟨hlive, rfl, _⟩ := hbooked.sound zone book hbook k i (OrderedMap.mem_rangeTo.mp hk).1
    obtain rfl := (prices_of_priceSell hi).sellIdx
    exact viableSell_eq_some.mpr ⟨⟨hlive, hflow⟩, hi⟩
  · intro h
    obtain ⟨hlive, h⟩ := viableSell_eq_some.mp h
    obtain ⟨book, hbook, hk⟩ := hbooked.complete c.sellIdx hlive.1
    refine ⟨_, crossingRange buy book, ⟨_, book, hbook, if_pos hlive.2⟩, _, c.sellIdx,
      OrderedMap.mem_rangeTo.mpr ⟨hk, bookKey_le_crossing (prices_of_priceSell h).crosses⟩, h⟩

theorem pricedRange_sellIdx_nodup {zone : ZoneId} {book : OrderedMap BookKey (Fin n)}
    (hbook : (zone, book) ∈ zoneBooks.toList) (fees : ZoneFees) :
    ((pricedRange sellOrders buy needAtStart topology dynamicMultiplier fees
      (crossingRange buy book)).map (·.sellIdx)).Nodup := by
  refine List.pairwise_map.mpr (List.pairwise_filterMap.mpr ((book.rangeTo_sorted _).imp_of_mem ?_))
  rintro ⟨k, i⟩ ⟨l, j⟩ hk hl hlt a ha b hb hidx
  have hij : i = j :=
    (prices_of_priceSell ha).sellIdx.symm.trans (hidx.trans (prices_of_priceSell hb).sellIdx)
  obtain ⟨_, _, hki⟩ := hbooked.sound zone book hbook k i (OrderedMap.mem_rangeTo.mp hk).1
  obtain ⟨_, _, hlj⟩ := hbooked.sound zone book hbook l j (OrderedMap.mem_rangeTo.mp hl).1
  dsimp only at hlt
  rw [← hki, ← hlj, hij] at hlt
  exact lt_irrefl _ hlt

variable (buy needAtStart topology dynamicMultiplier) in
/-- The cursors together hold the viable sells, each once. -/
theorem cursors_perm :
    ((reachableCursors zoneBooks buy topology).flatMap fun cur =>
        pricedRange sellOrders buy needAtStart topology dynamicMultiplier cur.1 cur.2).Perm
      (viableSells nowNs sellOrders buy needAtStart topology dynamicMultiplier) := by
  refine (List.perm_ext_iff_of_nodup ?_ viableSells_nodup).mpr fun c =>
    (mem_cursors hbooked).trans mem_viableSells.symm
  refine List.nodup_flatMap.mpr ⟨?_, List.pairwise_filterMap.mpr (zoneBooks.sorted.imp_of_mem ?_)⟩
  · rintro cur hcur
    obtain ⟨⟨zone, book⟩, hbook, hcur⟩ := List.mem_filterMap.mp hcur
    dsimp only at hcur
    split_ifs at hcur
    obtain rfl := Option.some.inj hcur
    exact (pricedRange_sellIdx_nodup hbooked hbook _).of_map
  · rintro ⟨zone, book⟩ ⟨zone', book'⟩ hbook hbook' hlt cur hcur cur' hcur'
    dsimp only at hcur hcur'
    split_ifs at hcur hcur'
    obtain rfl := Option.some.inj hcur
    obtain rfl := Option.some.inj hcur'
    rw [Function.onFun, List.disjoint_left]
    intro c hc hc'
    obtain ⟨⟨k, i⟩, hk, hi⟩ := List.mem_filterMap.mp hc
    obtain ⟨⟨l, j⟩, hl, hj⟩ := List.mem_filterMap.mp hc'
    have hij : i = j := (prices_of_priceSell hi).sellIdx.symm.trans (prices_of_priceSell hj).sellIdx
    have hzi := (hbooked.sound zone book hbook k i (OrderedMap.mem_rangeTo.mp hk).1).2.1
    have hzj := (hbooked.sound zone' book' hbook' l j (OrderedMap.mem_rangeTo.mp hl).1).2.1
    dsimp only at hlt
    rw [← hzi, ← hzj, hij] at hlt
    exact lt_irrefl _ hlt

end Zones

section Gathered

variable {zoneBooks : ZoneBooks n} {sellOrders : Fin n → FastOrder} {dynamicMultiplier : FastPrice}
  (buy : FastOrder) (needAtStart : Decimal) (topology : TopologySnapshot)
  (hbooked : Booked nowNs sellOrders zoneBooks)
  (hids : Function.Injective fun i => (sellOrders i).id)
  (hasks : ∀ i, (0 : ℤ) ≤ (sellOrders i).price.raw) (hmul : (0 : ℤ) < dynamicMultiplier.raw)
include hbooked hids hasks hmul

/-- The merge of all cursors is the landed order of the viable sells. -/
theorem mergedCursors_eq :
    mergedCursors zoneBooks sellOrders buy needAtStart topology dynamicMultiplier =
      viableSells nowNs sellOrders buy needAtStart topology dynamicMultiplier :=
  eq_viableSells hids
    (mergedCursors_sorted (keyed_of_booked hbooked) (fun _ _ _ _ => hasks _) hmul.le)
    (mergedCursors_perm.trans (cursors_perm buy needAtStart topology dynamicMultiplier hbooked))

/-- Each way of gathering collects the viable sells in landed order, up to the
first that covers the need when it may stop early. -/
theorem gatherCandidates_eq (earlyStop : Bool) :
    gatherCandidates zoneBooks sellOrders buy needAtStart topology dynamicMultiplier earlyStop =
      KWayMerge.takeCovering (restingEnergy sellOrders) needAtStart earlyStop 0
        (viableSells nowNs sellOrders buy needAtStart topology dynamicMultiplier) := by
  rw [gatherCandidates_merged,
    mergedCursors_eq nowNs buy needAtStart topology hbooked hids hasks hmul]

end Gathered

section FullScan

variable {zoneBooks : ZoneBooks n} {sellOrders : Fin n → FastOrder} (buy : FastOrder)
  (needAtStart : Decimal) (topology : TopologySnapshot) (dynamicMultiplier : FastPrice)

theorem mem_gatherCandidates {earlyStop : Bool} {c : Candidate n}
    (hc : c ∈ (gatherCandidates zoneBooks sellOrders buy needAtStart topology dynamicMultiplier
      earlyStop).1) :
    ∃ zone, priceSell sellOrders buy needAtStart topology dynamicMultiplier
      (zoneFees buy topology zone) c.sellIdx = some c := by
  rw [gatherCandidates_merged] at hc
  have hmem := mergedCursors_perm.subset ((KWayMerge.takeCovering_prefix _ _ _ _ _).subset hc)
  obtain ⟨cur, hcur, hpriced⟩ := List.mem_flatMap.mp hmem
  obtain ⟨⟨zone, book⟩, _, hzone⟩ := List.mem_filterMap.mp hcur
  dsimp only at hzone
  split_ifs at hzone
  obtain rfl := Option.some.inj hzone
  obtain ⟨⟨k, i⟩, _, hi⟩ := List.mem_filterMap.mp hpriced
  obtain rfl := (prices_of_priceSell hi).sellIdx
  exact ⟨zone, hi⟩

variable (hbooked : Booked nowNs sellOrders zoneBooks)
include hbooked

/-- Whatever the prices, each way of gathering collects viable sells, in some order. -/
theorem gatherCandidates_gathers (earlyStop : Bool) :
    ∃ cs, cs.Perm (viableSells nowNs sellOrders buy needAtStart topology dynamicMultiplier) ∧
      gatherCandidates zoneBooks sellOrders buy needAtStart topology dynamicMultiplier earlyStop =
        KWayMerge.takeCovering (restingEnergy sellOrders) needAtStart earlyStop 0 cs :=
  ⟨_, mergedCursors_perm.trans (cursors_perm buy needAtStart topology dynamicMultiplier hbooked),
    gatherCandidates_merged _⟩

theorem viable_of_mem_gatherCandidates {earlyStop : Bool} {c : Candidate n}
    (hc : c ∈ (gatherCandidates zoneBooks sellOrders buy needAtStart topology dynamicMultiplier
      earlyStop).1) :
    viableSell nowNs sellOrders buy needAtStart topology dynamicMultiplier c.sellIdx = some c := by
  obtain ⟨cs, hperm, hgather⟩ := gatherCandidates_gathers nowNs buy needAtStart topology
    dynamicMultiplier hbooked earlyStop
  rw [hgather] at hc
  exact mem_viableSells.mp (hperm.subset ((KWayMerge.takeCovering_prefix _ _ _ _ cs).subset hc))

theorem gatherCandidates_sellIdx_nodup (earlyStop : Bool) :
    ((gatherCandidates zoneBooks sellOrders buy needAtStart topology dynamicMultiplier
      earlyStop).1.map (·.sellIdx)).Nodup := by
  obtain ⟨cs, hperm, hgather⟩ := gatherCandidates_gathers nowNs buy needAtStart topology
    dynamicMultiplier hbooked earlyStop
  have hnodup : (cs.map (·.sellIdx)).Nodup := (hperm.map _).nodup_iff.mpr viableSells_sellIdx_nodup
  rw [hgather]
  exact (((KWayMerge.takeCovering_prefix _ _ _ _ cs).sublist).map _).nodup hnodup

end FullScan

end TradingService.MatchingEngine
