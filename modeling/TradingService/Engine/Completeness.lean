import TradingService.Engine.UniformAuction

/-!
# Completeness of the uniform-price auction

The sweep passes over a sell that belongs to the buyer at hand and does not come back
to it. As long as no later buy of another owner could have traded with it, nothing is
lost: what is left crosses nobody.
-/

namespace TradingService.UniformAuction

variable {m n : ℕ}

/-- The pair cannot trade: one owner, no crossing, or one of the two is used up. -/
def Spent (buyOrders : Fin m → FastOrder) (sellOrders : Fin n → FastOrder) (i : Fin m) (j : Fin n) : Prop :=
  (buyOrders i).userId ≠ (sellOrders j).userId → (sellOrders j).price ≤ (buyOrders i).price →
    (buyOrders i).remainingAmount < minTradeAmount ∨ (sellOrders j).remainingAmount < minTradeAmount

/-- Where the sweep passes over a sell of the buyer at hand, no later buy of another
owner crosses it. -/
def PassesSafely : ℕ → List (Fin m) → List (Fin n) → SweepState m n → Prop
  | fuel + 1, i :: is, j :: js, st =>
    let buy := st.buyOrders i
    let sell := st.sellOrders j
    if buy.price < sell.price then True
    else if buy.userId = sell.userId then
      (∀ k ∈ is, (st.buyOrders k).userId ≠ sell.userId → (st.buyOrders k).price < sell.price) ∧
        PassesSafely fuel (i :: is) js st
    else if buy.remainingAmount < minTradeAmount then PassesSafely fuel is (j :: js) st
    else if sell.remainingAmount < minTradeAmount then PassesSafely fuel (i :: is) js st
    else
      let st := st.fill i j (min buy.remainingAmount sell.remainingAmount)
      PassesSafely fuel
        (if (st.buyOrders i).remainingAmount < minTradeAmount then is else i :: is)
        (if (st.sellOrders j).remainingAmount < minTradeAmount then js else j :: js) st
  | _, _, _, _ => True

section Sweep

theorem min_remaining_nonneg {buy sell : FastOrder} (hbuy : ¬buy.remainingAmount < minTradeAmount)
    (hsell : ¬sell.remainingAmount < minTradeAmount) :
    0 ≤ min buy.remainingAmount sell.remainingAmount :=
  minTradeAmount_pos.le.trans (le_min (not_lt.mp hbuy) (not_lt.mp hsell))

theorem sweep_later (fuel : ℕ) (is : List (Fin m)) (js : List (Fin n)) (st : SweepState m n) :
    Later st.buyOrders (sweep fuel is js st).buyOrders ∧
      Later st.sellOrders (sweep fuel is js st).sellOrders := by
  induction fuel generalizing is js st with
  | zero => exact ⟨.refl _, .refl _⟩
  | succ fuel ih =>
    cases is with
    | nil => exact ⟨.refl _, .refl _⟩
    | cons i is =>
      cases js with
      | nil => exact ⟨.refl _, .refl _⟩
      | cons j js =>
        simp only [sweep]
        split_ifs with hcross hself hbuy hsell
        · exact ⟨.refl _, .refl _⟩
        · exact ih _ _ _
        · exact ih _ _ _
        · exact ih _ _ _
        all_goals
          have h0 := min_remaining_nonneg hbuy hsell
          obtain ⟨hbuys, hsells⟩ := ih _ _ (st.fill i j
            (min (st.buyOrders i).remainingAmount (st.sellOrders j).remainingAmount))
          exact ⟨(Later.update _ _ h0).trans hbuys, (Later.update _ _ h0).trans hsells⟩

theorem used_up_of_fill (st : SweepState m n) (i : Fin m) (j : Fin n) :
    let st' := st.fill i j (min (st.buyOrders i).remainingAmount (st.sellOrders j).remainingAmount)
    (st'.buyOrders i).remainingAmount < minTradeAmount ∨
      (st'.sellOrders j).remainingAmount < minTradeAmount := by
  intro st'
  simp only [st', SweepState.fill, Function.update_self, FastOrder.fill_remainingAmount]
  rcases min_choice (st.buyOrders i).remainingAmount (st.sellOrders j).remainingAmount with h | h
  · exact .inl (by rw [h, sub_self]; exact minTradeAmount_pos)
  · exact .inr (by rw [h, sub_self]; exact minTradeAmount_pos)

/-- The pointers of the loop, after a fill, have one order less to go. -/
theorem pointers_length_le (st : SweepState m n) (i : Fin m) (is : List (Fin m)) (j : Fin n)
    (js : List (Fin n)) :
    let st' := st.fill i j (min (st.buyOrders i).remainingAmount (st.sellOrders j).remainingAmount)
    (if (st'.buyOrders i).remainingAmount < minTradeAmount then is else i :: is).length +
      (if (st'.sellOrders j).remainingAmount < minTradeAmount then js else j :: js).length ≤
        is.length + js.length + 1 := by
  intro st'
  rcases used_up_of_fill st i j with h | h
  · rw [if_pos h]
    split_ifs
    · omega
    · rw [List.length_cons]
      omega
  · rw [if_pos h]
    split_ifs
    · omega
    · rw [List.length_cons]
      omega

theorem Spent.later {buys buys' : Fin m → FastOrder} {sells sells' : Fin n → FastOrder} {i : Fin m}
    {j : Fin n} (h : Spent buys sells i j) (hbuys : Later buys buys') (hsells : Later sells sells') :
    Spent buys' sells' i j := by
  intro howner hcross
  rw [hbuys.userId, hsells.userId] at howner
  rw [hbuys.price, hsells.price] at hcross
  exact (h howner hcross).imp (hbuys.remaining_le i).trans_lt (hsells.remaining_le j).trans_lt

structure Sorted (st : SweepState m n) (is : List (Fin m)) (js : List (Fin n)) : Prop where
  buys : is.Pairwise fun a b => (st.buyOrders b).price ≤ (st.buyOrders a).price
  sells : js.Pairwise fun a b => (st.sellOrders a).price ≤ (st.sellOrders b).price

theorem Sorted.later {st st' : SweepState m n} {is is' : List (Fin m)} {js js' : List (Fin n)}
    (h : Sorted st is js) (hbuys : Later st.buyOrders st'.buyOrders)
    (hsells : Later st.sellOrders st'.sellOrders) (his : is'.Sublist is) (hjs : js'.Sublist js) :
    Sorted st' is' js' where
  buys := (h.buys.sublist his).imp fun hle => by rwa [hbuys.price, hbuys.price]
  sells := (h.sells.sublist hjs).imp fun hle => by rwa [hsells.price, hsells.price]

theorem Sorted.sublist {st : SweepState m n} {is is' : List (Fin m)} {js js' : List (Fin n)}
    (h : Sorted st is js) (his : is'.Sublist is) (hjs : js'.Sublist js) : Sorted st is' js' :=
  h.later (.refl _) (.refl _) his hjs

/-- No pair crosses once the best bid is below the cheapest ask. -/
theorem Sorted.spent {st : SweepState m n} {i : Fin m} {is : List (Fin m)} {j : Fin n}
    {js : List (Fin n)} (h : Sorted st (i :: is) (j :: js))
    (hcross : (st.buyOrders i).price < (st.sellOrders j).price) :
    ∀ i' ∈ i :: is, ∀ j' ∈ j :: js, Spent st.buyOrders st.sellOrders i' j' := by
  intro i' hi' j' hj' _ hle
  have hbest : (st.buyOrders i').price ≤ (st.buyOrders i).price := by
    rcases List.mem_cons.mp hi' with rfl | hi'
    exacts [le_rfl, (List.pairwise_cons.mp h.buys).1 i' hi']
  have hcheapest : (st.sellOrders j).price ≤ (st.sellOrders j').price := by
    rcases List.mem_cons.mp hj' with rfl | hj'
    exacts [le_rfl, (List.pairwise_cons.mp h.sells).1 j' hj']
  exact absurd (hcheapest.trans (hle.trans hbest)) (not_le.mpr hcross)

structure Advances {α : Type} (P : α → Prop) (l l' : List α) : Prop where
  sublist : l'.Sublist l
  mem_or : ∀ x ∈ l, x ∈ l' ∨ P x

theorem advances_ite {α : Type} {P : α → Prop} [DecidablePred P] (a : α) (l : List α) :
    Advances P (a :: l) (if P a then l else a :: l) := by
  split_ifs with hP
  · refine ⟨List.sublist_cons_self a l, fun x hx => ?_⟩
    rcases List.mem_cons.mp hx with rfl | hx
    exacts [.inr hP, .inl hx]
  · exact ⟨.refl _, fun x hx => .inl hx⟩

/-- No pair of the two lists can trade when a safe sweep is over. -/
theorem sweep_spent (fuel : ℕ) (is : List (Fin m)) (js : List (Fin n)) (st : SweepState m n)
    (hfuel : is.length + js.length ≤ fuel) (hsorted : Sorted st is js)
    (hsafe : PassesSafely fuel is js st) :
    ∀ i ∈ is, ∀ j ∈ js, Spent (sweep fuel is js st).buyOrders (sweep fuel is js st).sellOrders i j := by
  induction fuel generalizing is js st with
  | zero =>
    intro i hi
    rw [List.length_eq_zero_iff.mp (by omega : is.length = 0)] at hi
    cases hi
  | succ fuel ih =>
    cases is with
    | nil => simp
    | cons i is =>
      cases js with
      | nil => simp
      | cons j js =>
        have htotal := sweep_later (fuel + 1) (i :: is) (j :: js) st
        have his : is.Sublist (i :: is) := List.sublist_cons_self i is
        have hjs : js.Sublist (j :: js) := List.sublist_cons_self j js
        simp only [List.length_cons] at hfuel
        let st' := st.fill i j (min (st.buyOrders i).remainingAmount (st.sellOrders j).remainingAmount)
        have hbuyAdvances := advances_ite (P := fun k => (st'.buyOrders k).remainingAmount < minTradeAmount) i is
        have hsellAdvances := advances_ite (P := fun k => (st'.sellOrders k).remainingAmount < minTradeAmount) j js
        have hlengths : (if (st'.buyOrders i).remainingAmount < minTradeAmount then is else i :: is).length +
            (if (st'.sellOrders j).remainingAmount < minTradeAmount then js else j :: js).length ≤ fuel :=
          (pointers_length_le st i is j js).trans (by omega)
        simp only [sweep, PassesSafely] at htotal hsafe ⊢
        generalize (if (st'.buyOrders i).remainingAmount < minTradeAmount then is else i :: is) = is'
          at hbuyAdvances hlengths htotal hsafe ⊢
        generalize (if (st'.sellOrders j).remainingAmount < minTradeAmount then js else j :: js) = js'
          at hsellAdvances hlengths htotal hsafe ⊢
        split_ifs at htotal hsafe ⊢ with hcross hself hbuy hsell
        · exact hsorted.spent hcross
        · have hrest := ih (i :: is) js st (by simp only [List.length_cons]; omega)
            (hsorted.sublist (.refl _) hjs) hsafe.2
          intro i' hi' j' hj'
          rcases List.mem_cons.mp hj' with rfl | hj'
          · refine Spent.later (fun howner hle => ?_) htotal.1 htotal.2
            rcases List.mem_cons.mp hi' with rfl | hi'
            · exact absurd hself howner
            · exact absurd hle (not_le.mpr (hsafe.1 i' hi' howner))
          · exact hrest i' hi' j' hj'
        · have hrest := ih is (j :: js) st (by simp only [List.length_cons]; omega)
            (hsorted.sublist his (.refl _)) hsafe
          intro i' hi' j' hj'
          rcases List.mem_cons.mp hi' with rfl | hi'
          · exact Spent.later (fun _ _ => .inl hbuy) htotal.1 htotal.2
          · exact hrest i' hi' j' hj'
        · have hrest := ih (i :: is) js st (by simp only [List.length_cons]; omega)
            (hsorted.sublist (.refl _) hjs) hsafe
          intro i' hi' j' hj'
          rcases List.mem_cons.mp hj' with rfl | hj'
          · exact Spent.later (fun _ _ => .inr hsell) htotal.1 htotal.2
          · exact hrest i' hi' j' hj'
        · have h0 := min_remaining_nonneg hbuy hsell
          have hbuyLater : Later st.buyOrders st'.buyOrders := Later.update _ _ h0
          have hsellLater : Later st.sellOrders st'.sellOrders := Later.update _ _ h0
          have hend := sweep_later fuel is' js' st'
          have hrest := ih is' js' st' hlengths
            (hsorted.later hbuyLater hsellLater hbuyAdvances.sublist hsellAdvances.sublist) hsafe
          intro i' hi' j' hj'
          rcases hbuyAdvances.mem_or i' hi' with hi' | hbuyUp
          · rcases hsellAdvances.mem_or j' hj' with hj' | hsellUp
            · exact hrest i' hi' j' hj'
            · exact Spent.later (fun _ _ => .inr hsellUp) hend.1 hend.2
          · exact Spent.later (fun _ _ => .inl hbuyUp) hend.1 hend.2

end Sweep

theorem sortBuyIndices_sorted (buyOrders : Fin m → FastOrder) (buys : List (Fin m)) :
    (sortBuyIndices buyOrders buys).Pairwise fun a b => (buyOrders b).price ≤ (buyOrders a).price := by
  have htotal : Std.Total fun a b => MatchingEngine.buyPriority (buyOrders a) (buyOrders b) :=
    ⟨fun a b => le_total _ _⟩
  have htrans : IsTrans (Fin m) fun a b => MatchingEngine.buyPriority (buyOrders a) (buyOrders b) :=
    ⟨fun _ _ _ h h' => le_trans h h'⟩
  refine (List.pairwise_insertionSort _ buys).imp fun {a b} h => ?_
  have hkey : toLex (OrderDual.toDual (buyOrders a).price, toLex ((buyOrders a).createdAtNs, (buyOrders a).id)) ≤
    toLex (OrderDual.toDual (buyOrders b).price, toLex ((buyOrders b).createdAtNs, (buyOrders b).id)) := h
  exact Prod.Lex.monotone_fst _ _ hkey

theorem sortSellIndices_sorted (sellOrders : Fin n → FastOrder) (sells : List (Fin n)) :
    (sortSellIndices sellOrders sells).Pairwise fun a b => (sellOrders a).price ≤ (sellOrders b).price := by
  have htotal : Std.Total fun a b =>
      MatchingEngine.bookKey (sellOrders a) ≤ MatchingEngine.bookKey (sellOrders b) :=
    ⟨fun a b => le_total _ _⟩
  have htrans : IsTrans (Fin n) fun a b =>
      MatchingEngine.bookKey (sellOrders a) ≤ MatchingEngine.bookKey (sellOrders b) :=
    ⟨fun _ _ _ h h' => h.trans h'⟩
  refine (List.pairwise_insertionSort _ sells).imp fun {a b} h => ?_
  have hkey : MatchingEngine.bookKey (sellOrders a) ≤ MatchingEngine.bookKey (sellOrders b) := h
  exact Prod.Lex.monotone_fst _ _ hkey

section Partition

variable {orders : Fin n → FastOrder} {nowNs : I64}

def Filed (orders : Fin n → FastOrder) (zones : OrderedMap ZoneId (List (Fin n))) (i : Fin n) : Prop :=
  ∃ l, zones.get? (orders i).zoneId = some l ∧ i ∈ l

theorem Filed.insert {zones : OrderedMap ZoneId (List (Fin n))} {i : Fin n} (h : Filed orders zones i)
    (k : Fin n) :
    Filed orders (zones.insert (orders k).zoneId ((zones.get? (orders k).zoneId).getD [] ++ [k])) i := by
  obtain ⟨l, hget, hi⟩ := h
  by_cases hzone : (orders i).zoneId = (orders k).zoneId
  · refine ⟨l ++ [k], OrderedMap.get?_eq_some.mpr (OrderedMap.mem_insert.mpr (.inl ⟨hzone, ?_⟩)),
      List.mem_append_left _ hi⟩
    rw [← hzone, hget, Option.getD_some]
  · exact ⟨l, OrderedMap.get?_eq_some.mpr (OrderedMap.mem_insert.mpr
      (.inr ⟨hzone, OrderedMap.get?_eq_some.mp hget⟩)), hi⟩

theorem filed_insert_self (zones : OrderedMap ZoneId (List (Fin n))) (k : Fin n) :
    Filed orders (zones.insert (orders k).zoneId ((zones.get? (orders k).zoneId).getD [] ++ [k])) k :=
  ⟨_, OrderedMap.get?_eq_some.mpr (OrderedMap.mem_insert.mpr (.inl ⟨rfl, rfl⟩)),
    List.mem_append_right _ List.mem_cons_self⟩

theorem filed_partitionByZone {i : Fin n} (hremaining : minTradeAmount ≤ (orders i).remainingAmount)
    (hlive : (orders i).isExpired nowNs = false) : Filed orders (partitionByZone orders nowNs) i := by
  suffices h : ∀ (l : List (Fin n)) (zones : OrderedMap ZoneId (List (Fin n))),
      Filed orders zones i ∨ i ∈ l → Filed orders (l.foldl (fun zones idx =>
        if minTradeAmount ≤ (orders idx).remainingAmount ∧ !(orders idx).isExpired nowNs then
          zones.insert (orders idx).zoneId ((zones.get? (orders idx).zoneId).getD [] ++ [idx])
        else zones) zones) i from h _ _ (.inr (List.mem_finRange i))
  intro l
  induction l with
  | nil => exact fun zones h => h.resolve_right (by simp)
  | cons k l ih =>
    intro zones h
    rw [List.foldl_cons]
    apply ih
    rcases h with h | h
    · left
      split_ifs
      exacts [h.insert k, h]
    · rcases List.mem_cons.mp h with rfl | h
      · left
        rw [if_pos (by simp [hremaining, hlive])]
        exact filed_insert_self zones i
      · exact .inr h

end Partition

section Auction

variable (buyMetadata : List OrderMetadata) (topology : TopologySnapshot)

def ZonePasses (sellsByZone : OrderedMap ZoneId (List (Fin n))) (st : AuctionState m n)
    (entry : ZoneId × List (Fin m)) : Prop :=
  ∀ sells ∈ sellsByZone.get? entry.1, PassesSafely (entry.2.length + sells.length)
    (sortBuyIndices st.buyOrders entry.2) (sortSellIndices st.sellOrders sells)
    { buyOrders := st.buyOrders, sellOrders := st.sellOrders, fills := [], marginal := none }

/-- Every sweep of the auction passes over sells safely. -/
def AuctionPasses (sellsByZone : OrderedMap ZoneId (List (Fin n))) :
    List (ZoneId × List (Fin m)) → AuctionState m n → Prop
  | [], _ => True
  | entry :: entries, st => ZonePasses sellsByZone st entry ∧
      AuctionPasses sellsByZone entries (clearZone buyMetadata topology sellsByZone st entry)

/-- No two orders of one zone that have not lapsed can still trade. -/
def Complete (nowNs : I64) (buyOrders : Fin m → FastOrder) (sellOrders : Fin n → FastOrder) : Prop :=
  ∀ i j, (buyOrders i).zoneId = (sellOrders j).zoneId → (buyOrders i).isExpired nowNs = false →
    (sellOrders j).isExpired nowNs = false → Spent buyOrders sellOrders i j

variable {buyMetadata topology} {sellsByZone : OrderedMap ZoneId (List (Fin n))} {st : AuctionState m n}
  {entry : ZoneId × List (Fin m)}

variable (buyMetadata topology sellsByZone st entry) in
theorem clearZone_later : Later st.buyOrders (clearZone buyMetadata topology sellsByZone st entry).buyOrders ∧
    Later st.sellOrders (clearZone buyMetadata topology sellsByZone st entry).sellOrders := by
  have hswept : ∀ sells, Later st.buyOrders (sweepZone st entry.2 sells).buyOrders ∧
      Later st.sellOrders (sweepZone st entry.2 sells).sellOrders := fun sells => sweep_later _ _ _ _
  exact clearZone_induction (motive := fun st' => Later st.buyOrders st'.buyOrders ∧
      Later st.sellOrders st'.sellOrders)
    (fun _ => ⟨.refl _, .refl _⟩) (fun sells _ _ => hswept sells) (fun sells _ _ _ _ => hswept sells)

theorem clearZone_spent (hpasses : ZonePasses sellsByZone st entry) {sells : List (Fin n)}
    (hsells : sellsByZone.get? entry.1 = some sells) :
    ∀ i ∈ entry.2, ∀ j ∈ sells,
      Spent (clearZone buyMetadata topology sellsByZone st entry).buyOrders
        (clearZone buyMetadata topology sellsByZone st entry).sellOrders i j := by
  intro i hi j hj
  have hbuyPerm : (sortBuyIndices st.buyOrders entry.2).Perm entry.2 := List.perm_insertionSort _ _
  have hsellPerm : (sortSellIndices st.sellOrders sells).Perm sells := List.perm_insertionSort _ _
  have hlengths : (sortBuyIndices st.buyOrders entry.2).length + (sortSellIndices st.sellOrders sells).length ≤
      entry.2.length + sells.length := (congrArg₂ (· + ·) hbuyPerm.length_eq hsellPerm.length_eq).le
  have hswept : Spent (sweepZone st entry.2 sells).buyOrders (sweepZone st entry.2 sells).sellOrders i j :=
    sweep_spent _ _ _ { buyOrders := st.buyOrders, sellOrders := st.sellOrders, fills := [], marginal := none }
      hlengths ⟨sortBuyIndices_sorted _ _, sortSellIndices_sorted _ _⟩ (hpasses sells hsells)
      i (hbuyPerm.symm.subset hi) j (hsellPerm.symm.subset hj)
  apply clearZone_induction (motive := fun st' => Spent st'.buyOrders st'.sellOrders i j)
  · intro hnone
    rw [hnone] at hsells
    cases hsells
  · intro sells' hsells' _
    obtain rfl := Option.some.inj (hsells.symm.trans hsells')
    exact hswept
  · intro sells' _ _ hsells' _
    obtain rfl := Option.some.inj (hsells.symm.trans hsells')
    exact hswept

variable (buyMetadata topology sellsByZone) in
theorem foldl_clearZone_later (entries : List (ZoneId × List (Fin m))) (st : AuctionState m n) :
    Later st.buyOrders (entries.foldl (clearZone buyMetadata topology sellsByZone) st).buyOrders ∧
      Later st.sellOrders (entries.foldl (clearZone buyMetadata topology sellsByZone) st).sellOrders := by
  induction entries generalizing st with
  | nil => exact ⟨.refl _, .refl _⟩
  | cons entry entries ih =>
    have hzone := clearZone_later buyMetadata topology sellsByZone st entry
    exact ⟨hzone.1.trans (ih _).1, hzone.2.trans (ih _).2⟩

/-- The pairs of a zone are used up at its turn, and stay so. -/
theorem foldl_clearZone_spent (entries : List (ZoneId × List (Fin m))) (st : AuctionState m n)
    (hpasses : AuctionPasses buyMetadata topology sellsByZone entries st) (hentry : entry ∈ entries)
    {sells : List (Fin n)} (hsells : sellsByZone.get? entry.1 = some sells) :
    ∀ i ∈ entry.2, ∀ j ∈ sells,
      Spent (entries.foldl (clearZone buyMetadata topology sellsByZone) st).buyOrders
        (entries.foldl (clearZone buyMetadata topology sellsByZone) st).sellOrders i j := by
  induction entries generalizing st with
  | nil => cases hentry
  | cons head entries ih =>
    intro i hi j hj
    rcases List.mem_cons.mp hentry with rfl | hentry
    · have hrest := foldl_clearZone_later buyMetadata topology sellsByZone entries
        (clearZone buyMetadata topology sellsByZone st entry)
      exact (clearZone_spent hpasses.1 hsells i hi j hj).later hrest.1 hrest.2
    · exact ih _ hpasses.2 hentry i hi j hj

end Auction

/-- The auction is complete if no sweep passes over a sell that a later buy of another
owner crosses. -/
theorem clearCycle_complete (buyOrders sellOrders : List FastOrder) (buyMetadata : List OrderMetadata)
    (topology : TopologySnapshot) (nowNs : I64)
    (hpasses : AuctionPasses buyMetadata topology (partitionByZone sellOrders.get nowNs)
      (partitionByZone buyOrders.get nowNs).toList ⟨buyOrders.get, sellOrders.get, [], 0, 0⟩) :
    Complete nowNs (clearCycle buyOrders sellOrders buyMetadata topology nowNs).buyOrders
      (clearCycle buyOrders sellOrders buyMetadata topology nowNs).sellOrders := by
  intro i j hzone hbuy hsell howner hcross
  by_contra hleft
  obtain ⟨hbuyLeft, hsellLeft⟩ := not_or.mp hleft
  obtain ⟨hbuys, hsells⟩ : Later buyOrders.get
        (clearCycle buyOrders sellOrders buyMetadata topology nowNs).buyOrders ∧
      Later sellOrders.get (clearCycle buyOrders sellOrders buyMetadata topology nowNs).sellOrders :=
    foldl_clearZone_later _ _ _ _ ⟨buyOrders.get, sellOrders.get, [], 0, 0⟩
  have hbuyFiled : Filed buyOrders.get (partitionByZone buyOrders.get nowNs) i := by
    apply filed_partitionByZone ((not_lt.mp hbuyLeft).trans (hbuys.remaining_le i))
    obtain ⟨amount, _, heq⟩ := hbuys i
    rwa [heq] at hbuy
  have hsellFiled : Filed sellOrders.get (partitionByZone sellOrders.get nowNs) j := by
    apply filed_partitionByZone ((not_lt.mp hsellLeft).trans (hsells.remaining_le j))
    obtain ⟨amount, _, heq⟩ := hsells j
    rwa [heq] at hsell
  have hsame : (buyOrders.get i).zoneId = (sellOrders.get j).zoneId := by
    obtain ⟨amount, _, heq⟩ := hbuys i
    obtain ⟨amount', _, heq'⟩ := hsells j
    rwa [heq, heq'] at hzone
  obtain ⟨bs, hbs, hi⟩ := hbuyFiled
  obtain ⟨ss, hss, hj⟩ := hsellFiled
  have hspent := foldl_clearZone_spent _ _ hpasses (OrderedMap.get?_eq_some.mp hbs) (hsame ▸ hss) i hi j hj
  exact hleft (hspent howner hcross)

instance PassesSafely.decidable :
    ∀ (fuel : ℕ) (is : List (Fin m)) (js : List (Fin n)) (st : SweepState m n),
      Decidable (PassesSafely fuel is js st)
  | 0, _, _, _ => inferInstanceAs (Decidable True)
  | _ + 1, [], _, _ => inferInstanceAs (Decidable True)
  | _ + 1, _ :: _, [], _ => inferInstanceAs (Decidable True)
  | fuel + 1, i :: is, j :: js, st => by
    have hrec := PassesSafely.decidable fuel
    unfold PassesSafely
    infer_instance

instance (sellsByZone : OrderedMap ZoneId (List (Fin n))) (st : AuctionState m n)
    (entry : ZoneId × List (Fin m)) : Decidable (ZonePasses sellsByZone st entry) :=
  inferInstanceAs (Decidable (∀ sells ∈ sellsByZone.get? entry.1, _))

instance AuctionPasses.decidable (buyMetadata : List OrderMetadata) (topology : TopologySnapshot)
    (sellsByZone : OrderedMap ZoneId (List (Fin n))) :
    ∀ (entries : List (ZoneId × List (Fin m))) (st : AuctionState m n),
      Decidable (AuctionPasses buyMetadata topology sellsByZone entries st)
  | [], _ => inferInstanceAs (Decidable True)
  | entry :: entries, st =>
    have := AuctionPasses.decidable buyMetadata topology sellsByZone entries
    inferInstanceAs (Decidable (ZonePasses sellsByZone st entry ∧ _))

instance (buyOrders : Fin m → FastOrder) (sellOrders : Fin n → FastOrder) (i : Fin m) (j : Fin n) :
    Decidable (Spent buyOrders sellOrders i j) := inferInstanceAs (Decidable (_ → _ → _ ∨ _))

instance (nowNs : I64) (buyOrders : Fin m → FastOrder) (sellOrders : Fin n → FastOrder) :
    Decidable (Complete nowNs buyOrders sellOrders) := inferInstanceAs (Decidable (∀ _ _, _))

def twoBuys : List FastOrder := [.placed 1 10 1 none, .placed 2 9 1 none]

def sellBy (userId : Uuid) : List FastOrder := [{ FastOrder.placed 3 5 1 none with userId := userId }]

theorem clearCycle_complete_third_seller :
    Complete (BoundedInt.saturate 0)
      (clearCycle twoBuys (sellBy 3) [] (.freeGrid fun _ _ => 100) (BoundedInt.saturate 0)).buyOrders
      (clearCycle twoBuys (sellBy 3) [] (.freeGrid fun _ _ => 100) (BoundedInt.saturate 0)).sellOrders :=
  clearCycle_complete twoBuys (sellBy 3) [] (.freeGrid fun _ _ => 100) (BoundedInt.saturate 0)
    (by decide +kernel)

/-- The first buyer's own sell is passed over, and the second buyer does without. -/
theorem clearCycle_strands_own_sell :
    ¬Complete (BoundedInt.saturate 0)
      (clearCycle twoBuys (sellBy 1) [] (.freeGrid fun _ _ => 100) (BoundedInt.saturate 0)).buyOrders
      (clearCycle twoBuys (sellBy 1) [] (.freeGrid fun _ _ => 100) (BoundedInt.saturate 0)).sellOrders := by
  decide +kernel

end TradingService.UniformAuction
