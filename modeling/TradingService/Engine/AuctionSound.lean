import TradingService.Engine.AuctionOrder

/-!
# Soundness of the uniform-price auction

`Sweeps` is the loop of a zone as a derivation, one rule for each way through its body;
the sweep always has one, so the loop ends. `Underway` is the invariant of the loop: both
pointers go on to worse prices only, so the last pair has the worst bid and the worst ask
of all fills, and a price between these two suits every fill.
-/

namespace TradingService.UniformAuction

open MatchingEngine (InBounds)

variable {m n : ℕ}

def SweepState.take (st : SweepState m n) (i : Fin m) (j : Fin n) : Decimal :=
  min (st.buyOrders i).remainingAmount (st.sellOrders j).remainingAmount

/-- The sweep of the two lists ends, and leaves `st'`. -/
inductive Sweeps : List (Fin m) → List (Fin n) → SweepState m n → SweepState m n → Prop
  | noBuys (js : List (Fin n)) (st : SweepState m n) : Sweeps [] js st st
  | noSells (is : List (Fin m)) (st : SweepState m n) : Sweeps is [] st st
  | apart {i : Fin m} {is : List (Fin m)} {j : Fin n} {js : List (Fin n)} {st : SweepState m n}
      (happart : (st.buyOrders i).price < (st.sellOrders j).price) : Sweeps (i :: is) (j :: js) st st
  | ownSell {i : Fin m} {is : List (Fin m)} {j : Fin n} {js : List (Fin n)} {st st' : SweepState m n}
      (hcross : (st.sellOrders j).price ≤ (st.buyOrders i).price)
      (hown : (st.buyOrders i).userId = (st.sellOrders j).userId)
      (hrest : Sweeps (i :: is) js st st') : Sweeps (i :: is) (j :: js) st st'
  | buyDust {i : Fin m} {is : List (Fin m)} {j : Fin n} {js : List (Fin n)} {st st' : SweepState m n}
      (hcross : (st.sellOrders j).price ≤ (st.buyOrders i).price)
      (howner : (st.buyOrders i).userId ≠ (st.sellOrders j).userId)
      (hdust : (st.buyOrders i).remainingAmount < minTradeAmount)
      (hrest : Sweeps is (j :: js) st st') : Sweeps (i :: is) (j :: js) st st'
  | sellDust {i : Fin m} {is : List (Fin m)} {j : Fin n} {js : List (Fin n)} {st st' : SweepState m n}
      (hcross : (st.sellOrders j).price ≤ (st.buyOrders i).price)
      (howner : (st.buyOrders i).userId ≠ (st.sellOrders j).userId)
      (hbuy : minTradeAmount ≤ (st.buyOrders i).remainingAmount)
      (hdust : (st.sellOrders j).remainingAmount < minTradeAmount)
      (hrest : Sweeps (i :: is) js st st') : Sweeps (i :: is) (j :: js) st st'
  | fill {i : Fin m} {is is' : List (Fin m)} {j : Fin n} {js js' : List (Fin n)}
      {st st' : SweepState m n} (hcross : (st.sellOrders j).price ≤ (st.buyOrders i).price)
      (howner : (st.buyOrders i).userId ≠ (st.sellOrders j).userId)
      (hbuy : minTradeAmount ≤ (st.buyOrders i).remainingAmount)
      (hsell : minTradeAmount ≤ (st.sellOrders j).remainingAmount)
      (his : is' = if ((st.fill i j (st.take i j)).buyOrders i).remainingAmount < minTradeAmount then is
        else i :: is)
      (hjs : js' = if ((st.fill i j (st.take i j)).sellOrders j).remainingAmount < minTradeAmount then js
        else j :: js)
      (hrest : Sweeps is' js' (st.fill i j (st.take i j)) st') : Sweeps (i :: is) (j :: js) st st'

theorem sweeps_sweep (fuel : ℕ) (is : List (Fin m)) (js : List (Fin n)) (st : SweepState m n)
    (hfuel : is.length + js.length ≤ fuel) : Sweeps is js st (sweep fuel is js st) := by
  induction fuel generalizing is js st with
  | zero =>
    rw [List.length_eq_zero_iff.mp (by omega : is.length = 0)]
    exact .noBuys js st
  | succ fuel ih =>
    cases is with
    | nil => exact .noBuys js st
    | cons i is =>
      cases js with
      | nil => exact .noSells (i :: is) st
      | cons j js =>
        simp only [List.length_cons] at hfuel
        have hlengths := pointers_length_le st i is j js
        unfold sweep
        dsimp only
        by_cases happart : (st.buyOrders i).price < (st.sellOrders j).price
        · rw [if_pos happart]
          exact .apart happart
        by_cases hown : (st.buyOrders i).userId = (st.sellOrders j).userId
        · rw [if_neg happart, if_pos hown]
          exact .ownSell (not_lt.mp happart) hown (ih _ _ _ (by simp only [List.length_cons]; omega))
        by_cases hbuy : (st.buyOrders i).remainingAmount < minTradeAmount
        · rw [if_neg happart, if_neg hown, if_pos hbuy]
          exact .buyDust (not_lt.mp happart) hown hbuy (ih _ _ _ (by simp only [List.length_cons]; omega))
        by_cases hsell : (st.sellOrders j).remainingAmount < minTradeAmount
        · rw [if_neg happart, if_neg hown, if_neg hbuy, if_pos hsell]
          exact .sellDust (not_lt.mp happart) hown (not_lt.mp hbuy) hsell
            (ih _ _ _ (by simp only [List.length_cons]; omega))
        · rw [if_neg happart, if_neg hown, if_neg hbuy, if_neg hsell]
          exact .fill (not_lt.mp happart) hown (not_lt.mp hbuy) (not_lt.mp hsell) rfl rfl
            (ih _ _ _ (hlengths.trans (by omega)))

section Loop

variable {buys₀ : Fin m → FastOrder} {sells₀ : Fin n → FastOrder} {is₀ is is' : List (Fin m)}
  {js₀ js js' : List (Fin n)} {st st' : SweepState m n} {i : Fin m} {j : Fin n}

def bought (fills : List (Fin m × Fin n × Decimal)) (i : Fin m) : Decimal :=
  ((fills.filter fun f => f.1 = i).map fun f => f.2.2).sum

def sold (fills : List (Fin m × Fin n × Decimal)) (j : Fin n) : Decimal :=
  ((fills.filter fun f => f.2.1 = j).map fun f => f.2.2).sum

theorem bought_append_singleton (fills : List (Fin m × Fin n × Decimal)) (i k : Fin m) (j : Fin n)
    (amount : Decimal) :
    bought (fills ++ [(i, j, amount)]) k = bought fills k + if i = k then amount else 0 := by
  unfold bought
  rw [List.filter_append, List.map_append, List.sum_append]
  by_cases h : i = k <;> simp [h]

theorem sold_append_singleton (fills : List (Fin m × Fin n × Decimal)) (i : Fin m) (j k : Fin n)
    (amount : Decimal) :
    sold (fills ++ [(i, j, amount)]) k = sold fills k + if j = k then amount else 0 := by
  unfold sold
  rw [List.filter_append, List.map_append, List.sum_append]
  by_cases h : j = k <;> simp [h]

structure Credited (buys₀ : Fin m → FastOrder) (sells₀ : Fin n → FastOrder) (st : SweepState m n) :
    Prop where
  buys_eq : ∀ i, st.buyOrders i = (buys₀ i).fill (bought st.fills i)
  sells_eq : ∀ j, st.sellOrders j = (sells₀ j).fill (sold st.fills j)
  buys_bounds : (∀ i, InBounds (buys₀ i)) → ∀ i, InBounds (st.buyOrders i)
  sells_bounds : (∀ j, InBounds (sells₀ j)) → ∀ j, InBounds (st.sellOrders j)

theorem Credited.start (buys₀ : Fin m → FastOrder) (sells₀ : Fin n → FastOrder) :
    Credited buys₀ sells₀ { buyOrders := buys₀, sellOrders := sells₀, fills := [], marginal := none } where
  buys_eq i := ((buys₀ i).fill_zero).symm
  sells_eq j := ((sells₀ j).fill_zero).symm
  buys_bounds h := h
  sells_bounds h := h

theorem update_eq_fill (orders₀ orders : Fin n → FastOrder) (i k : Fin n) (amount given : Decimal)
    (h : orders k = (orders₀ k).fill given) :
    Function.update orders i ((orders i).fill amount) k =
      (orders₀ k).fill (given + if i = k then amount else 0) := by
  by_cases hk : i = k
  · subst hk
    rw [Function.update_self, h, FastOrder.fill_fill, if_pos rfl]
  · rw [Function.update_of_ne (Ne.symm hk), h, if_neg hk, add_zero]

theorem Credited.fill (h : Credited buys₀ sells₀ st)
    (hbuy : minTradeAmount ≤ (st.buyOrders i).remainingAmount)
    (hsell : minTradeAmount ≤ (st.sellOrders j).remainingAmount) :
    Credited buys₀ sells₀ (st.fill i j (st.take i j)) := by
  have h0 : 0 ≤ st.take i j := minTradeAmount_pos.le.trans (le_min hbuy hsell)
  refine ⟨fun k => ?_, fun k => ?_, fun hb => ?_, fun hb => ?_⟩
  · simp only [SweepState.fill, bought_append_singleton]
    exact update_eq_fill buys₀ st.buyOrders i k _ _ (h.buys_eq k)
  · simp only [SweepState.fill, sold_append_singleton]
    exact update_eq_fill sells₀ st.sellOrders j k _ _ (h.sells_eq k)
  · exact update_fill_of_forall i (h.buys_bounds hb) ((h.buys_bounds hb i).fill h0 (min_le_left _ _))
  · exact update_fill_of_forall j (h.sells_bounds hb)
      ((h.sells_bounds hb j).fill h0 (min_le_right _ _))

structure Crosses (buys₀ : Fin m → FastOrder) (sells₀ : Fin n → FastOrder) (is₀ : List (Fin m))
    (js₀ : List (Fin n)) (f : Fin m × Fin n × Decimal) : Prop where
  buy : f.1 ∈ is₀
  sell : f.2.1 ∈ js₀
  owners : (buys₀ f.1).userId ≠ (sells₀ f.2.1).userId
  amount_min : minTradeAmount ≤ f.2.2

def BuyDone (st : SweepState m n) (i : Fin m) : Prop :=
  (st.buyOrders i).remainingAmount < minTradeAmount

instance (st : SweepState m n) : DecidablePred (BuyDone st) :=
  fun i => inferInstanceAs (Decidable ((st.buyOrders i).remainingAmount < minTradeAmount))

/-- Nothing that could trade is left of the sell, or a buy of the zone is its owner's. -/
def SellDone (buys₀ : Fin m → FastOrder) (sells₀ : Fin n → FastOrder) (is₀ : List (Fin m))
    (st : SweepState m n) (j : Fin n) : Prop :=
  (st.sellOrders j).remainingAmount < minTradeAmount ∨
    ∃ i ∈ is₀, (buys₀ i).userId = (sells₀ j).userId

/-- The invariant of the loop, with the pointers at `is` and `js` of the curves `is₀` and
`js₀`. -/
structure Underway (buys₀ : Fin m → FastOrder) (sells₀ : Fin n → FastOrder) (is₀ : List (Fin m))
    (js₀ : List (Fin n)) (is : List (Fin m)) (js : List (Fin n)) (st : SweepState m n) : Prop where
  credited : Credited buys₀ sells₀ st
  buys_left : is.Sublist is₀
  sells_left : js.Sublist js₀
  fills : ∀ f ∈ st.fills, Crosses buys₀ sells₀ is₀ js₀ f
  /-- The orders that are left are no better than those filled. -/
  ahead : ∀ f ∈ st.fills, (∀ i ∈ is, (buys₀ i).price ≤ (buys₀ f.1).price) ∧
    ∀ j ∈ js, (sells₀ f.2.1).price ≤ (sells₀ j).price
  /-- Nor is the last pair. -/
  marginal : ∀ p ∈ st.marginal, p.2 ≤ p.1 ∧ ∀ f ∈ st.fills, p.1 ≤ (buys₀ f.1).price ∧
    (sells₀ f.2.1).price ≤ p.2
  marginal_isSome : st.fills ≠ [] → st.marginal.isSome
  buys_passed : ∀ i ∈ is₀, i ∈ is ∨ BuyDone st i
  sells_passed : ∀ j ∈ js₀, j ∈ js ∨ SellDone buys₀ sells₀ is₀ st j

theorem Credited.buy_price (h : Credited buys₀ sells₀ st) (i : Fin m) :
    (st.buyOrders i).price = (buys₀ i).price := by rw [h.buys_eq, FastOrder.fill_price]

theorem Credited.sell_price (h : Credited buys₀ sells₀ st) (j : Fin n) :
    (st.sellOrders j).price = (sells₀ j).price := by rw [h.sells_eq, FastOrder.fill_price]

theorem Credited.buy_userId (h : Credited buys₀ sells₀ st) (i : Fin m) :
    (st.buyOrders i).userId = (buys₀ i).userId := by rw [h.buys_eq, FastOrder.fill_userId]

theorem Credited.sell_userId (h : Credited buys₀ sells₀ st) (j : Fin n) :
    (st.sellOrders j).userId = (sells₀ j).userId := by rw [h.sells_eq, FastOrder.fill_userId]

theorem Underway.advance (h : Underway buys₀ sells₀ is₀ js₀ is js st)
    (his : Advances (BuyDone st) is is') (hjs : Advances (SellDone buys₀ sells₀ is₀ st) js js') :
    Underway buys₀ sells₀ is₀ js₀ is' js' st :=
  { h with
    buys_left := his.sublist.trans h.buys_left
    sells_left := hjs.sublist.trans h.sells_left
    ahead := fun f hf => ⟨fun i hi => (h.ahead f hf).1 i (his.sublist.subset hi),
      fun j hj => (h.ahead f hf).2 j (hjs.sublist.subset hj)⟩
    buys_passed := fun i hi => (h.buys_passed i hi).elim (his.mem_or i) .inr
    sells_passed := fun j hj => (h.sells_passed j hj).elim (hjs.mem_or j) .inr }

theorem Advances.refl {α : Type} {P : α → Prop} (l : List α) : Advances P l l :=
  ⟨.refl l, fun _ hx => .inl hx⟩

theorem advances_tail {α : Type} {P : α → Prop} {a : α} (l : List α) (h : P a) :
    Advances P (a :: l) l := by
  refine ⟨List.sublist_cons_self a l, fun x hx => ?_⟩
  rcases List.mem_cons.mp hx with rfl | hx
  · exact .inr h
  · exact .inl hx

theorem Advances.imp {α : Type} {P Q : α → Prop} {l l' : List α} (h : Advances P l l')
    (hPQ : ∀ x, P x → Q x) : Advances Q l l' :=
  ⟨h.sublist, fun x hx => (h.mem_or x hx).imp_right (hPQ x)⟩

structure Curves (buys₀ : Fin m → FastOrder) (sells₀ : Fin n → FastOrder) (is₀ : List (Fin m))
    (js₀ : List (Fin n)) : Prop where
  buys : is₀.Pairwise fun a b => (buys₀ b).price ≤ (buys₀ a).price
  sells : js₀.Pairwise fun a b => (sells₀ a).price ≤ (sells₀ b).price

theorem Curves.best_buy (h : Curves buys₀ sells₀ is₀ js₀) (his : (i :: is).Sublist is₀) :
    ∀ k ∈ i :: is, (buys₀ k).price ≤ (buys₀ i).price := by
  intro k hk
  rcases List.mem_cons.mp hk with rfl | hk
  · exact le_rfl
  · exact (List.pairwise_cons.mp (h.buys.sublist his)).1 k hk

theorem Curves.best_sell (h : Curves buys₀ sells₀ is₀ js₀) (hjs : (j :: js).Sublist js₀) :
    ∀ k ∈ j :: js, (sells₀ j).price ≤ (sells₀ k).price := by
  intro k hk
  rcases List.mem_cons.mp hk with rfl | hk
  · exact le_rfl
  · exact (List.pairwise_cons.mp (h.sells.sublist hjs)).1 k hk

theorem Underway.fill (h : Underway buys₀ sells₀ is₀ js₀ (i :: is) (j :: js) st)
    (hcurves : Curves buys₀ sells₀ is₀ js₀)
    (hcross : (st.sellOrders j).price ≤ (st.buyOrders i).price)
    (howner : (st.buyOrders i).userId ≠ (st.sellOrders j).userId)
    (hbuy : minTradeAmount ≤ (st.buyOrders i).remainingAmount)
    (hsell : minTradeAmount ≤ (st.sellOrders j).remainingAmount) :
    Underway buys₀ sells₀ is₀ js₀ (i :: is) (j :: js) (st.fill i j (st.take i j)) := by
  have hbest := hcurves.best_buy h.buys_left
  have hcheapest := hcurves.best_sell h.sells_left
  have h0 : 0 ≤ st.take i j := minTradeAmount_pos.le.trans (le_min hbuy hsell)
  have hbuyLater : Later st.buyOrders (st.fill i j (st.take i j)).buyOrders := Later.update _ _ h0
  have hsellLater : Later st.sellOrders (st.fill i j (st.take i j)).sellOrders := Later.update _ _ h0
  refine ⟨h.credited.fill hbuy hsell, h.buys_left, h.sells_left,
    List.forall_mem_append.mpr ⟨h.fills, ?_⟩, List.forall_mem_append.mpr ⟨h.ahead, ?_⟩, ?_, fun _ => rfl,
    fun k hk => (h.buys_passed k hk).imp_right (hbuyLater.remaining_le k).trans_lt,
    fun k hk => (h.sells_passed k hk).imp_right (Or.imp_left (hsellLater.remaining_le k).trans_lt)⟩
  · intro f hf
    obtain rfl := List.mem_singleton.mp hf
    rw [h.credited.buy_userId, h.credited.sell_userId] at howner
    exact ⟨h.buys_left.subset List.mem_cons_self, h.sells_left.subset List.mem_cons_self, howner,
      le_min hbuy hsell⟩
  · intro f hf
    obtain rfl := List.mem_singleton.mp hf
    exact ⟨hbest, hcheapest⟩
  · rintro p hp
    obtain rfl := Option.some.inj hp
    rw [h.credited.buy_price, h.credited.sell_price] at hcross ⊢
    refine ⟨hcross, List.forall_mem_append.mpr ⟨fun f hf => ?_, fun f hf => ?_⟩⟩
    · exact ⟨(h.ahead f hf).1 i List.mem_cons_self, (h.ahead f hf).2 j List.mem_cons_self⟩
    · obtain rfl := List.mem_singleton.mp hf
      exact ⟨le_rfl, le_rfl⟩

/-- The invariant at the end of the loop, where no two orders that are left cross. -/
theorem Sweeps.underway (hrun : Sweeps is js st st') (hcurves : Curves buys₀ sells₀ is₀ js₀)
    (h : Underway buys₀ sells₀ is₀ js₀ is js st) :
    ∃ is' js', Underway buys₀ sells₀ is₀ js₀ is' js' st' ∧
      ∀ i ∈ is', ∀ j ∈ js', (buys₀ i).price < (sells₀ j).price := by
  induction hrun with
  | noBuys js st => exact ⟨_, _, h, by simp⟩
  | noSells is st => exact ⟨_, _, h, by simp⟩
  | apart happart =>
    refine ⟨_, _, h, fun k hk l hl => ?_⟩
    rw [h.credited.buy_price, h.credited.sell_price] at happart
    exact (hcurves.best_buy h.buys_left k hk).trans_lt
      (happart.trans_le (hcurves.best_sell h.sells_left l hl))
  | ownSell hcross hown hrest ih =>
    rw [h.credited.buy_userId, h.credited.sell_userId] at hown
    exact ih (h.advance (.refl _)
      (advances_tail _ (.inr ⟨_, h.buys_left.subset List.mem_cons_self, hown⟩)))
  | buyDust hcross howner hdust hrest ih => exact ih (h.advance (advances_tail _ hdust) (.refl _))
  | sellDust hcross howner hbuy hdust hrest ih =>
    exact ih (h.advance (.refl _) (advances_tail _ (.inl hdust)))
  | @fill i is is' j js js' st st' hcross howner hbuy hsell his hjs hrest ih =>
    subst his hjs
    apply ih
    apply (h.fill hcurves hcross howner hbuy hsell).advance
    · exact advances_ite (P := BuyDone (st.fill i j (st.take i j))) i is
    · exact (advances_ite (P := fun k => ((st.fill i j (st.take i j)).sellOrders k).remainingAmount <
        minTradeAmount) j js).imp fun _ => .inl

theorem underway_sweepZone (st : AuctionState m n) (buys : List (Fin m)) (sells : List (Fin n)) :
    ∃ is js, Underway st.buyOrders st.sellOrders (sortBuyIndices st.buyOrders buys)
        (sortSellIndices st.sellOrders sells) is js (sweepZone st buys sells) ∧
      ∀ i ∈ is, ∀ j ∈ js, (st.buyOrders i).price < (st.sellOrders j).price := by
  have hbuys : (sortBuyIndices st.buyOrders buys).length = buys.length := List.length_insertionSort _ _
  have hsells : (sortSellIndices st.sellOrders sells).length = sells.length :=
    List.length_insertionSort _ _
  apply (sweeps_sweep _ _ _ _ (by rw [hbuys, hsells])).underway
  · exact ⟨sortBuyIndices_sorted _ _, sortSellIndices_sorted _ _⟩
  · exact
      { credited := .start _ _
        buys_left := .refl _
        sells_left := .refl _
        fills := by simp
        ahead := by simp
        marginal := by simp
        marginal_isSome := fun h => absurd rfl h
        buys_passed := fun _ hi => .inl hi
        sells_passed := fun _ hj => .inl hj }

end Loop

section Zone

variable {buys₀ : Fin m → FastOrder} {sells₀ : Fin n → FastOrder} {st : SweepState m n}

theorem midpoint_between {ask bid : FastPrice} (h : ask ≤ bid) :
    ask ≤ FastPrice.midpoint bid ask ∧ FastPrice.midpoint bid ask ≤ bid := by
  have hle : (ask.raw : ℤ) ≤ bid.raw := h
  have hask := ask.raw.lo_le
  have hbid := bid.raw.le_hi
  have hsign : Int.sign 2 = 1 := rfl
  have hhalf : (ask.raw : ℤ) ≤ ((bid.raw : ℤ) + ask.raw).tdiv 2 ∧
      ((bid.raw : ℤ) + ask.raw).tdiv 2 ≤ bid.raw := by
    rw [Int.tdiv_eq_ediv, hsign]
    split_ifs with hexact
    · omega
    · -- The half of a negative odd sum is rounded up.
      obtain ⟨_, hodd⟩ := not_or.mp hexact
      omega
  rw [FastPrice.le_iff, FastPrice.le_iff]
  simp only [FastPrice.midpoint, BoundedInt.saturate]
  omega

structure Files (nowNs : I64) (zone : ZoneId) (o : FastOrder) : Prop where
  zone : o.zoneId = zone
  live : o.isExpired nowNs = false
  remaining : minTradeAmount ≤ o.remainingAmount

theorem files_of_mem_partition {orders : Fin n → FastOrder} {nowNs : I64} {zone : ZoneId}
    {places : List (Fin n)} (hget : (partitionByZone orders nowNs).get? zone = some places) :
    ∀ i, i ∈ places ↔ Files nowNs zone (orders i) := by
  intro i
  have hmem : i ∈ placesIn orders nowNs zone (List.finRange n) ↔ Files nowNs zone (orders i) := by
    simp only [placesIn, List.mem_filter, List.mem_finRange, true_and, decide_eq_true_eq]
    constructor
    · rintro ⟨⟨hremaining, hlive⟩, hzone⟩
      exact ⟨hzone, by simpa using hlive, hremaining⟩
    · rintro ⟨hzone, hlive, hremaining⟩
      exact ⟨⟨hremaining, by simpa using hlive⟩, hzone⟩
  rw [partitionByZone_get?] at hget
  unfold listed at hget
  split_ifs at hget
  rw [← hmem, Option.some.inj hget]

theorem tradedAmount_map {α : Type} (l : List α) (result : α → MatchResult) (amount : α → Decimal)
    (P : α → Prop) [DecidablePred P] {id : Uuid} (hnames : ∀ a, (result a).names id ↔ P a)
    (hamount : ∀ a, (result a).matchAmount = amount a) :
    tradedAmount (l.map result) id = ((l.filter P).map amount).sum := by
  unfold tradedAmount
  rw [List.filter_map, List.map_map]
  have hfilter : l.filter ((fun r => decide (r.names id)) ∘ result) = l.filter P :=
    List.filter_congr fun a _ => decide_eq_decide.mpr (hnames a)
  rw [hfilter]
  exact congrArg List.sum (List.map_congr_left fun a _ => hamount a)

section Credits

variable (h : Credited buys₀ sells₀ st) (hdis : ∀ i j, (buys₀ i).id ≠ (sells₀ j).id)
  (buyMetadata : List OrderMetadata) (topology : TopologySnapshot) (zone : ZoneId) (pStar : FastPrice)
include h hdis

/-- What the results of a zone give a buy is what its fills give it. -/
theorem tradedAmount_buy (hids : Function.Injective fun i => (buys₀ i).id) (i : Fin m) :
    tradedAmount (settleFills buyMetadata topology zone pStar st).results (buys₀ i).id =
      bought st.fills i := by
  apply tradedAmount_map
  · intro f
    simp only [MatchResult.names, settleFill, h.buys_eq, h.sells_eq, FastOrder.fill_id]
    constructor
    · rintro (hname | hname)
      · exact hids hname
      · exact absurd hname.symm (hdis i f.2.1)
    · rintro rfl
      exact .inl rfl
  · intro f
    rfl

theorem tradedAmount_sell (hids : Function.Injective fun j => (sells₀ j).id) (j : Fin n) :
    tradedAmount (settleFills buyMetadata topology zone pStar st).results (sells₀ j).id =
      sold st.fills j := by
  apply tradedAmount_map
  · intro f
    simp only [MatchResult.names, settleFill, h.buys_eq, h.sells_eq, FastOrder.fill_id]
    constructor
    · rintro (hname | hname)
      · exact absurd hname (hdis f.1 j)
      · exact hids hname
    · rintro rfl
      exact .inr rfl
  · intro f
    rfl

end Credits

end Zone

structure FairPair (nowNs : I64) (zone : ZoneId) (pStar : Decimal) (b s : FastOrder) : Prop where
  buy : Files nowNs zone b
  sell : Files nowNs zone s
  owners : b.userId ≠ s.userId
  ask : s.price.toDecimal ≤ pStar
  bid : pStar ≤ b.price.toDecimal

/-- A result of the zone, at its price and between two orders of the entry. -/
structure Fair (nowNs : I64) (buys₀ : Fin m → FastOrder) (sells₀ : Fin n → FastOrder)
    (zc : ZoneClearing) (r : MatchResult) : Prop where
  price : r.matchPrice = zc.clearingPrice ∧ r.settlePrice = zc.clearingPrice
  amount_min : minTradeAmount ≤ r.matchAmount
  orders : ∃ i j, r.buyOrderId = (buys₀ i).id ∧ r.sellOrderId = (sells₀ j).id ∧
    FairPair nowNs zc.zoneId zc.clearingPrice (buys₀ i) (sells₀ j)

/-- The invariant of the loop over the zones, of which `done` are behind. -/
structure SoundSoFar (nowNs : I64) (buys₀ : Fin m → FastOrder) (sells₀ : Fin n → FastOrder)
    (done : List ZoneId) (st : AuctionState m n) : Prop where
  buys_eq : ∀ i, st.buyOrders i = (buys₀ i).credit st.results
  sells_eq : ∀ j, st.sellOrders j = (sells₀ j).credit st.results
  buys_bounds : ∀ i, InBounds (st.buyOrders i)
  sells_bounds : ∀ j, InBounds (st.sellOrders j)
  zone_ids : (st.zones.map (·.zoneId)).Sublist done
  fair : ∀ zc ∈ st.zones, zc.clearedVolume = (zc.results.map (·.matchAmount)).sum ∧
    ∀ r ∈ zc.results, Fair nowNs buys₀ sells₀ zc r

section Auction

variable {nowNs : I64} {buys₀ : Fin m → FastOrder} {sells₀ : Fin n → FastOrder} {done : List ZoneId}
  {st : AuctionState m n} (buyMetadata : List OrderMetadata) (topology : TopologySnapshot)

/-- The results of a zone are fair at the midpoint of its last pair. -/
theorem fair_settleFills (h : SoundSoFar nowNs buys₀ sells₀ done st) {zone : ZoneId}
    {buys : List (Fin m)} {sells : List (Fin n)} (hbuys : ∀ i ∈ buys, Files nowNs zone (buys₀ i))
    (hsells : ∀ j ∈ sells, Files nowNs zone (sells₀ j)) {bid ask : FastPrice}
    (hmarginal : (sweepZone st buys sells).marginal = some (bid, ask)) :
    ∀ r ∈ (settleFills buyMetadata topology zone (FastPrice.midpoint bid ask)
        (sweepZone st buys sells)).results,
      Fair nowNs buys₀ sells₀ (settleFills buyMetadata topology zone (FastPrice.midpoint bid ask)
        (sweepZone st buys sells)) r := by
  intro r hr
  obtain ⟨_, _, hunder, _⟩ := underway_sweepZone st buys sells
  obtain ⟨f, hf, rfl⟩ := List.mem_map.mp hr
  obtain ⟨hcross, hmargin⟩ := hunder.marginal _ hmarginal
  obtain ⟨hbid, hask⟩ := hmargin f hf
  obtain ⟨hlow, hhigh⟩ := midpoint_between hcross
  have hfill := hunder.fills f hf
  have hbuyPerm : (sortBuyIndices st.buyOrders buys).Perm buys := List.perm_insertionSort _ _
  have hsellPerm : (sortSellIndices st.sellOrders sells).Perm sells := List.perm_insertionSort _ _
  have howners := hfill.owners
  rw [h.buys_eq] at hbid howners
  rw [h.sells_eq] at hask howners
  refine ⟨⟨rfl, rfl⟩, hfill.amount_min, f.1, f.2.1, ?_, ?_, hbuys _ (hbuyPerm.subset hfill.buy),
    hsells _ (hsellPerm.subset hfill.sell), howners, FastPrice.toDecimal_le.mpr (hask.trans hlow),
    FastPrice.toDecimal_le.mpr (hhigh.trans hbid)⟩
  · simp only [settleFill, hunder.credited.buys_eq, h.buys_eq, FastOrder.fill_id, FastOrder.credit_id]
  · simp only [settleFill, hunder.credited.sells_eq, h.sells_eq, FastOrder.fill_id, FastOrder.credit_id]

variable (hbuyIds : Function.Injective fun i => (buys₀ i).id)
  (hsellIds : Function.Injective fun j => (sells₀ j).id)
  (hdis : ∀ i j, (buys₀ i).id ≠ (sells₀ j).id)
include hbuyIds hsellIds hdis

theorem SoundSoFar.clearZone (h : SoundSoFar nowNs buys₀ sells₀ done st)
    {entry : ZoneId × List (Fin m)} (hentry : ∀ i ∈ entry.2, Files nowNs entry.1 (buys₀ i)) :
    SoundSoFar nowNs buys₀ sells₀ (done ++ [entry.1])
      (clearZone buyMetadata topology (partitionByZone sells₀ nowNs) st entry) := by
  have hskip : (st.zones.map (·.zoneId)).Sublist (done ++ [entry.1]) :=
    h.zone_ids.trans (List.sublist_append_left _ _)
  refine clearZone_induction (fun _ => { h with zone_ids := hskip }) (fun sells _ hmarginal => ?_)
    fun sells bid ask hget hmarginal => ?_
  · obtain ⟨_, _, hunder, _⟩ := underway_sweepZone st entry.2 sells
    have hcredited := hunder.credited
    have hnone : (sweepZone st entry.2 sells).fills = [] := by
      by_contra hne
      have hsome := hunder.marginal_isSome hne
      rw [hmarginal] at hsome
      cases hsome
    refine ⟨fun i => ?_, fun j => ?_, hcredited.buys_bounds h.buys_bounds,
      hcredited.sells_bounds h.sells_bounds, hskip, h.fair⟩
    · have hsame := hcredited.buys_eq i
      rw [hnone] at hsame
      exact hsame.trans ((FastOrder.fill_zero _).trans (h.buys_eq i))
    · have hsame := hcredited.sells_eq j
      rw [hnone] at hsame
      exact hsame.trans ((FastOrder.fill_zero _).trans (h.sells_eq j))
  · have hsells : ∀ j ∈ sells, Files nowNs entry.1 (sells₀ j) := fun j =>
      (files_of_mem_partition hget j).mp
    obtain ⟨_, _, hunder, _⟩ := underway_sweepZone st entry.2 sells
    have hcredited := hunder.credited
    have hbuyId : ∀ i, (st.buyOrders i).id = (buys₀ i).id := fun i => by
      rw [h.buys_eq, FastOrder.credit_id]
    have hsellId : ∀ j, (st.sellOrders j).id = (sells₀ j).id := fun j => by
      rw [h.sells_eq, FastOrder.credit_id]
    have hdis' : ∀ i j, (st.buyOrders i).id ≠ (st.sellOrders j).id := fun i j => by
      rw [hbuyId, hsellId]
      exact hdis i j
    refine ⟨fun i => ?_, fun j => ?_, hcredited.buys_bounds h.buys_bounds,
      hcredited.sells_bounds h.sells_bounds, ?_, List.forall_mem_append.mpr ⟨h.fair, fun zc hzc => ?_⟩⟩
    · rw [AuctionState.results_report, AuctionState.results_withOrders, FastOrder.credit_append,
        ← h.buys_eq, FastOrder.credit,
        tradedAmount_buy hcredited hdis' _ _ _ _ (by simpa only [hbuyId] using hbuyIds)]
      exact hcredited.buys_eq i
    · rw [AuctionState.results_report, AuctionState.results_withOrders, FastOrder.credit_append,
        ← h.sells_eq, FastOrder.credit,
        tradedAmount_sell hcredited hdis' _ _ _ _ (by simpa only [hsellId] using hsellIds)]
      exact hcredited.sells_eq j
    · simp only [AuctionState.report, AuctionState.withOrders, List.map_append]
      exact h.zone_ids.append (.refl _)
    · obtain rfl := List.mem_singleton.mp hzc
      exact ⟨clearedVolume_settleFills _ _ _ _ _,
        fair_settleFills buyMetadata topology h hentry hsells hmarginal⟩

theorem SoundSoFar.foldl (entries : List (ZoneId × List (Fin m)))
    (h : SoundSoFar nowNs buys₀ sells₀ done st)
    (hentries : ∀ e ∈ entries, ∀ i ∈ e.2, Files nowNs e.1 (buys₀ i)) :
    SoundSoFar nowNs buys₀ sells₀ (done ++ entries.map Prod.fst)
      (entries.foldl (UniformAuction.clearZone buyMetadata topology (partitionByZone sells₀ nowNs)) st) := by
  induction entries generalizing done st with
  | nil => simpa using h
  | cons e entries ih =>
    obtain ⟨hhead, htail⟩ := List.forall_mem_cons.mp hentries
    have hnext := ih (h.clearZone buyMetadata topology hbuyIds hsellIds hdis hhead) htail
    rw [List.map_cons, List.append_cons]
    exact hnext

end Auction

/-- Soundness of the auction. Every sweep ends; a zone is cleared once and at one price, its
fills are of the minimum at least, between two unexpired orders of the zone and of
different owners, and the price is within both limits. Each order is credited with its
fills, within its bounds, and the volumes and counts are those of the fills. -/
theorem clearCycle_sound (buyOrders sellOrders : List FastOrder) (buyMetadata : List OrderMetadata)
    (topology : TopologySnapshot) (nowNs : I64)
    (hids : ((buyOrders ++ sellOrders).map (·.id)).Nodup)
    (hfill : ∀ o ∈ buyOrders ++ sellOrders, 0 ≤ o.filledAmount ∧ o.filledAmount ≤ o.energyAmount) :
    let out := clearCycle buyOrders sellOrders buyMetadata topology nowNs
    (∀ (st : AuctionState buyOrders.length sellOrders.length) buys sells,
      Sweeps (sortBuyIndices st.buyOrders buys) (sortSellIndices st.sellOrders sells)
        { buyOrders := st.buyOrders, sellOrders := st.sellOrders, fills := [], marginal := none }
        (sweepZone st buys sells)) ∧
      (out.zones.map (·.zoneId)).Nodup ∧
      (∀ zc ∈ out.zones, zc.clearedVolume = (zc.results.map (·.matchAmount)).sum ∧
        ∀ r ∈ zc.results, Fair nowNs buyOrders.get sellOrders.get zc r) ∧
      (∀ i, out.buyOrders i = { buyOrders.get i with
        filledAmount := (buyOrders.get i).filledAmount + tradedAmount out.results (buyOrders.get i).id }) ∧
      (∀ j, out.sellOrders j = { sellOrders.get j with
        filledAmount := (sellOrders.get j).filledAmount + tradedAmount out.results (sellOrders.get j).id }) ∧
      (∀ i, (out.buyOrders i).filledAmount ≤ (out.buyOrders i).energyAmount) ∧
      (∀ j, (out.sellOrders j).filledAmount ≤ (out.sellOrders j).energyAmount) ∧
      out.matchesCreated = out.results.length ∧
      out.totalVolume = (out.results.map (·.matchAmount)).sum := by
  intro out
  have hdistinct := MatchingEngine.distinct_initialState nowNs hids
  rw [List.map_append, List.nodup_append] at hids
  have hstart : SoundSoFar nowNs buyOrders.get sellOrders.get []
      ⟨buyOrders.get, sellOrders.get, [], 0, 0⟩ :=
    { buys_eq := fun _ => (FastOrder.fill_zero _).symm
      sells_eq := fun _ => (FastOrder.fill_zero _).symm
      buys_bounds := fun i => by
        obtain ⟨h0, hle⟩ := hfill _ (List.mem_append_left _ (List.get_mem buyOrders i))
        exact ⟨h0, hle⟩
      sells_bounds := fun j => by
        obtain ⟨h0, hle⟩ := hfill _ (List.mem_append_right _ (List.get_mem sellOrders j))
        exact ⟨h0, hle⟩
      zone_ids := .refl _
      fair := by simp }
  have hentries : ∀ e ∈ (partitionByZone buyOrders.get nowNs).toList, ∀ i ∈ e.2,
      Files nowNs e.1 (buyOrders.get i) := fun e he i hi =>
    (files_of_mem_partition (OrderedMap.get?_eq_some.mpr he) i).mp hi
  have hsound := hstart.foldl buyMetadata topology (MatchingEngine.get_ids_injective hids.1)
    hdistinct.sell_ids
    (fun i j he => hids.2.2 _ (List.mem_map_of_mem (List.get_mem buyOrders i)) _
      (List.mem_map_of_mem (List.get_mem sellOrders j)) he) _ hentries
  obtain ⟨hvolume, hcount⟩ := clearCycle_tallied buyOrders sellOrders buyMetadata topology nowNs
  refine ⟨fun st buys sells => ?_, ?_, hsound.fair, hsound.buys_eq, hsound.sells_eq,
    fun i => (hsound.buys_bounds i).filled_le, fun j => (hsound.sells_bounds j).filled_le, hcount, hvolume⟩
  · apply sweeps_sweep
    simp only [sortBuyIndices, sortSellIndices, List.length_insertionSort, le_refl]
  · exact (OrderedMap.keys_nodup _).sublist hsound.zone_ids

theorem clearCycle_sound_one_zone :
    let buyOrders := [FastOrder.placed 1 10 2 none, FastOrder.placed 2 8 1 none]
    let sellOrders := [FastOrder.placed 3 3 1 none, FastOrder.placed 4 4 5 none]
    let out := clearCycle buyOrders sellOrders [] (.freeGrid fun _ _ => 100) (BoundedInt.saturate 0)
    (out.zones.map fun zc => (zc.clearingPrice, zc.clearedVolume)) = [(6, 3)] ∧
      ∀ zc ∈ out.zones, ∀ r ∈ zc.results,
        Fair (BoundedInt.saturate 0) buyOrders.get sellOrders.get zc r := by
  refine ⟨by decide +kernel, fun zc hzc => ?_⟩
  exact ((clearCycle_sound [FastOrder.placed 1 10 2 none, FastOrder.placed 2 8 1 none]
    [FastOrder.placed 3 3 1 none, FastOrder.placed 4 4 5 none] [] (.freeGrid fun _ _ => 100)
    (BoundedInt.saturate 0) (by decide) (by decide +kernel)).2.2.1 zc hzc).2

end TradingService.UniformAuction
