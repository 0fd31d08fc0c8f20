import TradingService.Core.FastPrice

/-!
# Types of the matching engines

The order representation of the hot path, the metadata kept beside it, and what a
cycle reports.
-/

namespace TradingService

abbrev Uuid := Fin (2 ^ 128)

instance (priority := 2000) Uuid.neZero : NeZero (2 ^ 128) := ⟨by norm_num⟩

instance (priority := 2000) Uuid.lawfulBEq : LawfulBEq Uuid := inferInstance

/-- The ids of a list are checked one by one, and not all ids there are. -/
instance (priority := 2000) Uuid.decidableForallMem (ids : List Uuid) (p : Uuid → Prop)
    [DecidablePred p] : Decidable (∀ id ∈ ids, p id) := List.decidableBAll p ids

instance (priority := 2000) Uuid.decidableForallMemOption (id : Option Uuid) (p : Uuid → Prop)
    [DecidablePred p] : Decidable (∀ x ∈ id, p x) :=
  decidable_of_iff (∀ x ∈ id.toList, p x) (by simp)

def Uuid.display (id : Uuid) : String :=
  let digits := fun from' n => String.ofList
    ((List.range n).map fun i => Nat.digitChar (id.val / 16 ^ (31 - (from' + i)) % 16))
  "-".intercalate [digits 0 8, digits 8 4, digits 12 4, digits 16 4, digits 20 12]

def Uuid.max : Uuid := ⟨2 ^ 128 - 1, by norm_num⟩

/-- An optional zone number; `None` orders before every zone. -/
abbrev ZoneId := WithBot I32

def ZoneId.number (z : ℤ) : ZoneId := WithBot.some (BoundedInt.saturate z)

inductive TimeInForce
  | gtc
  | fok
  | ioc
  deriving DecidableEq, Repr

def TimeInForce.isImmediate : TimeInForce → Bool
  | .gtc => false
  | .fok => true
  | .ioc => true

structure FastOrder where
  id : Uuid
  userId : Uuid
  price : FastPrice
  energyAmount : Decimal
  filledAmount : Decimal
  zoneId : ZoneId
  createdAtNs : I64
  expiresAtNs : Option I64
  timeInForce : TimeInForce
  metadataIndex : ℕ
  deriving DecidableEq

structure OrderMetadata where
  epochId : Uuid
  orderPda : Option String
  sessionToken : Option String
  deriving DecidableEq, Inhabited

namespace FastOrder

def remainingAmount (o : FastOrder) : Decimal := o.energyAmount - o.filledAmount

def isExpired (o : FastOrder) (nowNs : I64) : Bool :=
  match o.expiresAtNs with
  | some expiresAt => expiresAt ≤ nowNs
  | none => false

def fill (o : FastOrder) (amount : Decimal) : FastOrder :=
  { o with filledAmount := o.filledAmount + amount }

variable (o : FastOrder) (amount : Decimal)

@[simp] theorem fill_id : (o.fill amount).id = o.id := rfl
@[simp] theorem fill_userId : (o.fill amount).userId = o.userId := rfl
@[simp] theorem fill_price : (o.fill amount).price = o.price := rfl
@[simp] theorem fill_energyAmount : (o.fill amount).energyAmount = o.energyAmount := rfl
@[simp] theorem fill_filledAmount : (o.fill amount).filledAmount = o.filledAmount + amount := rfl
@[simp] theorem fill_zoneId : (o.fill amount).zoneId = o.zoneId := rfl
@[simp] theorem fill_createdAtNs : (o.fill amount).createdAtNs = o.createdAtNs := rfl
@[simp] theorem fill_timeInForce : (o.fill amount).timeInForce = o.timeInForce := rfl
@[simp] theorem fill_metadataIndex : (o.fill amount).metadataIndex = o.metadataIndex := rfl

@[simp] theorem fill_isExpired (nowNs : I64) :
    (o.fill amount).isExpired nowNs = o.isExpired nowNs := rfl

@[simp] theorem fill_remainingAmount :
    (o.fill amount).remainingAmount = o.remainingAmount - amount := by
  simp only [remainingAmount, fill_energyAmount, fill_filledAmount]
  ring

@[simp] theorem fill_zero : o.fill 0 = o := by simp [fill]

theorem fill_fill (amount' : Decimal) : (o.fill amount).fill amount' = o.fill (amount + amount') := by
  simp [fill, add_assoc]

end FastOrder

/-- Time has only filled the orders. -/
def Later {n : ℕ} (orders orders' : Fin n → FastOrder) : Prop :=
  ∀ i, ∃ amount, 0 ≤ amount ∧ orders' i = (orders i).fill amount

section Later

variable {n : ℕ} {orders orders' orders'' : Fin n → FastOrder}

theorem Later.refl (orders : Fin n → FastOrder) : Later orders orders :=
  fun i => ⟨0, le_rfl, (orders i).fill_zero.symm⟩

theorem Later.trans (h : Later orders orders') (h' : Later orders' orders'') : Later orders orders'' := by
  intro i
  obtain ⟨amount, h0, heq⟩ := h i
  obtain ⟨amount', h0', heq'⟩ := h' i
  exact ⟨amount + amount', add_nonneg h0 h0', by rw [heq', heq, FastOrder.fill_fill]⟩

theorem Later.update (orders : Fin n → FastOrder) (i : Fin n) {amount : Decimal} (h0 : 0 ≤ amount) :
    Later orders (Function.update orders i ((orders i).fill amount)) := by
  intro k
  by_cases hk : k = i
  · subst hk
    exact ⟨amount, h0, Function.update_self _ _ _⟩
  · exact ⟨0, le_rfl, by rw [Function.update_of_ne hk, FastOrder.fill_zero]⟩

theorem Later.price (h : Later orders orders') (i : Fin n) : (orders' i).price = (orders i).price := by
  obtain ⟨amount, _, heq⟩ := h i
  rw [heq]
  rfl

theorem Later.userId (h : Later orders orders') (i : Fin n) : (orders' i).userId = (orders i).userId := by
  obtain ⟨amount, _, heq⟩ := h i
  rw [heq]
  rfl

theorem Later.remaining_le (h : Later orders orders') (i : Fin n) :
    (orders' i).remainingAmount ≤ (orders i).remainingAmount := by
  obtain ⟨amount, h0, heq⟩ := h i
  rw [heq, FastOrder.fill_remainingAmount]
  linarith

theorem Later.id (h : Later orders orders') (i : Fin n) : (orders' i).id = (orders i).id := by
  obtain ⟨amount, _, heq⟩ := h i
  rw [heq]
  rfl

end Later

structure MatchResult where
  buyOrderId : Uuid
  sellOrderId : Uuid
  buyMetadataIndex : ℕ
  sellMetadataIndex : ℕ
  matchAmount : Decimal
  matchPrice : Decimal
  settlePrice : Decimal
  sellerPrice : Decimal
  buyerPrice : Decimal
  totalEnergyCost : Decimal
  wheelingCharge : Decimal
  lossFactor : Decimal
  lossCost : Decimal
  buyerZoneId : ZoneId
  sellerZoneId : ZoneId
  buyerId : Uuid
  sellerId : Uuid
  epochId : Uuid
  deriving DecidableEq

structure CycleStats where
  matchesCreated : ℕ
  totalVolume : Decimal
  iocCancellations : List Uuid
  deriving DecidableEq

def MatchResult.names (m : MatchResult) (id : Uuid) : Prop :=
  m.buyOrderId = id ∨ m.sellOrderId = id

instance (m : MatchResult) (id : Uuid) : Decidable (m.names id) :=
  inferInstanceAs (Decidable (_ ∨ _))

def tradedAmount (results : List MatchResult) (id : Uuid) : Decimal :=
  ((results.filter (·.names id)).map (·.matchAmount)).sum

@[simp] theorem tradedAmount_nil (id : Uuid) : tradedAmount [] id = 0 := rfl

theorem tradedAmount_append (rs rs' : List MatchResult) (id : Uuid) :
    tradedAmount (rs ++ rs') id = tradedAmount rs id + tradedAmount rs' id := by
  simp [tradedAmount]

theorem tradedAmount_singleton (r : MatchResult) (id : Uuid) :
    tradedAmount [r] id = if r.names id then r.matchAmount else 0 := by
  by_cases h : r.names id <;> simp [tradedAmount, h]

theorem tradedAmount_cons (r : MatchResult) (rs : List MatchResult) (id : Uuid) :
    tradedAmount (r :: rs) id = (if r.names id then r.matchAmount else 0) + tradedAmount rs id := by
  rw [← List.singleton_append, tradedAmount_append, tradedAmount_singleton]

theorem tradedAmount_perm {rs rs' : List MatchResult} (h : rs.Perm rs') (id : Uuid) :
    tradedAmount rs id = tradedAmount rs' id := ((h.filter _).map _).sum_eq

theorem tradedAmount_of_not_named {rs : List MatchResult} {id : Uuid}
    (h : ∀ r ∈ rs, ¬ r.names id) : tradedAmount rs id = 0 := by
  have hnil : rs.filter (·.names id) = [] := List.filter_eq_nil_iff.mpr fun r hr => by
    simpa using h r hr
  rw [tradedAmount, hnil, List.map_nil, List.sum_nil]

theorem tradedAmount_mem {grid : AddSubgroup Decimal} {rs : List MatchResult}
    (h : ∀ r ∈ rs, r.matchAmount ∈ grid) (id : Uuid) : tradedAmount rs id ∈ grid := by
  apply grid.list_sum_mem
  intro x hx
  obtain ⟨r, hr, rfl⟩ := List.mem_map.mp hx
  exact h r (List.mem_of_mem_filter hr)

theorem not_names_of_tradedAmount_eq_zero {rs : List MatchResult} (hpos : ∀ m ∈ rs, 0 < m.matchAmount)
    {id : Uuid} (h : tradedAmount rs id = 0) : ∀ m ∈ rs, ¬m.names id := by
  intro m hm hname
  have hle : m.matchAmount ≤ tradedAmount rs id := by
    apply List.single_le_sum
    · intro x hx
      obtain ⟨m', hm', rfl⟩ := List.mem_map.mp hx
      exact (hpos m' (List.mem_of_mem_filter hm')).le
    · exact List.mem_map_of_mem (List.mem_filter.mpr ⟨hm, by simpa using hname⟩)
  rw [h] at hle
  exact absurd (hpos m hm) (not_lt.mpr hle)

def FastOrder.credit (results : List MatchResult) (o : FastOrder) : FastOrder :=
  o.fill (tradedAmount results o.id)

@[simp] theorem FastOrder.credit_nil (o : FastOrder) : o.credit [] = o := o.fill_zero

theorem FastOrder.credit_append (rs rs' : List MatchResult) (o : FastOrder) :
    o.credit (rs ++ rs') = (o.credit rs).credit rs' := by
  simp only [credit, fill_id, fill_fill, tradedAmount_append]

@[simp] theorem FastOrder.credit_id (rs : List MatchResult) (o : FastOrder) :
    (o.credit rs).id = o.id := rfl

theorem FastOrder.credit_singleton {r : MatchResult} {o : FastOrder} (h : r.names o.id) :
    o.credit [r] = o.fill r.matchAmount := by
  rw [credit, tradedAmount_singleton, if_pos h]

theorem FastOrder.credit_of_not_named {rs : List MatchResult} {o : FastOrder}
    (h : ∀ r ∈ rs, ¬ r.names o.id) : o.credit rs = o := by
  rw [credit, tradedAmount_of_not_named h, fill_zero]

/-- Minimum amount of energy to allow a trade. -/
def minTradeAmount : Decimal := 1 / 1000

theorem minTradeAmount_pos : 0 < minTradeAmount := by norm_num [minTradeAmount]

structure TopologySnapshot where
  canAccommodateFlow : ZoneId → ZoneId → Decimal → Bool
  calculateWheelingCharge : ZoneId → ZoneId → FastPrice
  calculateLossFactor : ZoneId → ZoneId → FastPrice

def TopologySnapshot.freeGrid (capacity : ZoneId → ZoneId → Decimal) : TopologySnapshot where
  canAccommodateFlow fromZone toZone amount := decide (amount ≤ capacity fromZone toZone)
  calculateWheelingCharge _ _ := FastPrice.ofInt 0
  calculateLossFactor _ _ := FastPrice.one

def FastOrder.placed (id : Uuid) (price : ℤ) (energyAmount : Decimal) (zoneId : ZoneId) :
    FastOrder where
  id := id
  userId := id
  price := FastPrice.ofInt price
  energyAmount := energyAmount
  filledAmount := 0
  zoneId := zoneId
  createdAtNs := BoundedInt.saturate 0
  expiresAtNs := none
  timeInForce := .gtc
  metadataIndex := 0

end TradingService
