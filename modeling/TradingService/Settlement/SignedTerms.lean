import TradingService.Orders.Signed
import TradingService.Orders.Lifetimes
import TradingService.Settlement.Gateway

/-!
# What was signed and what is settled

The signature of a request is checked over the amounts of the request. The settlement
rebuilds the message from the columns of the stored order, which keep eight decimals and
round to them. Everything else in the message is stored as it was signed.
-/

namespace TradingService

namespace SignedOrderSide

def message (s : SignedOrderSide) (walletBytes : String → Option (Vector UInt8 32)) :
    Option (List UInt8) :=
  (walletBytes s.user).map fun user =>
    let side := match s.side with
      | .buy => OffchainPayload.sideBuy
      | .sell => OffchainPayload.sideSell
    OffchainPayload.messageFor s.orderId user s.energyAmount s.pricePerKwh side s.zoneId.toNat
      (BoundedInt.saturate s.expiresAt)

end SignedOrderSide

/-- The message that a settlement presents for an order. -/
def Surroundings.rebuiltMessage (env : Surroundings) (db : Database)
    (walletBytes : String → Option (Vector UInt8 32)) (orderId : Uuid) : Option (List UInt8) :=
  (env.signedOrderSide db orderId).bind (·.message walletBytes)

namespace Rest

variable {config : ServiceConfig} {moment : Moment} {userId : Uuid} {req : SubmitOrderRequest}

/-- The message over `terms`, once its parts are read. -/
def messageOver (req : SubmitOrderRequest) (terms : Terms) (orderId : Uuid) (user : Vector UInt8 32)
    (energyBase priceBase : U64) (signedExpiresAt : I64) : List UInt8 :=
  let side := match terms.side with
    | .buy => OffchainPayload.sideBuy
    | .sell => OffchainPayload.sideSell
  OffchainPayload.messageFor orderId user energyBase priceBase side (req.zoneId : ℤ).toNat
    signedExpiresAt

/-- The message that the signature of a request is held against. -/
def signedMessage (moment : Moment) (req : SubmitOrderRequest) : Option (List UInt8) := do
  let terms ← (readTerms req).toOption
  let orderId ← req.orderId
  let signedExpiresAt ← req.signedExpiresAt
  let linked ← moment.wallet.toOption
  let wallet ← linked
  let user ← moment.walletBytes wallet
  let energyBase ← BaseUnits.energyToBaseUnits terms.amount
  let priceBase ← BaseUnits.currencyToBaseUnits terms.price
  return messageOver req terms orderId user energyBase priceBase signedExpiresAt

/-- What has been verified when a signed request is accepted. -/
structure Verified (moment : Moment) (req : SubmitOrderRequest) (terms : Terms) (signed : SignedOrder)
    (wallet : String) (user : Vector UInt8 32) (energyBase priceBase : U64) : Prop where
  orderId : req.orderId = some signed.orderId
  signedExpiresAt : req.signedExpiresAt = some signed.signedExpiresAt
  linked : moment.wallet = .ok (some wallet)
  bytes : moment.walletBytes wallet = some user
  energy : BaseUnits.energyToBaseUnits terms.amount = some energyBase
  price : BaseUnits.currencyToBaseUnits terms.price = some priceBase
  verify : moment.verify wallet signed.walletSignature
    (messageOver req terms signed.orderId user energyBase priceBase signed.signedExpiresAt) = .ok ()

theorem verifySignature_ok {terms : Terms} {signed : SignedOrder}
    (h : verifySignature moment req terms = .ok signed) :
    ∃ wallet user energyBase priceBase,
      Verified moment req terms signed wallet user energyBase priceBase := by
  unfold verifySignature at h
  obtain ⟨orderId, horderId, h⟩ := Except.bind_eq_ok_iff.mp h
  obtain ⟨walletSignature, _, h⟩ := Except.bind_eq_ok_iff.mp h
  obtain ⟨signedExpiresAt, hexpiry, h⟩ := Except.bind_eq_ok_iff.mp h
  obtain ⟨linked, hlinked, h⟩ := Except.bind_eq_ok_iff.mp h
  obtain ⟨wallet, hwallet, h⟩ := Except.bind_eq_ok_iff.mp h
  obtain ⟨user, huser, h⟩ := Except.bind_eq_ok_iff.mp h
  obtain ⟨energyBase, henergy, h⟩ := Except.bind_eq_ok_iff.mp h
  obtain ⟨priceBase, hprice, h⟩ := Except.bind_eq_ok_iff.mp h
  obtain ⟨_, hverify, h⟩ := Except.bind_eq_ok_iff.mp h
  obtain rfl := Except.ok.inj h
  obtain rfl := required_ok hwallet
  refine ⟨wallet, user, energyBase, priceBase, required_ok horderId, required_ok hexpiry,
    Except.mapError_eq_ok_iff.mp hlinked, ?_, required_ok henergy, required_ok hprice,
    Except.mapError_eq_ok_iff.mp hverify⟩
  cases hbytes : moment.walletBytes wallet with
  | none => simp [hbytes] at huser
  | some bytes => simpa [hbytes] using huser

theorem Verified.signedMessage {terms : Terms} {signed : SignedOrder} {wallet : String}
    {user : Vector UInt8 32} {energyBase priceBase : U64}
    (h : Verified moment req terms signed wallet user energyBase priceBase)
    (hterms : readTerms req = .ok terms) :
    Rest.signedMessage moment req =
      some (messageOver req terms signed.orderId user energyBase priceBase signed.signedExpiresAt) := by
  unfold Rest.signedMessage
  rw [hterms, h.orderId, h.signedExpiresAt, h.linked]
  simp [Except.toOption, h.bytes, h.energy, h.price]

end Rest

section Amounts

variable {d : Decimal} {x : Numeric} {e : U64}

theorem truncToU64_of_toBaseUnits {scale : ℤ} (h : BaseUnits.toBaseUnits d scale = some e) :
    0 ≤ d ∧ BaseUnits.truncToU64 d scale = some e := by
  unfold BaseUnits.toBaseUnits at h
  split_ifs at h with hsign
  exact ⟨not_lt.mp hsign, h⟩

theorem toBaseUnits_of_nonneg {scale : ℤ} (hd : 0 ≤ d) :
    BaseUnits.toBaseUnits d scale = BaseUnits.truncToU64 d scale := if_neg (not_lt.mpr hd)

/-- The units of a stored amount, read off its ninth decimal. -/
theorem units_of_store (hd : 0 ≤ d) (h : Numeric.store d = some x) :
    (x.units : ℤ) = (⌊d * 1000000000⌋ + 5) / 10 := by
  obtain ⟨u, hu, rfl⟩ := Option.map_eq_some_iff.mp h
  rw [BoundedInt.tryFrom_eq_some.mp hu, Rounding.halfAway_of_nonneg, Rounding.floor_add_half]
  · congr 3
    simp only [Numeric.scale]
    push_cast
    ring
  · exact mul_nonneg hd Numeric.scale_pos.le

theorem toDecimal_nonneg (hd : 0 ≤ d) (h : Numeric.store d = some x) : 0 ≤ x.toDecimal := by
  have hfloor : 0 ≤ ⌊d * 1000000000⌋ := Int.floor_nonneg.mpr (by positivity)
  have hunits := units_of_store hd h
  have hpos : (0 : ℤ) ≤ x.units := by omega
  exact div_nonneg (by exact_mod_cast hpos) Numeric.scale_pos.le

/-- A stored energy has the base units of the energy that was signed exactly if that has no
ninth decimal. -/
theorem energyToBaseUnits_store_iff (hstore : Numeric.store d = some x)
    (he : BaseUnits.energyToBaseUnits d = some e) :
    BaseUnits.energyToBaseUnits x.toDecimal = some e ↔ ⌊d * 1000000000⌋ % 10 = 0 := by
  obtain ⟨hd, htrunc⟩ := truncToU64_of_toBaseUnits he
  have hsigned : (e : ℤ) = ⌊d * 1000000000⌋ := by
    rw [BoundedInt.tryFrom_eq_some.mp htrunc, Rounding.trunc_of_nonneg]
    · simp [BaseUnits.energyScale]
    · exact mul_nonneg hd (by norm_num [BaseUnits.energyScale])
  have hunits := units_of_store hd hstore
  have hscaled : x.toDecimal * BaseUnits.energyScale = ((10 * (x.units : ℤ) : ℤ) : ℚ) := by
    simp only [Numeric.toDecimal, Numeric.scale, BaseUnits.energyScale]
    push_cast
    ring
  rw [BaseUnits.energyToBaseUnits, toBaseUnits_of_nonneg (toDecimal_nonneg hd hstore),
    BaseUnits.truncToU64, hscaled, Rounding.trunc_intCast, BoundedInt.tryFrom_eq_some]
  omega

/-- A stored price has the base units of the price that was signed exactly if it is not
rounded up to the next of them. -/
theorem currencyToBaseUnits_store_iff (hstore : Numeric.store d = some x)
    (he : BaseUnits.currencyToBaseUnits d = some e) :
    BaseUnits.currencyToBaseUnits x.toDecimal = some e ↔ ⌊d * 1000000000⌋ % 1000 < 995 := by
  obtain ⟨hd, htrunc⟩ := truncToU64_of_toBaseUnits he
  have hsigned : (e : ℤ) = ⌊d * 1000000000⌋ / 1000 := by
    have hscaled : d * BaseUnits.currencyScale = d * 1000000000 / (1000 : ℕ) := by
      simp only [BaseUnits.currencyScale]
      push_cast
      ring
    rw [BoundedInt.tryFrom_eq_some.mp htrunc, Rounding.trunc_of_nonneg, hscaled, Int.floor_div_natCast]
    · rfl
    · exact mul_nonneg hd (by norm_num [BaseUnits.currencyScale])
  have hunits := units_of_store hd hstore
  have hscaled : x.toDecimal * BaseUnits.currencyScale = ((x.units : ℤ) : ℚ) / (100 : ℕ) := by
    simp only [Numeric.toDecimal, Numeric.scale, BaseUnits.currencyScale]
    push_cast
    ring
  have hnonneg := toDecimal_nonneg hd hstore
  rw [BaseUnits.currencyToBaseUnits, toBaseUnits_of_nonneg hnonneg, BaseUnits.truncToU64,
    BoundedInt.tryFrom_eq_some, Rounding.trunc_of_nonneg, hscaled, Rat.floor_intCast_div_natCast]
  · push_cast
    omega
  · exact mul_nonneg hnonneg (by norm_num [BaseUnits.currencyScale])

end Amounts

/-- Whatever has become of the order `inserted` since, its terms are in `row`. -/
structure OrderRow.KeepsTerms (inserted row : OrderRow) : Prop where
  id : row.id = inserted.id
  userId : row.userId = inserted.userId
  side : row.side = inserted.side
  energyAmount : row.energyAmount = inserted.energyAmount
  pricePerKwh : row.pricePerKwh = inserted.pricePerKwh
  zoneId : row.zoneId = inserted.zoneId
  expiresAt : row.expiresAt = inserted.expiresAt

/-- The columns take the amounts without a change that the chain could see. -/
structure TradingOrder.KeepsAmounts (order : TradingOrder) : Prop where
  energy : ⌊order.energyAmount * 1000000000⌋ % 10 = 0
  price : ⌊order.pricePerKwh * 1000000000⌋ % 1000 < 995

instance (order : TradingOrder) : Decidable order.KeepsAmounts :=
  decidable_of_iff (_ ∧ _) ⟨fun h => ⟨h.1, h.2⟩, fun h => ⟨h.1, h.2⟩⟩

theorem storeInstant_seconds (secs : ℤ) : storeInstant (secs * 1000000000) / 1000000000 = secs := by
  have hmicros : secs * 1000000000 - 946684800000000000 = (secs * 1000000 - 946684800000000) * 1000 := by
    ring
  unfold storeInstant
  rw [hmicros, Int.mul_tdiv_cancel _ (by norm_num)]
  omega

section Rebuilt

variable {config : ServiceConfig} {moment : Moment} {userId : Uuid} {req : Rest.SubmitOrderRequest}
  {order : TradingOrder} {signature : String}

structure Rest.BecomesOrder (userId : Uuid) (req : SubmitOrderRequest) (terms : Terms)
    (signed : SignedOrder) (order : TradingOrder) : Prop where
  id : order.id = signed.orderId
  userId : order.userId = userId
  side : order.side = terms.side
  energyAmount : order.energyAmount = terms.amount
  pricePerKwh : order.pricePerKwh = terms.price
  zoneId : order.zoneId = WithBot.some req.zoneId
  expiresAt : order.expiresAt = some ((signed.signedExpiresAt : ℤ) * 1000000000)

/-- A signed request that is accepted was signed over the terms of its order. -/
theorem Rest.verified_of_submitOrder
    (h : Rest.submitOrder config moment userId req = .ok (order, some signature)) :
    ∃ terms signed wallet user energyBase priceBase, Rest.readTerms req = .ok terms ∧
      Rest.Verified moment req terms signed wallet user energyBase priceBase ∧
        signed.walletSignature = signature ∧ Rest.BecomesOrder userId req terms signed order := by
  obtain ⟨terms, meter, signed, expiresAt, orderPda, epochId, hterms, _, _, hsigned, hexpiry, _, rfl,
    hsignature⟩ := Rest.submitOrder_ok h
  obtain ⟨signed, rfl, rfl⟩ := Option.map_eq_some_iff.mp hsignature.symm
  have hverify : Rest.verifySignature moment req terms = .ok signed := by
    unfold Rest.signedOrder at hsigned
    split_ifs at hsigned
    · cases hresult : Rest.verifySignature moment req terms with
      | error e => simp [hresult, Except.map] at hsigned
      | ok signed' => simpa [hresult, Except.map] using hsigned
    · cases hsigned
  obtain ⟨wallet, user, energyBase, priceBase, hverified⟩ := Rest.verifySignature_ok hverify
  exact ⟨terms, signed, wallet, user, energyBase, priceBase, hterms, hverified, rfl, rfl, rfl, rfl, rfl,
    rfl, rfl, congrArg some ((OrderPolicy.resolveExpiresAt_kept hexpiry).signed_exact _ rfl).1⟩

/-- For a signed order that was accepted and stored, the settlement rebuilds the message that
was verified exactly if the columns keep its amounts. -/
theorem Rest.rebuilt_eq_signed_iff {storedAt : ℤ} {inserted row : OrderRow} {db : Database}
    {env : Surroundings}
    (hsubmit : Rest.submitOrder config moment userId req = .ok (order, some signature))
    (hstore : order.store storedAt = some inserted) (hrow : row ∈ db.orders.rows)
    (hkeeps : inserted.KeepsTerms row) (hsignature : row.signature = some signature)
    (hquery : env.sideQueryFails order.id = false)
    (hwallet : moment.wallet = .ok (env.primaryWallet userId)) :
    (∃ wallet message, Rest.signedMessage moment req = some message ∧
        moment.verify wallet signature message = .ok ()) ∧
      (env.rebuiltMessage db moment.walletBytes order.id = Rest.signedMessage moment req ↔
        order.KeepsAmounts) := by
  obtain ⟨terms, signed, wallet, user, energyBase, priceBase, hterms, hverified, rfl, hbecomes⟩ :=
    Rest.verified_of_submitOrder hsubmit
  have hsigned := hverified.signedMessage hterms
  refine ⟨⟨wallet, _, hsigned, hverified.verify⟩, ?_⟩
  obtain ⟨hid, huser, _, _, hside, henergy, hprice, hzone, hstoredExpiry, _, _, _⟩ :=
    TradingOrder.heldBy_of_store hstore
  have hfind : db.orders.find? order.id = some row :=
    KeyedTable.find?_eq_some.mpr ⟨hrow, hkeeps.id.trans hid⟩
  have hprimary : env.primaryWallet row.userId = some wallet := by
    rw [hkeeps.userId, huser, hbecomes.userId]
    exact Except.ok.inj (hwallet.symm.trans hverified.linked)
  have hexpiry : row.expiresAt = some (storeInstant ((signed.signedExpiresAt : ℤ) * 1000000000)) := by
    rw [hkeeps.expiresAt, hstoredExpiry, hbecomes.expiresAt]
    rfl
  have hzones : (unsignedZone row.zoneId).toNat = (req.zoneId : ℤ).toNat := by
    rw [hkeeps.zoneId, hzone, hbecomes.zoneId]
    change (max 0 (req.zoneId : ℤ)).toNat = _
    omega
  have hrebuilt : env.rebuiltMessage db moment.walletBytes order.id =
      (BaseUnits.energyToBaseUnits inserted.energyAmount.toDecimal).bind fun e =>
        (BaseUnits.currencyToBaseUnits inserted.pricePerKwh.toDecimal).map fun p =>
          Rest.messageOver req terms signed.orderId user e p signed.signedExpiresAt := by
    unfold Surroundings.rebuiltMessage Surroundings.signedOrderSide
    rw [hquery, hfind, if_neg Bool.false_ne_true]
    simp only [Option.bind_eq_bind, Option.bind_some, hsignature, hprimary, OrderRow.energy,
      hkeeps.energyAmount, hkeeps.pricePerKwh, Option.bind_assoc, Option.pure_def]
    cases BaseUnits.energyToBaseUnits inserted.energyAmount.toDecimal with
    | none => rfl
    | some e =>
      cases BaseUnits.currencyToBaseUnits inserted.pricePerKwh.toDecimal with
      | none => rfl
      | some p =>
        simp only [Option.bind_some, Option.map_some, SignedOrderSide.message, hverified.bytes, hzones,
          hexpiry, storeInstant_seconds, Option.getD_some, BoundedInt.saturate_coe, hkeeps.side, hside,
          hbecomes.side, hbecomes.id]
        rfl
  have hsignedEnergy := hverified.energy
  have hsignedPrice := hverified.price
  rw [← hbecomes.energyAmount] at hsignedEnergy
  rw [← hbecomes.pricePerKwh] at hsignedPrice
  have hkeepsEnergy := energyToBaseUnits_store_iff henergy hsignedEnergy
  have hkeepsPrice := currencyToBaseUnits_store_iff hprice hsignedPrice
  rw [hrebuilt, hsigned]
  constructor
  · intro heq
    obtain ⟨e, he, heq⟩ := Option.bind_eq_some_iff.mp heq
    obtain ⟨p, hp, heq⟩ := Option.map_eq_some_iff.mp heq
    obtain ⟨rfl, rfl⟩ := OffchainPayload.messageFor_inj.mp heq
    exact ⟨hkeepsEnergy.mp he, hkeepsPrice.mp hp⟩
  · rintro ⟨hdigit, hround⟩
    rw [hkeepsEnergy.mpr hdigit, hkeepsPrice.mpr hround]
    rfl

end Rebuilt

def Rest.SubmitOrderRequest.signedFor (amount : Decimal) : SubmitOrderRequest :=
  { signedBuy with energyAmountKwh := .ok amount }

def TradingOrder.signedFor (amount : Decimal) : TradingOrder :=
  Rest.buildOrder .quiet 1 (.signedFor amount) ⟨amount, .buy, .gtc, some 5, 5, .realtime⟩ none
    (some ⟨1, "signature", BoundedInt.saturate 100⟩) (100 * 1000000000) none 0

def Database.signedFor (amount : Decimal) : Option Database :=
  (Database.empty.insertOrderWithEvent (.signedFor amount) 0).bind (·.setWalletSignature 1 "signature")

theorem Rest.rebuilt_eq_signed_one :
    ∃ inserted ∈ (TradingOrder.signedFor 1).store 0,
      (∃ wallet message, Rest.signedMessage .quiet (.signedFor 1) = some message ∧
          Moment.quiet.verify wallet "signature" message = .ok ()) ∧
        ((Surroundings.calm true).rebuiltMessage
            (.ofRows ⟨[{ inserted with signature := some "signature" }], by simp⟩ .empty)
            Moment.quiet.walletBytes 1 = Rest.signedMessage .quiet (.signedFor 1) ↔
          (TradingOrder.signedFor 1).KeepsAmounts) := by
  obtain ⟨inserted, hstore⟩ : ∃ inserted, (TradingOrder.signedFor 1).store 0 = some inserted :=
    Option.isSome_iff_exists.mp (by decide +kernel)
  have hsubmit : Rest.submitOrder .perUser .quiet 1 (.signedFor 1) =
      .ok (.signedFor 1, some "signature") := by decide +kernel
  refine ⟨inserted, hstore, ?_⟩
  exact Rest.rebuilt_eq_signed_iff hsubmit hstore (List.mem_singleton.mpr rfl)
    ⟨rfl, rfl, rfl, rfl, rfl, rfl, rfl⟩ rfl rfl rfl

/-- A signed energy with nine decimals is accepted, and the settlement rebuilds another message. -/
theorem Rest.ninth_decimal_differs :
    Rest.submitOrder .perUser .quiet 1 (.signedFor (1 + 1 / 1000000000)) =
        .ok (.signedFor (1 + 1 / 1000000000), some "signature") ∧
      (Database.signedFor (1 + 1 / 1000000000)).isSome ∧
      ((Database.signedFor (1 + 1 / 1000000000)).map fun db =>
          (Surroundings.calm true).rebuiltMessage db Moment.quiet.walletBytes 1) ≠
        some (Rest.signedMessage .quiet (.signedFor (1 + 1 / 1000000000))) := by
  decide +kernel

end TradingService
