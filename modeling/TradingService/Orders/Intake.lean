import TradingService.Ledger.Upkeep
import TradingService.Orders.Admission

/-!
# The entry paths at work

An entry path is not done with its order when it is inserted: the REST edge still has
to store the signature, and the gRPC edge to place the order on the chain. `Intake`
is what the paths have inserted and what they still have to do; others may get in
between any two of these steps.
-/

namespace TradingService

structure Intake where
  /-- The orders that came in by each path. -/
  rest : List Uuid
  grpc : List Uuid
  recurring : List Uuid
  /-- The signatures that are yet to be stored. -/
  toSign : List (Uuid × String)
  /-- The REST orders whose signature was verified and stored. -/
  signed : List Uuid
  /-- The gRPC orders that are yet to be placed. -/
  toPlace : List Uuid

def Intake.empty : Intake := ⟨[], [], [], [], [], []⟩

def Intake.inserted (intake : Intake) : List Uuid := intake.rest ++ intake.grpc ++ intake.recurring

inductive IntakeAction
  | submitRest (userId : Uuid) (req : Rest.SubmitOrderRequest) (moment : Moment)
  /-- The signature of an order is written, unless the write fails or is refused. -/
  | writeSignature (orderId : Uuid) (written : Bool)
  | submitGrpc (req : Grpc.SubmitOrderRequest) (moment : Moment)
  /-- The chain answers about an order, and the write that follows succeeds or fails. -/
  | place (orderId : Uuid) (reply : Except String (String × String)) (written : Bool)
  | placeRecurring (rule : Recurring.RecurringOrder) (moment : Moment)

namespace Database

variable (db : Database)

def updateOrderPda (orderId : Uuid) (orderPda : String) : Database :=
  db.updateOrders (fun o => if o.id = orderId then { o with orderPda := some orderPda } else o)
    (fun o => by split_ifs <;> rfl) []

/-- The plain status write, which asks for no status. -/
def updateOrderStatus (orderId : Uuid) (status : OrderStatus) : Database :=
  db.updateOrders (fun o => if o.id = orderId then { o with status := status } else o)
    (fun o => by split_ifs <;> rfl) []

/-- What the gRPC edge does about a reply of the chain. -/
def afterPlacement (orderId : Uuid) : Except String (String × String) → Database
  | .ok (_, pda) => db.updateOrderPda orderId pda
  | .error msg =>
    if isDeterministicChainRejection msg then db.updateOrderStatus orderId .cancelled else db

end Database

def Intake.step (config : ServiceConfig) (db : Database) (intake : Intake) :
    IntakeAction → Option (Database × Intake)
  | .submitRest userId req moment =>
    match Rest.submitOrder config moment userId req with
    | .error _ => none
    | .ok (order, signature) =>
      (db.insertOrderWithEvent order moment.insertedAt).map fun db =>
        (db, { intake with
          rest := order.id :: intake.rest
          toSign := signature.toList.map (fun s => (order.id, s)) ++ intake.toSign })
  | .writeSignature orderId written =>
    match intake.toSign.find? (·.1 = orderId) with
    | none => none
    | some (id, signature) =>
      let rest := intake.toSign.erase (id, signature)
      match if written then db.setWalletSignature id signature else none with
      | none => some (db, { intake with toSign := rest })
      | some db => some (db, { intake with toSign := rest, signed := id :: intake.signed })
  | .submitGrpc req moment =>
    match Grpc.submitOrder config moment req with
    | .error _ => none
    | .ok order =>
      (db.insertOrderWithEvent order moment.insertedAt).map fun db =>
        (db, { intake with
          grpc := order.id :: intake.grpc
          toPlace := if config.tradeSettlementEnabled then order.id :: intake.toPlace
            else intake.toPlace })
  | .place orderId reply written =>
    if orderId ∈ intake.toPlace then
      some (if written then db.afterPlacement orderId reply else db,
        { intake with toPlace := intake.toPlace.erase orderId })
    else none
  | .placeRecurring rule moment =>
    match (EntryRequest.recurring rule).order config moment with
    | none => none
    | some order =>
      (db.insertOrderWithEvent order moment.insertedAt).map fun db =>
        (db, { intake with recurring := order.id :: intake.recurring })

namespace Intake

variable {config : ServiceConfig} {db db' : Database} {intake intake' : Intake}

/-- What a step of an entry path can be: an insert, or a write to an order that is
there. -/
inductive Move (config : ServiceConfig) (db : Database) (intake : Intake) :
    IntakeAction → Database → Intake → Prop
  | rest {userId : Uuid} {req : Rest.SubmitOrderRequest} {moment : Moment} {order : TradingOrder}
      {signature : Option String} {db' : Database}
      (hsubmit : Rest.submitOrder config moment userId req = .ok (order, signature))
      (hins : db.insertOrderWithEvent order moment.insertedAt = some db') :
    Move config db intake (.submitRest userId req moment) db' { intake with
      rest := order.id :: intake.rest
      toSign := signature.toList.map (fun s => (order.id, s)) ++ intake.toSign }
  | signed {id : Uuid} {signature : String} {db' : Database}
      (hmem : (id, signature) ∈ intake.toSign)
      (hwritten : db.setWalletSignature id signature = some db') :
    Move config db intake (.writeSignature id true) db'
      { intake with toSign := intake.toSign.erase (id, signature), signed := id :: intake.signed }
  | unsigned {id : Uuid} {written : Bool} {rest : List (Uuid × String)}
      (hsub : rest ⊆ intake.toSign) :
    Move config db intake (.writeSignature id written) db { intake with toSign := rest }
  | grpc {req : Grpc.SubmitOrderRequest} {moment : Moment} {order : TradingOrder} {db' : Database}
      {toPlace : List Uuid} (hplace : toPlace ⊆ order.id :: intake.toPlace)
      (hins : db.insertOrderWithEvent order moment.insertedAt = some db') :
    Move config db intake (.submitGrpc req moment) db'
      { intake with grpc := order.id :: intake.grpc, toPlace := toPlace }
  | place {id : Uuid} {reply : Except String (String × String)} {written : Bool}
      (hmem : id ∈ intake.toPlace) :
    Move config db intake (.place id reply written)
      (if written then db.afterPlacement id reply else db)
      { intake with toPlace := intake.toPlace.erase id }
  | recurring {rule : Recurring.RecurringOrder} {moment : Moment} {order : TradingOrder}
      {db' : Database} (hins : db.insertOrderWithEvent order moment.insertedAt = some db') :
    Move config db intake (.placeRecurring rule moment) db'
      { intake with recurring := order.id :: intake.recurring }

theorem move_of_step {a : IntakeAction} (h : intake.step config db a = some (db', intake')) :
    Move config db intake a db' intake' := by
  cases a with
  | submitRest userId req moment =>
    simp only [step] at h
    split at h
    · cases h
    next hsubmit =>
      obtain ⟨db₁, hins, hpair⟩ := Option.map_eq_some_iff.mp h
      obtain ⟨rfl, rfl⟩ := Prod.mk.inj hpair
      exact .rest hsubmit hins
  | writeSignature orderId written =>
    simp only [step] at h
    split at h
    · cases h
    next id signature hfind =>
      obtain rfl : id = orderId := by simpa using List.find?_some hfind
      split at h
      · obtain ⟨rfl, rfl⟩ := Prod.mk.inj (Option.some.inj h)
        exact .unsigned List.erase_subset
      next hwritten =>
        obtain ⟨rfl, rfl⟩ := Prod.mk.inj (Option.some.inj h)
        obtain ⟨rfl, hwritten⟩ := Option.ite_none_right_eq_some.mp hwritten
        exact .signed (List.mem_of_find?_eq_some hfind) hwritten
  | submitGrpc req moment =>
    simp only [step] at h
    split at h
    · cases h
    next order _ =>
      obtain ⟨db₁, hins, hpair⟩ := Option.map_eq_some_iff.mp h
      obtain ⟨rfl, rfl⟩ := Prod.mk.inj hpair
      refine .grpc ?_ hins
      split_ifs
      · exact List.Subset.refl _
      · exact List.subset_cons_self _ _
  | place orderId reply written =>
    obtain ⟨hmem, h⟩ := Option.ite_none_right_eq_some.mp h
    obtain ⟨rfl, rfl⟩ := Prod.mk.inj (Option.some.inj h)
    exact .place hmem
  | placeRecurring rule moment =>
    simp only [step] at h
    split at h
    · cases h
    · obtain ⟨db₁, hins, hpair⟩ := Option.map_eq_some_iff.mp h
      obtain ⟨rfl, rfl⟩ := Prod.mk.inj hpair
      exact .recurring hins

end Intake

namespace Database

variable {db db' : Database}

theorem updateOrderPda_upkeeps (orderId : Uuid) (orderPda : String) :
    Upkeeps db (db.updateOrderPda orderId orderPda) := by
  apply updateOrders_upkeeps
  intro p _
  split_ifs
  · exact ⟨⟨rfl, rfl, rfl, rfl, rfl, rfl⟩, rfl, rfl, fun _ => ⟨rfl, rfl⟩⟩
  · exact .refl p

/-- The one status write without a guard. -/
theorem updateOrderStatus_upkeeps {orderId : Uuid} {status : OrderStatus}
    (h : ∀ p ∈ db.orders.rows, p.id = orderId → p.status.isLive = true ∨ p.status = status) :
    Upkeeps db (db.updateOrderStatus orderId status) := by
  apply updateOrders_upkeeps
  intro p hp
  by_cases hid : p.id = orderId
  · rw [if_pos hid]
    rcases h p hp hid with hlive | rfl
    · exact .of_live ⟨rfl, rfl, rfl, rfl, rfl, rfl⟩ rfl rfl hlive
    · exact .refl p
  · rw [if_neg hid]
    exact .refl p

theorem afterPlacement_upkeeps {id : Uuid} {reply : Except String (String × String)}
    (h : ∀ msg, reply = .error msg → isDeterministicChainRejection msg = true →
      ∀ p ∈ db.orders.rows, p.id = id → p.status.isLive = true ∨ p.status = .cancelled) :
    Upkeeps db (db.afterPlacement id reply) := by
  unfold afterPlacement
  split
  · exact updateOrderPda_upkeeps _ _
  next msg =>
    split_ifs with hrejected
    · exact updateOrderStatus_upkeeps (h msg rfl hrejected)
    · exact .of_perm (.refl _)

theorem insertOrderWithEvent_retains {order : TradingOrder} {now : ℤ}
    (h : db.insertOrderWithEvent order now = some db') : Retains db db' := by
  obtain ⟨row, hrows, _⟩ := insertOrderWithEvent_eq_some h
  exact fun p hp => ⟨p, hrows ▸ List.mem_cons_of_mem _ hp, .refl p⟩

theorem updateOrderStatus_extends (orderId : Uuid) (status : OrderStatus) :
    Extends db (db.updateOrderStatus orderId status) := by
  intro o ho
  refine ⟨_, List.mem_map_of_mem ho, ?_⟩
  split_ifs
  · exact ⟨rfl, rfl, rfl, rfl, rfl, rfl⟩
  · exact .refl o

theorem afterPlacement_extends (id : Uuid) (reply : Except String (String × String)) :
    Extends db (db.afterPlacement id reply) := by
  unfold afterPlacement
  split
  · exact (updateOrderPda_upkeeps _ _).retains.extends
  · split_ifs
    · exact updateOrderStatus_extends _ _
    · exact .refl

end Database

/-- An entry path adds orders and never takes the terms of one. -/
theorem Intake.Move.extends {config : ServiceConfig} {db db' : Database} {intake intake' : Intake}
    {a : IntakeAction} (h : Move config db intake a db' intake') : Database.Extends db db' := by
  cases h with
  | rest _ hins => exact (Database.insertOrderWithEvent_retains hins).extends
  | signed _ hwritten => exact (Database.setWalletSignature_upkeeps hwritten).retains.extends
  | unsigned _ => exact .refl
  | grpc _ hins => exact (Database.insertOrderWithEvent_retains hins).extends
  | @place id reply written _ =>
    cases written with
    | false => exact .refl
    | true => exact Database.afterPlacement_extends id reply
  | recurring hins => exact (Database.insertOrderWithEvent_retains hins).extends

theorem Intake.Move.inserted {config : ServiceConfig} {db db' : Database} {intake intake' : Intake}
    {a : IntakeAction} (h : Move config db intake a db' intake') :
    ∀ id ∈ intake'.inserted, id ∈ intake.inserted ∨ ∀ o ∈ db.orders.rows, o.id ≠ id := by
  intro id hid
  simp only [Intake.inserted, List.mem_append] at hid ⊢
  cases h with
  | rest _ hins =>
    obtain ⟨_, _, _, hfresh, _⟩ := Database.insertOrderWithEvent_eq_some hins
    rw [List.mem_cons] at hid
    rcases hid with (((rfl | hid) | hid) | hid)
    · exact .inr hfresh
    all_goals simp [hid]
  | signed _ _ => exact .inl hid
  | unsigned _ => exact .inl hid
  | grpc _ hins =>
    obtain ⟨_, _, _, hfresh, _⟩ := Database.insertOrderWithEvent_eq_some hins
    rw [List.mem_cons] at hid
    rcases hid with ((hid | rfl | hid) | hid)
    case inl.inr.inl => exact .inr hfresh
    all_goals simp [hid]
  | place _ => exact .inl hid
  | recurring hins =>
    obtain ⟨_, _, _, hfresh, _⟩ := Database.insertOrderWithEvent_eq_some hins
    rw [List.mem_cons] at hid
    rcases hid with ((hid | hid) | rfl | hid)
    case inr.inl => exact .inr hfresh
    all_goals simp [hid]

end TradingService
