import TradingService.Core.Chain
import TradingService.Ledger.Database
import TradingService.Lib.Chunks

/-!
# The chain gateway

A list of settlements becomes one transaction for each settlement between two signed
orders and one for each chunk of the rest. `Surroundings` is what the gateway meets in
one call: the answers of the wallet service and of the node, and which transactions
landed. The node is asked about a chunk until it gives a verdict or the time is up;
about a signed settlement it is not asked at all.
-/

namespace TradingService

structure GatewayConfig where
  tradeSettlementEnabled : Bool
  perUserEscrowSettlement : Bool
  settlementTxChunk : Option ℕ
  settlementConfirmTimeoutSecs : Option ℕ

/-- `.filter(|n| *n >= 1).unwrap_or(2)`. -/
def GatewayConfig.chunk (config : GatewayConfig) : ℕ :=
  (config.settlementTxChunk.filter (1 ≤ ·)).getD 2

def GatewayConfig.confirmTimeout (config : GatewayConfig) : ℕ :=
  config.settlementConfirmTimeoutSecs.getD 30

theorem GatewayConfig.one_le_chunk (config : GatewayConfig) : 1 ≤ config.chunk := by
  unfold chunk
  cases h : config.settlementTxChunk.filter (1 ≤ ·) with
  | none => decide
  | some n => simpa using (Option.filter_eq_some_iff.mp h).2

inductive SignatureState
  | confirmed
  | failed (err : String)
  | pending
  deriving DecidableEq

/-- The polls of a signature until the time is up; an error of a poll is only logged. -/
def waitForConfirmation (signature : String) : List (Except String SignatureState) → Except String Bool
  | [] => .ok false
  | .ok .confirmed :: _ => .ok true
  | .ok (.failed err) :: _ => .error s!"transaction {signature} failed on-chain: {err}"
  | .ok .pending :: polls => waitForConfirmation signature polls
  | .error _ :: polls => waitForConfirmation signature polls

/-- A transaction: what `execute_batched_instructions` returned, what the node said
about the signature, and what happened on the chain. A reply may get lost. -/
structure Submission where
  reply : Except String String
  polls : List (Except String SignatureState)
  landed : Bool
  confirmed_landed : .ok .confirmed ∈ polls → landed = true
  failed_not_landed : ∀ err, .ok (.failed err) ∈ polls → landed = false

def verdict (polls : List (Except String SignatureState)) : Option SignatureState :=
  polls.findSome? fun
    | .ok .confirmed => some .confirmed
    | .ok (.failed err) => some (.failed err)
    | _ => none

def Submission.Confirmed (sub : Submission) : Prop :=
  sub.reply.isOk ∧ verdict sub.polls = some .confirmed

instance (sub : Submission) : Decidable sub.Confirmed := inferInstanceAs (Decidable (_ ∧ _))

def Submission.accepted : Submission where
  reply := .ok "signature"
  polls := [.ok .confirmed]
  landed := true
  confirmed_landed _ := rfl
  failed_not_landed := by simp

def Submission.refused (err : String) : Submission where
  reply := .error err
  polls := []
  landed := false
  confirmed_landed := by simp
  failed_not_landed _ _ := rfl

/-- `execute_offchain_settlement`: the preparation, the submission and the slot. -/
structure OffchainAttempt where
  prepared : Except String Unit
  reply : Except String String
  landed : Bool
  slot : Except String ℕ

def OffchainAttempt.Swapped (a : OffchainAttempt) : Prop := a.prepared.isOk ∧ a.landed

instance (a : OffchainAttempt) : Decidable a.Swapped :=
  inferInstanceAs (Decidable (_ ∧ _))

def OffchainAttempt.Accepted (a : OffchainAttempt) : Prop :=
  a.prepared.isOk ∧ a.reply.isOk ∧ a.slot.isOk

instance (a : OffchainAttempt) : Decidable a.Accepted := inferInstanceAs (Decidable (_ ∧ _))

structure SettlementTransaction where
  settlementId : Uuid
  signature : String
  deriving DecidableEq

def executeOffchainSettlement (a : OffchainAttempt) (id : Uuid) :
    Except String SettlementTransaction := do
  a.prepared
  let signature ← a.reply
  let _ ← a.slot
  return { settlementId := id, signature := signature }

structure Surroundings where
  config : GatewayConfig
  pdaQueryFails : Uuid → Bool
  sideQueryFails : Uuid → Bool
  parsesAsPubkey : String → Bool
  /-- `none` for a user without a wallet and for a failed lookup. -/
  primaryWallet : Uuid → Option String
  offchain : Uuid → OffchainAttempt
  /-- What comes before the first chunk: the authority, the mints, the collectors and
  the instructions. -/
  setup : Except String Unit
  chunk : ℕ → Submission

structure SignedOrderSide where
  orderId : Uuid
  user : String
  energyAmount : U64
  pricePerKwh : U64
  side : OrderSide
  zoneId : ℤ
  expiresAt : ℤ
  signature : String

/-- `u32::try_from(zone_id.unwrap_or(0)).unwrap_or(0)`. -/
def unsignedZone (zoneId : ZoneId) : ℤ := WithBot.recBotCoe 0 (fun z : I32 => max 0 (z : ℤ)) zoneId

inductive Route
  | skipped
  | offchain (buyer seller : SignedOrderSide)
  | pooled

def Surroundings.calm (perUserEscrow : Bool) : Surroundings where
  config := ⟨true, perUserEscrow, some 1, none⟩
  pdaQueryFails _ := false
  sideQueryFails _ := false
  parsesAsPubkey _ := true
  primaryWallet _ := some "wallet"
  offchain _ := ⟨.ok (), .ok "signature", true, .ok 0⟩
  setup := .ok ()
  chunk _ := .accepted

namespace Surroundings

variable (env : Surroundings) (db : Database)

def orderPda (orderId : Uuid) : Option String :=
  if env.pdaQueryFails orderId then none
  else ((db.orders.find? orderId).bind (·.orderPda)).filter env.parsesAsPubkey

def signedOrderSide (orderId : Uuid) : Option SignedOrderSide :=
  if env.sideQueryFails orderId then none
  else do
    let row ← db.orders.find? orderId
    let signature ← row.signature
    let wallet ← env.primaryWallet row.userId
    let energyAmount ← BaseUnits.energyToBaseUnits row.energy
    let pricePerKwh ← BaseUnits.currencyToBaseUnits row.pricePerKwh.toDecimal
    return {
      orderId := orderId
      user := wallet
      energyAmount := energyAmount
      pricePerKwh := pricePerKwh
      side := row.side
      zoneId := unsignedZone row.zoneId
      expiresAt := (row.expiresAt.map (· / 1000000000)).getD 0
      signature := signature }

/-- The body of the loop over the settlements. A settlement between two orders that are
not both signed stays on the pooled path. -/
def route (s : Settlement Numeric) : Route :=
  match env.orderPda db s.buyOrderId, env.orderPda db s.sellOrderId,
    env.primaryWallet s.buyerId, env.primaryWallet s.sellerId with
  | some _, some _, some _, some _ =>
    if env.config.perUserEscrowSettlement then
      match env.signedOrderSide db s.buyOrderId, env.signedOrderSide db s.sellOrderId with
      | some buyer, some seller => .offchain buyer seller
      | _, _ => .pooled
    else .pooled
  | _, _, _, _ => .skipped

def isOffchain (s : Settlement Numeric) : Bool :=
  match env.route db s with
  | .offchain _ _ => true
  | _ => false

def isPooled (s : Settlement Numeric) : Bool :=
  match env.route db s with
  | .pooled => true
  | _ => false

def settleChunk (sub : Submission) (ids : List Uuid) : Except String (List SettlementTransaction) :=
  match sub.reply with
  | .error e => .error s!"Internal server error: Batch settlement execution failed: {e}"
  | .ok signature =>
    let timeout := env.config.confirmTimeout
    match waitForConfirmation signature sub.polls with
    | .ok true => .ok (ids.map fun id => { settlementId := id, signature := signature })
    | .ok false => .error s!"Internal server error: settlement batch {signature} not confirmed within {timeout}s; releasing for retry"
    | .error e => .error s!"Internal server error: settlement batch {signature} confirmation check failed: {e}; releasing for retry"

/-- The chunk loop from chunk number `k` on. An error drops the earlier results. -/
def settleChunks : ℕ → List (List Uuid) → Except String (List SettlementTransaction)
  | _, [] => .ok []
  | k, ids :: chunks => do
    let txs ← env.settleChunk (env.chunk k) ids
    let rest ← settleChunks (k + 1) chunks
    return txs ++ rest

def pooledChunks (settlements : List (Settlement Numeric)) : List (List Uuid) :=
  ((settlements.filter (env.isPooled db)).map (·.id)).chunks env.config.chunk

def settlePooled (settlements : List (Settlement Numeric)) :
    Except String (List SettlementTransaction) :=
  if env.pooledChunks db settlements = [] then .ok []
  else do
    env.setup
    env.settleChunks 0 (env.pooledChunks db settlements)

/-- The results of the signed settlements; a failed one is left out. -/
def settleOffchain (settlements : List (Settlement Numeric)) : List SettlementTransaction :=
  (settlements.filter (env.isOffchain db)).filterMap fun s =>
    (executeOffchainSettlement (env.offchain s.id) s.id).toOption

def executeBatchedSettlements (settlements : List (Settlement Numeric)) :
    Except String (List SettlementTransaction) :=
  if env.config.tradeSettlementEnabled then do
    let pooled ← env.settlePooled db settlements
    return env.settleOffchain db settlements ++ pooled
  else .ok []

/-- What the chunk loop landed: it goes on after a chunk that was confirmed. -/
def landedChunks : ℕ → List (List Uuid) → List Uuid
  | _, [] => []
  | k, ids :: chunks =>
    (if (env.chunk k).landed then ids else []) ++
      match env.settleChunk (env.chunk k) ids with
      | .ok _ => landedChunks (k + 1) chunks
      | .error _ => []

/-- The settlements of a call that were swapped on the chain. -/
def landed (settlements : List (Settlement Numeric)) : List Uuid :=
  if env.config.tradeSettlementEnabled then
    ((settlements.filter (env.isOffchain db)).filter fun s => (env.offchain s.id).Swapped).map (·.id) ++
      match env.setup with
      | .ok () => env.landedChunks 0 (env.pooledChunks db settlements)
      | .error _ => []
  else []

end Surroundings

end TradingService
