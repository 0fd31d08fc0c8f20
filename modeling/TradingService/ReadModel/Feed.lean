import TradingService.Engine.Types

/-!
# The feed of the read models

The events of the identity service and of the metering service, and what the worker makes of
them: a write to one of the two local tables, or nothing.
-/

namespace TradingService

structure VarChar (n : ℕ) where
  value : String
  length_le : value.length ≤ n
  deriving DecidableEq

@[ext] theorem VarChar.ext {n : ℕ} {v w : VarChar n} (h : v.value = w.value) : v = w := by
  cases v; cases w; simpa using h

/-- A statement with a zero byte among its texts is refused. -/
def bindable (s : String) : Bool := Char.ofNat 0 ∉ s.toList

/-- Only blanks may be cut off. -/
def VarChar.store (n : ℕ) (s : String) : Option (VarChar n) :=
  if ¬bindable s then none
  else if h : s.length ≤ n then some ⟨s, h⟩
  else if (s.toList.drop n).all (· = ' ') then
    some ⟨String.ofList (s.toList.take n), by simp⟩
  else none

def VarChar.storeOption (n : ℕ) : Option String → Option (Option (VarChar n))
  | none => some none
  | some s => (VarChar.store n s).map some

abbrev I16 := BoundedInt (-32768) 32767

structure WalletReadModelRecord where
  userId : Uuid
  walletAddress : String
  isPrimary : Bool
  blockchainRegistered : Bool
  userAccountPda : Option String
  shardId : Option I16

structure MeterReadModelRecord where
  serialNumber : String
  meterId : Uuid
  userId : Uuid
  zoneId : Option I32
  status : Option String
  isVerified : Bool
  deriving DecidableEq

inductive Field (α : Type)
  | absent
  | malformed
  | given (a : α)

namespace Field

variable {α : Type}

def required : Field α → Option α
  | .given a => some a
  | _ => none

/-- `#[serde(default)]`. -/
def orDefault (default : α) : Field α → Option α
  | .absent => some default
  | .malformed => none
  | .given a => some a

end Field

/-- The fields that the payloads of the events have between them. -/
structure FeedData where
  userId : Field Uuid
  walletAddress : Field String
  userAccountPda : Field (Option String)
  shardId : Field (Option I16)
  isPrimary : Field Bool
  blockchainRegistered : Field Bool
  serialNumber : Field String
  meterId : Field Uuid
  zoneId : Field (Option I32)
  status : Field (Option String)
  isVerified : Field (Option Bool)

def FeedData.empty : FeedData :=
  ⟨.absent, .absent, .absent, .absent, .absent, .absent, .absent, .absent, .absent, .absent, .absent⟩

structure FeedEvent where
  eventType : String
  data : FeedData

inductive FeedAction
  | upsertWallet (rec : WalletReadModelRecord)
  | setWalletPrimary (userId : Uuid) (walletAddress : String) (isPrimary : Bool)
  | deleteWallet (userId : Uuid) (walletAddress : String)
  | upsertMeter (rec : MeterReadModelRecord)
  | badPayload (eventType : String)
  | skip (eventType : String)

namespace FeedData

def walletLinked (d : FeedData) : Option WalletReadModelRecord := do
  let userId ← d.userId.required
  let walletAddress ← d.walletAddress.required
  let userAccountPda ← d.userAccountPda.orDefault none
  let shardId ← d.shardId.orDefault none
  let isPrimary ← d.isPrimary.orDefault true
  let blockchainRegistered ← d.blockchainRegistered.orDefault true
  return { userId, walletAddress, isPrimary, blockchainRegistered, userAccountPda, shardId }

def walletPrimaryChanged (d : FeedData) : Option (Uuid × String × Bool) := do
  let userId ← d.userId.required
  let walletAddress ← d.walletAddress.required
  let isPrimary ← d.isPrimary.orDefault false
  return (userId, walletAddress, isPrimary)

def walletUnlinked (d : FeedData) : Option (Uuid × String) := do
  let userId ← d.userId.required
  let walletAddress ← d.walletAddress.required
  return (userId, walletAddress)

/-- The flag decides. Without it only the word does, in any case of its letters. -/
def verified (isVerified : Option Bool) (status : Option String) : Bool :=
  isVerified.getD (status.any fun s => s.toList.map Char.toLower = "verified".toList)

def meter (d : FeedData) : Option MeterReadModelRecord := do
  let serialNumber ← d.serialNumber.required
  let meterId ← d.meterId.required
  let userId ← d.userId.required
  let zoneId ← d.zoneId.orDefault none
  let status ← d.status.orDefault none
  let isVerified ← d.isVerified.orDefault none
  return { serialNumber, meterId, userId, zoneId, status, isVerified := verified isVerified status }

end FeedData

def classify (event : FeedEvent) : FeedAction :=
  if event.eventType = "UserWalletLinked" ∨ event.eventType = "UserOnboarded" then
    match event.data.walletLinked with
    | some rec => .upsertWallet rec
    | none => .badPayload event.eventType
  else if event.eventType = "UserWalletPrimaryChanged" then
    match event.data.walletPrimaryChanged with
    | some (userId, walletAddress, isPrimary) => .setWalletPrimary userId walletAddress isPrimary
    | none => .badPayload event.eventType
  else if event.eventType = "UserWalletUnlinked" then
    match event.data.walletUnlinked with
    | some (userId, walletAddress) => .deleteWallet userId walletAddress
    | none => .badPayload event.eventType
  else if event.eventType = "MeterRegistered" ∨ event.eventType = "MeterUpdated" then
    match event.data.meter with
    | some rec => .upsertMeter rec
    | none => .badPayload event.eventType
  else .skip event.eventType

def FeedAction.meter : FeedAction → Option MeterReadModelRecord
  | .upsertMeter rec => some rec
  | _ => none

end TradingService
