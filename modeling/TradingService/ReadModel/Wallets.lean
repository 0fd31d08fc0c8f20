import TradingService.Lib.KeyedTable
import TradingService.Lib.LastWriter
import TradingService.Lib.Runs
import TradingService.ReadModel.Feed

/-!
# The wallets of the users

The local copy of the identity service's wallets, fed by its events. Events can come
again from an earlier offset on. To one wallet every event is a write that asks for
nothing but whether the wallet is there, and so a block of events that is fed twice
leaves what it left the first time.
-/

namespace TradingService

structure WalletRow where
  userId : Uuid
  walletAddress : VarChar 64
  isPrimary : Bool
  blockchainRegistered : Bool
  userAccountPda : Option (VarChar 88)
  shardId : Option I16
  updatedAt : ℤ
  deriving DecidableEq

namespace WalletRow

def key (r : WalletRow) : Uuid × VarChar 64 := (r.userId, r.walletAddress)

def stamped (now : ℤ) (r : WalletRow) : WalletRow := { r with updatedAt := now }

def content (r : WalletRow) : WalletRow := r.stamped 0

def setPrimary (isPrimary : Bool) (r : WalletRow) : WalletRow := { r with isPrimary := isPrimary }

end WalletRow

abbrev WalletTable := KeyedTable WalletRow.key

inductive DbError
  | uniqueViolation
  | invalidText

def WalletReadModelRecord.store (rec : WalletReadModelRecord) (now : ℤ) : Option WalletRow := do
  let walletAddress ← VarChar.store 64 rec.walletAddress
  let userAccountPda ← VarChar.storeOption 88 rec.userAccountPda
  return {
    userId := rec.userId
    walletAddress := walletAddress
    isPrimary := rec.isPrimary
    blockchainRegistered := rec.blockchainRegistered
    userAccountPda := userAccountPda
    shardId := rec.shardId
    updatedAt := now }

namespace WalletTable

/-- No user has two primary wallets. -/
def OnePrimary (t : WalletTable) : Prop :=
  ∀ r ∈ t.rows, ∀ r' ∈ t.rows, r.isPrimary → r'.isPrimary → r.userId = r'.userId → r = r'

instance decidableOnePrimary (t : WalletTable) : Decidable t.OnePrimary :=
  inferInstanceAs (Decidable (∀ r ∈ t.rows, ∀ r' ∈ t.rows, _))

/-- The unique index on `(user_id) WHERE is_primary`. -/
def checkPrimary (t : WalletTable) : Except DbError WalletTable :=
  if t.OnePrimary then .ok t else .error .uniqueViolation

/-- `WALLET_DEMOTE_SIBLINGS`. -/
def demoteSiblings (t : WalletTable) (userId : Uuid) (walletAddress : String) (now : ℤ) :
    WalletTable :=
  t.mapRows (fun r => if r.userId = userId ∧ r.isPrimary ∧ r.walletAddress.value ≠ walletAddress then
      { r with isPrimary := false, updatedAt := now } else r)
    (fun r => by split_ifs <;> rfl)

def overwrite (new old : WalletRow) : WalletRow :=
  if old.updatedAt ≤ new.updatedAt then
    { old with
      isPrimary := new.isPrimary
      blockchainRegistered := new.blockchainRegistered
      userAccountPda := new.userAccountPda
      shardId := new.shardId
      updatedAt := new.updatedAt }
  else old

/-- `WALLET_UPSERT`. -/
def insertOrOverwrite (t : WalletTable) (row : WalletRow) : WalletTable :=
  match t.insert? row with
  | some t' => t'
  | none => t.modify row.key (overwrite row) fun r => by unfold overwrite; split_ifs <;> rfl

def upsertRow (t : WalletTable) (row : WalletRow) : Except DbError WalletTable :=
  checkPrimary (t.insertOrOverwrite row)

def upsertWallet (t : WalletTable) (rec : WalletReadModelRecord) (now : ℤ) :
    Except DbError WalletTable :=
  match rec.store now with
  | none => .error .invalidText
  | some row =>
    upsertRow (if rec.isPrimary then t.demoteSiblings rec.userId rec.walletAddress now else t) row

/-- A wallet that is not there is not created. -/
def writePrimary (t : WalletTable) (userId : Uuid) (walletAddress : String) (isPrimary : Bool)
    (now : ℤ) : WalletTable :=
  t.mapRows (fun r => if r.userId = userId ∧ r.walletAddress.value = walletAddress then
      { r with isPrimary := isPrimary, updatedAt := now } else r)
    (fun r => by split_ifs <;> rfl)

def setWalletPrimary (t : WalletTable) (userId : Uuid) (walletAddress : String) (isPrimary : Bool)
    (now : ℤ) : Except DbError WalletTable :=
  if ¬bindable walletAddress then .error .invalidText
  else
    checkPrimary ((if isPrimary then t.demoteSiblings userId walletAddress now else t).writePrimary
      userId walletAddress isPrimary now)

def deleteWallet (t : WalletTable) (userId : Uuid) (walletAddress : String) :
    Except DbError WalletTable :=
  if ¬bindable walletAddress then .error .invalidText
  else .ok (t.delete fun r => r.userId = userId ∧ r.walletAddress.value = walletAddress)

end WalletTable

namespace WalletTable

def project (t : WalletTable) (now : ℤ) : FeedAction → Except DbError WalletTable
  | .upsertWallet rec => t.upsertWallet rec now
  | .setWalletPrimary userId walletAddress isPrimary =>
    t.setWalletPrimary userId walletAddress isPrimary now
  | .deleteWallet userId walletAddress => t.deleteWallet userId walletAddress
  | .upsertMeter _ => .ok t
  | .badPayload _ => .ok t
  | .skip _ => .ok t

/-- An error is logged, and the feed goes on. -/
def handlePayload (t : WalletTable) (now : ℤ) (event : FeedEvent) : WalletTable :=
  match t.project now (classify event) with
  | .ok t' => t'
  | .error _ => t

def feed (t : WalletTable) (events : List (ℤ × FeedEvent)) : WalletTable :=
  events.foldl (fun t e => t.handlePayload e.1 e.2) t

end WalletTable

end TradingService
