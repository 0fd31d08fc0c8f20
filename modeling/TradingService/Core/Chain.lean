import TradingService.Core.FastPrice

/-!
# What the chain is told

Amounts on the chain are unsigned integers, nine places for energy and six for
currency, and decimals are truncated to them. The message that a wallet signs for an
order is seventy-seven bytes long.
-/

namespace TradingService

abbrev U64 := BoundedInt 0 18446744073709551615

instance U64.range : Fact ((0 : ℤ) ≤ 18446744073709551615) := ⟨by norm_num⟩

/-- `message.contains("InstructionError")`. -/
def isDeterministicChainRejection (message : String) : Bool :=
  "InstructionError".toList <:+: message.toList

namespace BaseUnits

def energyScale : ℤ := 1000000000

def currencyScale : ℤ := 1000000

/-- `(value * scale).trunc().to_u64()`. -/
def truncToU64 (value : Decimal) (scale : ℤ) : Option U64 :=
  BoundedInt.tryFrom (Rounding.trunc (value * scale))

/-- `to_base_units`, which refuses a sign. -/
def toBaseUnits (value : Decimal) (scale : ℤ) : Option U64 :=
  if value < 0 then none else truncToU64 value scale

def energyToBaseUnits (kwh : Decimal) : Option U64 := toBaseUnits kwh energyScale

def currencyToBaseUnits (amount : Decimal) : Option U64 := toBaseUnits amount currencyScale

end BaseUnits

namespace OffchainPayload

def sideBuy : ℕ := 0

def sideSell : ℕ := 1

def leBytes : ℕ → ℕ → List UInt8
  | 0, _ => []
  | n + 1, v => UInt8.ofNat v :: leBytes n (v / 256)

@[simp] theorem length_leBytes (n v : ℕ) : (leBytes n v).length = n := by
  induction n generalizing v with
  | zero => rfl
  | succ n ih => rw [leBytes, List.length_cons, ih]

theorem leBytes_injective {n v w : ℕ} (hv : v < 256 ^ n) (hw : w < 256 ^ n)
    (h : leBytes n v = leBytes n w) : v = w := by
  induction n generalizing v w with
  | zero => omega
  | succ n ih =>
    obtain ⟨hlow, hrest⟩ := List.cons.inj h
    rw [pow_succ] at hv hw
    have hdiv : v / 256 = w / 256 := ih (by omega) (by omega) hrest
    have hmod : v % 256 = w % 256 := by simpa using congrArg UInt8.toNat hlow
    omega

theorem leBytes_u64_injective {a b : U64} (h : leBytes 8 (a : ℤ).toNat = leBytes 8 (b : ℤ).toNat) :
    a = b := by
  have ha := a.lo_le
  have ha' := a.le_hi
  have hb := b.lo_le
  have hb' := b.le_hi
  have heq := leBytes_injective (by omega) (by omega) h
  exact BoundedInt.ext (by omega)

/-- The bytes that a wallet signs. Ids are written from the highest byte on, all
integers from the lowest. -/
def messageFor (orderId : Fin (2 ^ 128)) (user : Vector UInt8 32) (energyAmount pricePerKwh : U64)
    (side zoneId : ℕ) (expiresAt : I64) : List UInt8 :=
  (leBytes 16 orderId.val).reverse ++ user.toList ++ leBytes 8 (energyAmount : ℤ).toNat ++
    leBytes 8 (pricePerKwh : ℤ).toNat ++ leBytes 1 side ++ leBytes 4 zoneId ++
    leBytes 8 ((expiresAt : ℤ) % 2 ^ 64).toNat

theorem messageFor_inj {orderId : Fin (2 ^ 128)} {user : Vector UInt8 32} {energy price energy' price' : U64}
    {side zoneId : ℕ} {expiresAt : I64} :
    messageFor orderId user energy price side zoneId expiresAt =
        messageFor orderId user energy' price' side zoneId expiresAt ↔
      energy = energy' ∧ price = price' := by
  constructor
  · intro h
    unfold messageFor at h
    simp only [List.append_cancel_right_eq] at h
    obtain ⟨henergy, hprice⟩ := List.append_inj h (by simp)
    rw [List.append_cancel_left_eq] at henergy
    exact ⟨leBytes_u64_injective henergy, leBytes_u64_injective hprice⟩
  · rintro ⟨rfl, rfl⟩
    rfl

end OffchainPayload

end TradingService
