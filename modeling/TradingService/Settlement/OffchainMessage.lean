import TradingService.Core.OrderPolicy
import TradingService.Lib.Chunks

/-!
# The message of an off-chain order

Seven fields of fixed widths, one after the other. A message is decoded by cutting it at
these widths, so that no two orders share one.
-/

namespace TradingService

namespace OffchainPayload

def offchainMessageLen : ℕ := 16 + 32 + 8 + 8 + 1 + 4 + 8

structure Payload where
  orderId : Fin (2 ^ 128)
  user : Vector UInt8 32
  energyAmount : U64
  pricePerKwh : U64
  side : UInt8
  zoneId : UInt32
  expiresAt : I64
  deriving DecidableEq

def Payload.message (p : Payload) : List UInt8 :=
  messageFor p.orderId p.user p.energyAmount p.pricePerKwh p.side.toNat p.zoneId.toNat p.expiresAt

def ofLeBytes : List UInt8 → ℕ
  | [] => 0
  | b :: bs => b.toNat + 256 * ofLeBytes bs

theorem ofLeBytes_leBytes {n v : ℕ} (h : v < 256 ^ n) : ofLeBytes (leBytes n v) = v := by
  induction n generalizing v with
  | zero => simpa [ofLeBytes, leBytes, eq_comm] using h
  | succ n ih =>
    rw [pow_succ] at h
    rw [leBytes, ofLeBytes, ih (by omega), UInt8.toNat_ofNat']
    omega

namespace Payload

def fields (p : Payload) : List (List UInt8) :=
  [(leBytes 16 p.orderId.val).reverse, p.user.toList, leBytes 8 (p.energyAmount : ℤ).toNat,
    leBytes 8 (p.pricePerKwh : ℤ).toNat, leBytes 1 p.side.toNat, leBytes 4 p.zoneId.toNat,
    leBytes 8 ((p.expiresAt : ℤ) % 2 ^ 64).toNat]

def widths : List ℕ := [16, 32, 8, 8, 1, 4, 8]

/-- What the fields of a message stand for. The expiry is read in two's complement. -/
def ofFields : List (List UInt8) → Option Payload
  | [orderId, user, energyAmount, pricePerKwh, side, zoneId, expiresAt] =>
    if h : user.length = 32 then
      some
        { orderId := Fin.ofNat _ (ofLeBytes orderId.reverse)
          user := ⟨user.toArray, by simpa using h⟩
          energyAmount := BoundedInt.saturate (ofLeBytes energyAmount)
          pricePerKwh := BoundedInt.saturate (ofLeBytes pricePerKwh)
          side := UInt8.ofNat (ofLeBytes side)
          zoneId := UInt32.ofNat (ofLeBytes zoneId)
          expiresAt := BoundedInt.saturate ((ofLeBytes expiresAt : ℤ).bmod (2 ^ 64)) }
    else none
  | _ => none

def decode (bytes : List UInt8) : Option Payload := ofFields (widths.splitLengths bytes)

theorem message_eq_flatten (p : Payload) : p.message = p.fields.flatten := by
  simp [message, messageFor, fields]

theorem fields_lengths (p : Payload) : p.fields.map List.length = widths := by
  simp [fields, widths]

theorem length_message (p : Payload) : p.message.length = offchainMessageLen := by
  rw [message_eq_flatten, List.length_flatten, fields_lengths]
  rfl

theorem toNat_lt (a : U64) : (a : ℤ).toNat < 256 ^ 8 := by
  have h := a.lo_le
  have h' := a.le_hi
  omega

theorem ofLeBytes_u64 (a : U64) :
    (BoundedInt.saturate (ofLeBytes (leBytes 8 (a : ℤ).toNat)) : U64) = a := by
  rw [ofLeBytes_leBytes (toNat_lt a), Int.toNat_of_nonneg a.lo_le, BoundedInt.saturate_coe]

/-- Two's complement is undone by the balanced remainder. -/
theorem ofLeBytes_i64 (a : I64) :
    (BoundedInt.saturate ((ofLeBytes (leBytes 8 ((a : ℤ) % 2 ^ 64).toNat) : ℤ).bmod (2 ^ 64)) : I64) = a := by
  have h := a.lo_le
  have h' := a.le_hi
  have hbalanced : ((a : ℤ) % 2 ^ 64).bmod (2 ^ 64) = (a : ℤ) := by
    rw [Int.bmod_def]
    push_cast
    split_ifs <;> omega
  rw [ofLeBytes_leBytes (by omega), Int.toNat_of_nonneg (by omega), hbalanced, BoundedInt.saturate_coe]

theorem ofFields_fields (p : Payload) : ofFields p.fields = some p := by
  have hid : ofLeBytes (leBytes 16 p.orderId.val).reverse.reverse = p.orderId.val := by
    rw [List.reverse_reverse]
    exact ofLeBytes_leBytes (by have h := p.orderId.isLt; omega)
  have hside : ofLeBytes (leBytes 1 p.side.toNat) = p.side.toNat :=
    ofLeBytes_leBytes (by have h := p.side.toNat_lt; omega)
  have hzone : ofLeBytes (leBytes 4 p.zoneId.toNat) = p.zoneId.toNat :=
    ofLeBytes_leBytes (by have h := p.zoneId.toNat_lt; omega)
  have horder : Fin.ofNat (2 ^ 128) p.orderId.val = p.orderId := Fin.ofNat_val_eq_self p.orderId
  rw [fields, ofFields, dif_pos p.user.length_toList]
  simp only [hid, hside, hzone, horder, ofLeBytes_u64, ofLeBytes_i64, UInt8.ofNat_toNat, UInt32.ofNat_toNat]
  rfl

theorem decode_message (p : Payload) : decode p.message = some p := by
  rw [decode, message_eq_flatten, ← fields_lengths p, List.splitLengths_flatten, ofFields_fields]

theorem message_injective : Function.Injective message := by
  intro p p' h
  exact Option.some.inj ((decode_message p).symm.trans ((congrArg decode h).trans (decode_message p')))

end Payload

end OffchainPayload

namespace BaseUnits

variable {value value' : Decimal} {scale : ℤ} {n n' : U64}

/-- The product is exact, or it leaves the decimals and is far from fitting into the units. -/
theorem truncToU64_eq_checked {A : DecimalArithmetic} (hA : A.Lawful) {value unit : RustDecimal} {k : ℕ}
    (hvalue : 0 ≤ value.value) (hunit : unit.value = scale) (hscale : (scale : ℚ) = 10 ^ k) :
    truncToU64 value.value scale =
      (A.mul value unit).bind fun product => BoundedInt.tryFrom (Rounding.trunc product.value) := by
  unfold truncToU64
  rcases ScaledDecimal.exists_value_mul_powTen value k with ⟨z, hz⟩ | hbeyond
  · rw [← hscale, ← hunit] at hz
    obtain ⟨p, hp, hexact⟩ := hA.mul_exact value unit z hz
    rw [Option.mem_def.mp hp, Option.bind_some, hexact, hunit]
  · have hproduct : 0 ≤ value.value * scale := by
      rw [hscale]
      positivity
    rw [← hscale, abs_of_nonneg hproduct] at hbeyond
    rw [hA.mul_overflow value unit (by rwa [hunit, abs_of_nonneg hproduct]), Option.bind_none,
      Rounding.trunc_of_nonneg hproduct]
    have hfloor : 18446744073709551616 ≤ ⌊value.value * scale⌋ :=
      Int.le_floor.mpr (le_trans (by norm_num) hbeyond)
    exact dif_neg fun h => absurd h.2 (by omega)

theorem toBaseUnits_eq_some (hvalue : 0 ≤ value) (hscale : 0 ≤ scale) :
    toBaseUnits value scale = some n ↔ (n : ℤ) = ⌊value * scale⌋ := by
  have hproduct : 0 ≤ value * scale := mul_nonneg hvalue (by exact_mod_cast hscale)
  rw [toBaseUnits, if_neg (not_lt.mpr hvalue), truncToU64, BoundedInt.tryFrom_eq_some,
    Rounding.trunc_of_nonneg hproduct]

theorem toBaseUnits_eq_none (hvalue : 0 ≤ value) (hscale : 0 ≤ scale) :
    toBaseUnits value scale = none ↔ 18446744073709551615 < ⌊value * scale⌋ := by
  have hproduct : 0 ≤ ⌊value * scale⌋ := Int.floor_nonneg.mpr (mul_nonneg hvalue (by exact_mod_cast hscale))
  constructor
  · intro hnone
    by_contra! hfits
    have hsome := (toBaseUnits_eq_some (n := ⟨⌊value * scale⌋, hproduct, hfits⟩) hvalue hscale).mpr rfl
    rw [hnone] at hsome
    cases hsome
  · intro hbeyond
    by_contra hsome
    obtain ⟨n, hn⟩ := Option.ne_none_iff_exists'.mp hsome
    have hle := n.le_hi
    rw [(toBaseUnits_eq_some hvalue hscale).mp hn] at hle
    omega

theorem nonneg_of_toBaseUnits (h : toBaseUnits value scale = some n) : 0 ≤ value := by
  unfold toBaseUnits at h
  split_ifs at h with hsign
  exact not_lt.mp hsign

theorem toBaseUnits_mono (hscale : 0 ≤ scale) (hle : value ≤ value') (h : toBaseUnits value scale = some n)
    (h' : toBaseUnits value' scale = some n') : n ≤ n' := by
  rw [toBaseUnits_eq_some (nonneg_of_toBaseUnits h) hscale] at h
  rw [toBaseUnits_eq_some (nonneg_of_toBaseUnits h') hscale] at h'
  rw [BoundedInt.le_iff, h, h']
  exact Int.floor_mono (mul_le_mul_of_nonneg_right hle (by exact_mod_cast hscale))

/-- The conversion at this scale is the exact truncation where that fits, nothing where it
does not, and monotone. -/
structure Exact (scale : ℤ) : Prop where
  checked : ∀ (A : DecimalArithmetic), A.Lawful → ∀ value unit : RustDecimal, 0 ≤ value.value →
    unit.value = scale → toBaseUnits value.value scale =
      (A.mul value unit).bind fun product => BoundedInt.tryFrom (Rounding.trunc product.value)
  some_iff : ∀ value n, 0 ≤ value → (toBaseUnits value scale = some n ↔ (n : ℤ) = ⌊value * scale⌋)
  none_iff : ∀ value, 0 ≤ value →
    (toBaseUnits value scale = none ↔ 18446744073709551615 < ⌊value * scale⌋)
  mono : ∀ value value' n n', value ≤ value' → toBaseUnits value scale = some n →
    toBaseUnits value' scale = some n' → n ≤ n'

theorem exact_of_powTen {k : ℕ} (hscale : 0 ≤ scale) (hten : (scale : ℚ) = 10 ^ k) : Exact scale where
  checked A hA value unit hvalue hunit := by
    rw [toBaseUnits, if_neg (not_lt.mpr hvalue), truncToU64_eq_checked hA hvalue hunit hten]
  some_iff _ _ hvalue := toBaseUnits_eq_some hvalue hscale
  none_iff _ hvalue := toBaseUnits_eq_none hvalue hscale
  mono _ _ _ _ := toBaseUnits_mono hscale

end BaseUnits

open OffchainPayload in
/-- A message has its full length and is decoded to the fields that it was made of, so that
no two payloads share one. The amounts in it are exact truncations, for energy and currency. -/
theorem offchain_message_unambiguous :
    (∀ p : Payload, p.message.length = offchainMessageLen ∧ Payload.decode p.message = some p) ∧
      (∀ p p' : Payload, p ≠ p' → p.message ≠ p'.message) ∧
      BaseUnits.Exact BaseUnits.energyScale ∧ BaseUnits.Exact BaseUnits.currencyScale :=
  ⟨fun p => ⟨p.length_message, p.decode_message⟩, fun _ _ => Payload.message_injective.ne,
    BaseUnits.exact_of_powTen (k := 9) (by decide) (by norm_num [BaseUnits.energyScale]),
    BaseUnits.exact_of_powTen (k := 6) (by decide) (by norm_num [BaseUnits.currencyScale])⟩

end TradingService
