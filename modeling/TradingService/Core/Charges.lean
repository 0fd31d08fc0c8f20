import TradingService.Core.FastPrice

/-!
# Settlement charges

The tariff, the split of a settlement's gross amount under it, and the check of a split that
has been booked.
-/

namespace TradingService

structure ChargeRates where
  feeBps : UInt16
  wheelingRatePerKwh : UInt64
  lossBps : UInt16
  deriving DecidableEq

namespace ChargeRates

def bps : ℚ := 10000

def currencyScale : ℚ := 1000000

def wheelingPerKwh (rates : ChargeRates) : Decimal := rates.wheelingRatePerKwh.toNat / currencyScale

def lossFactor (rates : ChargeRates) : Decimal := 1 + rates.lossBps.toNat / bps

theorem wheelingPerKwh_nonneg {rates : ChargeRates} : 0 ≤ rates.wheelingPerKwh :=
  div_nonneg (Nat.cast_nonneg _) (by norm_num [currencyScale])

def deployed : ChargeRates := ⟨25, 100000, 5⟩

end ChargeRates

structure SettlementCharges where
  fee : Decimal
  wheeling : Decimal
  loss : Decimal
  net : Decimal
  deriving DecidableEq

def computeCharges (total kwh : Decimal) (rates : ChargeRates) : SettlementCharges :=
  let fee := total * rates.feeBps.toNat / ChargeRates.bps
  let wheeling := kwh * rates.wheelingPerKwh
  let loss := total * rates.lossBps.toNat / ChargeRates.bps
  { fee := fee
    wheeling := wheeling
    loss := loss
    net := total - fee - wheeling - loss }

inductive LedgerDiscrepancy
  | doesNotSumToGross (accounted gross : Decimal)
  | chargeOffTariff (field : String) (booked expected : Decimal)
  deriving DecidableEq

namespace LedgerDiscrepancy

def offTariff (field : String) (booked want : Decimal) : List LedgerDiscrepancy :=
  if booked = want then [] else [.chargeOffTariff field booked want]

theorem offTariff_eq_nil {field : String} {booked want : Decimal} :
    offTariff field booked want = [] ↔ booked = want := by
  unfold offTariff
  split_ifs with h <;> simp [h]

end LedgerDiscrepancy

def reconcileCharges (gross kwh fee wheeling loss net : Decimal) (rates : ChargeRates) :
    List LedgerDiscrepancy :=
  let accounted := fee + wheeling + loss + net
  let expected := computeCharges gross kwh rates
  (if accounted = gross then [] else [.doesNotSumToGross accounted gross]) ++
    (LedgerDiscrepancy.offTariff "fee_amount" fee expected.fee ++
      (LedgerDiscrepancy.offTariff "wheeling_charge" wheeling expected.wheeling ++
        (LedgerDiscrepancy.offTariff "loss_cost" loss expected.loss ++
          LedgerDiscrepancy.offTariff "net_amount" net expected.net)))

end TradingService
