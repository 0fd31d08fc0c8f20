import TradingService.Ledger.Replicas
import TradingService.Orders.Intake

/-!
# Signatures and matches

In per-user mode a match is worth something only between signed orders. The paths
insert an order first and sign it later, or never, and the matchers poll. `made` is
what each matcher's present job saw signed, and `persisted` pairs every match that was
written with what its job saw.
-/

namespace TradingService

open Database (Statement)

structure MarketState (R : Type) where
  market : State R
  intake : Intake
  made : R → List Uuid
  persisted : List (MatchResult × List Uuid)

inductive MarketAction (R : Type)
  | intake (a : IntakeAction)
  /-- Cancellations, the reaper, and the order of the heap. -/
  | upkeep (st : Statement)
  | worker (r : R) (a : JobStep)

def Database.signedIds (db : Database) : List Uuid :=
  (db.orders.rows.filter (·.signature.isSome)).map (·.id)

def Database.Statement.isUpkeep : Statement → Bool
  | .cancelOrder _ _ => true
  | .expireStaleOrders _ => true
  | .reorder _ => true
  | _ => false

def Phase.book (db : Database) : Phase → List OrderRow
  | .reading kind buys => buys ++ kind.select (db.activeOrders .sell)
  | _ => []

def Phase.committed (db : Database) : Phase → JobStep → Option MatchResult
  | .writing job, .persist ids rates =>
    match job.pending with
    | [] => none
    | m :: _ =>
      match job.persistMatch db m ids rates with
      | .committed _ => some m
      | _ => none
  | _, _ => none

def JobStep.made (db : Database) (before : List Uuid) : JobStep → List Uuid
  | .readSells _ _ => db.signedIds
  | _ => before

namespace MarketState

variable {R : Type} [DecidableEq R]

def start (db : Database) : MarketState R := ⟨.start db, .empty, fun _ => [], []⟩

def step (config : ServiceConfig) (s : MarketState R) : MarketAction R → Option (MarketState R)
  | .intake a => (s.intake.step config s.market.db a).map fun out =>
      { s with market := { s.market with db := out.1 }, intake := out.2 }
  | .upkeep st =>
    if st.isUpkeep then (s.market.step (.statement st)).map fun market => { s with market := market }
    else none
  | .worker r a => (s.market.step (.worker r a)).map fun market =>
      { s with
        market := market
        made := Function.update s.made r (a.made s.market.db (s.made r))
        persisted := ((s.market.phase r).committed s.market.db a).toList.map (fun m => (m, s.made r)) ++
          s.persisted }

/-- Every order that came in and was matched had its signature stored before. -/
def SignedFirst (s : MarketState R) : Prop :=
  ∀ p ∈ s.persisted, ∀ id ∈ [p.1.buyOrderId, p.1.sellOrderId], id ∈ s.intake.inserted → id ∈ p.2

instance (s : MarketState R) : Decidable s.SignedFirst := inferInstanceAs (Decidable (∀ p ∈ _, _))

/-- A worker that has read its book finds the orders that came in signed. -/
def ReadsSigned (s : MarketState R) : MarketAction R → Prop
  | .worker r (.readSells _ _) => ∀ id ∈ ((s.market.phase r).book s.market.db).map (·.id),
      id ∈ s.intake.inserted → id ∈ s.market.db.signedIds
  | _ => True

instance (s : MarketState R) (a : MarketAction R) : Decidable (s.ReadsSigned a) := by
  unfold ReadsSigned
  split <;> infer_instance

end MarketState

def Phase.SignedFirst (db : Database) (inserted made : List Uuid) : Phase → Prop
  | .idle => True
  | .reading _ buys => BuySnapshot db buys
  | .writing job => ∀ m ∈ job.pending, ∀ id ∈ [m.buyOrderId, m.sellOrderId],
      (∃ o ∈ db.orders.rows, o.id = id) ∧ (id ∈ inserted → id ∈ made)

section Phases

variable {db db' : Database} {inserted made : List Uuid} {phase : Phase}

theorem Phase.SignedFirst.mono {inserted' : List Uuid} (h : phase.SignedFirst db inserted made)
    (hext : Database.Extends db db')
    (hinserted : ∀ id ∈ inserted', id ∈ inserted ∨ ∀ o ∈ db.orders.rows, o.id ≠ id) :
    phase.SignedFirst db' inserted' made := by
  cases phase with
  | idle => trivial
  | reading kind buys => exact BuySnapshot.mono h hext
  | writing job =>
    intro m hm id hid
    obtain ⟨⟨o, ho, hoid⟩, hmade⟩ := h m hm id hid
    obtain ⟨o', ho', hterms⟩ := hext o ho
    refine ⟨⟨o', ho', hterms.id.trans hoid⟩, fun hin => ?_⟩
    rcases hinserted id hin with hin' | hfresh
    · exact hmade hin'
    · exact absurd hoid (hfresh o ho)

theorem readSells_signedFirst {kind : JobKind} {buys : List OrderRow} (hbuys : BuySnapshot db buys)
    (topology : TopologySnapshot) (nowNs : I64)
    (hread : ∀ id ∈ (buys ++ kind.select (db.activeOrders .sell)).map (·.id),
      id ∈ inserted → id ∈ made) :
    Phase.SignedFirst db inserted made
      (.writing (kind.run buys (kind.select (db.activeOrders .sell)) topology nowNs)) := by
  intro m hm id hid
  have hdecided := kind.decided_run topology nowNs (hbuys.ids_append kind)
  rcases List.mem_cons.mp hid with rfl | hid
  · obtain ⟨b, hb, hbid⟩ := hdecided.buy_mem m hm
    obtain ⟨o, ho, hterms⟩ := hbuys.known b hb
    refine ⟨⟨o, ho, hterms.id.trans hbid⟩, hread _ ?_⟩
    exact List.mem_map.mpr ⟨b, List.mem_append_left _ hb, hbid⟩
  · obtain rfl := List.mem_singleton.mp hid
    obtain ⟨o, ho, hoid⟩ := hdecided.sell_mem m hm
    refine ⟨⟨o, (select_sublist kind .sell).subset ho, hoid⟩, hread _ ?_⟩
    exact List.mem_map.mpr ⟨o, List.mem_append_right _ ho, hoid⟩

end Phases

theorem Move.extends {db db' : Database} {phase phase' : Phase} {a : JobStep}
    (h : Move db phase a db' phase') : Database.Extends db db' := by
  cases h with
  | persisted _ hcommit => exact (Database.persistMatchedTrade_upkeeps hcommit).retains.extends
  | swept _ _ hwritten => exact (Database.updateFilledAmountWithEvent_upkeeps hwritten).retains.extends
  | _ => exact .refl

theorem Phase.committed_mem {db : Database} {phase : Phase} {a : JobStep} {m : MatchResult}
    (h : phase.committed db a = some m) : ∃ job, phase = .writing job ∧ m ∈ job.pending := by
  unfold Phase.committed at h
  split at h
  next job _ _ =>
    split at h
    · cases h
    next hpending =>
      split at h
      · obtain rfl := Option.some.inj h
        exact ⟨job, rfl, hpending ▸ List.mem_cons_self⟩
      · cases h
  · cases h

namespace MarketState

variable {R : Type} [DecidableEq R] {config : ServiceConfig} {s s' : MarketState R}

structure Inv (s : MarketState R) : Prop where
  phases : ∀ r, (s.market.phase r).SignedFirst s.market.db s.intake.inserted (s.made r)
  signedFirst : s.SignedFirst
  /-- What was written names orders that are there. -/
  known : ∀ p ∈ s.persisted, ∀ id ∈ [p.1.buyOrderId, p.1.sellOrderId],
    ∃ o ∈ s.market.db.orders.rows, o.id = id

omit [DecidableEq R] in
theorem Inv.mono {db : Database} {intake : Intake} (h : s.Inv)
    (hext : Database.Extends s.market.db db)
    (hinserted : ∀ id ∈ intake.inserted, id ∈ s.intake.inserted ∨
      ∀ o ∈ s.market.db.orders.rows, o.id ≠ id) :
    Inv { s with market := { s.market with db := db }, intake := intake } where
  phases r := (h.phases r).mono hext hinserted
  signedFirst p hp id hid hin := by
    rcases hinserted id hin with hin' | hfresh
    · exact h.signedFirst p hp id hid hin'
    · obtain ⟨o, ho, hoid⟩ := h.known p hp id hid
      exact absurd hoid (hfresh o ho)
  known p hp id hid := by
    obtain ⟨o, ho, hoid⟩ := h.known p hp id hid
    obtain ⟨o', ho', hterms⟩ := hext o ho
    exact ⟨o', ho', hterms.id.trans hoid⟩

theorem phase_step {db db' : Database} {inserted made : List Uuid} {phase phase' : Phase} {a : JobStep}
    (hphase : phase.SignedFirst db inserted made)
    (hread : ∀ topology nowNs, a = .readSells topology nowNs →
      ∀ id ∈ (phase.book db).map (·.id), id ∈ inserted → id ∈ db.signedIds)
    (hstep : phase.step db a = some (db', phase')) :
    phase'.SignedFirst db' inserted (a.made db made) := by
  have hmove := Phase.move_of_step hstep
  have hext := hmove.extends
  cases hmove with
  | readBuys kind => exact BuySnapshot.select kind
  | readSells kind buys topology nowNs => exact readSells_signedFirst hphase _ _ (hread _ _ rfl)
  | @persisted job m rest ids rates _ hpending hcommit =>
    have hrest : Phase.SignedFirst db inserted made (.writing { job with pending := rest }) :=
      fun m' hm' => hphase m' (hpending ▸ List.mem_cons_of_mem _ hm')
    exact hrest.mono hext fun _ hin => .inl hin
  | @givenUp job m rest _ hpending =>
    have hmade : a.made db made = made := by
      cases a with
      | readSells topology nowNs => cases hstep
      | _ => rfl
    rw [hmade]
    exact fun m' hm' => hphase m' (hpending ▸ List.mem_cons_of_mem _ hm')
  | @swept job o rest _ hpending hsweep hwritten =>
    have hrest : Phase.SignedFirst db inserted made (.writing { job with sweep := rest }) := hphase
    exact hrest.mono hext fun _ hin => .inl hin
  | stopped => trivial

theorem inv_worker {r : R} {a : JobStep} (h : s.Inv) (hread : s.ReadsSigned (.worker r a))
    (hstep : s.step config (.worker r a) = some s') : s'.Inv := by
  obtain ⟨market', hmarket, rfl⟩ := Option.map_eq_some_iff.mp hstep
  obtain ⟨⟨db', phase'⟩, hphase, rfl⟩ := Option.map_eq_some_iff.mp hmarket
  have hext := (Phase.move_of_step hphase).extends
  have hown := phase_step (h.phases r)
    (fun topology nowNs ha => by subst ha; exact hread) hphase
  have hwritten : ∀ m ∈ (s.market.phase r).committed s.market.db a,
      ∀ id ∈ [m.buyOrderId, m.sellOrderId], (∃ o ∈ s.market.db.orders.rows, o.id = id) ∧
        (id ∈ s.intake.inserted → id ∈ s.made r) := by
    intro m hm
    obtain ⟨job, hjob, hpending⟩ := Phase.committed_mem hm
    have hphases := h.phases r
    rw [hjob] at hphases
    exact hphases m hpending
  have hmem : ∀ p ∈ ((s.market.phase r).committed s.market.db a).toList.map (fun m => (m, s.made r)) ++
      s.persisted, (p.1 ∈ (s.market.phase r).committed s.market.db a ∧ p.2 = s.made r) ∨
        p ∈ s.persisted := by
    intro p hp
    rcases List.mem_append.mp hp with hp | hp
    · obtain ⟨m, hm, rfl⟩ := List.mem_map.mp hp
      exact .inl ⟨Option.mem_toList.mp hm, rfl⟩
    · exact .inr hp
  refine ⟨fun q => ?_, fun p hp id hid hin => ?_, fun p hp id hid => ?_⟩
  · by_cases hq : q = r
    · subst hq
      simpa using hown
    · simpa [Function.update_of_ne hq] using (h.phases q).mono hext fun _ hin => .inl hin
  · rcases hmem p hp with ⟨hm, hmade⟩ | hp
    · rw [hmade]
      exact (hwritten p.1 hm id hid).2 hin
    · exact h.signedFirst p hp id hid hin
  · have hknown : ∃ o ∈ s.market.db.orders.rows, o.id = id := by
      rcases hmem p hp with ⟨hm, _⟩ | hp
      · exact (hwritten p.1 hm id hid).1
      · exact h.known p hp id hid
    obtain ⟨o, ho, hoid⟩ := hknown
    obtain ⟨o', ho', hterms⟩ := hext o ho
    exact ⟨o', ho', hterms.id.trans hoid⟩

theorem inv_step {a : MarketAction R} (h : s.Inv) (hread : s.ReadsSigned a)
    (hstep : s.step config a = some s') : s'.Inv := by
  cases a with
  | intake a =>
    obtain ⟨⟨db', intake'⟩, hintake, rfl⟩ := Option.map_eq_some_iff.mp hstep
    have hmove := Intake.move_of_step hintake
    exact h.mono hmove.extends hmove.inserted
  | upkeep st =>
    simp only [step] at hstep
    split_ifs at hstep
    obtain ⟨market', hmarket, rfl⟩ := Option.map_eq_some_iff.mp hstep
    obtain ⟨db', hexec, rfl⟩ := Option.map_eq_some_iff.mp hmarket
    exact h.mono (Database.exec_keeps hexec).extends fun _ hin => .inl hin
  | worker r a => exact inv_worker h hread hstep

/-- Every run from any database in which a matcher that has read its book finds the
orders that came in signed. -/
theorem matched_signed_first (config : ServiceConfig) (db : Database) (as : List (MarketAction R))
    (has : Runs.AllSteps (step config) ReadsSigned (start db) as) :
    Runs.AllStates (step config) SignedFirst (start db) as := by
  have hinv : Runs.AllStates (step config) Inv (start db) as := by
    apply Runs.AllStates.of_allSteps (C := ReadsSigned) _ ⟨fun _ => trivial, by simp [SignedFirst, start],
      by simp [start]⟩ has
    intro s a s' h hread hstep
    exact inv_step h hread hstep
  exact hinv.mono fun _ h => h.signedFirst

end MarketState

def ServiceConfig.perUser : ServiceConfig := { shipped with perUserEscrowSettlement := true }

def Rest.SubmitOrderRequest.signedBuy : Rest.SubmitOrderRequest where
  energyAmountKwh := .ok 1
  side := some .buy
  orderType := .limit
  timeInForce := none
  pricePerKwh := some (.ok 5)
  marketSegment := none
  meterSerial := none
  meterId := none
  zoneId := BoundedInt.saturate 0
  custodialSign := none
  expiresAt := none
  expiresInSecs := none
  orderId := some 1
  walletSignature := some "signature"
  signedExpiresAt := some (BoundedInt.saturate 100)

namespace MarketState

def oldSell : Database := .ofRows ⟨[OrderRow.placed 2 .sell 5 1], by simp⟩ .empty

def cycle : List (MarketAction Unit) :=
  [.worker () (.readBuys .matching),
    .worker () (.readSells (.freeGrid fun _ _ => 100) (BoundedInt.saturate 0)),
    .worker () (.persist ⟨4, 5, 6, 0⟩ ⟨0, 0, 0⟩)]

def submitBuy : MarketAction Unit := .intake (.submitRest 1 .signedBuy .quiet)

def storeSignature : MarketAction Unit := .intake (.writeSignature 1 true)

theorem matched_signed_first_woken :
    Runs.AllStates (step .perUser) SignedFirst (start oldSell) (submitBuy :: storeSignature :: cycle) :=
  matched_signed_first .perUser oldSell (submitBuy :: storeSignature :: cycle) (by decide +kernel)

/-- The fallback tick matches the buy between its insert and its signature. -/
theorem poll_matches_unsigned :
    ¬Runs.AllStates (step .perUser) SignedFirst (start oldSell)
      (submitBuy :: cycle ++ [storeSignature]) := by
  decide +kernel

end MarketState

end TradingService
