import TradingService.Lib.BroadcastRing
import TradingService.Lib.Runs
import TradingService.Outbox.Stream

/-!
# The market-data gateway

The pump stamps an event with the next number of its zone, and sends the frame to the ring
of the zone and then to the firehose, a ring for all zones. A socket subscribes to one of
the rings. It forwards what it receives, and where its ring has overrun it, it sends a
resync frame instead. Every read and every send of the pump and of the sockets is a step
of its own.
-/

namespace TradingService

def zoneChannelCapacity : ℕ := 512

/-- The ring of a zone, or the firehose. -/
abbrev Channel := Option I32

inductive Outbound
  | frame (frame : MarketFrame)
  | resync (zoneId : Option I32) (seq : Option ℕ)
  deriving DecidableEq

inductive SocketPhase
  /-- Subscribed, and yet to read the number of its zone. -/
  | joining
  | live
  /-- Told that it lags, and yet to send the resync frame. -/
  | lagging
  | closed
  deriving DecidableEq

structure Socket where
  zoneId : Channel
  position : ℕ
  phase : SocketPhase
  /-- The number of the zone at the subscription, which is reported for a single zone only. -/
  joinedAtSeq : Option ℕ
  /-- What was sent to the client, newest first. -/
  sent : List Outbound

inductive SocketStep
  | readSeq
  | recv
  | sendResync
  /-- A close frame, an error or a failed send. -/
  | close

inductive PumpPhase
  | idle
  | stamped (frame : MarketFrame)
  | sentToZone (frame : MarketFrame)

inductive GatewayAction
  /-- `serialized` is whether the event could be turned into JSON. -/
  | publish (event : Event) (serialized : Bool)
  | sendToZone
  | sendToFirehose
  | connect (zoneId : Channel)
  | socket (i : ℕ) (a : SocketStep)

structure MarketGateway where
  hub : ZoneHub
  rings : Channel → BroadcastRing MarketFrame zoneChannelCapacity
  pump : PumpPhase
  sockets : List Socket

namespace MarketGateway

def start : MarketGateway := ⟨⟨fun _ => 0⟩, fun _ => .new, .idle, []⟩

variable (s : MarketGateway)

def Watched (c : Channel) : Prop := ∃ k ∈ s.sockets, k.zoneId = c ∧ k.phase ≠ .closed

instance (c : Channel) : Decidable (s.Watched c) := inferInstanceAs (Decidable (∃ k ∈ s.sockets, _))

/-- A channel without a receiver keeps nothing. -/
def send (c : Channel) (frame : MarketFrame) : Channel → BroadcastRing MarketFrame zoneChannelCapacity :=
  if s.Watched c then Function.update s.rings c ((s.rings c).send frame) else s.rings

/-- `handle_socket`. -/
def serve (k : Socket) : SocketStep → Option Socket
  | .readSeq =>
    match k.phase, k.zoneId with
    | .joining, some z => some { k with phase := .live, joinedAtSeq := some (s.hub.seq z) }
    | _, _ => none
  | .recv =>
    if k.phase = .live then
      match (s.rings k.zoneId).recv k.position with
      | (.value frame, position) =>
        some { k with position := position, sent := .frame frame :: k.sent }
      | (.lagged _, position) => some { k with position := position, phase := .lagging }
      | (.empty, _) => none
    else none
  | .sendResync =>
    if k.phase = .lagging then
      some { k with phase := .live, sent := .resync k.zoneId (k.zoneId.map s.hub.seq) :: k.sent }
    else none
  | .close => some { k with phase := .closed }

/-- `subscribe` begins with the receiver, and `subscribe_all` ends there. -/
def connect (zoneId : Channel) : Socket where
  zoneId := zoneId
  position := (s.rings zoneId).tail
  phase := if zoneId.isSome then .joining else .live
  joinedAtSeq := none
  sent := []

def step : GatewayAction → Option MarketGateway
  | .publish event serialized =>
    match s.pump with
    | .idle =>
      if serialized then
        match s.hub.publish event with
        | (hub, some frame) => some { s with hub := hub, pump := .stamped frame }
        | (_, none) => some s
      else some s
    | _ => none
  | .sendToZone =>
    match s.pump with
    | .stamped frame =>
      some { s with rings := s.send (some frame.zoneId) frame, pump := .sentToZone frame }
    | _ => none
  | .sendToFirehose =>
    match s.pump with
    | .sentToZone frame => some { s with rings := s.send none frame, pump := .idle }
    | _ => none
  | .connect zoneId => some { s with sockets := s.sockets ++ [s.connect zoneId] }
  | .socket i a =>
    (s.sockets[i]?.bind fun k => s.serve k a).map fun k => { s with sockets := s.sockets.set i k }

end MarketGateway

namespace Outbound

def seqOf (z : I32) : Outbound → Option ℕ
  | .frame f => if f.zoneId = z then some f.seq else none
  | .resync _ _ => none

def IsResync : Outbound → Prop
  | .frame _ => False
  | .resync _ _ => True

end Outbound

namespace Socket

variable (k : Socket) (z : I32)

/-- The numbers of the zone rise, and they rise by one from a frame to the next but
across a resync. -/
structure Contiguous : Prop where
  increasing : (k.sent.filterMap (·.seqOf z)).Pairwise (· > ·)
  successor : ∀ later next between last earlier m n,
    k.sent = later ++ next :: (between ++ last :: earlier) →
      last.seqOf z = some m → next.seqOf z = some n →
        (∀ o ∈ between, o.seqOf z = none ∧ ¬o.IsResync) → n = m + 1

/-- The first frame of the zone is at most one above the reported number. -/
def JoinsAtSeq : Prop :=
  ∀ later first earlier n, k.sent = later ++ first :: earlier → first.seqOf z = some n →
    (∀ o ∈ earlier, o.seqOf z = none) → ∀ seq ∈ k.joinedAtSeq, n ≤ seq + 1

/-- It is so unless a resync comes first. -/
def JoinsAtSeqOrResyncs : Prop :=
  ∀ later first earlier n, k.sent = later ++ first :: earlier → first.seqOf z = some n →
    (∀ o ∈ earlier, o.seqOf z = none) → (∀ o ∈ earlier, ¬o.IsResync) → ∀ seq ∈ k.joinedAtSeq, n ≤ seq + 1

end Socket

end TradingService
