import TradingService.Lib.PartitionedLog
import TradingService.Outbox.BusOrder

/-!
# The market-data stream

An event goes to the topic of its kind, under the key of its zone. One pump reads all
partitions of the trading topics and stamps what it reads with a sequence number for its
zone. The bus keeps an order within a partition only, so the stream has two events of a zone
in the order of their commits where they share a topic, or where the first had been streamed
when the second was committed.
-/

namespace TradingService

inductive Topic
  | ordersCreated
  | ordersMatched
  | ordersUpdated
  | settlements
  | triggers
  | participants
  | telemetry
  deriving DecidableEq, Repr

/-- `zone_{id}`, an id or a cluster. -/
inductive PartitionKey
  | zone (zoneId : I32)
  | id (id : Uuid)
  | cluster (clusterId : String)
  deriving DecidableEq

def zoneKey (zoneId : ZoneId) (id : Uuid) : PartitionKey := WithBot.recBotCoe (.id id) .zone zoneId

def routeEvent : Event → Topic × PartitionKey
  | .orderCreated id _ _ _ zoneId => (.ordersCreated, zoneKey zoneId id)
  | .orderMatched matchId _ _ _ _ zoneId => (.ordersMatched, zoneKey zoneId matchId)
  | .orderUpdate id _ _ _ zoneId => (.ordersUpdated, zoneKey zoneId id)
  | .settlementRequested settlementId buyerZoneId => (.settlements, zoneKey buyerZoneId settlementId)
  | .settlementProcessed settlementId _ => (.settlements, .id settlementId)
  | .peakPriceUpdate id zoneId => (.ordersUpdated, zoneKey zoneId id)
  | .triggerExecution id => (.triggers, .id id)
  | .priceAlertTriggered alertId => (.triggers, .id alertId)
  | .ercIssued userId => (.settlements, .id userId)
  | .userRegistered userId => (.ordersCreated, .id userId)
  | .userOnboarded userId => (.participants, .id userId)
  | .userWalletLinked userId => (.participants, .id userId)
  | .oracleReading readingId zoneId => (.telemetry, zoneKey zoneId readingId)
  | .vppDispatched clusterId => (.telemetry, .cluster clusterId)

def routable (event : Event) : Option (I32 × String) :=
  let named (zoneId : ZoneId) (kind : String) : Option (I32 × String) :=
    WithBot.recBotCoe none (fun z => some (z, kind)) zoneId
  match event with
  | .orderCreated _ _ _ _ zoneId => named zoneId "order_created"
  | .orderMatched _ _ _ _ _ zoneId => named zoneId "order_matched"
  | .orderUpdate _ _ _ _ zoneId => named zoneId "order_update"
  | .peakPriceUpdate _ zoneId => named zoneId "peak_price_update"
  | .settlementRequested _ buyerZoneId => named buyerZoneId "settlement_requested"
  | _ => none

structure MarketFrame where
  kind : String
  seq : ℕ
  zoneId : I32
  data : Event
  deriving DecidableEq

structure ZoneHub where
  seq : I32 → ℕ

def ZoneHub.publish (hub : ZoneHub) (event : Event) : ZoneHub × Option MarketFrame :=
  match routable event with
  | none => (hub, none)
  | some (zoneId, kind) =>
    let seq := hub.seq zoneId + 1
    (⟨Function.update hub.seq zoneId seq⟩,
      some { kind := kind, seq := seq, zoneId := zoneId, data := event })

namespace OutboxEvent

def topic (e : OutboxEvent Event) : Topic := (routeEvent e.payload).1

def zone (e : OutboxEvent Event) : Option I32 := (routable e.payload).map (·.1)

def sameZone (first second : OutboxEvent Event) : Bool := first.zone.isSome ∧ first.zone = second.zone

theorem key_of_zone {e : OutboxEvent Event} {z : I32} (h : e.zone = some z) :
    (routeEvent e.payload).2 = .zone z := by
  unfold zone at h
  obtain ⟨routed, hrouted, rfl⟩ := Option.map_eq_some_iff.mp h
  have hnamed : ∀ (zoneId : ZoneId) (id : Uuid) (kind : String),
      WithBot.recBotCoe none (fun z => some (z, kind)) zoneId = some routed →
        zoneKey zoneId id = .zone routed.1 := by
    intro zoneId id kind hkind
    induction zoneId using WithBot.recBotCoe with
    | bot => cases hkind
    | coe z => obtain rfl := Option.some.inj hkind; rfl
  cases hpayload : e.payload with
  | orderCreated | orderMatched | orderUpdate | peakPriceUpdate | settlementRequested =>
    rw [hpayload] at hrouted
    exact hnamed _ _ _ hrouted
  | _ => simp [hpayload, routable] at hrouted

end OutboxEvent

/-- The partitioner of the producer picks a partition of a topic by the key. -/
def partitionOf (partitioner : Topic → PartitionKey → ℕ) (e : OutboxEvent Event) : Topic × ℕ :=
  (e.topic, partitioner e.topic (routeEvent e.payload).2)

theorem partitionOf_eq {partitioner : Topic → PartitionKey → ℕ} {first second : OutboxEvent Event}
    (hzone : first.sameZone second) (htopic : first.topic = second.topic) :
    partitionOf partitioner first = partitionOf partitioner second := by
  obtain ⟨hsome, hsame⟩ : first.zone.isSome ∧ first.zone = second.zone := by
    simpa [OutboxEvent.sameZone] using hzone
  obtain ⟨z, hz⟩ := Option.isSome_iff_exists.mp hsome
  unfold partitionOf
  rw [htopic, OutboxEvent.key_of_zone hz, OutboxEvent.key_of_zone (hsame ▸ hz)]

inductive StreamAction (W : Type)
  | outbox (a : OutboxAction W)
  /-- The pump receives the next message of a partition. -/
  | poll (topic : Topic) (partition : ℕ)

/-- The outbox, the pump, and its frames, each with the event that it is made from. -/
structure StreamState (W : Type) where
  outbox : OutboxState W
  consumer : LogConsumer (OutboxEvent Event) (Topic × ℕ)
  hub : ZoneHub
  frames : List (OutboxEvent Event × MarketFrame)

namespace StreamState

variable {W : Type} [DecidableEq W] (partitioner : Topic → PartitionKey → ℕ)

def start : StreamState W := ⟨.start, .start, ⟨fun _ => 0⟩, []⟩

def pumpTopics : List Topic := [.ordersCreated, .ordersMatched, .ordersUpdated, .settlements]

def receive (s : StreamState W) (e : OutboxEvent Event) (consumer : LogConsumer (OutboxEvent Event) (Topic × ℕ)) :
    StreamState W :=
  let published := s.hub.publish e.payload
  { s with
    consumer := consumer
    hub := published.1
    frames := s.frames ++ published.2.toList.map fun frame => (e, frame) }

def step (s : StreamState W) : StreamAction W → Option (StreamState W)
  | .outbox a => (s.outbox.step a).map fun outbox => { s with outbox := outbox }
  | .poll topic partition =>
    if topic ∈ pumpTopics then
      (LogConsumer.poll (partitionOf partitioner) s.outbox.bus s.consumer (topic, partition)).map
        fun received => s.receive received.1 received.2
    else none

/-- For any two events of one zone whose transactions committed one after the other, the
stream has a frame of the second only after one of the first, and none of the first after it. -/
def InCommitOrder (s : StreamState W) : Prop :=
  ∀ first second, OutboxState.Follows OutboxEvent.sameZone s.outbox.commits first second →
    ∀ f ∈ s.frames, f.1 = second →
      (∃ g ∈ s.frames, g.1 = first) ∧ ∀ g ∈ s.frames, g.1 = first → g.2.seq < f.2.seq

/-- An event that is committed goes to the topic of each earlier one of its zone, if that has
not been streamed, and so does an event that follows one that is published again. -/
def KeepsTopic (s : StreamState W) : OutboxAction W → Prop
  | .commit events startedAt =>
    ∀ row ∈ OutboxEvent.ofTransaction events startedAt, ∀ earlier ∈ s.outbox.inserted,
      earlier.sameZone row →
        LogConsumer.HasRead (partitionOf partitioner) s.outbox.bus s.consumer earlier ∨
          earlier.topic = row.topic
  | .worker w (.publish _) =>
    ∀ event ∈ (s.outbox.phase w).nextEvent, event ∈ s.outbox.bus →
      ∀ later ∈ s.outbox.inserted,
        OutboxState.Follows OutboxEvent.sameZone s.outbox.commits event later → event.topic = later.topic
  | _ => True

instance (s : StreamState W) (a : OutboxAction W) : Decidable (s.KeepsTopic partitioner a) :=
  match a with
  | .commit events startedAt =>
    inferInstanceAs (Decidable (∀ row ∈ OutboxEvent.ofTransaction events startedAt,
      ∀ earlier ∈ s.outbox.inserted, earlier.sameZone row →
        LogConsumer.HasRead (partitionOf partitioner) s.outbox.bus s.consumer earlier ∨
          earlier.topic = row.topic))
  | .cleanupProcessed _ => instDecidableTrue
  | .worker _ (.getPendingEvents _) => instDecidableTrue
  | .worker w (.publish _) =>
    inferInstanceAs (Decidable (∀ event ∈ (s.outbox.phase w).nextEvent, event ∈ s.outbox.bus →
      ∀ later ∈ s.outbox.inserted,
        OutboxState.Follows OutboxEvent.sameZone s.outbox.commits event later → event.topic = later.topic))
  | .worker _ (.mark _) => instDecidableTrue
  | .worker _ .giveUp => instDecidableTrue

structure KeepsOrder (s : StreamState W) (a : OutboxAction W) : Prop where
  succeeds : OutboxState.PublishSucceeds a
  bus : s.outbox.KeepsBusOrder OutboxEvent.sameZone a
  topic : s.KeepsTopic partitioner a

instance (s : StreamState W) (a : OutboxAction W) : Decidable (s.KeepsOrder partitioner a) :=
  decidable_of_iff
    (OutboxState.PublishSucceeds a ∧ s.outbox.KeepsBusOrder OutboxEvent.sameZone a ∧
      s.KeepsTopic partitioner a)
    ⟨fun h => ⟨h.1, h.2.1, h.2.2⟩, fun h => ⟨h.1, h.2, h.3⟩⟩

/-- What the pump does is not restricted. -/
def StepKeepsOrder (s : StreamState W) : StreamAction W → Prop
  | .outbox a => s.KeepsOrder partitioner a
  | .poll _ _ => True

instance (s : StreamState W) (a : StreamAction W) : Decidable (s.StepKeepsOrder partitioner a) :=
  match a with
  | .outbox a => inferInstanceAs (Decidable (s.KeepsOrder partitioner a))
  | .poll _ _ => instDecidableTrue

section Frames

structure Numbered (s : StreamState W) : Prop where
  sources : s.frames.map (·.1) = s.consumer.polled.filter (·.zone.isSome)
  zone : ∀ f ∈ s.frames, f.1.zone = some f.2.zoneId
  seq_le : ∀ f ∈ s.frames, f.2.seq ≤ s.hub.seq f.2.zoneId
  increasing : s.frames.Pairwise fun f g => f.2.zoneId = g.2.zoneId → f.2.seq < g.2.seq

variable {s : StreamState W} {e : OutboxEvent Event}

omit [DecidableEq W] in
theorem numbered_receive (h : s.Numbered) {consumer : LogConsumer (OutboxEvent Event) (Topic × ℕ)}
    (hpolled : consumer.polled = s.consumer.polled ++ [e]) : (s.receive e consumer).Numbered := by
  cases hroutable : routable e.payload with
  | none =>
    have hzone : e.zone = none := by simp [OutboxEvent.zone, hroutable]
    have hreceive : s.receive e consumer = { s with consumer := consumer } := by
      simp [receive, ZoneHub.publish, hroutable]
    rw [hreceive]
    refine ⟨?_, h.zone, h.seq_le, h.increasing⟩
    change s.frames.map (·.1) = consumer.polled.filter _
    rw [hpolled, List.filter_append, h.sources]
    simp [hzone]
  | some routed =>
    obtain ⟨z, kind⟩ := routed
    have hzone : e.zone = some z := by simp [OutboxEvent.zone, hroutable]
    let seq := s.hub.seq z + 1
    have hreceive : s.receive e consumer =
        { s with
          consumer := consumer
          hub := ⟨Function.update s.hub.seq z seq⟩
          frames := s.frames ++ [(e, { kind := kind, seq := seq, zoneId := z, data := e.payload })] } := by
      simp [receive, ZoneHub.publish, hroutable, seq]
    rw [hreceive]
    refine ⟨?_, ?_, ?_, ?_⟩
    · simp only [List.map_append, List.map_singleton, hpolled, List.filter_append, h.sources]
      simp [hzone]
    · intro f hf
      rcases List.mem_append.mp hf with hf | hf
      · exact h.zone f hf
      · obtain rfl := List.mem_singleton.mp hf
        exact hzone
    · intro f hf
      dsimp only
      rcases List.mem_append.mp hf with hf | hf
      · have hle := h.seq_le f hf
        by_cases hsame : f.2.zoneId = z
        · rw [hsame] at hle ⊢
          rw [Function.update_self]
          omega
        · rwa [Function.update_of_ne hsame]
      · obtain rfl := List.mem_singleton.mp hf
        exact (Function.update_self z seq s.hub.seq).ge
    · refine List.pairwise_append.mpr ⟨h.increasing, List.pairwise_singleton _ _, fun f hf g hg hsame => ?_⟩
      obtain rfl := List.mem_singleton.mp hg
      have hle := h.seq_le f hf
      rw [hsame] at hle
      exact Nat.lt_succ_of_le hle

end Frames

section Order

structure StreamInOrder (s : StreamState W) : Prop where
  outbox : s.outbox.BusInOrder OutboxEvent.sameZone
  consistent : LogConsumer.Consistent (partitionOf partitioner) s.outbox.bus s.consumer
  routed : ∀ first second,
    OutboxState.Follows OutboxEvent.sameZone s.outbox.commits first second →
      LogConsumer.HasRead (partitionOf partitioner) s.outbox.bus s.consumer first ∨
        first.topic = second.topic
  polled : ∀ first second,
    OutboxState.Follows OutboxEvent.sameZone s.outbox.commits first second →
      ¬ s.consumer.polled.Precedes second first
  numbered : s.Numbered

variable {partitioner} {s s' : StreamState W}

omit [DecidableEq W] in
theorem streamInOrder_start : (start : StreamState W).StreamInOrder partitioner where
  outbox := OutboxState.busInOrder_start
  consistent := LogConsumer.consistent_start _
  routed _ _ h := absurd h.precedes.mem_left List.not_mem_nil
  polled _ _ h := absurd h.precedes.mem_left List.not_mem_nil
  numbered := ⟨rfl, by simp [start], by simp [start], List.Pairwise.nil⟩

omit [DecidableEq W] in
/-- A step of the outbox that publishes nothing and commits nothing. -/
theorem StreamInOrder.of_same (h : s.StreamInOrder partitioner) {outbox : OutboxState W}
    (houtbox : outbox.BusInOrder OutboxEvent.sameZone) (hbus : outbox.bus = s.outbox.bus)
    (hcommits : outbox.commits = s.outbox.commits) :
    ({ s with outbox := outbox } : StreamState W).StreamInOrder partitioner where
  outbox := houtbox
  consistent := by simpa only [hbus] using h.consistent
  routed := by simpa only [hbus, hcommits] using h.routed
  polled := by simpa only [hcommits] using h.polled
  numbered := ⟨h.numbered.sources, h.numbered.zone, h.numbered.seq_le, h.numbered.increasing⟩

theorem streamInOrder_outbox {a : OutboxAction W} {outbox : OutboxState W}
    (h : s.StreamInOrder partitioner) (hkeeps : s.KeepsOrder partitioner a)
    (hstep : s.outbox.step a = some outbox) :
    ({ s with outbox := outbox } : StreamState W).StreamInOrder partitioner := by
  have houtbox := OutboxState.busInOrder_step h.outbox hkeeps.succeeds hkeeps.bus hstep
  cases a with
  | commit events startedAt =>
    obtain ⟨hnew, table, _, rfl⟩ := OutboxState.commit_eq_some hstep
    refine ⟨houtbox, h.consistent, ?_, ?_, ⟨h.numbered.sources, h.numbered.zone, h.numbered.seq_le,
      h.numbered.increasing⟩⟩
    · intro first second hfollows
      rcases OutboxState.follows_concat.mp hfollows with hold | ⟨hfirst, hsecond, hzone⟩
      · exact h.routed first second hold
      · exact hkeeps.topic second hsecond first hfirst hzone
    · intro first second hfollows
      rcases OutboxState.follows_concat.mp hfollows with hold | ⟨_, hsecond, _⟩
      · exact h.polled first second hold
      · intro hprec
        have hmem := h.outbox.bus second (h.consistent.mem_log hprec.mem_left)
        exact hnew second hsecond (List.mem_map_of_mem hmem)
  | cleanupProcessed before =>
    obtain rfl := Option.some.inj hstep
    exact h.of_same houtbox rfl rfl
  | worker w a =>
    cases OutboxState.works_of_work hstep with
    | read | processed | failed | undelivered | gaveUp => exact h.of_same houtbox rfl rfl
    | unacknowledged => cases hkeeps.succeeds
    | @acknowledged event todo hphase =>
      refine ⟨houtbox, h.consistent.append event, ?_, h.polled, ⟨h.numbered.sources, h.numbered.zone,
        h.numbered.seq_le, h.numbered.increasing⟩⟩
      intro first second hfollows
      refine (h.routed first second hfollows).elim (fun hread => ?_) .inr
      by_cases hfirst : event = first
      · subst hfirst
        have hnext : event ∈ (s.outbox.phase w).nextEvent := by rw [hphase]; rfl
        exact .inr (hkeeps.topic event hnext hread.1 second hfollows.precedes.mem_right hfollows)
      · exact .inl (hread.append h.consistent hfirst)

omit [DecidableEq W] in
theorem streamInOrder_poll {k : Topic × ℕ} {e : OutboxEvent Event}
    {consumer : LogConsumer (OutboxEvent Event) (Topic × ℕ)} (h : s.StreamInOrder partitioner)
    (hpoll : LogConsumer.poll (partitionOf partitioner) s.outbox.bus s.consumer k = some (e, consumer)) :
    (s.receive e consumer).StreamInOrder partitioner := by
  have hconsistent := h.consistent.poll hpoll
  have hpolled : consumer.polled = s.consumer.polled ++ [e] := by
    rw [(LogConsumer.poll_eq_some hpoll).2.2.2]
  refine ⟨h.outbox, hconsistent, ?_, ?_, numbered_receive h.numbered hpolled⟩
  · exact fun first second hfollows => (h.routed first second hfollows).imp_left fun hread => hread.poll hpoll
  · intro first second hfollows hprec
    rcases h.routed first second hfollows with hread | htopic
    · -- What had been read before the second was committed does not come again.
      change consumer.polled.Precedes second first at hprec
      rw [hpolled, List.precedes_concat] at hprec
      rcases hprec with hprec | ⟨_, hlast⟩
      · exact h.polled first second hfollows hprec
      · exact hread.ne_of_poll hpoll hlast.symm
    · have hpart : partitionOf partitioner first = partitionOf partitioner second :=
        partitionOf_eq hfollows.concerns htopic
      exact h.outbox.ordered first second hfollows (hconsistent.precedes_log hpart.symm hprec)

theorem streamInOrder_step {a : StreamAction W} (h : s.StreamInOrder partitioner)
    (hkeeps : s.StepKeepsOrder partitioner a) (hstep : s.step partitioner a = some s') :
    s'.StreamInOrder partitioner := by
  cases a with
  | outbox a =>
    obtain ⟨outbox, houtbox, rfl⟩ := Option.map_eq_some_iff.mp hstep
    exact streamInOrder_outbox h hkeeps houtbox
  | poll topic partition =>
    unfold step at hstep
    dsimp only at hstep
    split_ifs at hstep
    obtain ⟨received, hpoll, rfl⟩ := Option.map_eq_some_iff.mp hstep
    exact streamInOrder_poll h hpoll

omit [DecidableEq W] in
theorem StreamInOrder.inCommitOrder (h : s.StreamInOrder partitioner) : s.InCommitOrder := by
  intro first second hfollows f hf hsecond
  obtain ⟨hsome, hsame⟩ : first.zone.isSome ∧ first.zone = second.zone := by
    simpa [OutboxEvent.sameZone] using hfollows.concerns
  have hframe : ∀ e, e ∈ s.frames.map (·.1) ↔ e ∈ s.consumer.polled ∧ e.zone.isSome := by
    intro e
    rw [h.numbered.sources]
    simp
  have hpolled : second ∈ s.consumer.polled :=
    ((hframe second).mp (hsecond ▸ List.mem_map_of_mem hf)).1
  have hfirst : first ∈ s.consumer.polled := by
    rcases h.routed first second hfollows with hread | htopic
    · exact h.consistent.mem_polled_of_hasRead hread
    · have hbus := h.outbox.published first second hfollows (h.consistent.mem_log hpolled)
      exact h.consistent.mem_polled (partitionOf_eq hfollows.concerns htopic) hbus hpolled
        (h.outbox.ordered first second hfollows)
  refine ⟨?_, fun g hg hg1 => ?_⟩
  · obtain ⟨g, hg, hg1⟩ := List.mem_map.mp ((hframe first).mpr ⟨hfirst, hsome⟩)
    exact ⟨g, hg, hg1⟩
  · have hne : first ≠ second := by
      rintro rfl
      exact (List.Nodup.of_map _ h.outbox.ids).not_precedes_self hfollows.precedes
    have hgf : g ≠ f := fun heq => hne (by rw [← hg1, heq, hsecond])
    have hzone : g.2.zoneId = f.2.zoneId := by
      have hgz := h.numbered.zone g hg
      rw [hg1, hsame, ← hsecond, h.numbered.zone f hf] at hgz
      exact (Option.some.inj hgz).symm
    rcases List.precedes_or_precedes hg hf hgf with hprec | hprec
    · exact h.numbered.increasing.of_precedes hprec hzone
    · have hback := hprec.map (·.1)
      rw [h.numbered.sources, hsecond, hg1] at hback
      exact absurd (hback.sublist List.filter_sublist) (h.polled first second hfollows)

/-- In every interleaving of commits, of the batches of any number of workers and of the polls
of the pump, in which every publish succeeds and every step keeps the order, the stream is in
the order of the commits. -/
theorem stream_in_commit_order (as : List (StreamAction W))
    (has : Runs.AllSteps (step partitioner) (StepKeepsOrder partitioner) (start : StreamState W) as) :
    Runs.AllStates (step partitioner) InCommitOrder (start : StreamState W) as := by
  have horder : Runs.AllStates (step partitioner) (StreamInOrder partitioner) (start : StreamState W) as :=
    Runs.AllStates.of_allSteps (fun _ _ _ hs ha hstep => streamInOrder_step hs ha hstep)
      streamInOrder_start has
  exact horder.mono fun _ hs => hs.inCommitOrder

end Order

def createdEvents : List (Uuid × Event) := [(1, .orderCreated 7 7 .buy .pending (.number 3))]

def tradeEvents : List (Uuid × Event) :=
  [(2, .orderMatched 9 7 8 1 5 (.number 3)), (3, .orderUpdate 7 (some 7) 1 .filled (.number 3)),
    (4, .orderUpdate 8 (some 8) 1 .filled (.number 3))]

def relayed (rows : List (OutboxEvent Event)) : List (StreamAction Unit) :=
  .outbox (.worker () (.getPendingEvents rows)) :: rows.flatMap fun _ =>
    [.outbox (.worker () (.publish .acknowledged)), .outbox (.worker () (.mark 30))]

def tradeAfterOrder : List (StreamAction Unit) :=
  .outbox (.commit createdEvents 10) :: relayed (OutboxEvent.ofTransaction createdEvents 10) ++
    [.poll .ordersCreated 0, .outbox (.commit tradeEvents 20)] ++
    relayed (OutboxEvent.ofTransaction tradeEvents 20) ++
    [.poll .ordersUpdated 0, .poll .ordersMatched 0, .poll .ordersUpdated 0]

theorem stream_in_commit_order_trade_after_order :
    Runs.AllStates (step fun _ _ => 0) InCommitOrder start tradeAfterOrder :=
  stream_in_commit_order tradeAfterOrder (by decide +kernel)

def tradeBeforeOrder : List (StreamAction Unit) :=
  [.outbox (.commit createdEvents 10), .outbox (.commit tradeEvents 20)] ++
    relayed (OutboxEvent.ofTransaction createdEvents 10 ++ OutboxEvent.ofTransaction tradeEvents 20) ++
    [.poll .ordersMatched 0]

theorem match_streams_before_order :
    ¬ Runs.AllStates (step fun _ _ => 0) InCommitOrder start tradeBeforeOrder := by
  intro h
  obtain ⟨s, hrun, ⟨first, _, second, _, hfollows, hframe, hmissing⟩⟩ :
      ∃ s ∈ tradeBeforeOrder.foldlM (step fun _ _ => 0) start,
        ∃ first ∈ s.outbox.inserted, ∃ second ∈ s.outbox.inserted,
          OutboxState.Follows OutboxEvent.sameZone s.outbox.commits first second ∧
            (∃ f ∈ s.frames, f.1 = second) ∧ ¬ ∃ g ∈ s.frames, g.1 = first := by
    decide +kernel
  obtain ⟨f, hf, hsecond⟩ := hframe
  exact hmissing ((h.last hrun) first second hfollows f hf hsecond).1

end StreamState

end TradingService
