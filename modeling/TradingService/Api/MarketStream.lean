import TradingService.Api.MarketGateway

/-!
# The streams of the sockets

A socket has the rest of the log of its channel before it. What of a zone is left there is
always numbered in a row, up to what the pump sends next. As long as the socket has not
missed any of it, that row begins right after the last frame that was forwarded, or not
later than right after the number at the subscription.
-/

namespace TradingService

theorem exists_Ico_of_suffix {skipped rest : List ℕ} {m n : ℕ} (hmn : m ≤ n)
    (h : skipped ++ rest = List.Ico m n) : ∃ m', m ≤ m' ∧ m' ≤ n ∧ rest = List.Ico m' n := by
  induction skipped generalizing m with
  | nil => exact ⟨m, le_rfl, hmn, h⟩
  | cons x skipped ih =>
    have hlt : m < n := by
      by_contra hge
      rw [List.Ico.eq_nil_of_le (not_lt.mp hge)] at h
      cases h
    rw [List.Ico.eq_cons hlt, List.cons_append, List.cons.injEq] at h
    obtain ⟨m', hle, hle', hrest⟩ := ih hlt h.2
    exact ⟨m', (Nat.le_succ m).trans hle, hle', hrest⟩

namespace Socket

variable {k k' : Socket} {z : I32} {m n : ℕ} {o : Outbound}

/-- If nothing was missed, the next frame of the zone is to have number `m`. -/
structure Expects (sent : List Outbound) (joinedAtSeq : Option ℕ) (z : I32) (m : ℕ) : Prop where
  follows : ∀ between last earlier n, sent = between ++ last :: earlier → last.seqOf z = some n →
    (∀ o ∈ between, o.seqOf z = none ∧ ¬o.IsResync) → m = n + 1
  joins : (∀ o ∈ sent, o.seqOf z = none ∧ ¬o.IsResync) → ∀ seq ∈ joinedAtSeq, m ≤ seq + 1

variable {sent : List Outbound} {joinedAtSeq : Option ℕ}

theorem expects_nil (z : I32) (h : ∀ seq ∈ joinedAtSeq, m ≤ seq + 1) : Expects [] joinedAtSeq z m where
  follows between last earlier n h := by simp at h
  joins _ := h

theorem expects_resync {zoneId : Option I32} {seq : Option ℕ} (z : I32) (m : ℕ) :
    Expects (.resync zoneId seq :: sent) joinedAtSeq z m where
  follows between last earlier n h hlast hquiet := by
    rcases List.cons_eq_append_iff.mp h with ⟨rfl, hcons⟩ | ⟨between', rfl, _⟩
    · obtain ⟨rfl, _⟩ := List.cons.inj hcons
      cases hlast
    · exact absurd True.intro (hquiet _ List.mem_cons_self).2
  joins hquiet := absurd True.intro (hquiet _ List.mem_cons_self).2

theorem Expects.cons_other (h : Expects sent joinedAtSeq z m) (ho : o.seqOf z = none) :
    Expects (o :: sent) joinedAtSeq z m where
  follows between last earlier n hsent hlast hquiet := by
    rcases List.cons_eq_append_iff.mp hsent with ⟨rfl, hcons⟩ | ⟨between', rfl, hrest⟩
    · obtain ⟨rfl, _⟩ := List.cons.inj hcons
      rw [ho] at hlast
      cases hlast
    · exact h.follows between' last earlier n hrest hlast fun o' ho' => hquiet o' (List.mem_cons_of_mem _ ho')
  joins hquiet := h.joins fun o' ho' => hquiet o' (List.mem_cons_of_mem _ ho')

theorem expects_cons_self (ho : o.seqOf z = some m) : Expects (o :: sent) joinedAtSeq z (m + 1) where
  follows between last earlier n hsent hlast hquiet := by
    rcases List.cons_eq_append_iff.mp hsent with ⟨rfl, hcons⟩ | ⟨between', rfl, _⟩
    · obtain ⟨rfl, _⟩ := List.cons.inj hcons
      rw [ho] at hlast
      rw [Option.some.inj hlast]
    · rw [(hquiet o List.mem_cons_self).1] at ho
      cases ho
  joins hquiet := by
    rw [(hquiet o List.mem_cons_self).1] at ho
    cases ho

/-- What a client can rely on, for one zone. -/
structure NoSilentGap (k : Socket) (z : I32) : Prop where
  contiguous : k.Contiguous z
  joins : k.JoinsAtSeqOrResyncs z

theorem noSilentGap_of_nil (h : k.sent = []) : k.NoSilentGap z := by
  refine ⟨⟨by simp [h], ?_⟩, ?_⟩
  · intro later next between last earlier m n hsent
    simp [h] at hsent
  · intro later first earlier n hsent
    simp [h] at hsent

theorem NoSilentGap.congr (h : k.NoSilentGap z) (hsent : k'.sent = k.sent)
    (hjoined : k'.joinedAtSeq = k.joinedAtSeq) : k'.NoSilentGap z := by
  obtain ⟨⟨hincreasing, hsuccessor⟩, hjoins⟩ := h
  refine ⟨⟨hsent ▸ hincreasing, hsent ▸ hsuccessor⟩, ?_⟩
  rw [JoinsAtSeqOrResyncs, hsent, hjoined]
  exact hjoins

theorem NoSilentGap.cons_other (h : k.NoSilentGap z) (hk' : k'.sent = o :: k.sent)
    (hjoined : k'.joinedAtSeq = k.joinedAtSeq) (ho : o.seqOf z = none) : k'.NoSilentGap z := by
  refine ⟨⟨?_, ?_⟩, ?_⟩
  · rw [hk', List.filterMap_cons_none ho]
    exact h.contiguous.increasing
  · intro later next between last earlier m n hsent hlast hnext hquiet
    rcases List.cons_eq_append_iff.mp (hk'.symm.trans hsent) with ⟨rfl, hcons⟩ | ⟨later', rfl, hrest⟩
    · obtain ⟨rfl, _⟩ := List.cons.inj hcons
      rw [ho] at hnext
      cases hnext
    · exact h.contiguous.successor later' next between last earlier m n hrest hlast hnext hquiet
  · intro later first earlier n hsent hfirst hnone hquiet
    rcases List.cons_eq_append_iff.mp (hk'.symm.trans hsent) with ⟨rfl, hcons⟩ | ⟨later', rfl, hrest⟩
    · obtain ⟨rfl, _⟩ := List.cons.inj hcons
      rw [ho] at hfirst
      cases hfirst
    · rw [hjoined]
      exact h.joins later' first earlier n hrest hfirst hnone hquiet

theorem NoSilentGap.cons_self (h : k.NoSilentGap z) (hk' : k'.sent = o :: k.sent)
    (hjoined : k'.joinedAtSeq = k.joinedAtSeq) (ho : o.seqOf z = some m)
    (hbelow : ∀ n ∈ k.sent.filterMap (·.seqOf z), n < m) (hexpects : Expects k.sent k.joinedAtSeq z m) :
    k'.NoSilentGap z := by
  refine ⟨⟨?_, ?_⟩, ?_⟩
  · rw [hk', List.filterMap_cons_some ho]
    exact List.pairwise_cons.mpr ⟨hbelow, h.contiguous.increasing⟩
  · intro later next between last earlier m' n hsent hlast hnext hquiet
    rcases List.cons_eq_append_iff.mp (hk'.symm.trans hsent) with ⟨rfl, hcons⟩ | ⟨later', rfl, hrest⟩
    · obtain ⟨rfl, hrest⟩ := List.cons.inj hcons
      rw [ho] at hnext
      rw [← Option.some.inj hnext]
      exact hexpects.follows between last earlier m' hrest.symm hlast hquiet
    · exact h.contiguous.successor later' next between last earlier m' n hrest hlast hnext hquiet
  · intro later first earlier n hsent hfirst hnone hquiet
    rw [hjoined]
    rcases List.cons_eq_append_iff.mp (hk'.symm.trans hsent) with ⟨rfl, hcons⟩ | ⟨later', rfl, hrest⟩
    · obtain ⟨rfl, rfl⟩ := List.cons.inj hcons
      rw [ho] at hfirst
      rw [← Option.some.inj hfirst]
      exact hexpects.joins fun o' ho' => ⟨hnone o' ho', hquiet o' ho'⟩
    · exact h.joins later' first earlier n hrest hfirst hnone hquiet

end Socket

def PumpPhase.unsent (c : Channel) : PumpPhase → Option MarketFrame
  | .idle => none
  | .stamped frame => some frame
  | .sentToZone frame => if c = none then some frame else none

def Channel.Carries (c : Channel) (z : I32) : Prop := ∀ z' ∈ c, z' = z

def numbersAhead (log : List MarketFrame) (z : I32) (position : ℕ) : List ℕ :=
  (log.drop position).filterMap fun f => (Outbound.frame f).seqOf z

theorem numbersAhead_concat {log : List MarketFrame} {position : ℕ} (hle : position ≤ log.length)
    (f : MarketFrame) (z : I32) :
    numbersAhead (log ++ [f]) z position =
      numbersAhead log z position ++ if f.zoneId = z then [f.seq] else [] := by
  unfold numbersAhead
  rw [List.drop_append_of_le_length hle, List.filterMap_append]
  by_cases hz : f.zoneId = z <;> simp [Outbound.seqOf, hz]

theorem numbersAhead_of_value {log : List MarketFrame} {f : MarketFrame} {position position' : ℕ}
    (h : log.drop position = f :: log.drop position') (z : I32) :
    numbersAhead log z position = ((Outbound.frame f).seqOf z).toList ++ numbersAhead log z position' := by
  unfold numbersAhead
  rw [h]
  cases hseq : (Outbound.frame f).seqOf z <;> simp [hseq]

theorem exists_skipped {position position' : ℕ} (hle : position ≤ position') (log : List MarketFrame)
    (z : I32) : ∃ skipped, skipped ++ numbersAhead log z position' = numbersAhead log z position := by
  refine ⟨((log.drop position).take (position' - position)).filterMap
    fun f => (Outbound.frame f).seqOf z, ?_⟩
  have hdrop : log.drop position' = (log.drop position).drop (position' - position) := by
    rw [List.drop_drop, Nat.add_sub_cancel' hle]
  rw [numbersAhead, hdrop, ← List.filterMap_append, List.take_append_drop, numbersAhead]

structure Socket.Reads (k : Socket) (log : List MarketFrame) (next : ℕ) (z : I32) (m : ℕ) : Prop where
  le : m ≤ next
  ahead : numbersAhead log z k.position = List.Ico m next
  below : ∀ n ∈ k.sent.filterMap (·.seqOf z), n < m
  expects : k.phase ≠ .lagging → Socket.Expects k.sent k.joinedAtSeq z m

structure Socket.OnTrack (k : Socket) (log : List MarketFrame) (next : I32 → ℕ) : Prop where
  position_le : k.position ≤ log.length
  joining : k.phase = .joining → k.sent = [] ∧ k.joinedAtSeq = none
  reads : ∀ z, Channel.Carries k.zoneId z → ∃ m, k.Reads log (next z) z m

namespace Socket

variable {k k' : Socket} {log : List MarketFrame} {next next' : I32 → ℕ} {z : I32} {m : ℕ}

theorem OnTrack.congr (h : k.OnTrack log next)
    (hnext : ∀ z, Channel.Carries k.zoneId z → next' z = next z) : k.OnTrack log next' where
  position_le := h.position_le
  joining := h.joining
  reads z hz := by
    rw [hnext z hz]
    exact h.reads z hz

theorem OnTrack.append (h : k.OnTrack log next) {f : MarketFrame}
    (hself : next f.zoneId = f.seq ∧ next' f.zoneId = f.seq + 1)
    (hother : ∀ z ≠ f.zoneId, next' z = next z) : k.OnTrack (log ++ [f]) next' where
  position_le := by
    rw [List.length_append]
    exact h.position_le.trans (Nat.le_add_right _ _)
  joining := h.joining
  reads z hz := by
    obtain ⟨m, hreads⟩ := h.reads z hz
    have hahead := numbersAhead_concat h.position_le f z
    by_cases hzone : f.zoneId = z
    · subst hzone
      have hle : m ≤ f.seq := hself.1 ▸ hreads.le
      rw [if_pos rfl, hreads.ahead, hself.1, ← List.Ico.succ_top hle, ← hself.2] at hahead
      exact ⟨m, hself.2 ▸ hle.trans (Nat.le_succ _), hahead, hreads.below, hreads.expects⟩
    · rw [if_neg hzone, List.append_nil, hreads.ahead, ← hother z (Ne.symm hzone)] at hahead
      exact ⟨m, hother z (Ne.symm hzone) ▸ hreads.le, hahead, hreads.below, hreads.expects⟩

theorem Reads.forward (h : k.Reads log n z m) {f : MarketFrame} {position : ℕ}
    (hdrop : log.drop k.position = f :: log.drop position) (hlive : k.phase ≠ .lagging) :
    ∃ m', Reads { k with position := position, sent := .frame f :: k.sent } log n z m' ∧
      ((Outbound.frame f).seqOf z = none ∨ (Outbound.frame f).seqOf z = some m) := by
  have hahead := (numbersAhead_of_value hdrop z).symm.trans h.ahead
  cases hseq : (Outbound.frame f).seqOf z with
  | none =>
    rw [hseq, Option.toList_none, List.nil_append] at hahead
    refine ⟨m, ⟨h.le, hahead, ?_, fun _ => (h.expects hlive).cons_other hseq⟩, .inl rfl⟩
    rw [List.filterMap_cons_none hseq]
    exact h.below
  | some seq =>
    rw [hseq, Option.toList_some, List.singleton_append] at hahead
    have hlt : m < n := by
      by_contra hge
      rw [List.Ico.eq_nil_of_le (not_lt.mp hge)] at hahead
      cases hahead
    rw [List.Ico.eq_cons hlt, List.cons.injEq] at hahead
    obtain ⟨rfl, hrest⟩ := hahead
    refine ⟨seq + 1, ⟨hlt, hrest, ?_, fun _ => expects_cons_self hseq⟩, .inr rfl⟩
    rw [List.filterMap_cons_some hseq]
    exact List.forall_mem_cons.mpr ⟨Nat.lt_succ_self _, fun x hx => (h.below x hx).trans (Nat.lt_succ_self _)⟩

/-- A part of the row is skipped, and nothing is expected until the resync is sent. -/
theorem Reads.skip (h : k.Reads log n z m) {position : ℕ} (hle : k.position ≤ position) :
    ∃ m', Reads { k with position := position, phase := .lagging } log n z m' := by
  obtain ⟨skipped, hskipped⟩ := exists_skipped hle log z
  obtain ⟨m', hm, hn, hahead⟩ := exists_Ico_of_suffix h.le (hskipped.trans h.ahead)
  exact ⟨m', hn, hahead, fun x hx => (h.below x hx).trans_le hm, fun hne => absurd rfl hne⟩

theorem OnTrack.skip (h : k.OnTrack log next) {position : ℕ} (hle : k.position ≤ position)
    (hlength : position ≤ log.length) :
    OnTrack { k with position := position, phase := .lagging } log next where
  position_le := hlength
  joining hphase := by cases hphase
  reads z hz := by
    obtain ⟨m, hreads⟩ := h.reads z hz
    exact hreads.skip hle

theorem OnTrack.resync (h : k.OnTrack log next) (seq : Option ℕ) :
    OnTrack { k with phase := .live, sent := .resync k.zoneId seq :: k.sent } log next where
  position_le := h.position_le
  joining hphase := by cases hphase
  reads z hz := by
    obtain ⟨m, hreads⟩ := h.reads z hz
    exact ⟨m, hreads.le, hreads.ahead, hreads.below, fun _ => expects_resync z m⟩

/-- The row begins with the number that is stamped next, or with the one that is stamped
and not sent. -/
theorem OnTrack.join (h : k.OnTrack log next) (hjoining : k.phase = .joining) {seq : ℕ}
    (hseq : ∀ z, Channel.Carries k.zoneId z → next z ≤ seq + 1) :
    OnTrack { k with phase := .live, joinedAtSeq := some seq } log next where
  position_le := h.position_le
  joining hphase := by cases hphase
  reads z hz := by
    obtain ⟨m, hreads⟩ := h.reads z hz
    refine ⟨m, hreads.le, hreads.ahead, hreads.below, fun _ => ?_⟩
    rw [(h.joining hjoining).1]
    refine expects_nil z fun seq' hseq' => ?_
    rw [← Option.some.inj hseq']
    exact hreads.le.trans (hseq z hz)

end Socket

namespace MarketGateway

def nextSeq (s : MarketGateway) (c : Channel) (z : I32) : ℕ :=
  if (s.pump.unsent c).any (·.zoneId = z) then s.hub.seq z else s.hub.seq z + 1

theorem nextSeq_le (s : MarketGateway) (c : Channel) (z : I32) : s.nextSeq c z ≤ s.hub.seq z + 1 := by
  unfold nextSeq
  split_ifs
  · exact Nat.le_succ _
  · exact le_rfl

/-- The rings hold the ends of these logs, and every socket is on its track. -/
structure InStep (s : MarketGateway) (log : Channel → List MarketFrame) : Prop where
  holds : ∀ c, (s.rings c).Holds (log c)
  zoned : ∀ c, ∀ f ∈ log c, Channel.Carries c f.zoneId
  stamped : ∀ c, ∀ f ∈ s.pump.unsent c, f.seq = s.hub.seq f.zoneId
  noSilentGap : ∀ k ∈ s.sockets, ∀ z, k.NoSilentGap z
  onTrack : ∀ k ∈ s.sockets, k.phase ≠ .closed → k.OnTrack (log k.zoneId) (s.nextSeq k.zoneId)

variable {s s' : MarketGateway} {log : Channel → List MarketFrame}

theorem inStep_start : InStep start fun _ => [] where
  holds _ := BroadcastRing.holds_new
  zoned _ _ h := absurd h List.not_mem_nil
  stamped _ _ h := absurd h (Option.not_mem_none _)
  noSilentGap _ h := absurd h List.not_mem_nil
  onTrack _ h := absurd h List.not_mem_nil

theorem publish_eq_some {hub hub' : ZoneHub} {event : Event} {f : MarketFrame}
    (h : hub.publish event = (hub', some f)) :
    f.seq = hub.seq f.zoneId + 1 ∧ hub'.seq = Function.update hub.seq f.zoneId f.seq := by
  unfold ZoneHub.publish at h
  split at h
  · cases (Prod.mk.inj h).2
  · obtain ⟨rfl, hframe⟩ := Prod.mk.inj h
    obtain rfl := Option.some.inj hframe
    exact ⟨rfl, rfl⟩

/-- The stamp is taken before anything is sent, so no channel has another next number. -/
theorem InStep.stamp (h : s.InStep log) (hidle : s.pump = .idle) {event : Event} {hub : ZoneHub}
    {f : MarketFrame} (hpublish : s.hub.publish event = (hub, some f)) :
    InStep { s with hub := hub, pump := .stamped f } log := by
  obtain ⟨hseq, hhub⟩ := publish_eq_some hpublish
  have hnext : ∀ c z, nextSeq { s with hub := hub, pump := .stamped f } c z = s.nextSeq c z := by
    intro c z
    unfold nextSeq
    rw [hidle, hhub]
    by_cases hz : f.zoneId = z
    · subst hz
      simp [PumpPhase.unsent, hseq]
    · simp [PumpPhase.unsent, hz, Function.update_of_ne (Ne.symm hz)]
  refine ⟨h.holds, h.zoned, ?_, h.noSilentGap, fun k hk hopen => (h.onTrack k hk hopen).congr fun z _ => hnext _ z⟩
  rintro c _ ⟨⟩
  rw [hhub, Function.update_self]

theorem InStep.send (h : s.InStep log) {c : Channel} {f : MarketFrame} {pump : PumpPhase}
    (hcarries : Channel.Carries c f.zoneId) (hunsent : s.pump.unsent c = some f) (hsent : pump.unsent c = none)
    (hstamped : ∀ c, ∀ f' ∈ pump.unsent c, f' ∈ s.pump.unsent c)
    (hother : ∀ c' ≠ c, ∀ z, Channel.Carries c' z →
      nextSeq { s with pump := pump } c' z = s.nextSeq c' z) :
    ∃ log', InStep { s with rings := s.send c f, pump := pump } log' := by
  have hseq := h.stamped c f hunsent
  by_cases hwatched : s.Watched c
  · refine ⟨Function.update log c (log c ++ [f]), fun c' => ?_, fun c' f' hf' => ?_,
      fun c' f' hf' => h.stamped c' f' (hstamped c' f' hf'), h.noSilentGap, fun k hk hopen => ?_⟩
    · change (s.send c f c').Holds (Function.update log c (log c ++ [f]) c')
      rw [MarketGateway.send, if_pos hwatched]
      by_cases hc : c' = c
      · subst hc
        rw [Function.update_self, Function.update_self]
        exact (h.holds c').send f
      · rw [Function.update_of_ne hc, Function.update_of_ne hc]
        exact h.holds c'
    · by_cases hc : c' = c
      · subst hc
        rw [Function.update_self] at hf'
        rcases List.mem_append.mp hf' with hf' | hf'
        · exact h.zoned c' f' hf'
        · exact List.mem_singleton.mp hf' ▸ hcarries
      · rw [Function.update_of_ne hc] at hf'
        exact h.zoned c' f' hf'
    · by_cases hc : k.zoneId = c
      · subst hc
        rw [Function.update_self]
        refine (h.onTrack k hk hopen).append ⟨?_, ?_⟩ fun z hz => ?_
        · simp [nextSeq, hunsent, hseq]
        · simp [nextSeq, hsent, hseq]
        · simp [nextSeq, hunsent, hsent, Ne.symm hz]
      · rw [Function.update_of_ne hc]
        exact (h.onTrack k hk hopen).congr (hother _ hc)
  · refine ⟨log, fun c' => ?_, h.zoned, fun c' f' hf' => h.stamped c' f' (hstamped c' f' hf'),
      h.noSilentGap, fun k hk hopen => ?_⟩
    · change (s.send c f c').Holds (log c')
      rw [MarketGateway.send, if_neg hwatched]
      exact h.holds c'
    · have hc : k.zoneId ≠ c := fun hc => hwatched ⟨k, hk, hc, hopen⟩
      exact (h.onTrack k hk hopen).congr (hother _ hc)

theorem InStep.sendToZone (h : s.InStep log) {f : MarketFrame} (hpump : s.pump = .stamped f) :
    ∃ log', InStep { s with rings := s.send (some f.zoneId) f, pump := .sentToZone f } log' := by
  refine h.send (fun z hz => (Option.some.inj hz).symm) (by rw [hpump]; rfl) (by simp [PumpPhase.unsent])
    (fun c f' hf' => ?_) fun c' hc' z hz => ?_
  · rw [hpump]
    unfold PumpPhase.unsent at hf'
    split_ifs at hf' <;> simp_all [PumpPhase.unsent]
  · unfold nextSeq
    rw [hpump]
    cases c' with
    | none => rfl
    | some z' =>
      obtain rfl := hz z' rfl
      have hzone : f.zoneId ≠ z' := fun hzone => hc' (hzone ▸ rfl)
      simp [PumpPhase.unsent, hzone]

theorem InStep.sendToFirehose (h : s.InStep log) {f : MarketFrame} (hpump : s.pump = .sentToZone f) :
    ∃ log', InStep { s with rings := s.send none f, pump := .idle } log' := by
  refine h.send (fun _ hz => absurd hz (Option.not_mem_none _)) (by rw [hpump]; rfl) rfl
    (fun c f' hf' => absurd hf' (Option.not_mem_none _)) fun c' hc' z hz => ?_
  unfold nextSeq
  rw [hpump]
  simp [PumpPhase.unsent, hc']

theorem InStep.connect (h : s.InStep log) (zoneId : Channel) :
    InStep { s with sockets := s.sockets ++ [s.connect zoneId] } log where
  holds := h.holds
  zoned := h.zoned
  stamped := h.stamped
  noSilentGap k hk z := by
    rcases List.mem_append.mp hk with hk | hk
    · exact h.noSilentGap k hk z
    · obtain rfl := List.mem_singleton.mp hk
      exact Socket.noSilentGap_of_nil rfl
  onTrack k hk hopen := by
    rcases List.mem_append.mp hk with hk | hk
    · exact h.onTrack k hk hopen
    · obtain rfl := List.mem_singleton.mp hk
      have htail : (s.rings zoneId).tail = (log zoneId).length := (h.holds zoneId).tail
      refine ⟨htail.le, fun _ => ⟨rfl, rfl⟩, fun z _ => ⟨s.nextSeq zoneId z, le_rfl, ?_, ?_, ?_⟩⟩
      · change numbersAhead (log zoneId) z (s.rings zoneId).tail = List.Ico _ (s.nextSeq zoneId z)
        rw [htail, numbersAhead, List.drop_length, List.Ico.self_empty]
        rfl
      · exact fun _ h => absurd h List.not_mem_nil
      · exact fun _ => Socket.expects_nil z fun _ h => absurd h (Option.not_mem_none _)

/-- The frame that is received next has the number that is expected. -/
theorem InStep.forward (h : s.InStep log) {k : Socket} (hk : k ∈ s.sockets) (hlive : k.phase = .live)
    {f : MarketFrame} {position : ℕ} (hposition : position = k.position + 1)
    (hdrop : (log k.zoneId).drop k.position = f :: (log k.zoneId).drop position) :
    let k' := { k with position := position, sent := .frame f :: k.sent }
    (∀ z, k'.NoSilentGap z) ∧ (k'.phase ≠ .closed → k'.OnTrack (log k.zoneId) (s.nextSeq k.zoneId)) := by
  intro k'
  have htrack := h.onTrack k hk (by rw [hlive]; nofun)
  have hlag : k.phase ≠ .lagging := by rw [hlive]; nofun
  have hlength := congrArg List.length hdrop
  rw [List.length_drop, List.length_cons] at hlength
  have hmem : f ∈ log k.zoneId := List.mem_of_mem_drop (hdrop ▸ List.mem_cons_self)
  refine ⟨fun z => ?_, fun _ => ⟨?_, ?_, fun z hz => ?_⟩⟩
  · by_cases hz : Channel.Carries k.zoneId z
    · obtain ⟨m, hreads⟩ := htrack.reads z hz
      obtain ⟨_, _, hother | hself⟩ := hreads.forward hdrop hlag
      · exact (h.noSilentGap k hk z).cons_other rfl rfl hother
      · exact (h.noSilentGap k hk z).cons_self rfl rfl hself hreads.below (hreads.expects hlag)
    · refine (h.noSilentGap k hk z).cons_other rfl rfl (if_neg fun hzone => hz ?_)
      exact hzone ▸ h.zoned k.zoneId f hmem
  · change position ≤ _
    omega
  · intro hjoining
    rw [hlive] at hjoining
    cases hjoining
  · obtain ⟨m, hreads⟩ := htrack.reads z hz
    obtain ⟨m', hreads', _⟩ := hreads.forward hdrop hlag
    exact ⟨m', hreads'⟩

theorem InStep.serve (h : s.InStep log) {k k' : Socket} (hk : k ∈ s.sockets) {a : SocketStep}
    (hserve : s.serve k a = some k') :
    (∀ z, k'.NoSilentGap z) ∧
      (k'.phase ≠ .closed → k'.OnTrack (log k'.zoneId) (s.nextSeq k'.zoneId)) := by
  have hgap := h.noSilentGap k hk
  cases a with
  | readSeq =>
    unfold MarketGateway.serve at hserve
    dsimp only at hserve
    split at hserve
    · rename_i z₀ hjoining hzone
      obtain rfl := Option.some.inj hserve
      have htrack := h.onTrack k hk (by rw [hjoining]; nofun)
      refine ⟨fun z => Socket.noSilentGap_of_nil (htrack.joining hjoining).1,
        fun _ => htrack.join hjoining fun z hz => ?_⟩
      obtain rfl : z₀ = z := hz z₀ hzone
      exact s.nextSeq_le _ _
    · cases hserve
  | recv =>
    unfold MarketGateway.serve at hserve
    dsimp only at hserve
    split_ifs at hserve with hlive
    have htrack := h.onTrack k hk (by rw [hlive]; nofun)
    split at hserve
    · rename_i f position hrecv
      obtain rfl := Option.some.inj hserve
      obtain ⟨hposition, hdrop⟩ := (h.holds k.zoneId).drop_of_value hrecv
      exact h.forward hk hlive hposition hdrop
    · rename_i missed position hrecv
      obtain rfl := Option.some.inj hserve
      obtain ⟨hlt, hle⟩ := (h.holds k.zoneId).le_of_lagged hrecv
      exact ⟨fun z => (hgap z).congr rfl rfl, fun _ => htrack.skip hlt.le hle⟩
    · cases hserve
  | sendResync =>
    unfold MarketGateway.serve at hserve
    dsimp only at hserve
    split_ifs at hserve with hlagging
    obtain rfl := Option.some.inj hserve
    have htrack := h.onTrack k hk (by rw [hlagging]; nofun)
    exact ⟨fun z => (hgap z).cons_other rfl rfl rfl, fun _ => htrack.resync _⟩
  | close =>
    obtain rfl := Option.some.inj hserve
    exact ⟨fun z => (hgap z).congr rfl rfl, fun hopen => absurd rfl hopen⟩

theorem InStep.socket (h : s.InStep log) {i : ℕ} {k k' : Socket} (hk : k ∈ s.sockets) {a : SocketStep}
    (hserve : s.serve k a = some k') : InStep { s with sockets := s.sockets.set i k' } log where
  holds := h.holds
  zoned := h.zoned
  stamped := h.stamped
  noSilentGap k'' hk'' z := by
    rcases List.mem_or_eq_of_mem_set hk'' with hk'' | rfl
    · exact h.noSilentGap k'' hk'' z
    · exact (h.serve hk hserve).1 z
  onTrack k'' hk'' hopen := by
    rcases List.mem_or_eq_of_mem_set hk'' with hk'' | rfl
    · exact h.onTrack k'' hk'' hopen
    · exact (h.serve hk hserve).2 hopen

theorem inStep_step {a : GatewayAction} (h : s.InStep log) (hstep : s.step a = some s') :
    ∃ log', s'.InStep log' := by
  unfold step at hstep
  split at hstep
  · split at hstep
    · rename_i hidle
      split_ifs at hstep
      · split at hstep
        · rename_i hpublish
          obtain rfl := Option.some.inj hstep
          exact ⟨log, h.stamp hidle hpublish⟩
        · exact ⟨log, Option.some.inj hstep ▸ h⟩
      · exact ⟨log, Option.some.inj hstep ▸ h⟩
    · cases hstep
  · split at hstep
    · rename_i hpump
      obtain rfl := Option.some.inj hstep
      exact h.sendToZone hpump
    · cases hstep
  · split at hstep
    · rename_i hpump
      obtain rfl := Option.some.inj hstep
      exact h.sendToFirehose hpump
    · cases hstep
  · obtain rfl := Option.some.inj hstep
    exact ⟨log, h.connect _⟩
  · obtain ⟨k', hserve, rfl⟩ := Option.map_eq_some_iff.mp hstep
    obtain ⟨k, hget, hserve⟩ := Option.bind_eq_some_iff.mp hserve
    exact ⟨log, h.socket (List.mem_of_getElem? hget) hserve⟩

/-- However publishes, subscriptions and overruns come in turns, no socket has a silent
gap in the stream of a zone. -/
theorem market_stream_no_silent_gap (as : List GatewayAction) :
    Runs.AllStates step (fun s => ∀ k ∈ s.sockets, ∀ z, k.Contiguous z ∧ k.JoinsAtSeqOrResyncs z)
      start as := by
  have hruns : Runs.AllStates step (fun s => ∃ log, s.InStep log) start as :=
    Runs.AllStates.of_invariant (fun s a s' ⟨_, h⟩ hstep => inStep_step h hstep) ⟨_, inStep_start⟩ as
  refine hruns.mono fun s hs k hk z => ?_
  obtain ⟨log, h⟩ := hs
  exact ⟨(h.noSilentGap k hk z).contiguous, (h.noSilentGap k hk z).joins⟩

def publishes (n : ℕ) : List GatewayAction :=
  (List.replicate n
    [.publish (.peakPriceUpdate 1 (ZoneId.number 7)) true, .sendToZone, .sendToFirehose]).flatten

/-- The zone has published more than its ring holds before a new socket first receives. -/
def overrun : List GatewayAction :=
  .connect (some (BoundedInt.saturate 7)) :: .socket 0 .readSeq ::
    (publishes 513 ++ [.socket 0 .recv, .socket 0 .sendResync, .socket 0 .recv])

/-- The socket forwards the second frame of the zone first, after the resync. -/
theorem overrun_sent :
    ((overrun.foldlM step start).map fun s => s.sockets.map fun k =>
      (k.joinedAtSeq, k.sent.map (·.seqOf (BoundedInt.saturate 7)))) = some [(some 0, [some 2, none])] := by
  decide +kernel

theorem market_stream_skips_first : ¬∀ as : List GatewayAction,
    Runs.AllStates step (fun s => ∀ k ∈ s.sockets, ∀ z, k.Contiguous z ∧ k.JoinsAtSeq z) start as := by
  intro h
  obtain ⟨s, hrun, hsockets⟩ := Option.map_eq_some_iff.mp overrun_sent
  obtain ⟨k, hk, hsent⟩ := List.map_eq_singleton_iff.mp hsockets
  obtain ⟨hjoined, hsent⟩ := Prod.mk.inj hsent
  obtain ⟨first, earlier, hcons, hfirst, hearlier⟩ := List.map_eq_cons_iff.mp hsent
  have hnone : ∀ o ∈ earlier, o.seqOf (BoundedInt.saturate 7) = none := by
    intro o ho
    have hmem := List.mem_map_of_mem (f := (·.seqOf (BoundedInt.saturate 7))) ho
    rw [hearlier] at hmem
    exact List.mem_singleton.mp hmem
  have hle := ((h overrun).last hrun k (hk ▸ List.mem_singleton_self k) _).2 [] first earlier 2 hcons
    hfirst hnone 0 hjoined
  omega

end MarketGateway

end TradingService
