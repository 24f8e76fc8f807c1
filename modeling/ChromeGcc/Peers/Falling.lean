import ChromeGcc.DelayBased.Falling
import ChromeGcc.Peers.Easing

/-! What makes the Receiver ask for less: a REMB falls below the one before exactly on overuse, and
so only where the delay of the packets has risen. -/
namespace ChromeGcc
open Machine UnitBase FloatArith

/-- The feedback of one packet: the stream goes on, and the detector judges the rate. -/
theorem GoogCcNetworkController.judges_onTransportPacketsFeedback {K : Type} [Field K] [LinearOrder K]
    [FloorRing K] [IsStrictOrderedRing K] {r : Rounding K} (hr : r.IsExact)
    {g : GoogCcNetworkController (Double r)} {packet : GCCDataPacket} {env : ReceiverEnv} {now : Int}
    {stream : List TimedPacket} (hk : g.RateKept) (hp : (Receiver.arrivalOf packet env).Finite)
    (hnow : env.feedbackTime = .finite now) (hs : g.delayBasedBwe.Streams stream)
    (hlast : ∀ last ∈ stream.getLast?, last.systemTime.isFinite = true)
    (h : g.delayBasedBwe.rateControl.Settled now) :
    DelayBasedBwe.Judges g.delayBasedBwe.rateControl
        (g.onTransportPacketsFeedback (Receiver.feedbackOf packet env)).delayBasedBwe.activeState
        ((g.onTransportPacketsFeedback (Receiver.feedbackOf packet env)).delayBasedBwe,
          (g.onTransportPacketsFeedback (Receiver.feedbackOf packet env)).recentResult) now ∧
      (g.onTransportPacketsFeedback (Receiver.feedbackOf packet env)).delayBasedBwe.Streams
        (continueStream stream (Receiver.arrivalOf packet env)) := by
  have hmsg : ¬ (Receiver.feedbackOf packet env).packetFeedbacks.isEmpty = true := Bool.false_ne_true
  obtain ⟨-, -, hbwe, hresult⟩ := onTransportPacketsFeedback_fields hk.allReports hmsg
  rw [hbwe, hresult]
  exact DelayBasedBwe.judges_incomingPacketFeedbackVector hr
    (Receiver.sortedByReceiveTime_feedbackOf hp.arrivalTime) hnow hs hlast h hk.rateControl _

namespace Link
section Clock

/-- The Receiver's clocks show finite times that do not go back. -/
structure Clocked (os : List LinkView) : Prop where
  finite : ∀ p ∈ timings os, p.Finite
  arrived : ∀ p ∈ timings os, .zero ≤ p.arrivalTime
  ordered : (timings os).Pairwise fun p q => p.systemTime ≤ q.systemTime

instance (os : List LinkView) : Decidable (Clocked os) :=
  decidable_of_iff ((∀ p ∈ timings os, p.Finite) ∧ (∀ p ∈ timings os, .zero ≤ p.arrivalTime) ∧
      (timings os).Pairwise fun p q => p.systemTime ≤ q.systemTime)
    ⟨fun h => ⟨h.1, h.2.1, h.2.2⟩, fun h => ⟨h.finite, h.arrived, h.ordered⟩⟩

theorem Clocked.of_append {os more : List LinkView} (h : Clocked (os ++ more)) : Clocked os := by
  obtain ⟨hfinite, harrived, hordered⟩ := h
  rw [timings_append] at hfinite harrived hordered
  exact ⟨fun p hp => hfinite p (List.mem_append_left _ hp),
    fun p hp => harrived p (List.mem_append_left _ hp), (List.pairwise_append.mp hordered).1⟩

/-- The time of a packet handed over last is not before any other. -/
theorem Clocked.last {os : List LinkView} {o : LinkView} {p : TimedPacket} (h : Clocked (os ++ [o]))
    (hp : timings (os ++ [o]) = timings os ++ [p]) :
    p.Finite ∧ ∀ last ∈ (timings os).getLast?, last.systemTime ≤ p.systemTime := by
  obtain ⟨hfinite, -, hordered⟩ := h
  rw [hp] at hfinite hordered
  refine ⟨hfinite p (by simp), ?_⟩
  intro last hlast
  exact (List.pairwise_append.mp hordered).2.2 last (List.mem_of_getLast? hlast) p (by simp)

end Clock

section Loop
variable {K : Type} [Field K] [LinearOrder K] [FloorRing K] {r : Rounding K}
  {events : List LinkEvent} {os : List LinkView} {s s' : Link (Double r)}
  {o : LinkView} {senderConfig receiverConfig : NetworkControllerConfig (Double r)}

/-- The Receiver's estimation is that of the packets since the last silence, and its rate is the
last one that it reported. -/
structure Judged (os : List LinkView) (s : Link (Double r)) : Prop where
  rateKept : s.receiver.gccControler.RateKept
  streams : s.receiver.gccControler.delayBasedBwe.Streams (currentStream (timings os))
  settled : ∀ now, (∀ last ∈ (timings os).getLast?, last.systemTime ≤ .finite now) →
    s.receiver.gccControler.delayBasedBwe.rateControl.Settled now
  standing : ∀ rate ∈ (reportedRates os).getLast?,
    s.receiver.gccControler.delayBasedBwe.rateControl.bitrateIsInitialized = true ∧
      s.receiver.gccControler.delayBasedBwe.rateControl.currentBitrate = rate

theorem Judged.silent (h : Judged os s) (he : ∀ env text, o.event ≠ some (.receive env text))
    (ho : o.reported = none) (hr : s'.receiver = s.receiver) : Judged (os ++ [o]) s' := by
  have htimings := timings_silent os he
  constructor
  case rateKept =>
    rw [hr]
    exact h.rateKept
  case streams =>
    rw [htimings, hr]
    exact h.streams
  case settled =>
    rw [htimings, hr]
    exact h.settled
  case standing =>
    rw [reportedRates_silent os ho, hr]
    exact h.standing

theorem judged_new : Judged [] (new senderConfig receiverConfig : Link (Double r)) where
  rateKept := GoogCcNetworkController.rateKept_new receiverConfig
  streams := ⟨rfl, rfl, rfl, rfl, rfl⟩
  settled now _ := (AimdRateControl.settled_new true now).setMinBitrate _
  standing rate hrate := by cases hrate

/-- What the verdict of the detector says of a rate that is reported after others. -/
structure Verdict (os : List LinkView) (o : LinkView) (s' : Link (Double r)) : Prop where
  falls : s'.receiver.gccControler.delayBasedBwe.activeState = .kBwOverusing →
    ∀ before ∈ (reportedRates os).getLast?, ∀ rate ∈ o.reported, rate ≤ before
  rises : s'.receiver.gccControler.delayBasedBwe.activeState ≠ .kBwOverusing →
    ∀ before ∈ (reportedRates os).getLast?, ∀ rate ∈ o.reported, before ≤ rate

theorem Verdict.silent (ho : o.reported = none) : Verdict os o s' := by
  constructor <;> simp [ho]

/-- A rate below the one before is a verdict of overuse. -/
theorem Verdict.overuse_of_less (h : Verdict os o s') {before rate : DataRate}
    (hlast : (reportedRates os).getLast? = some before) (hreported : o.reported = some rate)
    (hless : rate < before) : s'.receiver.gccControler.delayBasedBwe.activeState = .kBwOverusing := by
  by_contra hcalm
  exact absurd (h.rises hcalm before hlast rate hreported) (not_le.mpr hless)

variable [IsStrictOrderedRing K]

theorem Does.judged (hr : r.IsExact) {event : LinkEvent} (h : s.Does event s' o)
    (htexts : s.TextsData) (hclocked : Clocked (os ++ [o])) (hj : Judged os s) :
    Judged (os ++ [o]) s' ∧ Verdict os o s' := by
  rcases h.idles_or_hears_data htexts with hidle | ⟨env, packet, hhears⟩
  · exact ⟨hj.silent hidle.unread hidle.reported hidle.receiver, .silent hidle.reported⟩
  · have htimings := timings_received os hhears.event
    obtain ⟨hfinite, hlast⟩ := hclocked.last htimings
    obtain ⟨now, hnow⟩ := isFinite_iff.mp hfinite.systemTime
    have hseen : ∀ last ∈ (currentStream (timings os)).getLast?, last.systemTime.isFinite = true := by
      rw [getLast?_currentStream]
      intro last hmem
      exact hclocked.of_append.finite last (List.mem_of_getLast? hmem) |>.systemTime
    obtain ⟨hjudges, hstreams⟩ := GoogCcNetworkController.judges_onTransportPacketsFeedback hr
      hj.rateKept hfinite hnow hj.streams hseen (hj.settled now (hnow ▸ hlast))
    have hkept := hj.rateKept.onTransportPacketsFeedback (Receiver.feedbackOf packet.written env)
    rw [← hhears.controller] at hjudges hstreams hkept
    have hnew : ∀ rate ∈ o.reported,
        s'.receiver.gccControler.delayBasedBwe.rateControl.bitrateIsInitialized = true ∧
          s'.receiver.gccControler.delayBasedBwe.rateControl.currentBitrate = rate := by
      intro rate hrate
      obtain ⟨hu, rfl⟩ := hhears.reported_iff.mp hrate
      exact ⟨(hjudges.reported hu).1, (hjudges.reported hu).2.symm⟩
    refine ⟨⟨hkept, ?_, ?_, ?_⟩, ⟨?_, ?_⟩⟩
    · rw [htimings, currentStream_concat]
      exact hstreams
    · intro later hl
      rw [htimings, List.getLast?_concat] at hl
      have hle := hl _ rfl
      rw [hnow, finite_le_finite] at hle
      exact hjudges.settled.later hle
    · intro rate hrate
      rw [reportedRates_concat] at hrate
      cases hreport : o.reported with
      | some x =>
          rw [hreport, Option.toList_some, List.getLast?_concat] at hrate
          cases hrate
          exact hnew rate hreport
      | none =>
          rw [hreport, Option.toList_none, List.append_nil] at hrate
          obtain ⟨hinit, hstanding⟩ := hj.standing rate hrate
          refine ⟨hjudges.kept hinit, (hjudges.silent ?_ hinit).trans hstanding⟩
          refine Bool.eq_false_of_not_eq_true fun hu => ?_
          rw [hhears.reported_iff.mpr ⟨hu, rfl⟩] at hreport
          cases hreport
    · intro hover before hbefore rate hrate
      obtain ⟨hinit, hstanding⟩ := hj.standing before hbefore
      rw [← hstanding, ← (hnew rate hrate).2]
      exact hjudges.falls hinit hover
    · intro hcalm before hbefore rate hrate
      obtain ⟨hinit, hstanding⟩ := hj.standing before hbefore
      rw [← hstanding, ← (hnew rate hrate).2]
      exact hjudges.rises hinit hcalm

theorem judged_of_trace (hr : r.IsExact) (hclocked : Clocked os)
    (h : Trace step (new senderConfig receiverConfig) events os s) : Judged os s := by
  induction h with
  | nil => exact judged_new
  | snoc h hs ih =>
      exact ((does_of_step hs).judged hr (textsData_of_trace h) hclocked (ih hclocked.of_append)).1

/-- The delays that the Receiver's detector has measured since the last silence, as points over the
times of arrival. -/
def measuredDelays (r : Rounding K) (os : List LinkView) : List (K × K) :=
  TrendlineEstimator.delayPoints (groupCalls (Double r) (currentStream (timings os)))

/-- Overuse is only detected where the line through the last delays rises. -/
theorem Judged.rising (hr : r.IsExact) (hclocked : Clocked os) (h : Judged os s)
    (hover : s.receiver.gccControler.delayBasedBwe.activeState = .kBwOverusing) :
    1 / 40 < SlidingLine.lastSlope 20 (measuredDelays r os) := by
  have hstart : ∀ first ∈ (groupCalls (Double r) (currentStream (timings os))).head?,
      first.arrivalTimeMs ≠ -1 := by
    intro first hfirst
    obtain ⟨p, hp, htime⟩ := exists_of_mem_groupCalls (List.mem_of_head? hfirst)
    have hmem := mem_of_mem_currentStream hp
    have hms := Timestamp.ms_mono rfl (hclocked.finite p hmem).arrivalTime (hclocked.arrived p hmem)
    rw [htime]
    intro hminus
    rw [hminus] at hms
    exact absurd hms (by decide)
  have hfollows := TrendlineEstimator.follows_afterDelays hr _ hstart
  rw [measuredDelays, ← hfollows.trend]
  refine hfollows.overuse ?_
  rw [DelayBasedBwe.activeState, h.streams.active, if_neg Bool.false_ne_true, h.streams.detector,
    TrendlineEstimator.state, hfollows.smooths.predictor] at hover
  exact hover

/-- A REMB asks for less than the one before exactly if the detector reports overuse; and then the
averaged delay over the last full window of groups rises by more than one millisecond in forty. -/
theorem rembs_fall_iff_overuse (hr : r.IsExact)
    (senderConfig receiverConfig : NetworkControllerConfig (Double r)) (events : List LinkEvent)
    {s s' : Link (Double r)} (h : Trace step (new senderConfig receiverConfig) events os s)
    {event : LinkEvent} (hs : s.step event = .ok (s', o)) (hc : RatesCarried (os ++ [o]))
    (hclocked : Clocked (os ++ [o])) {before rate : DataRate}
    (hbefore : (rembs s.reports.sent).getLast? = some before)
    (hsent : rembs s'.reports.sent = rembs s.reports.sent ++ [rate]) :
    (rate < before ↔ s'.receiver.gccControler.delayBasedBwe.activeState = .kBwOverusing) ∧
      (rate < before → 1 / 40 < SlidingLine.lastSlope 20 (measuredDelays r (os ++ [o]))) := by
  have hannounced := announced_of_trace h fun o ho => hc o (List.mem_append_left _ ho)
  obtain ⟨hlast, hreported, hne⟩ := hannounced.sent_change
    ((does_of_step hs).announced (hc o (by simp)) hannounced) hbefore hsent
  obtain ⟨hjudged, hverdict⟩ := (does_of_step hs).judged hr (textsData_of_trace h) hclocked
    (judged_of_trace hr hclocked.of_append h)
  have hover := hverdict.overuse_of_less hlast hreported
  refine ⟨⟨hover, ?_⟩, fun hless => hjudged.rising hr hclocked (hover hless)⟩
  intro hyes
  exact lt_of_le_of_ne (hverdict.falls hyes before hlast rate hreported) hne

end Loop

theorem congestedRun_succeeds :
    (run step (new (System.startedAt 300000) (System.startedAt 300000))
      (congestedRun ++ [nextDataAt 5860])).isOk = true := by
  decide +kernel

theorem congestedRun_before :
    ∃ os s, Trace step (new (System.startedAt 300000) (System.startedAt 300000)) congestedRun os s ∧
      rembs s.reports.sent = [.finite 70607] :=
  ⟨_, _, trace_final (by decide +kernel), by decide +kernel⟩

theorem congestedRun_after :
    ∃ os s, Trace step (new (System.startedAt 300000) (System.startedAt 300000))
        (congestedRun ++ [nextDataAt 5860]) os s ∧
      rembs s.reports.sent = [.finite 70607, .finite 59166] ∧ RatesCarried os ∧ Clocked os :=
  ⟨_, _, trace_final congestedRun_succeeds, by decide +kernel, by decide +kernel, by decide +kernel⟩

theorem rembs_fall_iff_overuse_congestedRun :
    ∃ os s o s', Trace step (new (System.startedAt 300000) (System.startedAt 300000)) congestedRun os s ∧
      s.step (nextDataAt 5860) = .ok (s', o) ∧ rembs s.reports.sent = [.finite 70607] ∧
      rembs s'.reports.sent = [.finite 70607, .finite 59166] ∧
      s'.receiver.gccControler.delayBasedBwe.activeState = .kBwOverusing ∧
      (1 / 40 : ℚ) < SlidingLine.lastSlope 20 (measuredDelays
        (Rounding.exact id (fun x y => if y = 0 then 1 else x) id) (os ++ [o])) := by
  obtain ⟨os, s, h, hsent⟩ := congestedRun_before
  obtain ⟨os', s', h', hsent', hc, hclocked⟩ := congestedRun_after
  obtain ⟨os'', o, s'', rfl, h'', hs⟩ := h'.snoc_inv
  obtain ⟨rfl, rfl⟩ := h.unique h''
  have hlast : (rembs s.reports.sent).getLast? = some (.finite 70607) := by
    rw [hsent]
    rfl
  have hgrown : rembs s'.reports.sent = rembs s.reports.sent ++ [.finite 59166] := by
    rw [hsent, hsent']
    rfl
  obtain ⟨hiff, hrising⟩ := rembs_fall_iff_overuse Rounding.exact_isExact _ _ congestedRun h hs hc
    hclocked hlast hgrown
  have hless : (.finite 59166 : DataRate) < .finite 70607 := by decide
  exact ⟨os, s, o, s', h, hs, hsent, hsent', hiff.mp hless, hrising hless⟩

end Link
end ChromeGcc
