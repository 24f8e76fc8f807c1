import ChromeGcc.DelayBased.Easing
import ChromeGcc.Peers.Bottleneck

/-! A network that delays no data packet more than the one before it: the Receiver never detects
overuse, and every REMB asks for more than the last. -/
namespace ChromeGcc
open Machine UnitBase FloatArith

/-- A data packet as the delay-based estimation sees it. -/
def Receiver.arrivalOf (packet : GCCDataPacket) (env : ReceiverEnv) : TimedPacket :=
  timedPacket (packetResult packet env) env.feedbackTime

section Controller
variable {K : Type} [Field K] [LinearOrder K] [FloorRing K] [IsStrictOrderedRing K] {r : Rounding K}

/-- One packet delayed no more than those before keeps the delays easing, and the estimate. -/
theorem DelayBasedBwe.Eases.incomingPacketFeedbackVector (hr : r.IsExact)
    {d : DelayBasedBwe (Double r)} {packet : GCCDataPacket} {env : ReceiverEnv} {now : Int}
    (h : d.Eases (Receiver.arrivalOf packet env)) (hp : (Receiver.arrivalOf packet env).Finite)
    (hnow : env.feedbackTime = .finite now) (hs : d.rateControl.Settled now) (acked : Option DataRate) :
    (d.incomingPacketFeedbackVector (Receiver.feedbackOf packet env) acked false).1.Eases
        (Receiver.arrivalOf packet env) ∧
      d.Rises (d.incomingPacketFeedbackVector (Receiver.feedbackOf packet env) acked false) now := by
  have hfed := h.incomingPacketFeedback hr hp
  have hkept := rateControl_incomingPacketFeedback d (packetResult packet env) env.feedbackTime
  have htime : (Receiver.feedbackOf packet env).feedbackTime = .finite now := hnow
  unfold DelayBasedBwe.incomingPacketFeedbackVector
  rw [Receiver.sortedByReceiveTime_feedbackOf hp.arrivalTime]
  dsimp only [List.isEmpty_cons, feedPackets, List.foldl_cons, List.foldl_nil, feedPacket]
  rw [if_neg Bool.false_ne_true, htime]
  rw [hnow] at hfed hkept
  change DelayBasedBwe.Eases _ (timedPacket (packetResult packet env) env.feedbackTime) ∧ _
  rw [hnow]
  generalize d.incomingPacketFeedback (packetResult packet env) (.finite now) = fed at hfed hkept ⊢
  have hset : Eases { fed with
      rateControl := fed.rateControl.setInApplicationLimitedRegion false } _ :=
    ⟨hfed.noAudio, hfed.active, hfed.groups, hfed.detector⟩
  have hsettled : (fed.rateControl.setInApplicationLimitedRegion false).Settled now := by
    rw [hkept]
    exact ⟨hs.minLe, hs.notDecrease, hs.lastChange⟩
  have hrises := rises_maybeUpdateEstimate (d := { fed with
    rateControl := fed.rateControl.setInApplicationLimitedRegion false }) hsettled hset.activeState_ne acked
  refine ⟨hset.maybeUpdateEstimate _ _ _, (hrises _).settled, ?_, (hrises _).reported⟩
  intro hinit
  rw [← hkept] at hinit ⊢
  exact (hrises _).kept hinit

namespace GoogCcNetworkController
variable {g : GoogCcNetworkController (Double r)} {p q : TimedPacket}

/-- The delay has not grown so far, and the rate control is ready for the time of the next packet. -/
structure Eases (g : GoogCcNetworkController (Double r)) (p : TimedPacket) : Prop where
  rateKept : g.RateKept
  bwe : g.delayBasedBwe.Eases p
  settled : ∀ now, p.systemTime = .finite now → g.delayBasedBwe.rateControl.Settled now

theorem eases_new (hr : r.IsExact) (config : NetworkControllerConfig (Double r)) (p : TimedPacket) :
    Eases (new config) p where
  rateKept := rateKept_new config
  bwe := by
    obtain ⟨hno, hactive, hgroups, hdetector⟩ := DelayBasedBwe.eases_new (r := r) hr p
    exact ⟨hno, hactive, hgroups, hdetector⟩
  settled now _ := (AimdRateControl.settled_new true now).setMinBitrate _

theorem Eases.next (h : g.Eases p) (hp : p.Finite) (hq : q.Finite) (hpq : NoSlower p q) : g.Eases q where
  rateKept := h.rateKept
  bwe := h.bwe.next hp hq hpq
  settled later hl := by
    obtain ⟨now, hn⟩ := isFinite_iff.mp hp.systemTime
    have hle := hpq.systemTime
    rw [hn, hl, finite_le_finite] at hle
    exact (h.settled now hn).later hle

/-- The feedback of a packet delayed no more than those before does not lower the estimate. -/
theorem Eases.onTransportPacketsFeedback (hr : r.IsExact) {packet : GCCDataPacket} {env : ReceiverEnv}
    (h : g.Eases (Receiver.arrivalOf packet env)) (hp : (Receiver.arrivalOf packet env).Finite) :
    (g.onTransportPacketsFeedback (Receiver.feedbackOf packet env)).Eases
        (Receiver.arrivalOf packet env) ∧
      ∃ now, g.delayBasedBwe.Rises
        ((g.onTransportPacketsFeedback (Receiver.feedbackOf packet env)).delayBasedBwe,
          (g.onTransportPacketsFeedback (Receiver.feedbackOf packet env)).recentResult) now := by
  have hmsg : ¬ (Receiver.feedbackOf packet env).packetFeedbacks.isEmpty = true := Bool.false_ne_true
  obtain ⟨-, -, hbwe, hresult⟩ := onTransportPacketsFeedback_fields h.rateKept.allReports hmsg
  obtain ⟨now, hnow⟩ := isFinite_iff.mp hp.systemTime
  obtain ⟨heases, hrises⟩ := h.bwe.incomingPacketFeedbackVector hr hp hnow (h.settled now hnow)
    (g.acknowledgedAfter (Receiver.feedbackOf packet env)).bitrate
  rw [hbwe, hresult]
  refine ⟨⟨h.rateKept.onTransportPacketsFeedback _, ?_, ?_⟩, now, hrises⟩
  · rw [hbwe]
    exact heases
  · intro later hl
    rw [hnow] at hl
    cases hl
    rw [hbwe]
    exact hrises.settled

end GoogCcNetworkController
end Controller

namespace Link
section Arrivals

/-- The packets as the delay-based estimation sees them. -/
def timings (os : List LinkView) : List TimedPacket :=
  (deliveries os).map fun d => Receiver.arrivalOf d.1 d.2

theorem timings_append (os more : List LinkView) : timings (os ++ more) = timings os ++ timings more := by
  unfold timings deliveries
  rw [List.filterMap_append, List.map_append]

/-- The packets arrive in the order of sending, and none was delayed more than the one before. -/
structure NeverSlower (os : List LinkView) : Prop where
  finite : ∀ p ∈ timings os, p.Finite
  chain : (timings os).IsChain NoSlower

theorem NeverSlower.of_append {os more : List LinkView} (h : NeverSlower (os ++ more)) :
    NeverSlower os := by
  obtain ⟨hfinite, hchain⟩ := h
  rw [timings_append] at hfinite hchain
  exact ⟨fun p hp => hfinite p (List.mem_append_left _ hp), (List.isChain_append.mp hchain).1⟩

theorem timings_silent {o : LinkView} (os : List LinkView)
    (h : ∀ env text, o.event ≠ some (.receive env text)) : timings (os ++ [o]) = timings os := by
  rw [timings, deliveries_silent os h]
  rfl

theorem timings_received (os : List LinkView) {o : LinkView} {env : ReceiverEnv}
    {packet : GCCDataPacket} (h : o.event = some (.receive env packet.serialize)) :
    timings (os ++ [o]) = timings os ++ [Receiver.arrivalOf packet.written env] := by
  rw [timings_append]
  simp [timings, deliveries, h, GCCDataPacket.unSerialize_serialize_written]

/-- The packet handed over last, after those before it. -/
theorem NeverSlower.last {os : List LinkView} {p : TimedPacket} {o : LinkView}
    (h : NeverSlower (os ++ [o])) (hp : timings (os ++ [o]) = timings os ++ [p]) :
    p.Finite ∧ ∀ last ∈ (timings os).getLast?, NoSlower last p := by
  obtain ⟨hfinite, hchain⟩ := h
  rw [hp] at hfinite hchain
  refine ⟨hfinite p (by simp), ?_⟩
  intro last hlast
  exact (List.isChain_append.mp hchain).2.2 last hlast p (by simp)

end Arrivals

section Loop
variable {K : Type} [Field K] [LinearOrder K] [FloorRing K] {r : Rounding K}
  {events : List LinkEvent} {os : List LinkView} {s s' : Link (Double r)}
  {o : LinkView} {senderConfig receiverConfig : NetworkControllerConfig (Double r)}

/-- The Receiver is ready for any packet that is delayed no more, and its estimate is the highest
rate that it reported. -/
structure Eased (os : List LinkView) (s : Link (Double r)) : Prop where
  ready : ∀ p : TimedPacket, p.Finite → (∀ last ∈ (timings os).getLast?, NoSlower last p) →
    s.receiver.gccControler.Eases p
  reported : ∀ rate ∈ reportedRates os,
    s.receiver.gccControler.delayBasedBwe.rateControl.bitrateIsInitialized = true ∧
      rate ≤ s.receiver.gccControler.delayBasedBwe.rateControl.currentBitrate
  rising : (reportedRates os).Pairwise (· ≤ ·)

theorem Eased.silent (h : Eased os s) (he : ∀ env text, o.event ≠ some (.receive env text))
    (ho : o.reported = none) (hr : s'.receiver = s.receiver) : Eased (os ++ [o]) s' := by
  constructor
  case ready =>
    rw [timings_silent os he, hr]
    exact h.ready
  case reported =>
    rw [reportedRates_silent os ho, hr]
    exact h.reported
  case rising =>
    rw [reportedRates_silent os ho]
    exact h.rising

theorem NoSlower.refl (p : TimedPacket) : NoSlower p p := ⟨le_refl _, le_refl _, le_refl _, le_refl _⟩

theorem Eased.activeState_ne (h : Eased os s) (hn : NeverSlower os) :
    s.receiver.gccControler.delayBasedBwe.activeState ≠ .kBwOverusing := by
  cases hlast : (timings os).getLast? with
  | none =>
      refine (h.ready ⟨.finite 0, .finite 0, .finite 0, 0⟩ (by decide) ?_).bwe.activeState_ne
      rw [hlast]
      exact fun last hnone => absurd hnone (Option.not_mem_none last)
  | some p =>
      refine (h.ready p (hn.finite p (List.mem_of_getLast? hlast)) ?_).bwe.activeState_ne
      rw [hlast]
      intro last hp
      cases hp
      exact NoSlower.refl p

variable [IsStrictOrderedRing K]

theorem eased_new (hr : r.IsExact) : Eased [] (new senderConfig receiverConfig : Link (Double r)) where
  ready p _ _ := GoogCcNetworkController.eases_new hr receiverConfig p
  reported _ hrate := absurd hrate List.not_mem_nil
  rising := List.Pairwise.nil

theorem Does.eased (hr : r.IsExact) {event : LinkEvent} (h : s.Does event s' o)
    (htexts : s.TextsData) (hn : NeverSlower (os ++ [o])) (he : Eased os s) : Eased (os ++ [o]) s' := by
  rcases h.idles_or_hears_data htexts with hidle | ⟨env, packet, hhears⟩
  · exact he.silent hidle.unread hidle.reported hidle.receiver
  · have htimings := timings_received os hhears.event
    obtain ⟨hfinite, hlast⟩ := hn.last htimings
    obtain ⟨hready, now, hrises⟩ := (he.ready _ hfinite hlast).onTransportPacketsFeedback hr hfinite
    rw [← hhears.controller] at hready hrises
    have hold : ∀ rate ∈ reportedRates os,
        s'.receiver.gccControler.delayBasedBwe.rateControl.bitrateIsInitialized = true ∧
          rate ≤ s'.receiver.gccControler.delayBasedBwe.rateControl.currentBitrate := by
      intro rate hrate
      obtain ⟨hinit, hle⟩ := he.reported rate hrate
      obtain ⟨hkept, hrise⟩ := hrises.kept hinit
      exact ⟨hkept, hle.trans hrise⟩
    have hnew : ∀ rate ∈ o.reported,
        s'.receiver.gccControler.delayBasedBwe.rateControl.bitrateIsInitialized = true ∧
          rate = s'.receiver.gccControler.delayBasedBwe.rateControl.currentBitrate := by
      intro rate hrate
      obtain ⟨hu, rfl⟩ := hhears.reported_iff.mp hrate
      exact hrises.reported hu
    constructor
    case ready =>
      intro q hq hnext
      rw [htimings, List.getLast?_concat] at hnext
      exact hready.next hfinite hq (hnext _ rfl)
    case reported =>
      intro rate hrate
      rw [reportedRates_concat, List.mem_append, Option.mem_toList] at hrate
      rcases hrate with hrate | hrate
      · exact hold rate hrate
      · exact ⟨(hnew rate hrate).1, (hnew rate hrate).2.le⟩
    case rising =>
      rw [reportedRates_concat]
      refine List.pairwise_append.mpr ⟨he.rising, ?_, ?_⟩
      · cases o.reported with
        | none => exact List.Pairwise.nil
        | some rate => exact List.pairwise_singleton _ _
      · intro before hbefore rate hrate
        rw [Option.mem_toList] at hrate
        exact (hold before hbefore).2.trans (hnew rate hrate).2.ge

theorem eased_of_trace (hr : r.IsExact) (hn : NeverSlower os)
    (h : Trace step (new senderConfig receiverConfig) events os s) : Eased os s := by
  induction h with
  | nil => exact eased_new hr
  | snoc h hs ih => exact (does_of_step hs).eased hr (textsData_of_trace h) hn (ih hn.of_append)

/-- While no packet is delayed more than the one before it, the Receiver does not detect overuse,
and every REMB asks for more than the last one did. -/
theorem rembs_rise (hr : r.IsExact)
    (senderConfig receiverConfig : NetworkControllerConfig (Double r)) (events : List LinkEvent)
    {s : Link (Double r)} (h : Trace step (new senderConfig receiverConfig) events os s)
    (hc : RatesCarried os) (hn : NeverSlower os) :
    s.receiver.gccControler.delayBasedBwe.activeState ≠ .kBwOverusing ∧
      (rembs s.reports.sent).Pairwise (· < ·) := by
  have heased := eased_of_trace hr hn h
  have hchanges := (announced_of_trace h hc).changes
  have hrising : (rembs s.reports.sent).Pairwise (· ≤ ·) := by
    rw [hchanges]
    exact heased.rising.sublist (List.destutter_sublist _ _)
  have hdiffer : (rembs s.reports.sent).IsChain (· ≠ ·) := by
    rw [hchanges]
    exact List.isChain_destutter _ _
  refine ⟨heased.activeState_ne hn, List.isChain_iff_pairwise.mp ?_⟩
  refine List.isChain_iff_getElem.mpr ?_
  intro i hi
  exact lt_of_le_of_ne (List.pairwise_iff_getElem.mp hrising i (i + 1) (by omega) hi (by omega))
    (List.isChain_iff_getElem.mp hdiffer i hi)

end Loop

/-- Six packets that arrive 60 ms after they were sent, then 50 ms, and then 40 ms. -/
def easingRun : List LinkEvent :=
  [pollAt 1, nextDataAt 61, pollAt 500, nextDataAt 560, pollAt 1000, nextDataAt 1050, pollAt 5700,
    pollAt 6200, nextDataAt 5740, nextDataAt 6240, pollAt 7300, nextDataAt 7340]

theorem easingRun_succeeds :
    (run step (new (System.startedAt 300000) (System.startedAt 300000)) easingRun).isOk = true := by
  decide +kernel

theorem rembs_rise_easingRun :
    ∃ os s, Trace step (new (System.startedAt 300000) (System.startedAt 300000)) easingRun os s ∧
      rembs s.reports.sent = [.finite 48104, .finite 51952] ∧
      s.receiver.gccControler.delayBasedBwe.activeState ≠ .kBwOverusing ∧
      (rembs s.reports.sent).Pairwise (· < ·) := by
  obtain ⟨os, s, h, hsent, hc, hn⟩ : ∃ os s,
      Trace step (new (System.startedAt 300000) (System.startedAt 300000)) easingRun os s ∧
        rembs s.reports.sent = [.finite 48104, .finite 51952] ∧ RatesCarried os ∧ NeverSlower os :=
    ⟨_, _, trace_final easingRun_succeeds, by decide +kernel, by decide +kernel,
      by decide +kernel, by decide +kernel⟩
  exact ⟨os, s, h, hsent, rembs_rise Rounding.exact_isExact _ _ easingRun h hc hn⟩

end Link
end ChromeGcc
