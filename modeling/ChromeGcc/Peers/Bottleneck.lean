import ChromeGcc.Peers.Hearing
import ChromeGcc.Peers.LoopPacing
import ChromeGcc.RateControl.RateCeiling
import ChromeGcc.Throughput.Bottleneck

/-! A bottleneck on the way to the Receiver: however the delay detector reacts to it, the REMBs
keep to the rate that the bottleneck lets through, and so does the Sender after the first one. -/
namespace ChromeGcc
open Machine UnitBase FloatArith

/-- A full packet that arrives at a time. -/
def fullPacket (t : Timestamp) : Ack where
  atTime := .finite t.toValue.toNat
  bytes := defaultPacketSize
  valid := by
    change 0 ≤ ((t.toValue.toNat : Int) + 500).tdiv 1000
    exact Int.tdiv_nonneg (by omega) (by decide)
  pos := by decide
  fits := by decide

theorem Receiver.sortedByReceiveTime_feedbackOf {packet : GCCDataPacket} {env : ReceiverEnv}
    (hfinite : env.receiveTime.isFinite = true) :
    (feedbackOf packet env).sortedByReceiveTime = [packetResult packet env] := by
  have hreceived : (packetResult packet env).isReceived = true := by
    obtain ⟨t, ht⟩ := isFinite_iff.mp hfinite
    simp [packetResult, PacketResult.isReceived, ht]
  change ([packetResult packet env].filter PacketResult.isReceived).mergeSort _ = _
  rw [List.filter_cons_of_pos hreceived, List.filter_nil, List.mergeSort_singleton]

section Ceiling
variable {K : Type} [Field K] [LinearOrder K] [FloorRing K] {r : Rounding K} {peak : Int}

namespace GoogCcNetworkController
open BitrateEstimator AimdRateControl
variable {g : GoogCcNetworkController (Double r)} {us : List Ack}

/-- One full packet is one call of the throughput estimate. -/
theorem acknowledgedAfter_full (h : g.acknowledgedBitrateEstimator =
      { bitrateEstimator := (afterAcks (Double r) us).1 }) {packet : GCCDataPacket}
    (hsize : packet.size = defaultPacketSize) {env : ReceiverEnv}
    (hfinite : env.receiveTime.isFinite = true) (hnonneg : .zero ≤ env.receiveTime) :
    g.acknowledgedAfter (Receiver.feedbackOf packet env) =
      { bitrateEstimator := (afterAcks (Double r) (us ++ [fullPacket env.receiveTime])).1 } := by
  have htime : (fullPacket env.receiveTime).atTime = env.receiveTime := by
    obtain ⟨t, ht⟩ := isFinite_iff.mp hfinite
    rw [ht] at hnonneg ⊢
    rw [finite_le_finite] at hnonneg
    change (.finite (t.toNat : Int) : Timestamp) = .finite t
    rw [Int.toNat_of_nonneg hnonneg]
  have hamount : (packetResult packet env).sentPacket.size +
      (packetResult packet env).sentPacket.priorUnackedData = (fullPacket env.receiveTime).amount := by
    change (UnitBase.ofUnsigned packet.size : DataSize) + (.zero : DataSize) = _
    rw [hsize]
    rfl
  rw [acknowledgedAfter, Receiver.sortedByReceiveTime_feedbackOf hfinite, h, afterAcks_snoc]
  unfold AcknowledgedBitrateEstimator.incomingPacketFeedbackVector
  rw [List.foldl_cons, List.foldl_nil]
  unfold AcknowledgedBitrateEstimator.incomingPacket
  dsimp only
  rw [hamount]
  change AcknowledgedBitrateEstimator.mk none ((afterAcks (Double r) us).1.update env.receiveTime _) = _
  rw [← htime]
  rfl

end GoogCcNetworkController

variable [IsStrictOrderedRing K]

namespace DelayBasedBwe
open AimdRateControl
variable {d : DelayBasedBwe (Double r)} {acked : Option DataRate}

/-- An update leaves the limit in force, and reports an estimate that keeps to it. -/
theorem limited_maybeUpdateEstimate (hpeak : 0 ≤ peak) (hsmall : peak ≤ 2 ^ 52)
    (h : Limited peak d.rateControl) (hkept : d.rateControl.Kept)
    (hacked : ∀ x, acked = some x → Measured peak x) (recovered : Bool) (t : Timestamp) :
    Limited peak (d.maybeUpdateEstimate acked recovered false t).1.rateControl ∧
      ((d.maybeUpdateEstimate acked recovered false t).2.updated = true →
        (d.maybeUpdateEstimate acked recovered false t).1.rateControl.bitrateIsInitialized = true) := by
  cases d.outcome_maybeUpdateEstimate acked recovered t with
  | waits hover hrate hnot =>
      rw [hrate, hnot]
      exact ⟨h, fun hu => by cases hu⟩
  | updates hknown hrate hupdated htarget =>
      rw [hupdated, hrate]
      exact ⟨h.update hpeak hsmall hacked hknown t, id⟩
  | halves hover hvalid hrate hupdated htarget =>
      rw [hrate]
      exact ⟨h.halve hpeak hsmall hvalid hkept.fiveKbps_le t,
        fun _ => (setEstimate_half d.rateControl t).1⟩

theorem limited_incomingPacketFeedbackVector (hpeak : 0 ≤ peak) (hsmall : peak ≤ 2 ^ 52)
    (h : Limited peak d.rateControl) (hkept : d.rateControl.Kept)
    (hacked : ∀ x, acked = some x → Measured peak x) (msg : TransportPacketsFeedback) :
    Limited peak (d.incomingPacketFeedbackVector msg acked false).1.rateControl ∧
      ((d.incomingPacketFeedbackVector msg acked false).2.updated = true →
        (d.incomingPacketFeedbackVector msg acked false).2.targetBitrate ≤ peakLimit r peak) := by
  unfold incomingPacketFeedbackVector
  dsimp only
  split_ifs
  · exact ⟨h, fun hu => absurd hu (by simp)⟩
  · have hfed : (d.feedPackets msg.sortedByReceiveTime msg.feedbackTime).1.rateControl = d.rateControl :=
      rateControl_feedPackets d _ _
    rw [hfed]
    have hlimited : Limited peak (d.rateControl.setInApplicationLimitedRegion false) :=
      ⟨h.beta, h.minimum, h.rate, h.throughput⟩
    obtain ⟨hafter, hinit⟩ := limited_maybeUpdateEstimate hpeak hsmall
      (d := { (d.feedPackets msg.sortedByReceiveTime msg.feedbackTime).1 with
        rateControl := d.rateControl.setInApplicationLimitedRegion false })
      hlimited (hkept.setInApplicationLimitedRegion false) hacked
      (d.feedPackets msg.sortedByReceiveTime msg.feedbackTime).2.1 msg.feedbackTime
    refine ⟨hafter, fun hu => ?_⟩
    rw [target_of_updated _ _ _ _ hu]
    exact hafter.rate (hinit hu)

end DelayBasedBwe

namespace GoogCcNetworkController
open BitrateEstimator AimdRateControl
variable {g : GoogCcNetworkController (Double r)} {us : List Ack}

/-- The controller has measured these packets, and its estimate keeps to the peak. -/
structure MeasuredFrom (us : List Ack) (peak : Int) (g : GoogCcNetworkController (Double r)) : Prop where
  rateKept : g.RateKept
  limited : Limited peak g.delayBasedBwe.rateControl
  acknowledged : g.acknowledgedBitrateEstimator =
    { bitrateEstimator := (afterAcks (Double r) us).1 }

theorem measuredFrom_new (config : NetworkControllerConfig (Double r)) (hpeak : 0 ≤ peak)
    (hsmall : peak ≤ 2 ^ 52) : MeasuredFrom [] peak (new config) where
  rateKept := rateKept_new config
  limited :=
    { beta := rfl
      minimum := by
        have hmin : getMinBitrateBps = 5000 := rfl
        exact le_peakLimit hpeak hsmall (by omega)
      rate := fun h => by cases h
      throughput := fun h => by cases h }
  acknowledged := rfl

/-- Behind a bottleneck the throughput after a packet is within its peak. -/
theorem MeasuredFrom.measured (hr : r.IsExact) {bitsPerMs burst : Nat} (h : MeasuredFrom us peak g)
    {packet : GCCDataPacket} (hsize : packet.size = defaultPacketSize) {env : ReceiverEnv}
    (hfinite : env.receiveTime.isFinite = true) (hnonneg : .zero ≤ env.receiveTime)
    (hl : RateLimited bitsPerMs burst (us ++ [fullPacket env.receiveTime])) {x : DataRate}
    (hx : (g.acknowledgedAfter (Receiver.feedbackOf packet env)).bitrate = some x) :
    Measured ((3000 * bitsPerMs + 20 * burst) / 3 : Nat) x := by
  rw [acknowledgedAfter_full h.acknowledged hsize hfinite hnonneg] at hx
  obtain ⟨v, rfl, hv, hle⟩ := bitrate_le hr hl hx
  refine ⟨v, rfl, hv, ?_⟩
  omega

theorem MeasuredFrom.onTransportPacketsFeedback (hr : r.IsExact) {bitsPerMs burst : Nat}
    (hsmall : (3000 * bitsPerMs + 20 * burst) / 3 ≤ 2 ^ 52)
    (h : MeasuredFrom us ((3000 * bitsPerMs + 20 * burst) / 3 : Nat) g) {packet : GCCDataPacket}
    (hsize : packet.size = defaultPacketSize) {env : ReceiverEnv}
    (hfinite : env.receiveTime.isFinite = true) (hnonneg : .zero ≤ env.receiveTime)
    (hl : RateLimited bitsPerMs burst (us ++ [fullPacket env.receiveTime])) :
    MeasuredFrom (us ++ [fullPacket env.receiveTime]) ((3000 * bitsPerMs + 20 * burst) / 3 : Nat)
        (g.onTransportPacketsFeedback (Receiver.feedbackOf packet env)) ∧
      ((g.onTransportPacketsFeedback (Receiver.feedbackOf packet env)).recentResult.updated = true →
        (g.onTransportPacketsFeedback (Receiver.feedbackOf packet env)).recentResult.targetBitrate ≤
          peakLimit r ((3000 * bitsPerMs + 20 * burst) / 3 : Nat)) := by
  have hmsg : ¬ (Receiver.feedbackOf packet env).packetFeedbacks.isEmpty = true := Bool.false_ne_true
  obtain ⟨honly, hack, hbwe, hresult⟩ := onTransportPacketsFeedback_fields h.rateKept.allReports hmsg
  have hfull := acknowledgedAfter_full h.acknowledged hsize hfinite hnonneg
  have hmeasured := fun x => h.measured (x := x) hr hsize hfinite hnonneg hl
  obtain ⟨hlimited, htarget⟩ := DelayBasedBwe.limited_incomingPacketFeedbackVector
    (Int.natCast_nonneg _) (by exact_mod_cast hsmall) h.limited h.rateKept.rateControl hmeasured
    (Receiver.feedbackOf packet env)
  refine ⟨⟨h.rateKept.onTransportPacketsFeedback _, ?_, hack.trans hfull⟩, ?_⟩
  · rw [hbwe]
    exact hlimited
  · rw [hresult]
    exact htarget

end GoogCcNetworkController
end Ceiling

namespace Link
open BitrateEstimator AimdRateControl GoogCcNetworkController

/-- Whatever packets the Receiver gets one after the other, while its clock does not step back
they are at most so many bits for each millisecond, and one burst more. -/
structure Bottleneck (bitsPerMs burst : Nat) (events : List LinkEvent) : Prop where
  clock : ∀ t ∈ receiveTimes events, t.isFinite = true ∧ .zero ≤ t
  limited : ∀ run, run <:+: receiveTimes events → run.Pairwise (fun t u => t.ms ≤ u.ms) →
    ∀ first ∈ run.head?, ∀ last ∈ run.getLast?,
      8 * (defaultPacketSize * run.length : Int) ≤ bitsPerMs * (last.ms - first.ms) + burst

theorem Bottleneck.of_append {bitsPerMs burst : Nat} {events more : List LinkEvent}
    (h : Bottleneck bitsPerMs burst (events ++ more)) : Bottleneck bitsPerMs burst events := by
  have hbegins : receiveTimes events <+: receiveTimes (events ++ more) := by
    rw [receiveTimes, receiveTimes, List.filterMap_append]
    exact List.prefix_append _ _
  exact ⟨fun t ht => h.clock t (hbegins.subset ht),
    fun run hrun => h.limited run (hrun.trans hbegins.isInfix)⟩

theorem ms_fullPacket {t : Timestamp} (hfinite : t.isFinite = true) (hnonneg : .zero ≤ t) :
    (fullPacket t).ms = t.ms := by
  obtain ⟨v, rfl⟩ := isFinite_iff.mp hfinite
  rw [finite_le_finite] at hnonneg
  change Timestamp.ms (.finite (v.toNat : Int)) = _
  rw [Int.toNat_of_nonneg hnonneg]

/-- What is promised of the times holds of the packets that the throughput is measured from. -/
theorem Bottleneck.rateLimited {bitsPerMs burst : Nat} {events : List LinkEvent}
    (h : Bottleneck bitsPerMs burst events) :
    RateLimited bitsPerMs burst ((receiveTimes events).map fullPacket) := by
  intro run hrun hordered
  obtain ⟨times, htimes, rfl⟩ := List.infix_map_iff.mp hrun
  have hms : ∀ t ∈ times, (fullPacket t).ms = t.ms := fun t ht =>
    ms_fullPacket (h.clock t (htimes.subset ht)).1 (h.clock t (htimes.subset ht)).2
  have hsum : ((times.map fullPacket).map Ack.bytes).sum = defaultPacketSize * times.length := by
    have hconst : (times.map fullPacket).map Ack.bytes =
        List.replicate times.length (defaultPacketSize : Int) := by
      rw [List.map_map]
      exact List.map_eq_replicate_iff.mpr fun t _ => rfl
    rw [hconst, List.sum_replicate, nsmul_eq_mul, mul_comm]
  rw [hsum]
  rcases List.eq_nil_or_concat' times with rfl | ⟨before, last, rfl⟩
  · simp [elapsedMs]
  · have hlast : (before ++ [last]).getLast? = some last := List.getLast?_concat
    obtain ⟨first, hfirst⟩ : ∃ first, (before ++ [last]).head? = some first := by
      cases before with
      | nil => exact ⟨last, rfl⟩
      | cons first before => exact ⟨first, rfl⟩
    have helapsed : elapsedMs ((before ++ [last]).map fullPacket) = last.ms - first.ms := by
      unfold elapsedMs
      rw [List.head?_map, List.getLast?_map, hfirst, hlast]
      change (fullPacket last).ms - (fullPacket first).ms = _
      rw [hms first (List.mem_of_head? hfirst), hms last (List.mem_of_getLast? hlast)]
    rw [helapsed]
    refine h.limited _ htimes ?_ first hfirst last hlast
    refine (List.pairwise_map.mp hordered).imp_of_mem ?_
    intro t u ht hu hle
    rwa [hms t ht, hms u hu] at hle

/-- A packet that arrives goes on with them. -/
theorem Bottleneck.received {bitsPerMs burst index : Nat} {events : List LinkEvent} {env : ReceiverEnv}
    (h : Bottleneck bitsPerMs burst (events ++ [.deliverData index env])) :
    env.receiveTime.isFinite = true ∧ .zero ≤ env.receiveTime ∧ RateLimited bitsPerMs burst
      ((receiveTimes events).map fullPacket ++ [fullPacket env.receiveTime]) := by
  have hlimited := h.rateLimited
  have hclock := h.clock env.receiveTime (by rw [receiveTimes_received]; simp)
  rw [receiveTimes_received, List.map_append, List.map_singleton] at hlimited
  exact ⟨hclock.1, hclock.2, hlimited⟩

/-- The largest throughput, in bits per second, that such a bottleneck lets the Receiver measure. -/
def bottleneckPeak (bitsPerMs burst : Nat) : Nat := (3000 * bitsPerMs + 20 * burst) / 3

/-- Every data packet is a full one. -/
theorem full_of_sent {F : Type} [FloatArith F] {s : Link F} {sends : List SendPoll}
    (h : s.Numbered sends) {text : List Char} (ht : text ∈ s.data.sent) :
    ∃ packet : GCCDataPacket, text = packet.serialize ∧ packet.written.size = defaultPacketSize := by
  rw [h.sent] at ht
  obtain ⟨packet, hp, rfl⟩ := List.mem_map.mp ht
  obtain ⟨send, -, rfl⟩ := List.mem_map.mp hp
  exact ⟨_, rfl, rfl⟩

section Loop
variable {K : Type} [Field K] [LinearOrder K] [FloorRing K] {r : Rounding K}
  {bitsPerMs burst : Nat} {events : List LinkEvent} {os : List LinkView} {s s' : Link (Double r)}
  {o : LinkView} {senderConfig receiverConfig : NetworkControllerConfig (Double r)}

/-- The Receiver has measured what was delivered, and every rate that it reported keeps to it. -/
structure Squeezed (bitsPerMs burst : Nat) (events : List LinkEvent) (os : List LinkView)
    (s : Link (Double r)) : Prop where
  measured : MeasuredFrom ((receiveTimes events).map fullPacket) (bottleneckPeak bitsPerMs burst)
    s.receiver.gccControler
  reported : ∀ rate ∈ reportedRates os, rate ≤ peakLimit r (bottleneckPeak bitsPerMs burst)

theorem Squeezed.silent {event : LinkEvent} (h : Squeezed bitsPerMs burst events os s)
    (he : receiveTimes [event] = []) (ho : o.reported = none) (hr : s'.receiver = s.receiver) :
    Squeezed bitsPerMs burst (events ++ [event]) (os ++ [o]) s' := by
  constructor
  · rw [receiveTimes, List.filterMap_append, ← receiveTimes, ← receiveTimes, he, List.append_nil, hr]
    exact h.measured
  · rw [reportedRates_silent os ho]
    exact h.reported

variable [IsStrictOrderedRing K]

theorem Does.squeezed (hr : r.IsExact) (hsmall : bottleneckPeak bitsPerMs burst ≤ 2 ^ 52)
    {event : LinkEvent} {sends : List SendPoll} (h : s.Does event s' o) (hn : s.Numbered sends)
    (hb : Bottleneck bitsPerMs burst (events ++ [event])) (hq : Squeezed bitsPerMs burst events os s) :
    Squeezed bitsPerMs burst (events ++ [event]) (os ++ [o]) s' := by
  rcases h.idles_or_hears fun text => full_of_sent hn with
    hidle | ⟨index, env, packet, rfl, hsize, hhears⟩
  · exact hq.silent hidle.times hidle.reported hidle.receiver
  · obtain ⟨hfinite, hnonneg, hlimited⟩ := hb.received
    obtain ⟨hmeasured, htarget⟩ := hq.measured.onTransportPacketsFeedback hr hsmall hsize hfinite
      hnonneg hlimited
    rw [← hhears.controller] at hmeasured htarget
    constructor
    · rw [receiveTimes_received, List.map_append, List.map_singleton]
      exact hmeasured
    · intro rate hrate
      rw [reportedRates_concat, List.mem_append, Option.mem_toList] at hrate
      rcases hrate with hrate | hrate
      · exact hq.reported rate hrate
      · obtain ⟨hu, rfl⟩ := hhears.reported_iff.mp hrate
        exact htarget hu

theorem squeezed_of_trace (hr : r.IsExact) (hsmall : bottleneckPeak bitsPerMs burst ≤ 2 ^ 52)
    (hb : Bottleneck bitsPerMs burst events)
    (h : Trace step (new senderConfig receiverConfig) events os s) :
    Squeezed bitsPerMs burst events os s := by
  induction h with
  | nil =>
      exact ⟨measuredFrom_new receiverConfig (Int.natCast_nonneg _) (by exact_mod_cast hsmall),
        fun rate hrate => absurd hrate List.not_mem_nil⟩
  | snoc h hs ih =>
      obtain ⟨sends, -, hn⟩ := numbered_of_trace h
      exact (does_of_step hs).squeezed hr hsmall hn hb (ih hb.of_append)

/-- A REMB carries every rate that keeps to what the bottleneck lets through. -/
theorem Squeezed.ratesCarried (hq : Squeezed bitsPerMs burst events os s)
    (hfloor : ∀ rate ∈ reportedRates os, getMinBitrate ≤ rate)
    (hfits : 1500 * bitsPerMs + 10 * burst + 10000 < 10 ^ dataRateLen) :
    RatesCarried os ∧
      ∀ rate ∈ reportedRates os, rate ≤ .finite (1500 * bitsPerMs + 10 * burst + 10000) := by
  have hlength : 10 ^ dataRateLen = 10000000000 := rfl
  have hlimit : peakLimit r (bottleneckPeak bitsPerMs burst) ≤
      .finite (1500 * bitsPerMs + 10 * burst + 10000) := by
    refine peakLimit_le ?_ (Int.natCast_nonneg _) (by omega)
    unfold bottleneckPeak
    omega
  refine ⟨?_, fun rate hrate => (hq.reported rate hrate).trans hlimit⟩
  intro o ho rate hrate
  have hmem : rate ∈ reportedRates os := List.mem_filterMap.mpr ⟨o, ho, hrate⟩
  refine ⟨lt_of_lt_of_le ?_ (hfloor rate hmem), ?_⟩
  · exact finite_lt_finite.mpr (by decide)
  · refine ((hq.reported rate hmem).trans hlimit).trans_lt (finite_lt_finite.mpr ?_)
    exact_mod_cast hfits

theorem bottleneckPeak_small (hfits : 1500 * bitsPerMs + 10 * burst + 10000 < 10 ^ dataRateLen) :
    bottleneckPeak bitsPerMs burst ≤ 2 ^ 52 := by
  have hlength : 10 ^ dataRateLen = 10000000000 := rfl
  unfold bottleneckPeak
  omega

/-- Behind a bottleneck every REMB asks for at most one and a half times the rate that it lets
through, its burst, and ten kbps; from the first one that arrives the Sender is paced so too. -/
theorem rembs_obey_bottleneck (hr : r.IsExact)
    (senderConfig receiverConfig : NetworkControllerConfig (Double r)) (events : List LinkEvent)
    {s : Link (Double r)} (h : Trace step (new senderConfig receiverConfig) events os s)
    (hb : Bottleneck bitsPerMs burst events)
    (hfits : 1500 * bitsPerMs + 10 * burst + 10000 < 10 ^ dataRateLen) :
    RatesCarried os ∧
      (∀ rate ∈ rembs s.reports.sent, rate ≤ .finite (1500 * bitsPerMs + 10 * burst + 10000)) ∧
      (rembs s.reports.delivered ≠ [] → s.running.sender.sendControl.pacingRate ≤
        max minPacingRate (1500 * bitsPerMs + 10 * burst + 10000)) := by
  have hq := squeezed_of_trace hr (bottleneckPeak_small hfits) hb h
  obtain ⟨hc, hreported⟩ := hq.ratesCarried (floored_of_trace h).floor hfits
  have hsent : ∀ rate ∈ rembs s.reports.sent,
      rate ≤ .finite (1500 * bitsPerMs + 10 * burst + 10000) := by
    intro rate hrate
    rw [(announced_of_trace h hc).changes] at hrate
    exact hreported rate ((List.destutter_sublist _ _).subset hrate)
  refine ⟨hc, hsent, ?_⟩
  intro hne
  obtain ⟨hsteady, hpaces⟩ := steady_of_trace h
  have hrate := hsteady.pacingRate_eq hpaces
  rw [(follows_of_trace h hc).1] at hrate
  have hlast := List.getLast_mem hne
  rw [List.getLast?_eq_some_getLast hne, Option.getD_some] at hrate
  have hdelivered : (rembs s.reports.delivered).getLast hne ∈ rembs s.reports.sent := by
    obtain ⟨text, ht, hsome⟩ := List.mem_filterMap.mp hlast
    exact List.mem_filterMap.mpr ⟨text, Channel.mem_sent_of_mem_delivered ht, hsome⟩
  have hle : (.finite s.running.sender.sendControl.pacingRate : DataRate) ≤
      max (.finite minPacingRate) (.finite (1500 * bitsPerMs + 10 * burst + 10000)) := by
    rw [hrate]
    exact max_le_max (le_refl _) ((min_le_right _ _).trans (hsent _ hdelivered))
  rw [max_finite, finite_le_finite] at hle
  exact_mod_cast hle

end Loop

/-- Packets half a second apart pass a bottleneck of 25 bits per millisecond one at a time. -/
theorem bottleneck_lossyRun : Bottleneck 25 11776 lossyRun where
  clock := by decide +kernel
  limited run hrun := by
    have hall : ∀ run ∈ (receiveTimes lossyRun).sublists, run.Pairwise (fun t u => t.ms ≤ u.ms) →
        ∀ first ∈ run.head?, ∀ last ∈ run.getLast?,
          8 * (defaultPacketSize * run.length : Int) ≤ 25 * (last.ms - first.ms) + 11776 := by
      decide +kernel
    exact hall run (List.mem_sublists.mpr hrun.sublist)

theorem rembs_obey_bottleneck_lossyRun :
    ∃ os s, Trace step (new (System.startedAt 300000) (System.startedAt 300000)) lossyRun os s ∧
      rembs s.reports.delivered = [.finite 24552] ∧ RatesCarried os ∧
      (∀ rate ∈ rembs s.reports.sent, rate ≤ .finite 165260) ∧
      s.running.sender.sendControl.pacingRate ≤ 165260 := by
  have h := trace_final lossyRun_succeeds
  have hdelivered : rembs (final step (new (System.startedAt 300000) (System.startedAt 300000))
      lossyRun).reports.delivered = [.finite 24552] := by decide +kernel
  obtain ⟨hc, hsent, hpacing⟩ := rembs_obey_bottleneck Rounding.exact_isExact _ _ lossyRun h
    bottleneck_lossyRun (by decide)
  refine ⟨_, _, h, hdelivered, hc, hsent, hpacing ?_⟩
  rw [hdelivered]
  exact List.cons_ne_nil _ _

end Link
end ChromeGcc
