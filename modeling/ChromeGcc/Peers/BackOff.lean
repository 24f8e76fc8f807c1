import ChromeGcc.Peers.Falling

/-! Behind a bottleneck a REMB that asks for less than the one before asks for less than the
bottleneck lets through, so that its queue can drain. -/
namespace ChromeGcc
open Machine UnitBase FloatArith

/-- The most that is asked for after an overuse: 85 percent of the largest throughput, and six kbps. -/
def backOffLimit (peak : Int) : DataRate := .finite (17 * peak / 20 + 6000)

namespace AimdRateControl
section Frame
variable {F : Type} [FloatArith F] (c : AimdRateControl F)

theorem minimum_changeBitrate (input : RateControlInput) (t : Timestamp) :
    (c.changeBitrate input t).minConfiguredBitrate = c.minConfiguredBitrate := by
  by_cases hacts : c.Acts input
  · have hactive := (c.sameThroughput_activeState input t).minimum
    rw [changeBitrate_active c hacts]
    cases (c.activeState input t).rateControlState with
    | kRcHold => exact hactive
    | kRcIncrease => exact (sameThroughput_changeBitrateIncrease _ _ t).minimum.trans hactive
    | kRcDecrease => exact (sameThroughput_changeBitrateDecrease _ _ t).minimum.trans hactive
  · obtain ⟨hinit, hbw⟩ := not_or.mp hacts
    rw [changeBitrate_uninitialized (by simpa using hinit) hbw]

theorem minimum_update (input : RateControlInput) (t : Timestamp) :
    (c.update input t).minConfiguredBitrate = c.minConfiguredBitrate := by
  rw [update, minimum_changeBitrate]
  rcases initializeBitrate_cases c input t with hc | hc | ⟨x, -, hc⟩
  · rw [hc]
  · rw [hc]
  · rw [hc]

end Frame

section Exact
variable {K : Type} [Field K] [LinearOrder K] [FloorRing K] [IsStrictOrderedRing K] {r : Rounding K}
  {peak : Int} {c : AimdRateControl (Double r)}

theorem scale_beta_le (hr : r.IsExact) {v : Int} (hv : v ≤ peak) :
    (.finite v : DataRate).scale (lit 0.85 : Double r) ≤ backOffLimit peak := by
  have hcast : (v : K) ≤ peak := by exact_mod_cast hv
  have hquotient : (17 * peak : K) ≤ 20 * ((17 * peak / 20 : Int) : K) + 20 := by
    have hint : 17 * peak ≤ 20 * (17 * peak / 20) + 20 := by omega
    exact_mod_cast hint
  refine finite_le_finite.mpr (truncField_le ?_)
  rw [val_round, Int.cast_le, toValue_finite]
  refine roundField_le ?_
  rw [val_mul, val_ofInt, val_lit_exact hr, hr.rnd, hr.rnd]
  push_cast
  norm_num
  linarith

/-- An overuse leaves at most the scaled throughput. -/
theorem update_overusing_le (hr : r.IsExact) (h : Limited peak c)
    (hmin : c.minConfiguredBitrate ≤ backOffLimit peak) {input : RateControlInput}
    (hover : input.bwState = .kBwOverusing) {x : DataRate} (hx : input.estimatedThroughput = some x)
    (hmeasured : Measured peak x) (t : Timestamp) :
    (c.update input t).currentBitrate ≤ backOffLimit peak := by
  have hdecrease : ∀ d : AimdRateControl (Double r), d.beta = c.beta →
      d.minConfiguredBitrate = c.minConfiguredBitrate →
      (d.changeBitrate input t).currentBitrate ≤ backOffLimit peak := by
    intro d hbeta hsame
    obtain ⟨v, rfl, -, hv⟩ := hmeasured
    have hactive := d.sameThroughput_activeState input t
    have hstate : (d.activeState input t).rateControlState = .kRcDecrease := by
      rw [activeState, hover]
      rfl
    rw [changeBitrate_active d (.inr hover), hstate, hx]
    refine max_le ((decreased_le _ _ t).trans ?_) ?_
    · rw [hactive.beta, hbeta, h.beta]
      exact scale_beta_le hr hv
    · rw [(sameThroughput_changeBitrateDecrease _ _ t).minimum, hactive.minimum, hsame]
      exact hmin
  rw [update]
  rcases initializeBitrate_cases c input t with hc | hc | ⟨y, -, hc⟩
  · rw [hc]
    exact hdecrease c rfl rfl
  · rw [hc]
    exact hdecrease _ rfl rfl
  · rw [hc]
    exact hdecrease _ rfl rfl

/-- So does half of an estimate. -/
theorem setEstimate_half_le_backOff (hr : r.IsExact) (hpeak : 0 ≤ peak) (hsmall : peak ≤ 2 ^ 52)
    (h : Limited peak c) (hk : c.Kept) (hinit : c.bitrateIsInitialized = true)
    (hmin : c.minConfiguredBitrate ≤ backOffLimit peak) (t : Timestamp) :
    (c.setEstimate (c.latestEstimate.divInt (Double r) 2) t).currentBitrate ≤ backOffLimit peak := by
  obtain ⟨-, -, hrate, -⟩ := DelayBasedBwe.setEstimate_half c t
  refine hrate.trans_le (max_le hmin ?_)
  have hlimit : peakLimit r peak ≤ .finite ((3 * peak + 1) / 2 + 10000) :=
    peakLimit_le (by omega) hpeak (by omega)
  obtain ⟨v, hv⟩ := isFinite_iff.mp hk.sound.rateFinite
  change c.currentBitrate = .finite v at hv
  have hle := (h.rate hinit).trans hlimit
  have hfloor := hk.fiveKbps_le
  rw [hv] at hle hfloor ⊢
  have hpos : 5000 ≤ v := finite_le_finite.mp hfloor
  rw [finite_le_finite] at hle
  rw [DelayBasedBwe.divInt_exact hr, backOffLimit, finite_le_finite,
    Int.tdiv_eq_ediv_of_nonneg (by omega)]
  omega

end Exact
end AimdRateControl

section Controller
variable {K : Type} [Field K] [LinearOrder K] [FloorRing K] {r : Rounding K} {peak : Int}
open AimdRateControl BitrateEstimator

/-- The minimum of the estimate is within the limit of a back-off, and so is what an overuse leaves. -/
structure DelayBasedBwe.BacksOff (peak : Int) (after : DelayBasedBwe (Double r) × BweResult) : Prop where
  minimum : after.1.rateControl.minConfiguredBitrate ≤ backOffLimit peak
  rate : after.1.activeState = .kBwOverusing → after.2.updated = true →
    after.2.targetBitrate ≤ backOffLimit peak

variable [IsStrictOrderedRing K]

theorem DelayBasedBwe.backsOff_maybeUpdateEstimate (hr : r.IsExact) (hpeak : 0 ≤ peak)
    (hsmall : peak ≤ 2 ^ 52) {d : DelayBasedBwe (Double r)} (h : Limited peak d.rateControl)
    (hk : d.rateControl.Kept) (hmin : d.rateControl.minConfiguredBitrate ≤ backOffLimit peak)
    {acked : Option DataRate} (hacked : ∀ x, acked = some x → Measured peak x) (recovered : Bool)
    (t : Timestamp) : BacksOff peak (d.maybeUpdateEstimate acked recovered false t) := by
  have hstate := d.activeState_maybeUpdateEstimate acked recovered t false
  cases d.outcome_maybeUpdateEstimate acked recovered t with
  | waits hover hrate hnot =>
      refine ⟨hrate ▸ hmin, ?_⟩
      intro _ hu
      rw [hnot] at hu
      cases hu
  | updates hknown hrate hupdated htarget =>
      constructor
      · rw [hrate, minimum_update]
        exact hmin
      · intro hover _
        rw [hstate] at hover
        obtain ⟨x, rfl⟩ := Option.isSome_iff_exists.mp (hknown hover)
        rw [htarget, hrate]
        exact update_overusing_le hr h hmin hover rfl (hacked x rfl) t
  | halves hover hvalid hrate hupdated htarget =>
      constructor
      · rw [hrate]
        exact (setEstimate_half d.rateControl t).2.1.trans_le hmin
      · intro _ _
        rw [htarget, hrate]
        exact setEstimate_half_le_backOff hr hpeak hsmall h hk hvalid hmin t

theorem DelayBasedBwe.backsOff_incomingPacketFeedbackVector (hr : r.IsExact) (hpeak : 0 ≤ peak)
    (hsmall : peak ≤ 2 ^ 52) {d : DelayBasedBwe (Double r)} (h : Limited peak d.rateControl)
    (hk : d.rateControl.Kept) (hmin : d.rateControl.minConfiguredBitrate ≤ backOffLimit peak)
    {acked : Option DataRate} (hacked : ∀ x, acked = some x → Measured peak x)
    (msg : TransportPacketsFeedback) :
    BacksOff peak (d.incomingPacketFeedbackVector msg acked false) := by
  unfold incomingPacketFeedbackVector
  dsimp only
  split_ifs with hempty
  · exact ⟨hmin, fun _ hu => by cases hu⟩
  · have hfed := rateControl_feedPackets d msg.sortedByReceiveTime msg.feedbackTime
    rw [hfed]
    exact backsOff_maybeUpdateEstimate (d := { (d.feedPackets msg.sortedByReceiveTime
        msg.feedbackTime).1 with rateControl := d.rateControl.setInApplicationLimitedRegion false })
      hr hpeak hsmall ⟨h.beta, h.minimum, h.rate, h.throughput⟩ (hk.setInApplicationLimitedRegion false)
      hmin hacked _ _

/-- Behind a bottleneck the packet that shows an overuse leaves an estimate within the limit. -/
theorem GoogCcNetworkController.MeasuredFrom.backsOff (hr : r.IsExact) {bitsPerMs burst : Nat}
    (hsmall : (3000 * bitsPerMs + 20 * burst) / 3 ≤ 2 ^ 52) {g : GoogCcNetworkController (Double r)}
    {us : List Ack} (h : MeasuredFrom us ((3000 * bitsPerMs + 20 * burst) / 3 : Nat) g)
    (hmin : g.delayBasedBwe.rateControl.minConfiguredBitrate ≤
      backOffLimit ((3000 * bitsPerMs + 20 * burst) / 3 : Nat))
    {packet : GCCDataPacket} (hsize : packet.size = defaultPacketSize) {env : ReceiverEnv}
    (hfinite : env.receiveTime.isFinite = true) (hnonneg : .zero ≤ env.receiveTime)
    (hl : RateLimited bitsPerMs burst (us ++ [fullPacket env.receiveTime])) :
    DelayBasedBwe.BacksOff ((3000 * bitsPerMs + 20 * burst) / 3 : Nat)
      ((g.onTransportPacketsFeedback (Receiver.feedbackOf packet env)).delayBasedBwe,
        (g.onTransportPacketsFeedback (Receiver.feedbackOf packet env)).recentResult) := by
  have hmsg : ¬ (Receiver.feedbackOf packet env).packetFeedbacks.isEmpty = true := Bool.false_ne_true
  obtain ⟨-, -, hbwe, hresult⟩ := onTransportPacketsFeedback_fields h.rateKept.allReports hmsg
  rw [hbwe, hresult]
  exact DelayBasedBwe.backsOff_incomingPacketFeedbackVector hr (Int.natCast_nonneg _)
    (by exact_mod_cast hsmall) h.limited h.rateKept.rateControl hmin
    (fun x => h.measured (x := x) hr hsize hfinite hnonneg hl) _

end Controller

namespace Link
section Loop
variable {K : Type} [Field K] [LinearOrder K] [FloorRing K] {r : Rounding K} {bitsPerMs burst : Nat}
  {events : List LinkEvent} {os : List LinkView} {s s' : Link (Double r)} {o : LinkView}
  {senderConfig receiverConfig : NetworkControllerConfig (Double r)}

/-- The minimum of the Receiver's estimate is within the limit of a back-off. -/
def Drains (bitsPerMs burst : Nat) (s : Link (Double r)) : Prop :=
  s.receiver.gccControler.delayBasedBwe.rateControl.minConfiguredBitrate ≤
    backOffLimit (bottleneckPeak bitsPerMs burst)

theorem drains_new : (new senderConfig receiverConfig : Link (Double r)).Drains bitsPerMs burst := by
  have hmin : getMinBitrate = (.finite 5000 : DataRate) := rfl
  refine hmin.trans_le (finite_le_finite.mpr ?_)
  omega

variable [IsStrictOrderedRing K]

/-- What a step reports while the detector reports overuse is within the limit. -/
theorem Does.drains (hr : r.IsExact) (hsmall : bottleneckPeak bitsPerMs burst ≤ 2 ^ 52)
    {event : LinkEvent} {sends : List SendPoll} (h : s.Does event s' o) (hn : s.Numbered sends)
    (hb : Bottleneck bitsPerMs burst (events ++ [event]))
    (hq : Squeezed bitsPerMs burst events os s) (hd : s.Drains bitsPerMs burst) :
    s'.Drains bitsPerMs burst ∧
      (s'.receiver.gccControler.delayBasedBwe.activeState = .kBwOverusing →
        ∀ rate ∈ o.reported, rate ≤ backOffLimit (bottleneckPeak bitsPerMs burst)) := by
  rcases h.idles_or_hears fun text => full_of_sent hn with
    hidle | ⟨index, env, packet, rfl, hsize, hhears⟩
  · unfold Drains
    rw [hidle.receiver, hidle.reported]
    exact ⟨hd, fun _ rate hrate => absurd hrate (Option.not_mem_none rate)⟩
  · obtain ⟨hfinite, hnonneg, hlimited⟩ := hb.received
    obtain ⟨hminimum, hrate⟩ := hq.measured.backsOff hr hsmall hd hsize hfinite hnonneg hlimited
    rw [← hhears.controller] at hminimum hrate
    refine ⟨hminimum, ?_⟩
    intro hover rate hmem
    obtain ⟨hu, rfl⟩ := hhears.reported_iff.mp hmem
    exact hrate hover hu

/-- Of two rates reported one after the other the lower one is within the limit of a back-off. -/
theorem reportedRates_drain (hr : r.IsExact) (hsmall : bottleneckPeak bitsPerMs burst ≤ 2 ^ 52)
    (hb : Bottleneck bitsPerMs burst events) (hclocked : Clocked os)
    (h : Trace step (new senderConfig receiverConfig) events os s) :
    s.Drains bitsPerMs burst ∧ ((reportedRates os).destutter (· ≠ ·)).IsChain fun before rate =>
      rate < before → rate ≤ backOffLimit (bottleneckPeak bitsPerMs burst) := by
  induction h with
  | nil => exact ⟨drains_new, .nil⟩
  | @snoc events event s os s' o h hs ih =>
      obtain ⟨hdrains, hchain⟩ := ih hb.of_append hclocked.of_append
      obtain ⟨sends, -, hn⟩ := numbered_of_trace h
      obtain ⟨hafter, hlimit⟩ := (does_of_step hs).drains hr hsmall hn hb
        (squeezed_of_trace hr hsmall hb.of_append h) hdrains
      obtain ⟨-, -, hrises⟩ := (does_of_step hs).judged hr (textsData_of_trace h) hclocked
        (judged_of_trace hr hclocked.of_append h)
      refine ⟨hafter, ?_⟩
      rw [reportedRates_concat]
      cases ho : o.reported with
      | none => rwa [Option.toList_none, List.append_nil]
      | some rate =>
          rw [ho] at hlimit hrises
          rw [Option.toList_some, destutter_concat]
          split_ifs
          · exact hchain
          · refine hchain.append (List.isChain_singleton rate) ?_
            intro before hbefore last hlast hless
            cases hlast
            rw [getLast?_destutter] at hbefore
            refine hlimit ?_ rate rfl
            by_contra hcalm
            exact absurd (hrises hcalm before hbefore rate rfl) (not_le.mpr hless)

theorem backOffLimit_bottleneck (bitsPerMs burst : Nat) :
    backOffLimit (bottleneckPeak bitsPerMs burst) ≤ .finite (850 * bitsPerMs + 6 * burst + 6000) := by
  refine finite_le_finite.mpr ?_
  unfold bottleneckPeak
  omega

/-- Of two REMBs sent one after the other the lower one is within the limit of a back-off. -/
theorem rembs_drain (hr : r.IsExact) (h : Trace step (new senderConfig receiverConfig) events os s)
    (hb : Bottleneck bitsPerMs burst events)
    (hfits : 1500 * bitsPerMs + 10 * burst + 10000 < 10 ^ dataRateLen) (hclocked : Clocked os) :
    RatesCarried os ∧ (rembs s.reports.sent).IsChain fun before rate =>
      rate < before → rate ≤ backOffLimit (bottleneckPeak bitsPerMs burst) := by
  have hsmall := bottleneckPeak_small hfits
  obtain ⟨hc, -⟩ := (squeezed_of_trace hr hsmall hb h).ratesCarried (floored_of_trace h).floor hfits
  obtain ⟨-, hchain⟩ := reportedRates_drain hr hsmall hb hclocked h
  rw [(announced_of_trace h hc).changes]
  exact ⟨hc, hchain⟩

/-- Behind a bottleneck a REMB that asks for less than the one before asks for at most 85 percent of
the rate that it lets through, six burst sizes, and six kbps. -/
theorem rembs_fall_below_bottleneck (hr : r.IsExact)
    (senderConfig receiverConfig : NetworkControllerConfig (Double r)) (events : List LinkEvent)
    {s : Link (Double r)} (h : Trace step (new senderConfig receiverConfig) events os s)
    (hb : Bottleneck bitsPerMs burst events)
    (hfits : 1500 * bitsPerMs + 10 * burst + 10000 < 10 ^ dataRateLen) (hclocked : Clocked os) :
    (rembs s.reports.sent).IsChain fun before rate => rate < before →
      rate ≤ .finite (850 * bitsPerMs + 6 * burst + 6000) := by
  obtain ⟨-, hchain⟩ := rembs_drain hr h hb hfits hclocked
  refine hchain.imp ?_
  intro before rate hrate hless
  exact (hrate hless).trans (backOffLimit_bottleneck bitsPerMs burst)

end Loop

/-- A bottleneck of 400 bits per millisecond lets a full packet through every 30 milliseconds. -/
theorem bottleneck_congestedRun : Bottleneck 400 11776 (congestedRun ++ [nextDataAt 5860]) where
  clock := by decide +kernel
  limited run hrun := by
    have hall : ∀ run ∈ (receiveTimes (congestedRun ++ [nextDataAt 5860])).tails.flatMap List.inits,
        run.Pairwise (fun t u => t.ms ≤ u.ms) → ∀ first ∈ run.head?, ∀ last ∈ run.getLast?,
          8 * (defaultPacketSize * run.length : Int) ≤ 400 * (last.ms - first.ms) + 11776 := by
      decide +kernel
    obtain ⟨later, hbegins, hends⟩ := List.infix_iff_prefix_suffix.mp hrun
    exact hall run (List.mem_flatMap.mpr
      ⟨later, (List.mem_tails _ _).mpr hends, (List.mem_inits _ _).mpr hbegins⟩)

theorem rembs_fall_below_bottleneck_congestedRun :
    ∃ os s, Trace step (new (System.startedAt 300000) (System.startedAt 300000))
        (congestedRun ++ [nextDataAt 5860]) os s ∧
      rembs s.reports.sent = [.finite 70607, .finite 59166] ∧
      (rembs s.reports.sent).IsChain fun before rate => rate < before → rate ≤ .finite 416656 := by
  obtain ⟨os, s, h, hsent, -, hclocked⟩ := congestedRun_after
  exact ⟨os, s, h, hsent, rembs_fall_below_bottleneck Rounding.exact_isExact _ _ _ h
    bottleneck_congestedRun (by decide) hclocked⟩

end Link
end ChromeGcc
