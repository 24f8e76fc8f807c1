import ChromeGcc.Peers.Lossless
import ChromeGcc.SendSide.Fall

/-! What slows the Sender down. Its controller in the closed loop is the one that has heard the
delivered reports, so what is known of the estimation's calls holds of the loop. -/
namespace ChromeGcc
open Machine UnitBase FloatArith GoogCcNetworkController SendSideBandwidthEstimation

/-- The target as the receiver's limit caps it. -/
def SendSideBandwidthEstimation.capped {F : Type} [FloatArith F] (e : SendSideBandwidthEstimation F) :
    DataRate := min e.currentTarget e.receiverLimit

/-- The report that a datagram brings to the Sender's controller, if it brings one. -/
def reportOf (text : List Char) (now : Timestamp) : Option Report :=
  match rembRate text with
  | some bandwidth => some (.remoteBitrate { bandwidth := bandwidth, receiveTime := now })
  | none => (lossReport text).map fun packet => .transportLoss
      { startTime := packet.startTime
        endTime := packet.endTime
        packetsLostDelta := packet.packetsLostDelta
        packetsReceivedDelta := packet.packetsReceivedDelta
        receiveTime := now }

theorem reportOf_call {text : List Char} {now : Timestamp} {report : Report}
    (h : reportOf text now = some report) : report.toCall.1 = now ∧
      (∀ rate, report.toCall.2 = .updateReceiverEstimate rate → rembRate text = some rate) ∧
      ∀ lost n, report.toCall.2 = .updatePacketsLost lost n →
        ∃ packet, lossReport text = some packet := by
  unfold reportOf at h
  cases hrate : rembRate text with
  | some bandwidth =>
      rw [hrate] at h
      cases h
      refine ⟨rfl, ?_, ?_⟩
      · intro rate hcall
        cases hcall
        rfl
      · intro lost n hcall
        cases hcall
  | none =>
      rw [hrate] at h
      obtain ⟨packet, hpacket, rfl⟩ := Option.map_eq_some_iff.mp h
      refine ⟨rfl, ?_, fun _ _ _ => ⟨packet, hpacket⟩⟩
      intro rate hcall
      cases hcall

namespace Sender
variable {F : Type} [FloatArith F] {s s' : Sender F} {text : List Char} {now : Timestamp}

/-- A handled datagram is heard as its report. -/
theorem gccControler_receivePacket (hs : s.receivePacket (some text) now = (.ok (), s')) :
    s'.gccControler = (reportOf text now).toList.foldl onReport s.gccControler := by
  cases text with
  | nil =>
      cases hs
      rfl
  | cons c text =>
      change s.onPacketReceived (c :: text) now = (.ok (), s') at hs
      unfold onPacketReceived at hs
      cases ht : getType (c :: text) with
      | error e =>
          rw [ht] at hs
          cases hs
      | ok type =>
          rw [ht] at hs
          cases type with
          | data =>
              cases hs
              rw [reportOf, rembRate_of_type ht (by decide), lossReport, ht]
              rfl
          | rr =>
              rw [reportOf, rembRate_of_type ht (by decide), lossReport, ht]
              simp only [dispatch, onRRPacketReceived] at hs
              rcases hparse : GCCRRPacketParser.unSerialize (c :: text) {} with ⟨outcome, packet⟩
              rw [hparse] at hs
              cases outcome with
              | error e => cases hs
              | ok u =>
                  cases hs
                  rfl
          | remb =>
              rw [reportOf, rembRate, ht]
              simp only [dispatch, onREMBPacketReceived] at hs
              rcases hparse : GCCREMBPacketParser.unSerialize (c :: text) {} with ⟨outcome, packet⟩
              rw [hparse] at hs
              cases outcome with
              | error e => cases hs
              | ok u =>
                  cases hs
                  rfl

/-- A Sender that is paced more slowly has a lower capped target. -/
theorem Steady.capped_lt (h : s.Steady) (hp : s.Paces) (h' : s'.Steady) (hp' : s'.Paces)
    (hslower : s'.sendControl.pacingRate < s.sendControl.pacingRate) :
    s'.gccControler.bandwidthEstimation.capped < s.gccControler.bandwidthEstimation.capped := by
  by_contra hnot
  have hle := max_le_max_left (.finite minPacingRate : DataRate) (not_lt.mp hnot)
  change max _ (min _ s.gccControler.getReceiverLimit) ≤
    max _ (min _ s'.gccControler.getReceiverLimit) at hle
  rw [← h.pacingRate_eq hp, ← h'.pacingRate_eq hp', finite_le_finite] at hle
  omega

end Sender

namespace Link

/-- The reports that were delivered to the Sender, each at the time of its delivery. -/
def heard (os : List LinkView) : List Report :=
  os.flatMap fun o =>
    match o.event with
    | some (.deliver _ now) => o.traffic.delivered.filterMap (reportOf · now)
    | _ => []

theorem heard_snoc (os : List LinkView) (o : LinkView) : heard (os ++ [o]) = heard os ++ heard [o] :=
  List.flatMap_append

theorem heard_deliver (index : Nat) (now : Timestamp) (text : List Char) :
    heard [{ event := some (.deliver index now), traffic := { delivered := [text] } }] =
      (reportOf text now).toList := by
  cases hreport : reportOf text now <;> simp [heard, hreport]

section Heard
variable {F : Type} [FloatArith F] {s s' : Link F} {o : LinkView} {os : List LinkView}
  {events : List LinkEvent} {event : LinkEvent}
  {senderConfig receiverConfig : NetworkControllerConfig F}

theorem Does.gccControler (h : s.Does event s' o) :
    s'.running.sender.gccControler = (heard [o]).foldl onReport s.running.sender.gccControler := by
  cases h with
  | poll step => exact (RunningSender.polled_of_step step).gccControler
  | deliverData delivers received => rfl
  | dropData drops => rfl
  | deliverReport delivers received =>
      rw [heard_deliver]
      exact Sender.gccControler_receivePacket received
  | dropReport drops => rfl

/-- What changes the estimation is a delivered report, which is a call on it. -/
theorem Does.exists_report (h : s.Does event s' o)
    (hf : s.running.sender.gccControler.packetFeedbackOnly = false)
    (hchanged : s'.running.sender.gccControler.bandwidthEstimation ≠
      s.running.sender.gccControler.bandwidthEstimation) :
    ∃ index now text report, event = .deliverReport index now ∧ o.traffic.delivered = [text] ∧
      reportOf text now = some report ∧ heard [o] = [report] ∧
      s'.running.sender.gccControler.bandwidthEstimation =
        s.running.sender.gccControler.bandwidthEstimation.call report.toCall.1 report.toCall.2 := by
  have hcontroller := h.gccControler
  have hheard : heard [o] ≠ [] := by
    intro hnone
    rw [hnone] at hcontroller
    exact hchanged (congrArg bandwidthEstimation hcontroller)
  cases h with
  | poll step => exact absurd rfl hheard
  | deliverData delivers received => exact absurd rfl hheard
  | dropData drops => exact absurd rfl hheard
  | dropReport drops => exact absurd rfl hheard
  | @deliverReport index now text reports sender delivers received =>
      rw [heard_deliver] at hheard hcontroller ⊢
      cases hreport : reportOf text now with
      | none =>
          rw [hreport] at hheard
          exact absurd rfl hheard
      | some report =>
          refine ⟨index, now, text, report, rfl, rfl, hreport, rfl, ?_⟩
          rw [hcontroller, hreport, Option.toList_some, List.foldl_cons, List.foldl_nil, onReport_eq hf]

/-- The Sender's controller has heard the delivered reports, and nothing else. -/
theorem gccControler_of_trace (h : Trace step (new senderConfig receiverConfig) events os s) :
    s.running.sender.gccControler =
      GoogCcNetworkController.afterReports senderConfig (heard os) := by
  induction h with
  | nil => rfl
  | @snoc events os s s' event o h hs ih =>
      rw [(does_of_step hs).gccControler, ih, heard_snoc, GoogCcNetworkController.afterReports,
        GoogCcNetworkController.afterReports, List.foldl_append]

/-- The calls on the Sender's estimation. -/
def senderCalls (os : List LinkView) : List (Timestamp × Call) := (heard os).map Report.toCall

theorem estimation_of_trace (h : Trace step (new senderConfig receiverConfig) events os s) :
    s.running.sender.gccControler.bandwidthEstimation = afterCalls F (senderCalls os) := by
  rw [gccControler_of_trace h]
  exact (afterReports_estimation senderConfig (heard os)).2

/-- What slows the Sender down is a delivered report, the last call so far on its estimation, which
lowers the capped target. -/
theorem exists_report_of_slower (h : Trace step (new senderConfig receiverConfig) events os s)
    (hs : s.step event = .ok (s', o))
    (hslower : s'.running.sender.sendControl.pacingRate < s.running.sender.sendControl.pacingRate) :
    ∃ index now text report, event = .deliverReport index now ∧ o.traffic.delivered = [text] ∧
      reportOf text now = some report ∧ senderCalls (os ++ [o]) = senderCalls os ++ [report.toCall] ∧
      s'.running.sender.gccControler.bandwidthEstimation =
        s.running.sender.gccControler.bandwidthEstimation.call report.toCall.1 report.toCall.2 ∧
      s'.running.sender.gccControler.bandwidthEstimation.capped <
        s.running.sender.gccControler.bandwidthEstimation.capped := by
  obtain ⟨hsteady, hpaces⟩ := steady_of_trace h
  obtain ⟨hsteady', hpaces'⟩ := steady_of_trace (h.snoc hs)
  have hlower := hsteady.capped_lt hpaces hsteady' hpaces' hslower
  have hchanged : s'.running.sender.gccControler.bandwidthEstimation ≠
      s.running.sender.gccControler.bandwidthEstimation := fun hsame => by
    rw [hsame] at hlower
    exact lt_irrefl _ hlower
  obtain ⟨index, now, text, report, hevent, htext, hreport, hheard, hcall⟩ :=
    (does_of_step hs).exists_report hsteady.feedback hchanged
  refine ⟨index, now, text, report, hevent, htext, hreport, ?_, hcall, hlower⟩
  rw [senderCalls, heard_snoc, hheard, List.map_append]
  rfl

/-- Every packet that the network dropped is among those that its channel dropped. -/
theorem noDrop_of_dropped (h : Trace step (new senderConfig receiverConfig) events os s)
    (hd : s.data.dropped = []) (index : Nat) : .dropData index ∉ events := by
  induction h with
  | nil => exact List.not_mem_nil
  | @snoc events os s s' event o h hs ih =>
      have hstep : s.data.dropped = [] ∧ event ≠ .dropData index := by
        cases does_of_step hs with
        | poll step => exact ⟨hd, LinkEvent.noConfusion⟩
        | deliverData delivers received =>
            exact ⟨delivers.dropped.symm.trans hd, LinkEvent.noConfusion⟩
        | dropData drops =>
            rw [drops.dropped] at hd
            exact absurd hd (List.concat_ne_nil _ _)
        | deliverReport delivers received => exact ⟨hd, LinkEvent.noConfusion⟩
        | dropReport drops => exact ⟨hd, LinkEvent.noConfusion⟩
      intro he
      rcases List.mem_append.mp he with he | he
      · exact ih hstep.1 he
      · exact hstep.2 (List.mem_singleton.mp he).symm

end Heard
end Link

section Rounded
variable {K : Type} [Field K] [LinearOrder K] [FloorRing K] [IsStrictOrderedRing K] {r : Rounding K}

namespace SendSideBandwidthEstimation
variable {e : SendSideBandwidthEstimation (Double r)} {t s : Timestamp}
  {jump : Option (Timestamp × DataRate)}

/-- A call lowers the capped target by a limit that becomes it, or by a report of high loss. -/
theorem capped_call_lt (hreg : e.core.Regular) (hover : StartPhaseOver e s) (hst : s ≤ t)
    (hramp : Ramp r e.core.history e.core.target jump t)
    (hexpired : ∀ tj rj, jump = some (tj, rj) → historyExpired t tj = true)
    (hthreshold : e.highLossThreshold = kDefaultHighLossThreshold (Double r)) {c : Call}
    (hlower : (e.call t c).capped < e.capped) :
    (∃ rate, c = .updateReceiverEstimate rate ∧ (e.call t c).capped = rate) ∨
      ∃ lost n, c = .updatePacketsLost lost n ∧ 26 ≤ (e.call t c).lastFractionLoss := by
  have hfalls := falls_call hreg hover hst hramp hexpired c
  cases c with
  | updateReceiverEstimate bandwidth =>
      left
      refine ⟨bandwidth, rfl, ?_⟩
      have htarget : (e.call t (.updateReceiverEstimate bandwidth)).currentTarget = e.currentTarget :=
        (congrArg Core.target (core_updateReceiverEstimate e t bandwidth)).trans
          (hreg.clamp_of_inRange hreg.target)
      have hlimit : (e.call t (.updateReceiverEstimate bandwidth)).receiverLimit =
          if bandwidth.isZero then .plusInfinity else bandwidth :=
        receiverLimit_updateReceiverEstimate _ _ _
      unfold capped at hlower ⊢
      rw [htarget, hlimit] at hlower ⊢
      split_ifs at hlower ⊢ with hzero
      · rw [min_eq_left (le_plusInfinity _)] at hlower
        exact absurd hlower (not_lt.mpr (min_le_left _ _))
      · refine min_eq_right (le_of_not_ge fun hle => ?_)
        rw [min_eq_left hle] at hlower
        exact absurd hlower (not_lt.mpr (min_le_left _ _))
  | updatePacketsLost lost n =>
      right
      refine ⟨lost, n, rfl, ?_⟩
      have hlimit : (e.call t (.updatePacketsLost lost n)).receiverLimit = e.receiverLimit :=
        receiverLimit_updatePacketsLost e lost n t
      rcases hfalls with ⟨m, -, hfraction, hlossy, -⟩ | ⟨-, hle⟩
      · rw [hfraction]
        by_contra hfew
        rw [hthreshold] at hlossy
        exact hlossy (lossFraction_le_high (by omega))
      · unfold capped at hlower
        rw [hlimit] at hlower
        exact absurd hlower (not_lt.mpr (min_le_min_right _ hle))

end SendSideBandwidthEstimation

namespace Link
variable {s s' : Link (Double r)} {o : LinkView} {os : List LinkView} {events : List LinkEvent}
  {event : LinkEvent} {t : Int}

/-- Why a step slowed the Sender down: it delivered a REMB that asks for less than its rate, which
is now what it asks for; or a report with which more than a tenth of the packets were lost, and if
the data channel keeps the order, it really dropped some. -/
def SlowedBy (s s' : Link (Double r)) (events : List LinkEvent) (text : List Char) : Prop :=
  (∃ rate, rembRate text = some rate ∧ rate < .finite s.running.sender.sendControl.pacingRate ∧
    .finite s'.running.sender.sendControl.pacingRate = max (.finite minPacingRate) rate) ∨
  (∃ packet, lossReport text = some packet ∧
    26 ≤ s'.running.sender.gccControler.bandwidthEstimation.lastFractionLoss ∧
    (Orderly events → s'.data.dropped ≠ []))

/-- Once the start phase has been over for a second, only a REMB that asks for less or a report of
high loss slows the Sender down. -/
theorem slowed_only_by_report (r : Rounding K)
    (senderConfig receiverConfig : NetworkControllerConfig (Double r)) (events : List LinkEvent)
    {s s' : Link (Double r)} (h : Trace step (new senderConfig receiverConfig) events os s)
    (hs : s.step event = .ok (s', o)) (horder : InOrder (senderCalls (os ++ [o])))
    (hover : StartPhaseOver s.running.sender.gccControler.bandwidthEstimation (.finite (t - 1000000)))
    (hlate : ∀ index now, event = .deliverReport index now → .finite t ≤ now)
    (hslower : s'.running.sender.sendControl.pacingRate < s.running.sender.sendControl.pacingRate) :
    ∃ index now text, event = .deliverReport index now ∧ o.traffic.delivered = [text] ∧
      SlowedBy s s' (events ++ [event]) text := by
  obtain ⟨index, now, text, report, rfl, htext, hreport, hsnoc, hcall, hlower⟩ :=
    exists_report_of_slower h hs hslower
  refine ⟨index, now, text, rfl, htext, ?_⟩
  obtain ⟨htime, hremb, hloss⟩ := reportOf_call hreport
  have hnow : (.finite t : Timestamp) ≤ now := hlate index now rfl
  rw [htime] at hcall
  -- The calls so far are those of an estimation, all of them before this one.
  rw [hsnoc] at horder
  obtain ⟨hcalls, hpast⟩ := InOrder.of_snoc horder
  rw [htime] at hpast
  rw [estimation_of_trace h] at hover hlower hcall
  rw [hcall] at hlower
  have hexpired : ∀ tj rj, latestJump (Double r) (senderCalls os) = some (tj, rj) →
      historyExpired now tj = true := fun tj rj hjump =>
    historyExpired_mono hnow (historyExpired_latestJump hcalls hover hjump)
  have hover' := hover.later (show t - 1000000 ≤ t by omega)
  rcases capped_call_lt (regular_afterCalls _) hover' hnow (ramp_afterCalls hcalls hpast) hexpired
    (highLossThreshold_afterCalls _) hlower with
    ⟨rate, hasked, hcapped⟩ | ⟨lost, n, hreported, hfraction⟩
  · left
    have hpacing : (.finite s'.running.sender.sendControl.pacingRate : DataRate) =
        max (.finite minPacingRate) rate := by
      obtain ⟨hsteady', hpaces'⟩ := steady_of_trace (h.snoc hs)
      rw [← hcapped, ← hcall]
      exact hsteady'.pacingRate_eq hpaces'
    refine ⟨rate, hremb rate hasked, ?_, hpacing⟩
    refine lt_of_le_of_lt (le_max_right (.finite minPacingRate) rate) ?_
    rw [← hpacing, finite_lt_finite]
    omega
  · right
    obtain ⟨packet, hpacket⟩ := hloss lost n hreported
    rw [← hcall] at hfraction
    refine ⟨packet, hpacket, hfraction, ?_⟩
    intro horderly hdropped
    have hnone := noDrop_of_dropped (h.snoc hs) hdropped
    have hharm := (unharmed_of_trace ⟨horderly, hnone⟩ (h.snoc hs)).fraction
    omega

end Link
end Rounded

namespace Link

/-- The three packets of `losslessRun`; the loss report overtakes the REMB. -/
def overtakenRun : List LinkEvent :=
  [pollAt 1, pollAt 500, pollAt 5500, nextDataAt 10, nextDataAt 510, nextDataAt 5511,
    .deliverReport 1 (.finite 5600000)]

theorem overtakenRun_before :
    ∃ os s, Trace step (new (System.startedAt 300000) (System.startedAt 300000)) overtakenRun os s ∧
      s.running.sender.sendControl.pacingRate = 500000 ∧
      s.running.sender.gccControler.bandwidthEstimation.firstReportTime = .finite 5600000 :=
  ⟨_, _, trace_final (by decide +kernel), by decide +kernel, by decide +kernel⟩

theorem overtakenRun_after :
    ∃ os s, Trace step (new (System.startedAt 300000) (System.startedAt 300000))
        (overtakenRun ++ [.deliverReport 0 (.finite 9000000)]) os s ∧
      s.running.sender.sendControl.pacingRate = 100000 ∧ InOrder (senderCalls os) :=
  ⟨_, _, trace_final (by decide +kernel), by decide +kernel, by decide +kernel⟩

theorem slowed_only_by_report_overtakenRun :
    ∃ (s s' : Link System.ZerothPower) (o : LinkView),
      s.step (.deliverReport 0 (.finite 9000000)) = .ok (s', o) ∧
      s.running.sender.sendControl.pacingRate = 500000 ∧
      s'.running.sender.sendControl.pacingRate = 100000 ∧
      ∃ text, o.traffic.delivered = [text] ∧
        SlowedBy s s' (overtakenRun ++ [.deliverReport 0 (.finite 9000000)]) text := by
  obtain ⟨os, s, h, hrate, hfirst⟩ := overtakenRun_before
  obtain ⟨os', s', h', hrate', horder⟩ := overtakenRun_after
  obtain ⟨os'', o, s'', rfl, h'', hs⟩ := h'.snoc_inv
  obtain ⟨rfl, rfl⟩ := h.unique h''
  have hover : SendSideBandwidthEstimation.StartPhaseOver
      s.running.sender.gccControler.bandwidthEstimation (.finite (9000000 - 1000000)) := by
    constructor <;> rw [hfirst] <;> decide
  have hlate : ∀ index now, LinkEvent.deliverReport 0 (.finite 9000000) = .deliverReport index now →
      (.finite 9000000 : Timestamp) ≤ now := by
    intro index now he
    cases he
    exact le_refl _
  obtain ⟨-, -, text, -, htext, hslowed⟩ :=
    slowed_only_by_report _ _ _ overtakenRun h hs horder hover hlate (by omega)
  exact ⟨s, s', o, hs, hrate, hrate', text, htext, hslowed⟩

end Link
end ChromeGcc
