import ChromeGcc.Peers.LoopPacing
import ChromeGcc.Peers.LossFeedback
import ChromeGcc.SendSide.Lossless

/-! The closed loop over a data channel that loses nothing: no report tells of a loss, and the
Sender is paced by the Receiver's limit alone, up to the initial rate. -/
namespace ChromeGcc
open Machine UnitBase FloatArith SendSideBandwidthEstimation

namespace Link
variable {F : Type} [FloatArith F] {s : Link F} {os : List LinkView} {events : List LinkEvent}
  {senderConfig receiverConfig : NetworkControllerConfig F}

/-- The data channel keeps the order, and drops nothing. -/
structure Lossless (events : List LinkEvent) : Prop where
  orderly : Orderly events
  noDrop : ∀ index, .dropData index ∉ events

theorem Lossless.of_append {more : List LinkEvent} (h : Lossless (events ++ more)) :
    Lossless events :=
  ⟨h.orderly.of_append, fun index he => h.noDrop index (List.mem_append_left _ he)⟩

theorem dropped_of_lossless (hl : Lossless events)
    (h : Trace step (new senderConfig receiverConfig) events os s) : s.data.dropped = [] := by
  refine Trace.invariant (P := Lossless) (I := fun _ _ s => s.data.dropped = [])
    (fun _ _ h => h.of_append) rfl ?_ h hl
  intro events os s event s' o hl _ hd hs
  have hlast : event ∈ events ++ [event] := List.mem_append_right _ (List.mem_singleton_self _)
  cases does_of_step hs with
  | poll step => exact hd
  | deliverData delivers received => exact delivers.dropped.trans hd
  | dropData drops => exact absurd hlast (hl.noDrop _)
  | deliverReport delivers received => exact hd
  | dropReport drops => exact hd

/-- No report that was sent tells of a loss. -/
theorem noLoss_of_lossless (hl : Lossless events)
    (h : Trace step (new senderConfig receiverConfig) events os s) {text : List Char}
    (ht : text ∈ s.reports.sent) {p : GCCRRPacket} (hp : lossReport text = some p) :
    p.packetsLostDelta = 0 := by
  have hbound := (reported_le_of_trace hl.orderly h).1
  rw [dropped_of_lossless hl h] at hbound
  have hmem : p.packetsLostDelta ∈ (lossReports s.reports.sent).map (·.packetsLostDelta) :=
    List.mem_map_of_mem (List.mem_filterMap.mpr ⟨text, ht, hp⟩)
  exact Nat.le_zero.mp ((List.le_sum_of_mem hmem).trans hbound)

end Link

theorem GoogCcNetworkController.unharmed_onRemoteBitrateReport {F : Type} [FloatArith F]
    {g : GoogCcNetworkController F} (hf : g.packetFeedbackOnly = false)
    (h : g.bandwidthEstimation.Unharmed) (msg : RemoteBitrateReport) :
    (g.onRemoteBitrateReport msg).bandwidthEstimation.Unharmed := by
  unfold onRemoteBitrateReport
  rw [hf]
  exact h.updateReceiverEstimate _ _

section Rounded
variable {K : Type} [Field K] [LinearOrder K] [FloorRing K] [IsStrictOrderedRing K] {r : Rounding K}

theorem GoogCcNetworkController.unharmed_onTransportLossReport
    {g : GoogCcNetworkController (Double r)} (hf : g.packetFeedbackOnly = false)
    (h : g.bandwidthEstimation.Unharmed) {msg : TransportLossReport}
    (hlost : msg.packetsLostDelta = 0) : (g.onTransportLossReport msg).bandwidthEstimation.Unharmed := by
  unfold onTransportLossReport
  rw [hf, hlost]
  exact h.updatePacketsLost _ _

namespace Sender
variable {s s' : Sender (Double r)} {text : List Char} {now : Timestamp}

/-- A datagram that reports no loss does no harm. -/
theorem unharmed_receivePacket (hf : s.gccControler.packetFeedbackOnly = false)
    (h : s.gccControler.bandwidthEstimation.Unharmed)
    (hlost : ∀ p, lossReport text = some p → p.packetsLostDelta = 0)
    (hs : s.receivePacket (some text) now = (.ok (), s')) :
    s'.gccControler.bandwidthEstimation.Unharmed := by
  cases text with
  | nil =>
      cases hs
      exact h
  | cons c text =>
      change s.onPacketReceived (c :: text) now = (.ok (), s') at hs
      unfold onPacketReceived at hs
      cases ht : getType (c :: text) with
      | error e =>
          rw [ht] at hs
          cases hs
      | ok type =>
          rw [ht] at hs
          cases type with
          | data =>
              cases hs
              exact h
          | rr =>
              simp only [dispatch, onRRPacketReceived] at hs
              rcases hparse : GCCRRPacketParser.unSerialize (c :: text) {} with ⟨outcome, packet⟩
              rw [hparse] at hs
              cases outcome with
              | error e => cases hs
              | ok u =>
                  cases hs
                  refine GoogCcNetworkController.unharmed_onTransportLossReport hf h (hlost packet ?_)
                  rw [lossReport, ht]
                  simp only [hparse]
          | remb =>
              simp only [dispatch, onREMBPacketReceived] at hs
              rcases hparse : GCCREMBPacketParser.unSerialize (c :: text) {} with ⟨outcome, packet⟩
              rw [hparse] at hs
              cases outcome with
              | error e => cases hs
              | ok u =>
                  cases hs
                  exact GoogCcNetworkController.unharmed_onRemoteBitrateReport hf h _

end Sender

namespace Link
variable {s s' : Link (Double r)} {o : LinkView} {os : List LinkView} {events : List LinkEvent}
  {senderConfig receiverConfig : NetworkControllerConfig (Double r)}

theorem unharmed_of_trace (hl : Lossless events)
    (h : Trace step (new senderConfig receiverConfig) events os s) :
    s.running.sender.gccControler.bandwidthEstimation.Unharmed := by
  refine Trace.invariant (P := Lossless)
    (I := fun _ _ s => s.running.sender.gccControler.bandwidthEstimation.Unharmed)
    (fun _ _ h => h.of_append) unharmed_fresh ?_ h hl
  intro events os s event s' o hl h hu hs
  cases does_of_step hs with
  | poll step =>
      rw [(RunningSender.polled_of_step step).gccControler]
      exact hu
  | deliverData delivers received => exact hu
  | dropData drops => exact hu
  | deliverReport delivers received =>
      refine Sender.unharmed_receivePacket (steady_of_trace h).1.feedback hu ?_ received
      intro p hp
      exact noLoss_of_lossless hl.of_append h delivers.mem_sent hp
  | dropReport drops => exact hu

/-- Over a data channel that loses nothing the Sender never counts a loss and its target never
falls below the initial rate, whatever becomes of the reports; so it is paced exactly by the last
REMB delivered, where that asks for no more than the initial rate. -/
theorem lossless_paced_by_remb (r : Rounding K)
    (senderConfig receiverConfig : NetworkControllerConfig (Double r)) (events : List LinkEvent)
    {s : Link (Double r)} (hl : Lossless events)
    (h : Trace step (new senderConfig receiverConfig) events os s) (hc : RatesCarried os) :
    s.running.sender.gccControler.bandwidthEstimation.lastFractionLoss = 0 ∧
      initialTarget ≤ s.running.sender.gccControler.bandwidthEstimation.currentTarget ∧
      ∀ rate, (rembs s.reports.delivered).getLast? = some rate → rate ≤ initialTarget →
        (.finite s.running.sender.sendControl.pacingRate : DataRate) =
          max (.finite minPacingRate) rate := by
  have hu := unharmed_of_trace hl h
  obtain ⟨hsteady, hpaces⟩ := steady_of_trace h
  refine ⟨hu.fraction, hu.target, ?_⟩
  intro rate hlast hle
  rw [hsteady.pacingRate_eq hpaces, (follows_of_trace h hc).1, hlast, Option.getD_some,
    min_eq_right (hle.trans hu.target)]

end Link
end Rounded

namespace Link

/-- Two packets half a second apart, and then one five seconds later; no report is lost either. -/
def losslessRun : List LinkEvent :=
  [pollAt 1, pollAt 500, pollAt 5500, nextDataAt 10, nextDataAt 510, nextDataAt 5511,
    .deliverReport 0 (.finite 5600000), .deliverReport 0 (.finite 5600000)]

theorem losslessRun_succeeds :
    (run step (new (System.startedAt 300000) (System.startedAt 300000)) losslessRun).isOk = true := by
  decide +kernel

theorem lossless_losslessRun : Lossless losslessRun where
  orderly :=
    { oldestFirst := by
        intro index env he
        simp only [losslessRun, pollAt, nextDataAt, List.mem_cons, List.not_mem_nil, reduceCtorEq,
          LinkEvent.deliverData.injEq, false_or, or_false] at he
        omega
      clock := by decide +kernel
      numbers := by decide }
  noDrop index he := by
    simp only [losslessRun, pollAt, nextDataAt, List.mem_cons, List.not_mem_nil, reduceCtorEq,
      or_false] at he

theorem lossless_paced_by_remb_losslessRun :
    ∃ os s, Trace step (new (System.startedAt 300000) (System.startedAt 300000)) losslessRun os s ∧
      (rembs s.reports.delivered).getLast? = some (.finite 24552) ∧
      (.finite s.running.sender.sendControl.pacingRate : DataRate) =
        max (.finite minPacingRate) (.finite 24552) := by
  have h := trace_final losslessRun_succeeds
  have hlast : (rembs (final step (new (System.startedAt 300000) (System.startedAt 300000))
      losslessRun).reports.delivered).getLast? = some (.finite 24552) := by
    decide +kernel
  have hpaced := (lossless_paced_by_remb _ _ _ losslessRun lossless_losslessRun h
    (by decide +kernel)).2.2
  exact ⟨_, _, h, hlast, hpaced _ hlast (by decide)⟩

end Link
end ChromeGcc
