import ChromeGcc.Controller.GoogCc
import ChromeGcc.DelayBased.ClockShift

/-! The receiver's estimates do not depend on the offset of the sender's clock. -/
namespace ChromeGcc

/-- Until an ALR period ends, the acknowledged bitrate reads no send time. -/
theorem AcknowledgedBitrateEstimator.incomingPacket_shiftSend {F : Type} [FloatArith F]
    {a : AcknowledgedBitrateEstimator F} (h : a.alrEndedTime = none) (k : Int) (p : PacketResult) :
    a.incomingPacket (p.shiftSend k) = a.incomingPacket p ∧
      (a.incomingPacket p).alrEndedTime = none := by
  unfold AcknowledgedBitrateEstimator.incomingPacket
  rw [h]
  exact ⟨rfl, h⟩

theorem AcknowledgedBitrateEstimator.incomingPackets_shiftSend {F : Type} [FloatArith F]
    {a : AcknowledgedBitrateEstimator F} (h : a.alrEndedTime = none) (k : Int)
    (packets : List PacketResult) :
    a.incomingPacketFeedbackVector (packets.map (PacketResult.shiftSend k)) =
        a.incomingPacketFeedbackVector packets ∧
      (a.incomingPacketFeedbackVector packets).alrEndedTime = none := by
  unfold AcknowledgedBitrateEstimator.incomingPacketFeedbackVector
  induction packets generalizing a with
  | nil => exact ⟨rfl, h⟩
  | cons p packets ih =>
      obtain ⟨heq, hnone⟩ := AcknowledgedBitrateEstimator.incomingPacket_shiftSend h k p
      rw [List.map_cons, List.foldl_cons, List.foldl_cons, heq]
      exact ih hnone

namespace GoogCcNetworkController
variable {F : Type} [FloatArith F]

/-- Two controllers fed by clocks that differ by an offset: all that decides the receiver's
estimates agrees, but for the times of the packet groups. -/
structure Offset (k : Int) (g g' : GoogCcNetworkController F) : Prop where
  allReports : g.packetFeedbackOnly = false ∧ g'.packetFeedbackOnly = false
  bwe : g'.delayBasedBwe = g.delayBasedBwe.shift k
  acknowledged : g'.acknowledgedBitrateEstimator = g.acknowledgedBitrateEstimator
  noAlr : g.acknowledgedBitrateEstimator.alrEndedTime = none
  result : g'.recentResult = g.recentResult

theorem offset_new (k : Int) (config : NetworkControllerConfig F) :
    Offset k (new config) (new config) :=
  ⟨⟨rfl, rfl⟩, rfl, rfl, rfl, rfl⟩

variable {k : Int} {g g' : GoogCcNetworkController F}

theorem recordFeedbackRtt_fields (g : GoogCcNetworkController F) (msg : TransportPacketsFeedback) :
    (g.recordFeedbackRtt msg).packetFeedbackOnly = g.packetFeedbackOnly ∧
      (g.recordFeedbackRtt msg).acknowledgedBitrateEstimator = g.acknowledgedBitrateEstimator ∧
      (g.recordFeedbackRtt msg).delayBasedBwe = g.delayBasedBwe := by
  unfold recordFeedbackRtt
  dsimp only
  by_cases h : msg.maxFeedbackRtt.isFinite = true
  · rw [if_pos h]
    exact ⟨rfl, rfl, rfl⟩
  · rw [if_neg h]
    exact ⟨rfl, rfl, rfl⟩

/-- The estimator of the acknowledged bitrate after a feedback message. -/
def acknowledgedAfter (g : GoogCcNetworkController F) (msg : TransportPacketsFeedback) :
    AcknowledgedBitrateEstimator F :=
  g.acknowledgedBitrateEstimator.incomingPacketFeedbackVector msg.sortedByReceiveTime

/-- What a feedback message does next to the window of round trips. -/
theorem onTransportPacketsFeedback_fields (h : g.packetFeedbackOnly = false)
    {msg : TransportPacketsFeedback} (hmsg : ¬ msg.packetFeedbacks.isEmpty = true) :
    (g.onTransportPacketsFeedback msg).packetFeedbackOnly = false ∧
      (g.onTransportPacketsFeedback msg).acknowledgedBitrateEstimator = g.acknowledgedAfter msg ∧
      (g.onTransportPacketsFeedback msg).delayBasedBwe = (g.delayBasedBwe.incomingPacketFeedbackVector
        msg (g.acknowledgedAfter msg).bitrate false).1 ∧
      (g.onTransportPacketsFeedback msg).recentResult = (g.delayBasedBwe.incomingPacketFeedbackVector
        msg (g.acknowledgedAfter msg).bitrate false).2 := by
  obtain ⟨honly, hack, hbwe⟩ := recordFeedbackRtt_fields g msg
  have hnot : ¬ (g.recordFeedbackRtt msg).packetFeedbackOnly = true := by
    rw [honly, h]
    exact Bool.false_ne_true
  unfold onTransportPacketsFeedback acknowledgedAfter
  rw [if_neg hmsg]
  dsimp only
  rw [if_neg hnot, hack, hbwe]
  exact ⟨honly.trans h, rfl, rfl, rfl⟩

theorem onTransportPacketsFeedback_empty {msg : TransportPacketsFeedback}
    (hmsg : msg.packetFeedbacks.isEmpty = true) : g.onTransportPacketsFeedback msg = g :=
  if_pos hmsg

/-- Two controllers stay in step through a message and its shifted copy. -/
theorem Offset.step (h : Offset k g g') (msg : TransportPacketsFeedback) :
    Offset k (g.onTransportPacketsFeedback msg)
      (g'.onTransportPacketsFeedback (msg.shiftSends k)) := by
  have hempty : (msg.shiftSends k).packetFeedbacks.isEmpty = msg.packetFeedbacks.isEmpty :=
    List.isEmpty_map
  by_cases hmsg : msg.packetFeedbacks.isEmpty = true
  · rw [onTransportPacketsFeedback_empty hmsg, onTransportPacketsFeedback_empty (hempty.trans hmsg)]
    exact h
  · obtain ⟨honly, hack, hbwe, hresult⟩ := onTransportPacketsFeedback_fields h.allReports.1 hmsg
    have hmsg' : ¬ (msg.shiftSends k).packetFeedbacks.isEmpty = true := by
      rwa [hempty]
    obtain ⟨honly', hack', hbwe', hresult'⟩ := onTransportPacketsFeedback_fields h.allReports.2 hmsg'
    obtain ⟨hsame, hnone⟩ := AcknowledgedBitrateEstimator.incomingPackets_shiftSend h.noAlr k
      msg.sortedByReceiveTime
    have hafter : g'.acknowledgedAfter (msg.shiftSends k) = g.acknowledgedAfter msg := by
      unfold acknowledgedAfter
      rw [h.acknowledged, TransportPacketsFeedback.sortedByReceiveTime_shiftSends]
      exact hsame
    have hshift := DelayBasedBwe.shift_incomingPacketFeedbackVector k g.delayBasedBwe msg
      (g.acknowledgedAfter msg).bitrate false
    rw [hafter, h.bwe, hshift] at hbwe' hresult'
    exact ⟨⟨honly, honly'⟩, by rw [hbwe', hbwe], by rw [hack', hack, hafter], by rw [hack]; exact hnone,
      by rw [hresult', hresult]⟩

/-- The result and the acknowledged rate after each of the messages. -/
def feedbackOutputs (g : GoogCcNetworkController F) :
    List TransportPacketsFeedback → List (BweResult × Option DataRate)
  | [] => []
  | msg :: msgs =>
    ((g.onTransportPacketsFeedback msg).recentResult,
        (g.onTransportPacketsFeedback msg).getAcknowlegeRate) ::
      feedbackOutputs (g.onTransportPacketsFeedback msg) msgs

theorem Offset.outputs_eq (h : Offset k g g') (msgs : List TransportPacketsFeedback) :
    g'.feedbackOutputs (msgs.map (TransportPacketsFeedback.shiftSends k)) = g.feedbackOutputs msgs := by
  induction msgs generalizing g g' with
  | nil => rfl
  | cons msg msgs ih =>
      have hnext := h.step msg
      rw [List.map_cons, feedbackOutputs, feedbackOutputs, ih hnext, hnext.result]
      unfold getAcknowlegeRate
      rw [hnext.acknowledged]

/-- A common offset of all send times changes no result and no acknowledged rate. -/
theorem feedback_offset_independent (config : NetworkControllerConfig F) (k : Int)
    (msgs : List TransportPacketsFeedback) :
    (new config).feedbackOutputs (msgs.map (TransportPacketsFeedback.shiftSends k)) =
      (new config).feedbackOutputs msgs :=
  (offset_new k config).outputs_eq msgs

end GoogCcNetworkController
end ChromeGcc
