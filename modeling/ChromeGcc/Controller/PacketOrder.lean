import ChromeGcc.Controller.GoogCc
import Mathlib.Data.Prod.Lex

/-! The order of the packets inside a feedback message does not matter: the message is sorted
where its order is read, and folded with max and min elsewhere. -/
namespace ChromeGcc

/-- What ReceiveTimeOrder compares, lexicographically. -/
def PacketResult.orderKey (p : PacketResult) : Timestamp ×ₗ Timestamp ×ₗ Int :=
  toLex (p.receiveTime, toLex (p.sentPacket.sendTime, p.sentPacket.sequenceNumber))

theorem receiveTimeOrder_iff (a b : PacketResult) :
    receiveTimeOrder a b = true ↔ a.orderKey < b.orderKey := by
  unfold receiveTimeOrder PacketResult.orderKey
  rw [Prod.Lex.toLex_lt_toLex, Prod.Lex.toLex_lt_toLex]
  by_cases hreceive : a.receiveTime = b.receiveTime
  · by_cases hsend : a.sentPacket.sendTime = b.sentPacket.sendTime
    · simp [hreceive, hsend]
    · simp [hreceive, hsend]
  · simp [hreceive]

/-- A list that std::sort may return: no packet is less than one before it. -/
def SortedByOrder (packets : List PacketResult) : Prop :=
  packets.Pairwise fun a b => (!receiveTimeOrder b a) = true

theorem not_receiveTimeOrder_iff (a b : PacketResult) :
    (!receiveTimeOrder b a) = true ↔ a.orderKey ≤ b.orderKey := by
  rw [Bool.not_eq_true', ← Bool.not_eq_true, receiveTimeOrder_iff, not_lt]

namespace TransportPacketsFeedback
variable {msg msg' : TransportPacketsFeedback}

/-- No two packets of the message have the same number. -/
def DistinctNumbers (msg : TransportPacketsFeedback) : Prop :=
  (msg.packetFeedbacks.map fun p => p.sentPacket.sequenceNumber).Nodup

instance (msg : TransportPacketsFeedback) : Decidable msg.DistinctNumbers :=
  inferInstanceAs (Decidable (List.Nodup _))

/-- The same message with its packets in another order. -/
structure Reordered (msg msg' : TransportPacketsFeedback) : Prop where
  feedbackTime : msg'.feedbackTime = msg.feedbackTime
  packets : msg'.packetFeedbacks.Perm msg.packetFeedbacks

theorem sortedByOrder_sortedByReceiveTime (msg : TransportPacketsFeedback) :
    SortedByOrder msg.sortedByReceiveTime := by
  refine List.pairwise_mergeSort ?trans ?total _
  case trans =>
    intro a b c hab hbc
    rw [not_receiveTimeOrder_iff] at *
    exact hab.trans hbc
  case total =>
    intro a b
    rw [Bool.or_eq_true, not_receiveTimeOrder_iff, not_receiveTimeOrder_iff]
    exact le_total _ _

/-- With distinct numbers the order is strict and total, so only one list is sorted by it. -/
theorem DistinctNumbers.sorted_unique (h : msg.DistinctNumbers) {sorted : List PacketResult}
    (hp : sorted.Perm msg.receivedWithSendInfo) (hs : SortedByOrder sorted) :
    sorted = msg.sortedByReceiveTime := by
  have hperm : sorted.Perm msg.sortedByReceiveTime := hp.trans (List.mergeSort_perm _ _).symm
  refine List.Perm.eq_of_pairwise ?_ hs (sortedByOrder_sortedByReceiveTime msg) hperm
  intro a b ha hb hab hba
  have hkey : a.orderKey = b.orderKey :=
    le_antisymm ((not_receiveTimeOrder_iff a b).mp hab) ((not_receiveTimeOrder_iff b a).mp hba)
  have hnumber : a.sentPacket.sequenceNumber = b.sentPacket.sequenceNumber :=
    congrArg (fun key => (ofLex (ofLex key).2).2) hkey
  have hmem : ∀ p ∈ sorted, p ∈ msg.packetFeedbacks :=
    fun p hp' => (List.mem_filter.mp (hp.subset hp')).1
  exact List.inj_on_of_nodup_map h (hmem a ha) (hmem b (hperm.symm.subset hb)) hnumber

theorem Reordered.received (h : Reordered msg msg') :
    msg'.receivedWithSendInfo.Perm msg.receivedWithSendInfo := h.packets.filter _

theorem Reordered.sortedByReceiveTime (h : Reordered msg msg') (hd : msg.DistinctNumbers) :
    msg'.sortedByReceiveTime = msg.sortedByReceiveTime :=
  hd.sorted_unique ((List.mergeSort_perm _ _).trans h.received)
    (sortedByOrder_sortedByReceiveTime msg')

/-- A maximum over the received packets does not depend on their order. -/
theorem Reordered.foldl_max (h : Reordered msg msg') {k : UnitKind} (value : PacketResult → UnitBase k)
    (first : UnitBase k) :
    msg'.receivedWithSendInfo.foldl (fun m p => max m (value p)) first =
      msg.receivedWithSendInfo.foldl (fun m p => max m (value p)) first :=
  h.received.foldl_eq' (fun p _ q _ m => max_right_comm m (value p) (value q)) first

theorem Reordered.foldl_min (h : Reordered msg msg') {k : UnitKind} (value : PacketResult → UnitBase k)
    (first : UnitBase k) :
    msg'.receivedWithSendInfo.foldl (fun m p => min m (value p)) first =
      msg.receivedWithSendInfo.foldl (fun m p => min m (value p)) first :=
  h.received.foldl_eq' (fun p _ q _ m => min_right_comm m (value p) (value q)) first

theorem Reordered.feedbackRtt (h : Reordered msg msg') (p : PacketResult) :
    msg'.feedbackRtt p = msg.feedbackRtt p := by
  unfold TransportPacketsFeedback.feedbackRtt
  rw [h.feedbackTime]

theorem Reordered.maxRecvTime (h : Reordered msg msg') : msg'.maxRecvTime = msg.maxRecvTime :=
  h.foldl_max _ _

theorem Reordered.maxFeedbackRtt (h : Reordered msg msg') :
    msg'.maxFeedbackRtt = msg.maxFeedbackRtt := by
  unfold TransportPacketsFeedback.maxFeedbackRtt
  simp only [h.feedbackRtt]
  exact h.foldl_max _ _

theorem Reordered.minPropagationRtt (h : Reordered msg msg') :
    msg'.minPropagationRtt = msg.minPropagationRtt := by
  unfold TransportPacketsFeedback.minPropagationRtt
  simp only [h.feedbackRtt, h.maxRecvTime]
  exact h.foldl_min _ _

theorem Reordered.isEmpty (h : Reordered msg msg') :
    msg'.packetFeedbacks.isEmpty = msg.packetFeedbacks.isEmpty := h.packets.isEmpty_eq

end TransportPacketsFeedback

open TransportPacketsFeedback

theorem DelayBasedBwe.incomingPacketFeedbackVector_reordered {F : Type} [FloatArith F]
    (d : DelayBasedBwe F) {msg msg' : TransportPacketsFeedback} (h : Reordered msg msg')
    (hd : msg.DistinctNumbers) (ackedBitrate : Option DataRate) (inAlr : Bool) :
    d.incomingPacketFeedbackVector msg' ackedBitrate inAlr =
      d.incomingPacketFeedbackVector msg ackedBitrate inAlr := by
  unfold DelayBasedBwe.incomingPacketFeedbackVector
  rw [h.sortedByReceiveTime hd, h.feedbackTime]

namespace GoogCcNetworkController
variable {F : Type} [FloatArith F] (g : GoogCcNetworkController F)
  {msg msg' : TransportPacketsFeedback}

theorem recordFeedbackRtt_reordered (h : Reordered msg msg') :
    g.recordFeedbackRtt msg' = g.recordFeedbackRtt msg := by
  unfold recordFeedbackRtt
  rw [h.maxFeedbackRtt, h.minPropagationRtt, h.feedbackTime]

/-- Lost packets are counted, not looked at in turn. -/
theorem feedbackOnlyUpdate_reordered (h : Reordered msg msg') :
    g.feedbackOnlyUpdate msg' = g.feedbackOnlyUpdate msg := by
  unfold feedbackOnlyUpdate
  rw [h.minPropagationRtt, h.feedbackTime, h.packets.length_eq, h.packets.countP_eq]

/-- Two orders of a message with distinct numbers leave the same controller, result and
acknowledged rate, whichever sorted permutation std::sort returns. -/
theorem packet_order_irrelevant (h : Reordered msg msg') (hd : msg.DistinctNumbers) :
    (∀ sorted : List PacketResult, sorted.Perm msg'.receivedWithSendInfo → SortedByOrder sorted →
        sorted = msg'.sortedByReceiveTime ∧ sorted = msg.sortedByReceiveTime) ∧
      g.onTransportPacketsFeedback msg' = g.onTransportPacketsFeedback msg ∧
      (g.onTransportPacketsFeedback msg').recentResult =
        (g.onTransportPacketsFeedback msg).recentResult ∧
      (g.onTransportPacketsFeedback msg').getAcknowlegeRate =
        (g.onTransportPacketsFeedback msg).getAcknowlegeRate := by
  have hsort : msg'.sortedByReceiveTime = msg.sortedByReceiveTime := h.sortedByReceiveTime hd
  have hstate : g.onTransportPacketsFeedback msg' = g.onTransportPacketsFeedback msg := by
    unfold onTransportPacketsFeedback
    simp only [h.isEmpty, recordFeedbackRtt_reordered g h, feedbackOnlyUpdate_reordered _ h, hsort,
      h.feedbackTime, DelayBasedBwe.incomingPacketFeedbackVector_reordered _ h hd,
      SendSideBandwidthEstimation.incomingPacketFeedbackVector]
  refine ⟨?_, hstate, by rw [hstate], by rw [hstate]⟩
  intro sorted hperm hsorted
  have hunique := hd.sorted_unique (hperm.trans h.received) hsorted
  exact ⟨hunique.trans hsort.symm, hunique⟩

/-- A message of three packets, two of them received at the same time and one lost. -/
def mixedFeedback : TransportPacketsFeedback where
  feedbackTime := .micros 60000
  packetFeedbacks := [
    { sentPacket := { sendTime := .micros 10000, sequenceNumber := 7 }, receiveTime := .micros 50000 },
    { sentPacket := { sendTime := .micros 20000, sequenceNumber := 8 } },
    { sentPacket := { sendTime := .micros 10000, sequenceNumber := 6 }, receiveTime := .micros 50000 }]

theorem packet_order_irrelevant_mixed :
    let config : NetworkControllerConfig FloatArith.Rational := { constraints := {} }
    let reversed := { mixedFeedback with packetFeedbacks := mixedFeedback.packetFeedbacks.reverse }
    (∀ sorted : List PacketResult, sorted.Perm reversed.receivedWithSendInfo →
        SortedByOrder sorted →
        sorted = reversed.sortedByReceiveTime ∧ sorted = mixedFeedback.sortedByReceiveTime) ∧
      (new config).onTransportPacketsFeedback reversed =
        (new config).onTransportPacketsFeedback mixedFeedback ∧
      ((new config).onTransportPacketsFeedback reversed).recentResult =
        ((new config).onTransportPacketsFeedback mixedFeedback).recentResult ∧
      ((new config).onTransportPacketsFeedback reversed).getAcknowlegeRate =
        ((new config).onTransportPacketsFeedback mixedFeedback).getAcknowlegeRate :=
  packet_order_irrelevant (new { constraints := {} })
    ⟨rfl, List.reverse_perm mixedFeedback.packetFeedbacks⟩ (by decide)

end GoogCcNetworkController
end ChromeGcc
