import ChromeGcc.DelayBased.Bwe

/-! The delay-based estimation under a sender whose clock is ahead: send times are only
compared with send times, so a common offset passes through every step. -/
namespace ChromeGcc
open FloatArith UnitBase

section Times
variable (k : Int) (a b : Timestamp)

theorem shift_le_iff : a + TimeDelta.micros k ≤ b + TimeDelta.micros k ↔ a ≤ b := by
  cases a with
  | minusInfinity => simp
  | plusInfinity => cases b <;> simp
  | finite a =>
      cases b with
      | minusInfinity => simp
      | finite b => simp
      | plusInfinity => simp

theorem shift_lt_iff : a + TimeDelta.micros k < b + TimeDelta.micros k ↔ a < b := by
  rw [← not_le, shift_le_iff, not_le]

theorem shift_inj : a + TimeDelta.micros k = b + TimeDelta.micros k ↔ a = b := by
  rw [le_antisymm_iff, shift_le_iff, shift_le_iff, ← le_antisymm_iff]

theorem shift_sub :
    ((a + TimeDelta.micros k) - (b + TimeDelta.micros k) : TimeDelta) = a - b := by
  cases a with
  | minusInfinity => cases b <;> rfl
  | plusInfinity => cases b <;> rfl
  | finite a =>
      cases b with
      | minusInfinity => rfl
      | plusInfinity => rfl
      | finite b =>
          rw [Timestamp.finite_add, Timestamp.finite_add, Timestamp.finite_sub, Timestamp.finite_sub,
            add_sub_add_right_eq_sub]

theorem shift_max :
    max (a + TimeDelta.micros k) (b + TimeDelta.micros k) = max a b + TimeDelta.micros k := by
  rcases le_total a b with h | h
  · rw [max_eq_right h, max_eq_right ((shift_le_iff k a b).mpr h)]
  · rw [max_eq_left h, max_eq_left ((shift_le_iff k b a).mpr h)]

end Times

def SendTimeGroup.shift (k : Int) (g : SendTimeGroup) : SendTimeGroup :=
  { g with
    firstSendTime := g.firstSendTime + TimeDelta.micros k
    sendTime := g.sendTime + TimeDelta.micros k }

/-- The same groups as another clock stamps them. -/
def InterArrivalDelta.shift (k : Int) (s : InterArrivalDelta) : InterArrivalDelta :=
  { s with
    currentTimestampGroup := s.currentTimestampGroup.shift k
    prevTimestampGroup := s.prevTimestampGroup.shift k }

namespace InterArrivalDelta
variable (k : Int) (s : InterArrivalDelta) (sendTime arrivalTime systemTime : Timestamp)

theorem shift_belongsToBurst :
    (s.shift k).belongsToBurst arrivalTime (sendTime + TimeDelta.micros k) =
      s.belongsToBurst arrivalTime sendTime := by
  simp only [belongsToBurst, InterArrivalDelta.shift, SendTimeGroup.shift, shift_sub]

theorem shift_newTimestampGroup :
    (s.shift k).newTimestampGroup arrivalTime (sendTime + TimeDelta.micros k) =
      s.newTimestampGroup arrivalTime sendTime := by
  have hsub := shift_sub k sendTime s.currentTimestampGroup.firstSendTime
  unfold newTimestampGroup
  rw [shift_belongsToBurst]
  exact congrArg (fun delta : TimeDelta =>
    if s.currentTimestampGroup.isFirstPacket then false
    else if s.belongsToBurst arrivalTime sendTime then false
    else decide (delta > s.sendTimeGroupLength)) hsub

theorem shift_groupDeltas : (s.shift k).groupDeltas = s.groupDeltas := by
  simp only [groupDeltas, InterArrivalDelta.shift, SendTimeGroup.shift, shift_sub]

/-- Shifted groups and a shifted packet give the same deltas and the shifted state. -/
theorem shift_computeDeltas (packetSize : Nat) :
    (s.shift k).computeDeltas (sendTime + TimeDelta.micros k) arrivalTime systemTime packetSize =
      ((s.computeDeltas sendTime arrivalTime systemTime packetSize).1.shift k,
        (s.computeDeltas sendTime arrivalTime systemTime packetSize).2) := by
  have hnew := shift_newTimestampGroup k s sendTime arrivalTime
  have hlate : (s.shift k).currentTimestampGroup.firstSendTime > sendTime + TimeDelta.micros k ↔
      s.currentTimestampGroup.firstSendTime > sendTime := shift_lt_iff k _ _
  by_cases h1 : s.currentTimestampGroup.isFirstPacket = true
  · rw [computeDeltas_first h1, computeDeltas_first (s := s.shift k) h1]
    rfl
  by_cases h2 : s.currentTimestampGroup.firstSendTime > sendTime
  · rw [computeDeltas_late h1 h2, computeDeltas_late (s := s.shift k) h1 (hlate.mpr h2)]
  have h2' := mt hlate.mp h2
  by_cases h3 : s.newTimestampGroup arrivalTime sendTime = true
  · have h3' := hnew.trans h3
    by_cases h4 : s.prevTimestampGroup.completeTime.isFinite = true
    · have hc : s.CompletesGroup arrivalTime sendTime := ⟨h1, h2, h3, h4⟩
      have hc' : (s.shift k).CompletesGroup arrivalTime (sendTime + TimeDelta.micros k) :=
        ⟨h1, h2', h3', h4⟩
      by_cases hoff : s.ArrivalOffset
      · rw [computeDeltas_offset hc hoff, computeDeltas_offset hc' hoff]
        rfl
      by_cases hback : s.groupDeltas.arrivalTimeDelta < .zero
      · rw [computeDeltas_reordered hc hoff hback, computeDeltas_reordered hc' hoff hback]
        by_cases hthree : s.numConsecutiveReorderedPackets + 1 ≥ kReorderedResetThreshold
        · rw [if_pos hthree, if_pos (by exact hthree)]
          rfl
        · rw [if_neg hthree, if_neg (by exact hthree)]
          rfl
      · rw [computeDeltas_deltas hc hoff hback, computeDeltas_deltas hc' hoff hback,
          shift_groupDeltas]
        rfl
    · rw [computeDeltas_second h1 h2 h3 h4, computeDeltas_second (s := s.shift k) h1 h2' h3' h4]
      rfl
  · have h3' : ¬ (s.shift k).newTimestampGroup arrivalTime (sendTime + TimeDelta.micros k) = true := by
      rwa [hnew]
    have hmax := shift_max k s.currentTimestampGroup.sendTime sendTime
    rw [computeDeltas_same h1 h2 h3, computeDeltas_same (s := s.shift k) h1 h2' h3']
    simp only [InterArrivalDelta.shift, SendTimeGroup.shift, accumulate, hmax]

end InterArrivalDelta

/-- The order of receive times does not see a common offset of the send times. -/
theorem receiveTimeOrder_shiftSend (k : Int) (p q : PacketResult) :
    receiveTimeOrder (p.shiftSend k) (q.shiftSend k) = receiveTimeOrder p q := by
  have hlt := shift_lt_iff k p.sentPacket.sendTime q.sentPacket.sendTime
  have heq := shift_inj k p.sentPacket.sendTime q.sentPacket.sendTime
  unfold receiveTimeOrder PacketResult.shiftSend
  simp only [ne_eq, heq, hlt]

/-- The message as a sender whose clock is ahead by an offset would have caused it. -/
def TransportPacketsFeedback.shiftSends (k : Int) (msg : TransportPacketsFeedback) :
    TransportPacketsFeedback :=
  { msg with packetFeedbacks := msg.packetFeedbacks.map (PacketResult.shiftSend k) }

theorem TransportPacketsFeedback.sortedByReceiveTime_shiftSends (k : Int)
    (msg : TransportPacketsFeedback) :
    (msg.shiftSends k).sortedByReceiveTime =
      msg.sortedByReceiveTime.map (PacketResult.shiftSend k) := by
  have hfilter : (msg.packetFeedbacks.map (PacketResult.shiftSend k)).filter PacketResult.isReceived =
      (msg.packetFeedbacks.filter PacketResult.isReceived).map (PacketResult.shiftSend k) := by
    rw [List.filter_map]
    rfl
  unfold TransportPacketsFeedback.sortedByReceiveTime TransportPacketsFeedback.shiftSends
  rw [hfilter]
  symm
  apply List.map_mergeSort
  intro p _ q _
  rw [receiveTimeOrder_shiftSend]

namespace DelayBasedBwe
variable {F : Type} [FloatArith F] (k : Int) (d : DelayBasedBwe F)

/-- The same estimation with its packet groups as another clock stamps them. -/
def shift (d : DelayBasedBwe F) : DelayBasedBwe F :=
  { d with
    videoInterArrivalDelta := d.videoInterArrivalDelta.shift k
    audioInterArrivalDelta := d.audioInterArrivalDelta.shift k }

theorem shift_activeState : (d.shift k).activeState = d.activeState := rfl

theorem shift_resetIfTimedOut (t : Timestamp) :
    (d.shift k).resetIfTimedOut t = (d.resetIfTimedOut t).shift k := by
  unfold resetIfTimedOut
  by_cases h : d.lastSeenPacket.isInfinite ∨ t - d.lastSeenPacket > kStreamTimeOut
  · rw [if_pos h, if_pos (by exact h)]
    rfl
  · rw [if_neg h, if_neg (by exact h)]

theorem shift_chooseDetector (p : PacketResult) :
    (d.shift k).chooseDetector (p.shiftSend k) = (d.chooseDetector p).shift k := by
  unfold chooseDetector
  by_cases he : d.separateAudio.enabled = true
  · rw [if_pos he, if_pos (by exact he)]
    by_cases ha : p.sentPacket.audio = true
    · rw [if_pos ha, if_pos (by exact ha)]
      dsimp only
      by_cases hlong : d.audioPacketsSinceLastVideo + 1 > d.separateAudio.packetThreshold ∧
          (p.receiveTime - d.lastVideoPacketRecvTime : TimeDelta) > d.separateAudio.timeThreshold
      · rw [if_pos hlong, if_pos (by exact hlong)]
        rfl
      · rw [if_neg hlong, if_neg (by exact hlong)]
        rfl
    · rw [if_neg ha, if_neg (by exact ha)]
      rfl
  · rw [if_neg he, if_neg (by exact he)]

theorem shift_feedDetector (p : PacketResult) (t : Timestamp) :
    (d.shift k).feedDetector (p.shiftSend k) t = (d.feedDetector p t).shift k := by
  have hvideo := InterArrivalDelta.shift_computeDeltas k d.videoInterArrivalDelta
    p.sentPacket.sendTime p.receiveTime t (toUint64 p.sentPacket.size.bytes)
  have haudio := InterArrivalDelta.shift_computeDeltas k d.audioInterArrivalDelta
    p.sentPacket.sendTime p.receiveTime t (toUint64 p.sentPacket.size.bytes)
  unfold feedDetector
  by_cases ha : (d.separateAudio.enabled && p.sentPacket.audio) = true
  · simp only [shift, PacketResult.shiftSend, ha, if_true, hvideo]
  · simp only [shift, PacketResult.shiftSend, ha, Bool.false_eq_true, if_false, haudio]

theorem shift_incomingPacketFeedback (p : PacketResult) (t : Timestamp) :
    (d.shift k).incomingPacketFeedback (p.shiftSend k) t = (d.incomingPacketFeedback p t).shift k := by
  unfold incomingPacketFeedback
  rw [shift_resetIfTimedOut]
  exact (congrArg (fun e => e.feedDetector (p.shiftSend k) t)
    (shift_chooseDetector k { d.resetIfTimedOut t with lastSeenPacket := t } p)).trans
      (shift_feedDetector k _ p t)

/-- The loop over shifted packets ends in the shifted state and sees the same recovery. -/
theorem shift_feedPackets (packets : List PacketResult) (t : Timestamp) :
    (d.shift k).feedPackets (packets.map (PacketResult.shiftSend k)) t =
      ((d.feedPackets packets t).1.shift k, (d.feedPackets packets t).2) := by
  have hloop : ∀ (packets : List PacketResult) (d : DelayBasedBwe F) (rest : Bool × BandwidthUsage),
      (packets.map (PacketResult.shiftSend k)).foldl (feedPacket t) (d.shift k, rest) =
        ((packets.foldl (feedPacket t) (d, rest)).1.shift k,
          (packets.foldl (feedPacket t) (d, rest)).2) := by
    intro packets
    induction packets with
    | nil => intro d rest; rfl
    | cons p packets ih =>
        intro d rest
        have hstep : feedPacket t (d.shift k, rest) (p.shiftSend k) =
            ((feedPacket t (d, rest) p).1.shift k, (feedPacket t (d, rest) p).2) := by
          unfold feedPacket
          dsimp only
          rw [shift_incomingPacketFeedback]
          rfl
        rw [List.map_cons, List.foldl_cons, List.foldl_cons, hstep, ih]
  exact hloop packets d (false, d.activeState)

theorem shift_updateEstimate (t : Timestamp) (acked : Option DataRate) :
    (d.shift k).updateEstimate t acked =
      ((d.updateEstimate t acked).1.shift k, (d.updateEstimate t acked).2) := rfl

theorem shift_reduceOnOveruse (acked : Option DataRate) (inAlr : Bool) (t : Timestamp) :
    (d.shift k).reduceOnOveruse acked inAlr t =
      ((d.reduceOnOveruse acked inAlr t).1.shift k, (d.reduceOnOveruse acked inAlr t).2) := by
  unfold reduceOnOveruse
  by_cases halr : (d.hasOnceDetectedOveruse && inAlr) = true
  · dsimp only
    rw [if_pos halr, if_pos (by exact halr)]
    by_cases hred : d.rateControl.timeToReduceFurther t d.prevBitrate = true
    · rw [if_pos hred, if_pos (by exact hred)]
      rfl
    · rw [if_neg hred, if_neg (by exact hred)]
      rfl
  · dsimp only
    rw [if_neg halr, if_neg (by exact halr)]
    cases acked with
    | some rate =>
        dsimp only
        by_cases hred : d.rateControl.timeToReduceFurther t rate = true
        · rw [if_pos hred, if_pos (by exact hred)]
          rfl
        · rw [if_neg hred, if_neg (by exact hred)]
          rfl
    | none =>
        dsimp only
        by_cases hfirst : (d.rateControl.validEstimate &&
            d.rateControl.initialTimeToReduceFurther t) = true
        · rw [if_pos hfirst, if_pos (by exact hfirst)]
          rfl
        · rw [if_neg hfirst, if_neg (by exact hfirst)]
          rfl

theorem shift_recordBitrate (result : BweResult) :
    (d.shift k).recordBitrate result = (d.recordBitrate result).shift k := by
  unfold recordBitrate
  by_cases h : (result.updated ∧ d.prevBitrate ≠ result.targetBitrate) ∨ d.activeState ≠ d.prevState
  · dsimp only
    rw [if_pos h, if_pos (by exact h)]
    rfl
  · dsimp only
    rw [if_neg h, if_neg (by exact h)]

theorem shift_maybeUpdateEstimate (acked : Option DataRate) (recovered inAlr : Bool) (t : Timestamp) :
    (d.shift k).maybeUpdateEstimate acked recovered inAlr t =
      ((d.maybeUpdateEstimate acked recovered inAlr t).1.shift k,
        (d.maybeUpdateEstimate acked recovered inAlr t).2) := by
  unfold maybeUpdateEstimate
  rw [shift_activeState]
  by_cases h : d.activeState = .kBwOverusing
  · rw [if_pos h, if_pos h, shift_reduceOnOveruse]
    dsimp only
    rw [shift_recordBitrate]
  · rw [if_neg h, if_neg h, shift_updateEstimate]
    dsimp only
    rw [shift_recordBitrate]

/-- A message with shifted send times gives the same result. -/
theorem shift_incomingPacketFeedbackVector (msg : TransportPacketsFeedback) (acked : Option DataRate)
    (inAlr : Bool) :
    (d.shift k).incomingPacketFeedbackVector (msg.shiftSends k) acked inAlr =
      ((d.incomingPacketFeedbackVector msg acked inAlr).1.shift k,
        (d.incomingPacketFeedbackVector msg acked inAlr).2) := by
  unfold incomingPacketFeedbackVector
  rw [TransportPacketsFeedback.sortedByReceiveTime_shiftSends]
  dsimp only
  by_cases hempty : msg.sortedByReceiveTime.isEmpty = true
  · rw [if_pos hempty, if_pos (by rw [List.isEmpty_map]; exact hempty)]
  · rw [if_neg hempty, if_neg (by rw [List.isEmpty_map]; exact hempty)]
    have hfeed := shift_feedPackets k d msg.sortedByReceiveTime msg.feedbackTime
    rw [show (msg.shiftSends k).feedbackTime = msg.feedbackTime from rfl, hfeed]
    generalize d.feedPackets msg.sortedByReceiveTime msg.feedbackTime = s
    exact shift_maybeUpdateEstimate k
      { s.1 with rateControl := s.1.rateControl.setInApplicationLimitedRegion inAlr } acked s.2.1 inAlr
      msg.feedbackTime

end DelayBasedBwe
end ChromeGcc
