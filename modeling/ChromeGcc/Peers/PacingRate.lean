import ChromeGcc.Controller.Limits
import ChromeGcc.Packet.RoundTrip
import ChromeGcc.Peers.Pacing

/-! The pacing rate over whole runs of a Sender, which receives datagrams and polls its
sending loop in any order. -/
namespace ChromeGcc
open FloatArith UnitBase GoogCcNetworkController

/-- A Sender with the maker of its packets. -/
structure RunningSender (F : Type) [FloatArith F] where
  sender : Sender F
  dataPacketMaker : GCCDataPacketMaker := {}

inductive SenderEvent where
  | receive (receiveBuf : List Char) (now : Timestamp)
  | poll (poll : SendPoll)
  deriving DecidableEq, Repr

namespace Sender
variable {F : Type} [FloatArith F] {s s' : Sender F}

/-- The pacing rate lies in its range and obeys the receiver's limit. -/
structure Steady (s : Sender F) : Prop where
  feedback : s.gccControler.packetFeedbackOnly = false
  regular : s.gccControler.bandwidthEstimation.core.Regular
  minimum : minPacingRate ≤ s.sendControl.pacingRate
  maximum : s.sendControl.pacingRate ≤ 1000000000
  limited : (.finite s.sendControl.pacingRate : DataRate) ≤
    max (.finite minPacingRate) s.gccControler.getReceiverLimit

theorem steady_new (config : NetworkControllerConfig F) : (new config).Steady where
  feedback := rfl
  regular := SendSideBandwidthEstimation.regular_fresh
  minimum := (by decide : minPacingRate ≤ initialPacingRate.toNat)
  maximum := (by decide : initialPacingRate.toNat ≤ 1000000000)
  limited := le_trans (le_plusInfinity _) (le_max_right _ _)

/-- The handler leaves the controller alone, or passes it one report. -/
theorem dispatch_ok {type : PacketType} {receiveBuf : List Char} {now : Timestamp}
    (h : s.dispatch type receiveBuf now = (.ok (), s')) :
    (s'.gccControler = s.gccControler ∨ ∃ report, s'.gccControler = s.gccControler.onReport report) ∧
      s'.sendControl = s.sendControl := by
  cases type with
  | data =>
      cases h
      exact ⟨.inl rfl, rfl⟩
  | rr =>
      simp only [dispatch, onRRPacketReceived] at h
      split at h
      · cases h
      · cases h
        exact ⟨.inr ⟨.transportLoss _, rfl⟩, rfl⟩
  | remb =>
      simp only [dispatch, onREMBPacketReceived] at h
      split at h
      · cases h
      · cases h
        exact ⟨.inr ⟨.remoteBitrate _, rfl⟩, rfl⟩

/-- The controller's part of a steady Sender. -/
theorem regular_onReport {g : GoogCcNetworkController F} (hf : g.packetFeedbackOnly = false)
    (hr : g.bandwidthEstimation.core.Regular) (report : Report) :
    (g.onReport report).packetFeedbackOnly = false ∧
      (g.onReport report).bandwidthEstimation.core.Regular := by
  rw [onReport_eq hf]
  exact ⟨hf, SendSideBandwidthEstimation.regular_call hr _ _⟩

/-- The controller's rate, below the minimum or not, gives a rate within the range. -/
theorem steady_pace (hf : s.gccControler.packetFeedbackOnly = false)
    (hr : s.gccControler.bandwidthEstimation.core.Regular) : s.pace.Steady := by
  obtain ⟨x, hx, hlow, hhigh⟩ := (inRange_targetRate hr).exists_finite
  have hrate : s.gccControler.getSenderSideDataRate.getUint64 = x.toNat := by
    rw [getSenderSideDataRate, hx, getUint64]
    unfold toUint64 toValue
    dsimp only
    omega
  have hpace : s.pace.sendControl.pacingRate = max x.toNat minPacingRate := by
    rw [← hrate]
    rfl
  have hmin : s.gccControler.bandwidthEstimation.minBitrateConfigured = .finite 5000 :=
    hr.minConfigured
  have hcaps : s.gccControler.bandwidthEstimation.receiverLimitCapsOnly = true := hr.capsOnly
  constructor
  case feedback => exact hf
  case regular => exact hr
  case minimum =>
    rw [hpace]
    exact le_max_right _ _
  case maximum =>
    rw [hpace]
    refine max_le ?_ (by decide)
    omega
  case limited =>
    have htarget : (.finite x : DataRate) ≤
        max (.finite 5000) s.gccControler.bandwidthEstimation.receiverLimit := by
      rw [← hx, SendSideBandwidthEstimation.targetRate, hcaps, hmin]
      exact max_le_max_left _ (min_le_right _ _)
    have hcast : (.finite ((max x.toNat minPacingRate : Nat) : Int) : DataRate) =
        max (.finite x) (.finite minPacingRate) := by
      rw [max_finite]
      congr 1
      omega
    rw [hpace, hcast]
    refine max_le (htarget.trans (max_le_max_right _ ?_)) (le_max_left _ _)
    exact finite_le_finite.mpr (by decide)

theorem Steady.receive (h : s.Steady) {receiveBuf : List Char} {now : Timestamp}
    (hs : s.onPacketReceived receiveBuf now = (.ok (), s')) : s'.Steady := by
  unfold onPacketReceived at hs
  split at hs
  · cases hs
  · next type _ =>
      split at hs
      · cases hs
      · next t hd =>
          cases hs
          obtain ⟨hcontroller | ⟨report, hcontroller⟩, -⟩ := dispatch_ok hd
          · refine steady_pace ?_ ?_
            · rw [hcontroller]
              exact h.feedback
            · rw [hcontroller]
              exact h.regular
          · obtain ⟨hf, hr⟩ := regular_onReport h.feedback h.regular report
            refine steady_pace ?_ ?_
            · rw [hcontroller]
              exact hf
            · rw [hcontroller]
              exact hr

theorem Steady.withNextSendTime (h : s.Steady) (time : Int) :
    ({ s with sendControl := { s.sendControl with nextSendTimestamp := time } } : Sender F).Steady :=
  ⟨h.feedback, h.regular, h.minimum, h.maximum, h.limited⟩

/-- A report whose fields fit their widths is handled to its end. -/
theorem onPacketReceived_rr_fits {p : GCCRRPacket} (h : p.Fits) (s : Sender F) (now : Timestamp) :
    ∃ s', s.onPacketReceived p.serialize now = (.ok (), s') := by
  unfold onPacketReceived
  rw [GCCRRPacket.getType_serialize]
  simp only [dispatch, onRRPacketReceived, GCCRRPacket.unSerialize_serialize h]
  exact ⟨_, rfl⟩

theorem onPacketReceived_remb_fits {p : GCCREMBPacket} (h : p.Fits) (s : Sender F)
    (now : Timestamp) : ∃ s', s.onPacketReceived p.serialize now = (.ok (), s') := by
  unfold onPacketReceived
  rw [GCCREMBPacket.getType_serialize]
  simp only [dispatch, onREMBPacketReceived, GCCREMBPacket.unSerialize_serialize h]
  exact ⟨_, rfl⟩

/-- What a Sender's rate and target keep to, and so that the next send can be scheduled. -/
structure PacingInRange (s : Sender F) : Prop where
  minimum : minPacingRate ≤ s.sendControl.pacingRate
  maximum : s.sendControl.pacingRate ≤ 1000000000
  limited : (.finite s.sendControl.pacingRate : DataRate) ≤
    max (.finite minPacingRate) s.gccControler.getReceiverLimit
  target_ge : .finite 5000 ≤ s.gccControler.bandwidthEstimation.currentTarget
  target_le : s.gccControler.bandwidthEstimation.currentTarget ≤ .finite 1000000000
  schedules : ∀ now, ∃ control, s.sendControl.setNextSendTime F now = .ok control

theorem Steady.pacingInRange (h : s.Steady) : s.PacingInRange where
  minimum := h.minimum
  maximum := h.maximum
  limited := h.limited
  target_ge := h.regular.target.1
  target_le := h.regular.target.2
  schedules now := by
    have hpos : s.sendControl.pacingRate > 0 := lt_of_lt_of_le (by decide) h.minimum
    rw [SendControl.setNextSendTime, if_pos hpos]
    exact ⟨_, rfl⟩

end Sender

namespace RunningSender
variable {F : Type} [FloatArith F]

def sendLoop (s : RunningSender F) : SendLoop :=
  { sendControl := s.sender.sendControl, dataPacketMaker := s.dataPacketMaker }

/-- One event, observed with the datagram that it sends. -/
def step (s : RunningSender F) : SenderEvent → Except Abort (RunningSender F × Option (List Char))
  | .receive receiveBuf now =>
    match s.sender.onPacketReceived receiveBuf now with
    | (.error e, _) => .error e
    | (.ok (), sender) => .ok ({ s with sender := sender }, none)
  | .poll p =>
    match s.sendLoop.sendPacket F p with
    | .error e => .error e
    | .ok (loop, sent) =>
      .ok ({
        sender := { s.sender with sendControl := loop.sendControl }
        dataPacketMaker := loop.dataPacketMaker }, sent)

def new (config : NetworkControllerConfig F) : RunningSender F := { sender := .new config }

theorem steady_step {s s' : RunningSender F} {event : SenderEvent} {sent : Option (List Char)}
    (h : s.sender.Steady) (hs : s.step event = .ok (s', sent)) : s'.sender.Steady := by
  cases event with
  | receive receiveBuf now =>
      simp only [step] at hs
      split at hs
      · cases hs
      · next sender hreceived =>
          cases hs
          exact h.receive hreceived
  | poll p =>
      simp only [step] at hs
      split at hs
      · cases hs
      · next loop text hpolled =>
          cases hs
          cases sent with
          | none =>
              rw [SendLoop.sendPacket_none hpolled]
              exact h
          | some text =>
              obtain ⟨-, -, hset⟩ := SendLoop.sendPacket_some hpolled
              rw [hset]
              exact h.withNextSendTime _

open Machine

/-- After any datagrams that a Sender handles to their end, and any polls between them, its
rate and its target are in range; and every report whose fields fit is handled to its end. -/
theorem pacing_rate_in_range (config : NetworkControllerConfig F) (events : List SenderEvent)
    {sent : List (Option (List Char))} {s : RunningSender F}
    (ht : Trace step (new config) events sent s) :
    s.sender.PacingInRange ∧
      (∀ (p : GCCRRPacket) now, p.Fits → ∃ s', s.step (.receive p.serialize now) = .ok (s', none)) ∧
      ∀ (p : GCCREMBPacket) now, p.Fits → ∃ s', s.step (.receive p.serialize now) = .ok (s', none) := by
  have hsteady : s.sender.Steady := by
    refine Trace.invariant (P := fun _ => True) (I := fun _ _ s => s.sender.Steady)
      (fun _ _ _ => trivial) (Sender.steady_new config) ?_ ht trivial
    intro events os s event s' o _ _ h hs
    exact steady_step h hs
  refine ⟨hsteady.pacingInRange, fun p now h => ?_, fun p now h => ?_⟩
  · obtain ⟨sender, hreceived⟩ := Sender.onPacketReceived_rr_fits h s.sender now
    simp only [step, hreceived]
    exact ⟨_, rfl⟩
  · obtain ⟨sender, hreceived⟩ := Sender.onPacketReceived_remb_fits h s.sender now
    simp only [step, hreceived]
    exact ⟨_, rfl⟩

/-- A zero rate, which means no limit, a report without loss, and two polls. -/
def reportedEvents : List SenderEvent :=
  [.poll ⟨1, 2, 3, false⟩, .receive (GCCREMBPacket.mk (.bitsPerSec 0)).serialize (.micros 10),
    .receive (GCCRRPacket.mk (.micros 0) (.micros 9) 0 40).serialize (.micros 20),
    .poll ⟨30000, 30001, 30002, false⟩]

theorem pacing_rate_in_range_reported :
    (final step (new (configOf 0 300000 2000000)) reportedEvents).sender.PacingInRange ∧
      (∀ (p : GCCRRPacket) now, p.Fits →
        ∃ s', (final step (new (configOf 0 300000 2000000)) reportedEvents).step
          (.receive p.serialize now) = .ok (s', none)) ∧
      ∀ (p : GCCREMBPacket) now, p.Fits →
        ∃ s', (final step (new (configOf 0 300000 2000000)) reportedEvents).step
          (.receive p.serialize now) = .ok (s', none) :=
  pacing_rate_in_range (configOf 0 300000 2000000) reportedEvents (trace_final (by decide +kernel))

end RunningSender
end ChromeGcc
