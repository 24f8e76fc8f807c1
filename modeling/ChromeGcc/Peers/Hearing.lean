import ChromeGcc.Peers.LossFeedback
import ChromeGcc.Peers.RateReports

/-! What the Receiver's controller hears in the closed loop: the steps that hand it the feedback of
a packet, and those that leave the Receiver alone. -/
namespace ChromeGcc
open Machine

/-- The handler of a data packet passes it to the controller, which may report a rate. -/
theorem Receiver.controller_of_data {F : Type} [FloatArith F] (s : Receiver F) (env : ReceiverEnv)
    {text : List Char} {packet : GCCDataPacket} (ht : getType text = .ok .data)
    (hp : GCCDataPacketParser.unSerialize text {} = (.ok (), packet)) :
    (s.onPacketReceived env text).2.1.gccControler =
        s.gccControler.onTransportPacketsFeedback (feedbackOf packet env) ∧
      s.reported env text = s.feedbackRate (feedbackOf packet env) := by
  unfold onPacketReceived onDataPacketReceived reported
  rw [ht]
  dsimp only
  rw [hp]
  exact ⟨onFeedback_controller s env _, rfl⟩

/-- A rate is reported where the estimate was updated: its target. -/
theorem Receiver.feedbackRate_eq_some_iff {F : Type} [FloatArith F] {s : Receiver F}
    {msg : TransportPacketsFeedback} {rate : DataRate} :
    s.feedbackRate msg = some rate ↔
      (s.gccControler.onTransportPacketsFeedback msg).recentResult.updated = true ∧
        (s.gccControler.onTransportPacketsFeedback msg).recentResult.targetBitrate = rate := by
  unfold feedbackRate
  dsimp only
  split_ifs with hu
  · exact ⟨fun h => ⟨hu, Option.some.inj h⟩, fun h => congrArg some h.2⟩
  · exact iff_of_false not_false fun h => hu h.1

namespace Link
variable {F : Type} [FloatArith F] {s s' : Link F} {o : LinkView} {event : LinkEvent}
  {packet : GCCDataPacket} {env : ReceiverEnv}

/-- A step in which the Receiver's controller hears of a data packet. -/
structure Hears (s s' : Link F) (o : LinkView) (packet : GCCDataPacket) (env : ReceiverEnv) : Prop where
  event : o.event = some (.receive env packet.serialize)
  controller : s'.receiver.gccControler =
    s.receiver.gccControler.onTransportPacketsFeedback (Receiver.feedbackOf packet.written env)
  reported : o.reported = s.receiver.feedbackRate (Receiver.feedbackOf packet.written env)

/-- A step that leaves the Receiver alone. -/
structure Idles (s : Link F) (event : LinkEvent) (s' : Link F) (o : LinkView) : Prop where
  receiver : s'.receiver = s.receiver
  reported : o.reported = none
  unread : ∀ env text, o.event ≠ some (.receive env text)
  times : receiveTimes [event] = []

/-- A step leaves the Receiver alone, or hands its controller a packet that was sent. -/
theorem Does.idles_or_hears (h : s.Does event s' o) {P : GCCDataPacket → Prop}
    (hsent : ∀ text ∈ s.data.sent, ∃ packet : GCCDataPacket, text = packet.serialize ∧ P packet) :
    s.Idles event s' o ∨ ∃ index env packet, event = .deliverData index env ∧ P packet ∧
      s.Hears s' o packet env := by
  cases h with
  | poll step => exact .inl ⟨rfl, rfl, by simp, rfl⟩
  | @deliverData index env text data receiver sent delivers received =>
      obtain ⟨packet, rfl, hpacket⟩ := hsent text delivers.mem_sent
      obtain ⟨hcontroller, hreported⟩ := s.receiver.controller_of_data env packet.getType_serialize
        (GCCDataPacket.unSerialize_serialize_written packet {})
      rw [received] at hcontroller
      exact .inr ⟨index, env, packet, rfl, hpacket, rfl, hcontroller, hreported⟩
  | dropData drops => exact .inl ⟨rfl, rfl, by simp, rfl⟩
  | deliverReport delivers received => exact .inl ⟨rfl, rfl, by simp, rfl⟩
  | dropReport drops => exact .inl ⟨rfl, rfl, by simp, rfl⟩

theorem Does.idles_or_hears_data (h : s.Does event s' o) (htexts : s.TextsData) :
    s.Idles event s' o ∨ ∃ env packet, s.Hears s' o packet env := by
  have hsent : ∀ text ∈ s.data.sent, ∃ packet : GCCDataPacket, text = packet.serialize ∧ True := by
    intro text ht
    obtain ⟨packet, hpacket⟩ := htexts text ht
    exact ⟨packet, hpacket, trivial⟩
  refine (h.idles_or_hears hsent).imp_right ?_
  rintro ⟨index, env, packet, -, -, hhears⟩
  exact ⟨env, packet, hhears⟩

theorem Hears.reported_iff (h : s.Hears s' o packet env) {rate : DataRate} :
    o.reported = some rate ↔ s'.receiver.gccControler.recentResult.updated = true ∧
      s'.receiver.gccControler.recentResult.targetBitrate = rate := by
  rw [h.reported, h.controller]
  exact Receiver.feedbackRate_eq_some_iff

end Link
end ChromeGcc
