import ChromeGcc.Packet.Overflow
import ChromeGcc.Peers.Link

/-! The data packets of the closed loop: the Sender numbers them without gaps, and no number
reaches the Receiver twice. -/
namespace ChromeGcc
open Machine

/-- The polls among some events. -/
def polls (events : List LinkEvent) : List SendPoll :=
  events.filterMap fun
    | .poll poll => some poll
    | _ => none

/-- The packets that some polls send, numbered from one. -/
def numbered (sends : List SendPoll) : List GCCDataPacket :=
  (sends.zipIdx 1).map fun send => stampedPacket send.2 send.1

/-- The number that a datagram carries, as its handler reads it. -/
def dataNumber (text : List Char) : Nat := (GCCDataPacketParser.unSerialize text {}).2.sequenceNumber

theorem numbered_snoc (sends : List SendPoll) (poll : SendPoll) :
    numbered (sends ++ [poll]) = numbered sends ++ [stampedPacket (sends.length + 1) poll] := by
  unfold numbered
  rw [List.zipIdx_append, List.map_append, List.zipIdx_singleton, List.map_singleton]
  congr 3
  push_cast
  ring

theorem stampedPacket_written {number : Nat} (h : number < 10 ^ packetNumberLen) (poll : SendPoll) :
    (stampedPacket number poll).written.sequenceNumber = number := by
  have hpow : 10 ^ packetNumberLen = 10000000000 := rfl
  have hnumber : (stampedPacket number poll).sequenceNumber = number := toUint64_natCast (by omega)
  change writtenNumber (stampedPacket number poll).sequenceNumber packetNumberLen = number
  rw [hnumber, writtenNumber_eq_iff]
  exact h

/-- As long as the numbers have room in their field, they are read back as one, two, three. -/
theorem dataNumbers_numbered {sends : List SendPoll} (h : sends.length < 10 ^ packetNumberLen) :
    ((numbered sends).map GCCDataPacket.serialize).map dataNumber =
      List.range' 1 sends.length := by
  induction sends using List.reverseRecOn with
  | nil => rfl
  | append_singleton sends poll ih =>
      rw [List.length_append, List.length_singleton] at h
      have hlast : dataNumber (stampedPacket (sends.length + 1) poll).serialize =
          sends.length + 1 := by
        rw [dataNumber, GCCDataPacket.unSerialize_serialize_written]
        exact stampedPacket_written h poll
      rw [numbered_snoc, List.map_append, List.map_append, ih (by omega), List.length_append,
        List.length_singleton, List.range'_concat, List.map_singleton, List.map_singleton, hlast]
      congr 2
      omega

namespace Link
variable {F : Type} [FloatArith F] {s s' : Link F} {o : LinkView} {os : List LinkView}
  {events : List LinkEvent}

/-- The Sender has sent one packet for each of these polls, numbered in their order. -/
structure Numbered (s : Link F) (sends : List SendPoll) : Prop where
  count : s.running.dataPacketMaker.recentPacketNumber = sends.length
  sent : s.data.sent = (numbered sends).map GCCDataPacket.serialize

theorem polls_snoc (events : List LinkEvent) (event : LinkEvent) :
    polls (events ++ [event]) = polls events ++ polls [event] := List.filterMap_append

/-- A poll adds the next packet, or none; nothing else adds one. -/
theorem Does.numbered {event : LinkEvent} {sends : List SendPoll} (h : s.Does event s' o)
    (hn : s.Numbered sends) :
    ∃ more, more.Sublist (polls [event]) ∧ s'.Numbered (sends ++ more) := by
  have same : s'.running.dataPacketMaker = s.running.dataPacketMaker → s'.data.sent = s.data.sent →
      s'.Numbered (sends ++ []) := by
    intro hmaker hsent
    rw [List.append_nil]
    exact ⟨by rw [hmaker]; exact hn.count, hsent.trans hn.sent⟩
  cases h with
  | @poll poll running sent step =>
      rcases (RunningSender.polled_of_step step).sends with ⟨rfl, hmaker⟩ | ⟨rfl, hmaker⟩
      · exact ⟨[], List.nil_sublist _, same hmaker (List.append_nil _)⟩
      · refine ⟨[poll], List.Sublist.refl _, ?_, ?_⟩
        · change running.dataPacketMaker.recentPacketNumber = _
          rw [hmaker, hn.count]
          simp
        · rw [numbered_snoc, List.map_append, ← hn.sent, List.map_singleton, ← hn.count]
          rfl
  | deliverData delivers received => exact ⟨[], List.nil_sublist _, same rfl delivers.sent⟩
  | dropData drops => exact ⟨[], List.nil_sublist _, same rfl drops.sent⟩
  | deliverReport delivers received => exact ⟨[], List.nil_sublist _, same rfl rfl⟩
  | dropReport drops => exact ⟨[], List.nil_sublist _, same rfl rfl⟩

theorem numbered_of_trace {senderConfig receiverConfig : NetworkControllerConfig F}
    (h : Trace step (new senderConfig receiverConfig) events os s) :
    ∃ sends, sends.Sublist (polls events) ∧ s.Numbered sends := by
  induction h with
  | nil => exact ⟨[], List.nil_sublist _, rfl, rfl⟩
  | snoc _ hs ih =>
      obtain ⟨sends, hsends, hn⟩ := ih
      obtain ⟨more, hmore, hn'⟩ := (does_of_step hs).numbered hn
      refine ⟨sends ++ more, ?_, hn'⟩
      rw [polls_snoc]
      exact hsends.append hmore

/-- The numbers sent increase by one, as long as they have room in their field. -/
theorem Numbered.dataNumbers {sends : List SendPoll} (h : s.Numbered sends)
    (hl : sends.length < 10 ^ packetNumberLen) :
    s.data.sent.map dataNumber = List.range' 1 sends.length := by
  rw [h.sent]
  exact dataNumbers_numbered hl

theorem Numbered.increasing {sends : List SendPoll} (h : s.Numbered sends)
    (hl : sends.length < 10 ^ packetNumberLen) :
    (s.data.sent.map dataNumber).Pairwise (· < ·) := by
  rw [h.dataNumbers hl]
  exact List.pairwise_lt_range'

/-- Whatever the network does, the Sender has sent the packets one, two, three and so on, each
stamped by the poll that sent it; each is delivered, dropped or in flight, and read back as it was
written; and while the numbers fit their field, none reaches the Receiver twice. -/
theorem data_delivered_once (senderConfig receiverConfig : NetworkControllerConfig F)
    (events : List LinkEvent) (h : Trace step (new senderConfig receiverConfig) events os s) :
    ∃ sends, sends.Sublist (polls events) ∧
      s.data.sent = (numbered sends).map GCCDataPacket.serialize ∧
      s.data.sent.Perm (s.data.delivered ++ s.data.dropped ++ s.data.inFlight) ∧
      (∀ text ∈ s.data.delivered, ∃ packet ∈ numbered sends, text = packet.serialize ∧
        GCCDataPacketParser.unSerialize text {} = (.ok (), packet.written)) ∧
      (sends.length < 10 ^ packetNumberLen → (s.data.delivered.map dataNumber).Nodup) := by
  obtain ⟨sends, hsends, hn⟩ := numbered_of_trace h
  refine ⟨sends, hsends, hn.sent, s.data.conserved, ?_, ?_⟩
  · intro text ht
    have hmem := Channel.mem_sent_of_mem_delivered ht
    rw [hn.sent] at hmem
    obtain ⟨packet, hpacket, rfl⟩ := List.mem_map.mp hmem
    exact ⟨packet, hpacket, rfl, GCCDataPacket.unSerialize_serialize_written packet {}⟩
  · intro hl
    have hnodup : (s.data.sent.map dataNumber).Nodup :=
      (hn.increasing hl).imp fun hlt => Nat.ne_of_lt hlt
    have hparts := (s.data.conserved.map dataNumber).nodup_iff.mp hnodup
    rw [List.map_append, List.map_append] at hparts
    exact (hparts.of_append_left).of_append_left

theorem data_delivered_once_lossyRun :
    ∃ os s sends, Trace step (new (System.startedAt 300000) (System.startedAt 300000)) lossyRun os s ∧
      s.data.delivered.map dataNumber = [1, 3, 4, 5] ∧ s.data.dropped.map dataNumber = [2] ∧
      s.data.sent = (numbered sends).map GCCDataPacket.serialize ∧
      (∀ text ∈ s.data.delivered, ∃ packet ∈ numbered sends, text = packet.serialize ∧
        GCCDataPacketParser.unSerialize text {} = (.ok (), packet.written)) ∧
      (s.data.delivered.map dataNumber).Nodup := by
  have h := trace_final lossyRun_succeeds
  obtain ⟨sends, hpolls, hsent, -, hread, honce⟩ := data_delivered_once _ _ lossyRun h
  have hlength : sends.length < 10 ^ packetNumberLen := hpolls.length_le.trans_lt (by decide)
  exact ⟨_, _, sends, h, by decide +kernel, by decide +kernel, hsent, hread, honce hlength⟩

end Link
end ChromeGcc
