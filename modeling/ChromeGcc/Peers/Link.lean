import ChromeGcc.Base.Channel
import ChromeGcc.Peers.Agreement
import ChromeGcc.Peers.PacingRate

/-! The closed loop of the two peers: the Sender's data packets go through one channel to the
Receiver, whose reports go back through another. Both channels may delay, reorder and drop. -/
namespace ChromeGcc
open Machine

/-- The data packet of a number, stamped by the poll that sends it. -/
def stampedPacket (number : Int) (poll : SendPoll) : GCCDataPacket where
  sequenceNumber := toUint64 number
  sendTime := .ofUnsigned (toUint64 poll.stampTime)

namespace SendLoop
variable {F : Type} [FloatArith F] {s s' : SendLoop} {poll : SendPoll}

/-- A poll that sends takes the next number. -/
theorem sendPacket_text {text : List Char} (h : s.sendPacket F poll = .ok (s', some text)) :
    text = (stampedPacket (s.dataPacketMaker.recentPacketNumber + 1) poll).serialize ∧
      s'.dataPacketMaker.recentPacketNumber = s.dataPacketMaker.recentPacketNumber + 1 := by
  unfold sendPacket makePacketAndSendFromBuf at h
  split at h
  · cases h
  · cases h
  · split at h
    · cases h
    · next heq =>
        cases h
        dsimp only at heq
        split_ifs at heq
        cases heq
        exact ⟨rfl, rfl⟩

/-- Unless sendto fails, a poll never stops a Sender whose rate is positive. -/
theorem sendPacket_ok (hrate : 0 < s.sendControl.pacingRate) (hsends : poll.sendFails = false) :
    ∃ r, s.sendPacket F poll = .ok r := by
  unfold sendPacket SendControl.isTimeToSendNextPacket SendControl.setNextSendTime
    makePacketAndSendFromBuf
  by_cases hlate : poll.checkTime > s.sendControl.nextSendTimestamp
  · simp only [if_pos hlate, if_pos hrate, hsends, Bool.false_eq_true, if_false]
    exact ⟨_, rfl⟩
  · simp only [if_neg hlate]
    exact ⟨_, rfl⟩

end SendLoop

namespace RunningSender
variable {F : Type} [FloatArith F] {s s' : RunningSender F} {poll : SendPoll}
  {sent : Option (List Char)}

/-- What a poll does: it sends the next packet or none, and leaves all else but the time of
the next one. -/
structure Polled (s s' : RunningSender F) (poll : SendPoll) (sent : Option (List Char)) : Prop where
  gccControler : s'.sender.gccControler = s.sender.gccControler
  recentRrPacket : s'.sender.recentRrPacket = s.sender.recentRrPacket
  pacingRate : s'.sender.sendControl.pacingRate = s.sender.sendControl.pacingRate
  sends : (sent = none ∧ s'.dataPacketMaker = s.dataPacketMaker) ∨
    (sent = some (stampedPacket (s.dataPacketMaker.recentPacketNumber + 1) poll).serialize ∧
      s'.dataPacketMaker.recentPacketNumber = s.dataPacketMaker.recentPacketNumber + 1)

theorem polled_of_step (h : s.step (.poll poll) = .ok (s', sent)) : s.Polled s' poll sent := by
  simp only [step] at h
  split at h
  · cases h
  · next loop text hpolled =>
      cases h
      cases sent with
      | none =>
          rw [SendLoop.sendPacket_none hpolled]
          exact ⟨rfl, rfl, rfl, .inl ⟨rfl, rfl⟩⟩
      | some text =>
          obtain ⟨-, -, hset⟩ := SendLoop.sendPacket_some hpolled
          obtain ⟨htext, hnumber⟩ := SendLoop.sendPacket_text hpolled
          refine ⟨rfl, rfl, ?_, .inr ⟨congrArg some htext, hnumber⟩⟩
          rw [hset]
          rfl

end RunningSender

/-- The peers, and what became of every datagram in the two directions. -/
structure Link (F : Type) [FloatArith F] where
  running : RunningSender F
  receiver : Receiver F
  data : Channel (List Char) := {}
  reports : Channel (List Char) := {}

/-- The Sender polls its loop, or a channel delivers or drops what it holds. -/
inductive LinkEvent where
  | poll (poll : SendPoll)
  | deliverData (index : Nat) (env : ReceiverEnv)
  | dropData (index : Nat)
  | deliverReport (index : Nat) (now : Timestamp)
  | dropReport (index : Nat)

/-- What is seen of a step: the event that it is for the reports, if it is one, with its
traffic, the rate that the Receiver's controller reported, and the data packet sent. -/
structure LinkView where
  event : Option NetworkEvent := none
  traffic : Traffic := {}
  reported : Option DataRate := none
  scheduled : Option ScheduledSend := none

/-- There is nothing to deliver or to drop, or a peer was stopped for good. -/
inductive LinkFault where
  | notInFlight
  | senderStopped (a : Abort)
  | receiverStopped (a : ReceiverAbort)
  deriving DecidableEq, Repr

namespace Link
variable {F : Type} [FloatArith F]

def new (senderConfig receiverConfig : NetworkControllerConfig F) : Link F where
  running := .new senderConfig
  receiver := .new receiverConfig

def step (s : Link F) : LinkEvent → Except LinkFault (Link F × LinkView)
  | .poll poll =>
    match s.running.step (.poll poll) with
    | .error a => .error (.senderStopped a)
    | .ok (running, sent) =>
      .ok ({ s with running := running, data := s.data.send sent.toList },
        { scheduled := sent.map fun _ => ⟨poll, s.running.sender.sendControl.pacingRate⟩ })
  | .deliverData index env =>
    match s.data.deliver index with
    | none => .error .notInFlight
    | some (text, data) =>
      match s.receiver.receivePacket env (some text) with
      | (.error a, _, _) => .error (.receiverStopped a)
      | (.ok (), receiver, sent) =>
        .ok ({ s with receiver := receiver, data := data, reports := s.reports.send sent },
          { event := some (.receive env text)
            traffic := { sent := sent }
            reported := s.receiver.reported env text })
  | .dropData index =>
    match s.data.drop index with
    | none => .error .notInFlight
    | some (_, data) => .ok ({ s with data := data }, {})
  | .deliverReport index now =>
    match s.reports.deliver index with
    | none => .error .notInFlight
    | some (text, reports) =>
      match s.running.sender.receivePacket (some text) now with
      | (.error a, _) => .error (.senderStopped a)
      | (.ok (), sender) =>
        .ok ({ s with running := { s.running with sender := sender }, reports := reports },
          { event := some (.deliver index now), traffic := { delivered := [text] } })
  | .dropReport index =>
    match s.reports.drop index with
    | none => .error .notInFlight
    | some (text, reports) =>
      .ok ({ s with reports := reports },
        { event := some (.drop index), traffic := { dropped := [text] } })

variable {s s' : Link F} {o : LinkView}

/-- What a step that succeeds does, event by event. -/
inductive Does (s : Link F) : LinkEvent → Link F → LinkView → Prop where
  | poll {poll : SendPoll} {running : RunningSender F} {sent : Option (List Char)}
      (step : s.running.step (.poll poll) = .ok (running, sent)) :
      Does s (.poll poll) { s with running := running, data := s.data.send sent.toList }
        { scheduled := sent.map fun _ => ⟨poll, s.running.sender.sendControl.pacingRate⟩ }
  | deliverData {index : Nat} {env : ReceiverEnv} {text : List Char} {data : Channel (List Char)}
      {receiver : Receiver F} {sent : List (List Char)}
      (delivers : s.data.Delivers index text data)
      (received : s.receiver.onPacketReceived env text = (.ok (), receiver, sent)) :
      Does s (.deliverData index env)
        { s with receiver := receiver, data := data, reports := s.reports.send sent }
        { event := some (.receive env text)
          traffic := { sent := sent }
          reported := s.receiver.reported env text }
  | dropData {index : Nat} {text : List Char} {data : Channel (List Char)}
      (drops : s.data.Drops index text data) : Does s (.dropData index) { s with data := data } {}
  | deliverReport {index : Nat} {now : Timestamp} {text : List Char} {reports : Channel (List Char)}
      {sender : Sender F} (delivers : s.reports.Delivers index text reports)
      (received : s.running.sender.receivePacket (some text) now = (.ok (), sender)) :
      Does s (.deliverReport index now)
        { s with running := { s.running with sender := sender }, reports := reports }
        { event := some (.deliver index now), traffic := { delivered := [text] } }
  | dropReport {index : Nat} {text : List Char} {reports : Channel (List Char)}
      (drops : s.reports.Drops index text reports) :
      Does s (.dropReport index) { s with reports := reports }
        { event := some (.drop index), traffic := { dropped := [text] } }

theorem does_of_step {event : LinkEvent} (h : s.step event = .ok (s', o)) : s.Does event s' o := by
  cases event with
  | poll poll =>
      simp only [step] at h
      split at h
      · cases h
      · next hp =>
          cases h
          exact .poll hp
  | deliverData index env =>
      simp only [step] at h
      split at h
      · cases h
      · next hd =>
          split at h
          · cases h
          · next hr =>
              cases h
              exact .deliverData (Channel.delivers_of_deliver hd) hr
  | dropData index =>
      simp only [step] at h
      split at h
      · cases h
      · next hd =>
          cases h
          exact .dropData (Channel.drops_of_drop hd)
  | deliverReport index now =>
      simp only [step] at h
      split at h
      · cases h
      · next hd =>
          split at h
          · cases h
          · next hr =>
              cases h
              exact .deliverReport (Channel.delivers_of_deliver hd) hr
  | dropReport index =>
      simp only [step] at h
      split at h
      · cases h
      · next hd =>
          cases h
          exact .dropReport (Channel.drops_of_drop hd)

section Runs

/-- A poll, and the next data packet at the Receiver, at a time in milliseconds. -/
def pollAt (ms : Int) : LinkEvent := .poll ⟨ms * 1000, ms * 1000, ms * 1000, false⟩

def nextDataAt (ms : Int) : LinkEvent :=
  .deliverData 0 ⟨.finite (ms * 1000), .finite (ms * 1000), fun _ => false⟩

/-- Five packets of which the second is lost, and the two reports about them. -/
def lossyRun : List LinkEvent :=
  [pollAt 1, pollAt 100, pollAt 300, pollAt 700, pollAt 5600, nextDataAt 10, .dropData 0,
    nextDataAt 510, nextDataAt 1000, nextDataAt 5800, .deliverReport 0 (.finite 5900000),
    .deliverReport 0 (.finite 5900000)]

theorem lossyRun_succeeds :
    (run step (new (System.startedAt 300000) (System.startedAt 300000)) lossyRun).isOk = true := by
  decide +kernel

/-- Three packets early on, and later ones of which each takes six milliseconds longer than the one
before; the last takes far longer. -/
def congestedRun : List LinkEvent :=
  [pollAt 1, nextDataAt 61, pollAt 400, nextDataAt 460, pollAt 530, nextDataAt 590] ++
    ((List.range 23).flatMap fun k => [pollAt (4931 + 24 * k), nextDataAt (4970 + 30 * k)]) ++
    [pollAt 5600]

/-- The queue of the congested run drains for a while, and then grows again. -/
def congestedTwiceRun : List LinkEvent :=
  congestedRun ++ nextDataAt 5860 ::
    ((List.range 5).flatMap fun k => [pollAt (5700 + 120 * k), nextDataAt (5900 + 200 * k)]) ++
    [pollAt 6300]

end Runs

end Link
end ChromeGcc
