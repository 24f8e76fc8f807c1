import ChromeGcc.NetworkTypes

/-! ReceiverLossCollection: two receive windows that take turns. The in-effect
window records arrivals; when it ends it becomes the waiting window, which still
takes late packets until its loss report is generated. -/
namespace ChromeGcc

structure LossReportUpdate where
  report : TransportLossReport := {}
  updated : Bool := false
  deriving DecidableEq, Repr

inductive ReceiveVectorState where
  | inEffect
  | wait
  deriving DecidableEq, Repr

structure ReceiveVector where
  firstReceivedTime : Timestamp := .micros 0
  largestReceivedTime : Timestamp := .micros 0
  waitDuration : TimeDelta := .micros 0
  firstPacketNumber : Nat := 0
  largestPacketNumber : Nat := 0
  receivedVector : List Bool := []
  state : ReceiveVectorState
  deriving DecidableEq, Repr

/-- Reset gives every field a new value. -/
def ReceiveVector.reset : ReceiveVector := { state := .inEffect }

/-- The ways a packet can stop the collection: its assertions, and a write
outside a received vector. -/
inductive Failure where
  | waitNumberAssertion
  | waitIndexOutOfRange
  | effectNumberAssertion
  | effectIndexOutOfRange
  | waitNotEmptyAssertion
  | effectNotEmptyAssertion
  | effectTimeAssertion
  deriving DecidableEq, Repr

/-- The failures of an index computation, as opposed to those of a hand-over. -/
def Failure.ofIndex : Failure → Bool
  | .waitNumberAssertion => true
  | .waitIndexOutOfRange => true
  | .effectNumberAssertion => true
  | .effectIndexOutOfRange => true
  | _ => false

/-- The two pointers of the source always name its two distinct windows, so the
state holds the windows themselves and a swap of pointers exchanges them. -/
structure ReceiverLossCollection where
  smoothRtt : TimeDelta := .micros 0
  inEffectVector : ReceiveVector := { state := .inEffect }
  waitVector : ReceiveVector := { state := .wait }
  deriving DecidableEq, Repr

def receiveDuration : TimeDelta := .millis 200

/-- The packet's number, as the uint64_t comparisons of the source read it. -/
def PacketResult.number (p : PacketResult) : Nat := toUint64 p.sentPacket.sequenceNumber

/-- The received and the lost packets of a window. -/
def ReceiveVector.receivedCount (w : ReceiveVector) : Nat := w.receivedVector.count true
def ReceiveVector.lossCount (w : ReceiveVector) : Nat := w.receivedVector.count false

/-- The receive time a waiting window's report waits for. -/
def ReceiveVector.deadline (w : ReceiveVector) : Timestamp :=
  w.firstReceivedTime + receiveDuration + w.waitDuration

def ReceiveVector.lossReport (w : ReceiveVector) (endTime : Timestamp) : LossReportUpdate where
  report := {
    startTime := w.firstReceivedTime
    endTime := endTime
    packetsReceivedDelta := w.receivedCount
    packetsLostDelta := w.lossCount }
  updated := true

/-- A number above the window's largest opens an empty window, or extends the
window over the gap before it. -/
def ReceiveVector.recordNew (e : ReceiveVector) (packet : PacketResult) : ReceiveVector :=
  if e.receivedVector = [] then
    { e with
      receivedVector := [true]
      firstReceivedTime := packet.receiveTime
      largestReceivedTime := packet.receiveTime
      firstPacketNumber := packet.number
      largestPacketNumber := packet.number }
  else
    let gap := List.replicate (packet.number - (e.largestPacketNumber + 1)) false
    { e with
      receivedVector := e.receivedVector ++ gap ++ [true]
      largestPacketNumber := packet.number
      largestReceivedTime := packet.receiveTime }

namespace ReceiverLossCollection

def updateWaitVector (c : ReceiverLossCollection) (packet : PacketResult) :
    Except Failure ReceiverLossCollection :=
  let w := c.waitVector
  if packet.number < w.largestPacketNumber then
    -- an unsigned difference: a number below the window wraps around
    let ackedIndx := toUint64 (packet.number - w.firstPacketNumber)
    if ackedIndx < w.receivedVector.length then
      .ok { c with waitVector := { w with receivedVector := w.receivedVector.set ackedIndx true } }
    else .error .waitIndexOutOfRange
  else .error .waitNumberAssertion

section Doubles
variable (F : Type) [FloatArith F]
open FloatArith

def kAlpha : F := narrow (lit 0.125)
def kOneMinusAlpha : F := narrow (ofInt 1 - kAlpha F)

/-- The smoothed value after one more sample; zero means that none was taken. -/
def smoothSample (smoothRtt rttSample : TimeDelta) : TimeDelta :=
  if smoothRtt = .micros 0 then rttSample
  else smoothRtt.scale (kOneMinusAlpha F) + rttSample.scale (kAlpha F)

def updateRtt (c : ReceiverLossCollection) (packet : PacketResult) : ReceiverLossCollection :=
  { c with smoothRtt := smoothSample F c.smoothRtt (packet.receiveTime - packet.sentPacket.sendTime) }

end Doubles

def getWaitDuration (c : ReceiverLossCollection) : TimeDelta :=
  max (min c.smoothRtt (receiveDuration - .millis 10)) (.millis 100)

def onReceiveDurationEnd (c : ReceiverLossCollection) : Except Failure ReceiverLossCollection :=
  if c.waitVector.receivedVector ≠ [] then .error .waitNotEmptyAssertion
  else
    let wait := { c.inEffectVector with waitDuration := c.getWaitDuration }
    let effect : ReceiveVector :=
      { c.waitVector with firstPacketNumber := toUint64 (c.inEffectVector.largestPacketNumber + 1) }
    if effect.receivedVector ≠ [] then .error .effectNotEmptyAssertion
    else .ok { smoothRtt := .micros 0, inEffectVector := effect, waitVector := wait }

def onNewReportGenerated (c : ReceiverLossCollection) : Except Failure ReceiverLossCollection :=
  if c.inEffectVector.largestReceivedTime <
      c.inEffectVector.firstReceivedTime + receiveDuration then
    .ok { c with waitVector := ReceiveVector.reset }
  else .error .effectTimeAssertion

/-- MaybeGenerateReport's two guards: the deadline has passed, and the waiting
window holds a received packet. -/
def ReportDue (c : ReceiverLossCollection) (endTime : Timestamp) : Prop :=
  endTime > c.waitVector.deadline ∧ c.waitVector.receivedCount ≠ 0

instance (c : ReceiverLossCollection) (endTime : Timestamp) : Decidable (c.ReportDue endTime) :=
  inferInstanceAs (Decidable (_ ∧ _))

def maybeGenerateReport (c : ReceiverLossCollection) (endTime : Timestamp) :
    Except Failure (ReceiverLossCollection × LossReportUpdate) :=
  if c.ReportDue endTime then
    match c.onNewReportGenerated with
    | .error e => .error e
    | .ok c' => .ok (c', c.waitVector.lossReport endTime)
  else .ok (c, {})

/-- The first half of UpdateEffectVector. A number inside the in-effect window is
written, as in the source, through the waiting window's vector. -/
def recordInEffect (c : ReceiverLossCollection) (packet : PacketResult) :
    Except Failure ReceiverLossCollection :=
  let e := c.inEffectVector
  if packet.number > e.largestPacketNumber then
    .ok { c with inEffectVector := e.recordNew packet }
  else
    let ackedIndx := toUint64 (packet.number - e.firstPacketNumber)
    if ackedIndx < c.waitVector.receivedVector.length then
      .ok { c with waitVector := { c.waitVector with
        receivedVector := c.waitVector.receivedVector.set ackedIndx true } }
    else .error .effectIndexOutOfRange

section Doubles
variable (F : Type) [FloatArith F]

def updateEffectVector (c : ReceiverLossCollection) (packet : PacketResult) :
    Except Failure ReceiverLossCollection :=
  if packet.number ≥ c.inEffectVector.firstPacketNumber then
    match c.recordInEffect packet with
    | .error e => .error e
    | .ok c =>
      let c := c.updateRtt F packet
      if packet.receiveTime > c.inEffectVector.firstReceivedTime + receiveDuration then
        c.onReceiveDurationEnd
      else .ok c
  else .error .effectNumberAssertion

def onTransportPacketFeedback (c : ReceiverLossCollection) (packet : PacketResult) :
    Except Failure (ReceiverLossCollection × LossReportUpdate) :=
  if packet.number < c.inEffectVector.firstPacketNumber then
    match c.updateWaitVector packet with
    | .error e => .error e
    | .ok c => c.maybeGenerateReport packet.receiveTime
  else
    match c.maybeGenerateReport packet.receiveTime with
    | .error e => .error e
    | .ok (c, result) =>
      match c.updateEffectVector F packet with
      | .error e => .error e
      | .ok c => .ok (c, result)

/-- The loop of OnTransportPacketsFeedback: the last update wins, and without one
the last packet's report is returned. -/
def feedbackLoop : ReceiverLossCollection → LossReportUpdate → LossReportUpdate →
    List PacketResult → Except Failure (ReceiverLossCollection × LossReportUpdate)
  | c, result, report, [] => .ok (c, if result.updated then result else report)
  | c, result, _, packet :: packets =>
    match c.onTransportPacketFeedback F packet with
    | .error e => .error e
    | .ok (c, report) => feedbackLoop c (if report.updated then report else result) report packets

def onTransportPacketsFeedback (c : ReceiverLossCollection) (msg : TransportPacketsFeedback) :
    Except Failure (ReceiverLossCollection × LossReportUpdate) :=
  feedbackLoop F c {} {} msg.packetFeedbacks

end Doubles
end ReceiverLossCollection
end ChromeGcc
