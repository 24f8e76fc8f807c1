import ChromeGcc.NetworkTypes

/-! InterArrivalDelta: packets sent within a few milliseconds form a group, and the
deltas between completed groups feed the delay detector. -/
namespace ChromeGcc

structure SendTimeGroup where
  size : Nat := 0
  firstSendTime : Timestamp := .minusInfinity
  sendTime : Timestamp := .minusInfinity
  firstArrival : Timestamp := .minusInfinity
  completeTime : Timestamp := .minusInfinity
  lastSystemTime : Timestamp := .minusInfinity
  deriving DecidableEq, Repr

def SendTimeGroup.isFirstPacket (g : SendTimeGroup) : Bool := g.completeTime.isInfinite

structure InterArrivalDelta where
  sendTimeGroupLength : TimeDelta
  currentTimestampGroup : SendTimeGroup := {}
  prevTimestampGroup : SendTimeGroup := {}
  numConsecutiveReorderedPackets : Int := 0
  deriving DecidableEq, Repr

/-- The three outputs of ComputeDeltas, when it returns true. -/
structure GroupDeltas where
  sendTimeDelta : TimeDelta
  arrivalTimeDelta : TimeDelta
  packetSizeDelta : Int
  deriving DecidableEq, Repr

namespace InterArrivalDelta

def kBurstDeltaThreshold : TimeDelta := .millis 5
def kMaxBurstDuration : TimeDelta := .millis 100
def kReorderedResetThreshold : Int := 3
def kArrivalTimeOffsetThreshold : TimeDelta := .seconds 3

def reset (s : InterArrivalDelta) : InterArrivalDelta :=
  { s with
    numConsecutiveReorderedPackets := 0
    currentTimestampGroup := {}
    prevTimestampGroup := {} }

def belongsToBurst (s : InterArrivalDelta) (arrivalTime sendTime : Timestamp) : Bool :=
  let arrivalTimeDelta : TimeDelta := arrivalTime - s.currentTimestampGroup.completeTime
  let sendTimeDelta : TimeDelta := sendTime - s.currentTimestampGroup.sendTime
  if sendTimeDelta.isZero then true
  else
    let propagationDelta := arrivalTimeDelta - sendTimeDelta
    decide (propagationDelta < .zero ∧ arrivalTimeDelta ≤ kBurstDeltaThreshold ∧
      (arrivalTime - s.currentTimestampGroup.firstArrival : TimeDelta) < kMaxBurstDuration)

def newTimestampGroup (s : InterArrivalDelta) (arrivalTime sendTime : Timestamp) : Bool :=
  if s.currentTimestampGroup.isFirstPacket then false
  else if s.belongsToBurst arrivalTime sendTime then false
  else decide ((sendTime - s.currentTimestampGroup.firstSendTime : TimeDelta) > s.sendTimeGroupLength)

/-- The last lines of ComputeDeltas: the packet joins the current group. -/
def accumulate (s : InterArrivalDelta) (arrivalTime systemTime : Timestamp) (packetSize : Nat) :
    InterArrivalDelta :=
  { s with
    currentTimestampGroup := { s.currentTimestampGroup with
      size := toUint64 (s.currentTimestampGroup.size + packetSize)
      completeTime := arrivalTime
      lastSystemTime := systemTime } }

/-- The current group becomes the previous one, and the packet opens a new one. -/
def openGroup (s : InterArrivalDelta) (sendTime arrivalTime : Timestamp) : InterArrivalDelta :=
  { s with
    prevTimestampGroup := s.currentTimestampGroup
    currentTimestampGroup := { s.currentTimestampGroup with
      firstSendTime := sendTime
      sendTime := sendTime
      firstArrival := arrivalTime
      size := 0 } }

/-- The deltas are present exactly when the source returns true. -/
def computeDeltas (s : InterArrivalDelta) (sendTime arrivalTime systemTime : Timestamp)
    (packetSize : Nat) : InterArrivalDelta × Option GroupDeltas :=
  let current := s.currentTimestampGroup
  let prev := s.prevTimestampGroup
  if current.isFirstPacket then
    let s := { s with
      currentTimestampGroup := { current with
        sendTime := sendTime
        firstSendTime := sendTime
        firstArrival := arrivalTime } }
    (s.accumulate arrivalTime systemTime packetSize, none)
  else if current.firstSendTime > sendTime then (s, none)
  else if s.newTimestampGroup arrivalTime sendTime then
    if prev.completeTime.isFinite then
      let sendTimeDelta : TimeDelta := current.sendTime - prev.sendTime
      let arrivalTimeDelta : TimeDelta := current.completeTime - prev.completeTime
      let systemTimeDelta : TimeDelta := current.lastSystemTime - prev.lastSystemTime
      if arrivalTimeDelta - systemTimeDelta ≥ kArrivalTimeOffsetThreshold then (s.reset, none)
      else if arrivalTimeDelta < .zero then
        let s := { s with numConsecutiveReorderedPackets := s.numConsecutiveReorderedPackets + 1 }
        if s.numConsecutiveReorderedPackets ≥ kReorderedResetThreshold then (s.reset, none)
        else (s, none)
      else
        let deltas : GroupDeltas :=
          { sendTimeDelta := sendTimeDelta
            arrivalTimeDelta := arrivalTimeDelta
            packetSizeDelta := toInt32 current.size - toInt32 prev.size }
        let s := { s with numConsecutiveReorderedPackets := 0 }
        ((s.openGroup sendTime arrivalTime).accumulate arrivalTime systemTime packetSize, some deltas)
    else ((s.openGroup sendTime arrivalTime).accumulate arrivalTime systemTime packetSize, none)
  else
    let s := { s with
      currentTimestampGroup := { current with sendTime := max current.sendTime sendTime } }
    (s.accumulate arrivalTime systemTime packetSize, none)

/-! The ways of ComputeDeltas, each with the condition under which it is taken. -/

section Cases
variable {s : InterArrivalDelta} {sendTime arrivalTime systemTime : Timestamp} {packetSize : Nat}

/-- The deltas between the current and the previous group. -/
def groupDeltas (s : InterArrivalDelta) : GroupDeltas where
  sendTimeDelta := s.currentTimestampGroup.sendTime - s.prevTimestampGroup.sendTime
  arrivalTimeDelta := s.currentTimestampGroup.completeTime - s.prevTimestampGroup.completeTime
  packetSizeDelta := toInt32 s.currentTimestampGroup.size - toInt32 s.prevTimestampGroup.size

/-- The arrival clock has run away from the system clock between the two groups. -/
def ArrivalOffset (s : InterArrivalDelta) : Prop :=
  s.groupDeltas.arrivalTimeDelta - (s.currentTimestampGroup.lastSystemTime -
    s.prevTimestampGroup.lastSystemTime : TimeDelta) ≥ kArrivalTimeOffsetThreshold

/-- The packet is the first of a later group, and two groups are complete. -/
structure CompletesGroup (s : InterArrivalDelta) (arrivalTime sendTime : Timestamp) : Prop where
  notFirst : ¬ s.currentTimestampGroup.isFirstPacket = true
  notLate : ¬ s.currentTimestampGroup.firstSendTime > sendTime
  newGroup : s.newTimestampGroup arrivalTime sendTime = true
  prevComplete : s.prevTimestampGroup.completeTime.isFinite = true

theorem computeDeltas_first (h : s.currentTimestampGroup.isFirstPacket = true) :
    s.computeDeltas sendTime arrivalTime systemTime packetSize =
      ({ s with
        currentTimestampGroup := { s.currentTimestampGroup with
          sendTime := sendTime
          firstSendTime := sendTime
          firstArrival := arrivalTime } }.accumulate arrivalTime systemTime packetSize, none) :=
  if_pos h

theorem computeDeltas_late (h : ¬ s.currentTimestampGroup.isFirstPacket = true)
    (hlate : s.currentTimestampGroup.firstSendTime > sendTime) :
    s.computeDeltas sendTime arrivalTime systemTime packetSize = (s, none) :=
  (if_neg h).trans (if_pos hlate)

theorem computeDeltas_same (h : ¬ s.currentTimestampGroup.isFirstPacket = true)
    (hlate : ¬ s.currentTimestampGroup.firstSendTime > sendTime)
    (hnew : ¬ s.newTimestampGroup arrivalTime sendTime = true) :
    s.computeDeltas sendTime arrivalTime systemTime packetSize =
      ({ s with
        currentTimestampGroup := { s.currentTimestampGroup with
          sendTime := max s.currentTimestampGroup.sendTime sendTime } }.accumulate
            arrivalTime systemTime packetSize, none) :=
  (if_neg h).trans ((if_neg hlate).trans (if_neg hnew))

theorem computeDeltas_second (h : ¬ s.currentTimestampGroup.isFirstPacket = true)
    (hlate : ¬ s.currentTimestampGroup.firstSendTime > sendTime)
    (hnew : s.newTimestampGroup arrivalTime sendTime = true)
    (hprev : ¬ s.prevTimestampGroup.completeTime.isFinite = true) :
    s.computeDeltas sendTime arrivalTime systemTime packetSize =
      ((s.openGroup sendTime arrivalTime).accumulate arrivalTime systemTime packetSize, none) :=
  (if_neg h).trans ((if_neg hlate).trans ((if_pos hnew).trans (if_neg hprev)))

theorem computeDeltas_offset (h : s.CompletesGroup arrivalTime sendTime) (hoff : s.ArrivalOffset) :
    s.computeDeltas sendTime arrivalTime systemTime packetSize = (s.reset, none) :=
  (if_neg h.notFirst).trans ((if_neg h.notLate).trans ((if_pos h.newGroup).trans
    ((if_pos h.prevComplete).trans (if_pos hoff))))

theorem computeDeltas_reordered (h : s.CompletesGroup arrivalTime sendTime)
    (hoff : ¬ s.ArrivalOffset) (hback : s.groupDeltas.arrivalTimeDelta < .zero) :
    s.computeDeltas sendTime arrivalTime systemTime packetSize =
      if s.numConsecutiveReorderedPackets + 1 ≥ kReorderedResetThreshold then (s.reset, none)
      else ({ s with
        numConsecutiveReorderedPackets := s.numConsecutiveReorderedPackets + 1 }, none) :=
  (if_neg h.notFirst).trans ((if_neg h.notLate).trans ((if_pos h.newGroup).trans
    ((if_pos h.prevComplete).trans ((if_neg hoff).trans (if_pos hback)))))

theorem computeDeltas_deltas (h : s.CompletesGroup arrivalTime sendTime)
    (hoff : ¬ s.ArrivalOffset) (hback : ¬ s.groupDeltas.arrivalTimeDelta < .zero) :
    s.computeDeltas sendTime arrivalTime systemTime packetSize =
      (({ s with numConsecutiveReorderedPackets := 0 }.openGroup sendTime arrivalTime).accumulate
        arrivalTime systemTime packetSize, some s.groupDeltas) :=
  (if_neg h.notFirst).trans ((if_neg h.notLate).trans ((if_pos h.newGroup).trans
    ((if_pos h.prevComplete).trans ((if_neg hoff).trans (if_neg hback)))))

end Cases

end InterArrivalDelta
end ChromeGcc
