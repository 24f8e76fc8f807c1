import ChromeGcc.Units

/-! The message types of network_types.h, with the fields that some modelled
function reads or writes, and the definitions that the estimators share. -/
namespace ChromeGcc

/-- Conversion to uint64_t. -/
def toUint64 (n : Int) : Nat := (n % 18446744073709551616).toNat

/-- Conversion to int64_t. -/
def toInt64 (n : Int) : Int :=
  if toUint64 n < 9223372036854775808 then toUint64 n else toUint64 n - 18446744073709551616

theorem toUint64_natCast {n : Nat} (h : n < 18446744073709551616) : toUint64 n = n := by
  unfold toUint64
  omega

theorem toInt64_natCast {n : Nat} (h : n < 9223372036854775808) : toInt64 n = n := by
  unfold toInt64
  rw [toUint64_natCast (by omega), if_pos h]

/-- Conversion to int. -/
def toInt32 (n : Int) : Int :=
  if n % 4294967296 < 2147483648 then n % 4294967296 else n % 4294967296 - 4294967296

def getMinBitrateBps : Int := 5000
def getMinBitrate : DataRate := .bitsPerSec getMinBitrateBps

inductive BandwidthUsage where
  | kBwNormal
  | kBwUnderusing
  | kBwOverusing
  deriving DecidableEq, Repr

structure SentPacket where
  sendTime : Timestamp := .plusInfinity
  size : DataSize := .zero
  priorUnackedData : DataSize := .zero
  audio : Bool := false
  sequenceNumber : Int
  deriving DecidableEq, Repr

structure PacketResult where
  sentPacket : SentPacket
  receiveTime : Timestamp := .plusInfinity
  deriving DecidableEq, Repr

def PacketResult.isReceived (p : PacketResult) : Bool := !decide (p.receiveTime = .plusInfinity)

/-- The packet as a sender whose clock is ahead by an offset would have stamped it. -/
def PacketResult.shiftSend (k : Int) (p : PacketResult) : PacketResult :=
  { p with sentPacket := { p.sentPacket with sendTime := p.sentPacket.sendTime + TimeDelta.micros k } }

@[simp] theorem PacketResult.shiftSend_receiveTime (k : Int) (p : PacketResult) :
    (p.shiftSend k).receiveTime = p.receiveTime := rfl

structure TransportLossReport where
  receiveTime : Timestamp := .plusInfinity
  startTime : Timestamp := .plusInfinity
  endTime : Timestamp := .plusInfinity
  packetsLostDelta : Nat := 0
  packetsReceivedDelta : Nat := 0
  deriving DecidableEq, Repr

structure RemoteBitrateReport where
  receiveTime : Timestamp := .plusInfinity
  bandwidth : DataRate := .plusInfinity
  deriving DecidableEq, Repr

structure RoundTripTimeUpdate where
  receiveTime : Timestamp := .plusInfinity
  roundTripTime : TimeDelta := .plusInfinity
  smoothed : Bool := false
  deriving DecidableEq, Repr

structure TargetRateConstraints where
  atTime : Timestamp := .plusInfinity
  minDataRate : Option DataRate := none
  maxDataRate : Option DataRate := none
  startingRate : Option DataRate := none
  deriving DecidableEq, Repr

structure TransportPacketsFeedback where
  feedbackTime : Timestamp := .plusInfinity
  packetFeedbacks : List PacketResult := []
  deriving DecidableEq, Repr

/-- PacketResult::ReceiveTimeOrder: receive time, then send time, then number. -/
def receiveTimeOrder (lhs rhs : PacketResult) : Bool :=
  if lhs.receiveTime ≠ rhs.receiveTime then decide (lhs.receiveTime < rhs.receiveTime)
  else if lhs.sentPacket.sendTime ≠ rhs.sentPacket.sendTime then
    decide (lhs.sentPacket.sendTime < rhs.sentPacket.sendTime)
  else decide (lhs.sentPacket.sequenceNumber < rhs.sentPacket.sequenceNumber)

def TransportPacketsFeedback.receivedWithSendInfo (msg : TransportPacketsFeedback) :
    List PacketResult := msg.packetFeedbacks.filter PacketResult.isReceived

/-- std::sort by receiveTimeOrder, which is not stable: it leaves the relative order of packets open
that are equal in receive time, send time and number. Here these are taken in a stable order, the
order of the message. -/
def TransportPacketsFeedback.sortedByReceiveTime (msg : TransportPacketsFeedback) :
    List PacketResult :=
  (msg.packetFeedbacks.filter PacketResult.isReceived).mergeSort
    (fun a b => !receiveTimeOrder b a)

end ChromeGcc
