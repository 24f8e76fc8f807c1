import ChromeGcc.Packet.Codec
import ChromeGcc.Controller.GoogCc
import ChromeGcc.Loss.Collection

/-! The Receiver's handler of datagrams: a data packet feeds the controller and the loss
collection, and what they report goes back to the Sender. -/
namespace ChromeGcc

/-- The ways the handler stops: the datagram aborts it, a send fails and enters
pause_at_func, or the loss collection fails. -/
inductive ReceiverAbort where
  | datagram (a : Abort)
  | sendFailed
  | lossCollection (f : Failure)
  deriving DecidableEq, Repr

/-- What a call of the handler finds outside: two readings of the clock, and whether
sendto fails on a datagram. -/
structure ReceiverEnv where
  feedbackTime : Timestamp
  receiveTime : Timestamp
  sendFails : List Char → Bool

structure Receiver (F : Type) [FloatArith F] where
  gccControler : GoogCcNetworkController F
  lossCollection : ReceiverLossCollection := {}
  lastRembRate : DataRate := .zero
  lastAckRate : Nat := 0

/-- A handler's outcome, the state it leaves, and the datagrams it sent. -/
abbrev ReceiverStep (F : Type) [FloatArith F] :=
  Except ReceiverAbort Unit × Receiver F × List (List Char)

namespace Receiver
variable {F : Type} [FloatArith F]

def new (config : NetworkControllerConfig F) : Receiver F := { gccControler := .new config }

/-- SetPacketToBuf and SendPacketFromBuf; the text has no terminator inside it. -/
def sendText (env : ReceiverEnv) (text : List Char) (r : Receiver F) : ReceiverStep F :=
  if env.sendFails text then (.error .sendFailed, r, []) else (.ok (), r, [text])

/-- The first rate is remembered before it is sent, later ones after. -/
def onDelayBaseBweUpdated (r : Receiver F) (env : ReceiverEnv) (report : BweResult) :
    ReceiverStep F :=
  let text := ({ bandwidth := report.targetBitrate } : GCCREMBPacket).serialize
  if r.lastRembRate.isZero then
    sendText env text { r with lastRembRate := report.targetBitrate }
  else if r.lastRembRate ≠ report.targetBitrate then
    match sendText env text r with
    | (.error e, r, sent) => (.error e, r, sent)
    | (.ok (), r, sent) => (.ok (), { r with lastRembRate := report.targetBitrate }, sent)
  else (.ok (), r, [])

def onLossReportGenerated (r : Receiver F) (env : ReceiverEnv) (update : LossReportUpdate) :
    ReceiverStep F :=
  let packet : GCCRRPacket :=
    { endTime := update.report.endTime
      startTime := update.report.startTime
      packetsLostDelta := update.report.packetsLostDelta
      packetsReceivedDelta := update.report.packetsReceivedDelta }
  sendText env packet.serialize r

/-- The feedback message of one packet. -/
def feedbackOf (packet : GCCDataPacket) (env : ReceiverEnv) : TransportPacketsFeedback :=
  { feedbackTime := env.feedbackTime
    packetFeedbacks :=
      [{ sentPacket :=
          { sequenceNumber := toInt64 packet.sequenceNumber
            sendTime := packet.sendTime
            size := .ofUnsigned packet.size }
         receiveTime := env.receiveTime }] }

/-- The acknowledged rate is remembered for the log. -/
def noteAckRate (r : Receiver F) : Receiver F :=
  match r.gccControler.getAcknowlegeRate with
  | some rate => { r with lastAckRate := rate.getUint64 }
  | none => r

/-- The last part of OnDataPacketReceived. -/
def collectLosses (r : Receiver F) (env : ReceiverEnv) (msg : TransportPacketsFeedback) :
    ReceiverStep F :=
  match r.lossCollection.onTransportPacketsFeedback F msg with
  | .error f => (.error (.lossCollection f), r, [])
  | .ok (lossCollection, lossResult) =>
    let r := { r with lossCollection := lossCollection }
    if lossResult.updated then r.onLossReportGenerated env lossResult else (.ok (), r, [])

/-- OnDataPacketReceived after the packet was read. -/
def onFeedback (r : Receiver F) (env : ReceiverEnv) (msg : TransportPacketsFeedback) :
    ReceiverStep F :=
  let r := { r with gccControler := r.gccControler.onTransportPacketsFeedback msg }
  let delayResult := r.gccControler.recentResult
  match if delayResult.updated then r.onDelayBaseBweUpdated env delayResult else (.ok (), r, []) with
  | (.error e, r, sent) => (.error e, r, sent)
  | (.ok (), r, sent) =>
    let (outcome, r, sent') := r.noteAckRate.collectLosses env msg
    (outcome, r, sent ++ sent')

def onDataPacketReceived (r : Receiver F) (env : ReceiverEnv) (receiveBuf : List Char) :
    ReceiverStep F :=
  match GCCDataPacketParser.unSerialize receiveBuf {} with
  | (.error e, _) => (.error (.datagram e), r, [])
  | (.ok (), packet) => r.onFeedback env (feedbackOf packet env)

def onPacketReceived (r : Receiver F) (env : ReceiverEnv) (receiveBuf : List Char) :
    ReceiverStep F :=
  match getType receiveBuf with
  | .error e => (.error (.datagram e), r, [])
  | .ok .data => r.onDataPacketReceived env receiveBuf
  | .ok _ => (.ok (), r, [])

/-- What recvfrom found; a datagram without a character is handled too. -/
def receivePacket (r : Receiver F) (env : ReceiverEnv) (arrived : Option (List Char)) :
    ReceiverStep F :=
  match arrived with
  | none => (.ok (), r, [])
  | some data => r.onPacketReceived env data

end Receiver
end ChromeGcc
