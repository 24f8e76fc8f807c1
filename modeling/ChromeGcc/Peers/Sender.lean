import ChromeGcc.Packet.Codec
import ChromeGcc.Controller.GoogCc

/-! The Sender's handler of datagrams: reports reach the controller, and the controller's
rate becomes the pacing rate. -/
namespace ChromeGcc

def minPacingRate : Nat := 1000 * 100

/-- The time of the next packet is a QuicTime, in microseconds. -/
structure SendControl where
  pacingRate : Nat := initialPacingRate.toNat
  nextSendTimestamp : Int := 0
  deriving DecidableEq, Repr

/-- The counters of the debugger, which only prints them, are left out. -/
structure Sender (F : Type) [FloatArith F] where
  gccControler : GoogCcNetworkController F
  recentRrPacket : GCCRRPacket := {}
  sendControl : SendControl := {}

namespace Sender
variable {F : Type} [FloatArith F]

def new (config : NetworkControllerConfig F) : Sender F := { gccControler := .new config }

/-- An exception leaves the fields that were read before it in recent_rr_packet_. -/
def onRRPacketReceived (s : Sender F) (receiveBuf : List Char) (now : Timestamp) :
    Except Abort Unit × Sender F :=
  match GCCRRPacketParser.unSerialize receiveBuf {} with
  | (.error e, packet) => (.error e, { s with recentRrPacket := packet })
  | (.ok (), packet) =>
    let msg : TransportLossReport :=
      { startTime := packet.startTime
        endTime := packet.endTime
        packetsLostDelta := packet.packetsLostDelta
        packetsReceivedDelta := packet.packetsReceivedDelta
        receiveTime := now }
    (.ok (), { s with
      recentRrPacket := packet
      gccControler := s.gccControler.onTransportLossReport msg })

def onREMBPacketReceived (s : Sender F) (receiveBuf : List Char) (now : Timestamp) :
    Except Abort Unit × Sender F :=
  match GCCREMBPacketParser.unSerialize receiveBuf {} with
  | (.error e, _) => (.error e, s)
  | (.ok (), packet) =>
    let msg : RemoteBitrateReport := { bandwidth := packet.bandwidth, receiveTime := now }
    (.ok (), { s with gccControler := s.gccControler.onRemoteBitrateReport msg })

/-- The pacing rate that the controller's rate gives, not below its minimum. -/
def pace (s : Sender F) : Sender F :=
  { s with
    sendControl := { s.sendControl with
      pacingRate := max s.gccControler.getSenderSideDataRate.getUint64 minPacingRate } }

/-- The switch of OnPacketReceived. -/
def dispatch (s : Sender F) (type : PacketType) (receiveBuf : List Char) (now : Timestamp) :
    Except Abort Unit × Sender F :=
  match type with
  | .rr => s.onRRPacketReceived receiveBuf now
  | .remb => s.onREMBPacketReceived receiveBuf now
  | .data => (.ok (), s)

/-- The clock reads now when the handler asks for it. -/
def onPacketReceived (s : Sender F) (receiveBuf : List Char) (now : Timestamp) :
    Except Abort Unit × Sender F :=
  match getType receiveBuf with
  | .error e => (.error e, s)
  | .ok type =>
    match s.dispatch type receiveBuf now with
    | (.error e, s) => (.error e, s)
    | (.ok (), s) => (.ok (), s.pace)

/-- What recvfrom found; a datagram without a character counts as none. -/
def receivePacket (s : Sender F) (arrived : Option (List Char)) (now : Timestamp) :
    Except Abort Unit × Sender F :=
  match arrived with
  | none => (.ok (), s)
  | some [] => (.ok (), s)
  | some data => s.onPacketReceived data now

end Sender
end ChromeGcc
