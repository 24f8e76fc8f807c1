import ChromeGcc.Base.CString
import ChromeGcc.NetworkTypes

/-! The datagrams: three packets written as fixed-width decimal fields, and the three
parsers that read them back. -/
namespace ChromeGcc
open CString

inductive PacketType where
  | data
  | rr
  | remb
  deriving DecidableEq, Repr

/-- The ways a datagram stops its handler: an uncaught exception, or pause_at_func. -/
inductive Abort where
  | exception (e : CString.Exception)
  | pauseAtFunc
  deriving DecidableEq, Repr

def maxdgmsize : Nat := 1472
def defaultPacketSize : Nat := maxdgmsize
def typeDataStr : List Char := ['0', '0']
def typeRrStr : List Char := ['0', '1']
def typeRembStr : List Char := ['1', '0']
def typeLen : Nat := 2
def packetNumberLen : Nat := 10
def packetSizeLen : Nat := packetNumberLen
def packetLostLen : Nat := packetNumberLen
def packetReceiveLen : Nat := packetNumberLen
def dataRateLen : Nat := packetNumberLen
def timeSrtingLen : Nat := 15
def dataPaddingLen : Nat :=
  defaultPacketSize - typeLen - packetNumberLen - timeSrtingLen - packetSizeLen - 1

structure GCCDataPacket where
  sequenceNumber : Nat := 0
  size : Nat := defaultPacketSize
  sendTime : Timestamp := .micros 0
  deriving DecidableEq, Repr

structure GCCRRPacket where
  startTime : Timestamp := .micros 0
  endTime : Timestamp := .micros 0
  packetsLostDelta : Nat := 0
  packetsReceivedDelta : Nat := 0
  deriving DecidableEq, Repr

structure GCCREMBPacket where
  bandwidth : DataRate := .bitsPerSec 0
  deriving DecidableEq, Repr

/-- The type fields are never assigned, so each class keeps its initial value. -/
def GCCDataPacket.type (_ : GCCDataPacket) : PacketType := .data
def GCCRRPacket.type (_ : GCCRRPacket) : PacketType := .rr
def GCCREMBPacket.type (_ : GCCREMBPacket) : PacketType := .remb

/-- The buffer is filled with zeros and its end overwritten by the digits; a number that
is too long leaves the zeros. -/
def numberToFixLenString (number len : Nat) : List Char :=
  let c := List.replicate len '0'
  let s := Nat.toDigits 10 number
  if s.length ≤ len then c.take (len - s.length) ++ s else c

def packetTypeToString : PacketType → List Char
  | .data => typeDataStr
  | .rr => typeRrStr
  | .remb => typeRembStr

def stringToPacketType (s : List Char) : Except Abort PacketType :=
  if s = typeDataStr then .ok .data
  else if s = typeRrStr then .ok .rr
  else if s = typeRembStr then .ok .remb
  else .error .pauseAtFunc

/-- GetUint64 of a unit value, converted to the unsigned parameter it is passed as. -/
def UnitBase.getUint64 {k : UnitKind} (u : UnitBase k) : Nat := toUint64 u.toValue

def GCCDataPacket.serialize (p : GCCDataPacket) : List Char :=
  packetTypeToString p.type ++ (numberToFixLenString p.sequenceNumber packetNumberLen ++
    (numberToFixLenString p.sendTime.getUint64 timeSrtingLen ++
      (numberToFixLenString p.size packetSizeLen ++ numberToFixLenString 0 dataPaddingLen)))

def GCCRRPacket.serialize (p : GCCRRPacket) : List Char :=
  packetTypeToString p.type ++ (numberToFixLenString p.startTime.getUint64 timeSrtingLen ++
    (numberToFixLenString p.endTime.getUint64 timeSrtingLen ++
      (numberToFixLenString p.packetsLostDelta packetLostLen ++
        numberToFixLenString p.packetsReceivedDelta packetReceiveLen)))

def GCCREMBPacket.serialize (p : GCCREMBPacket) : List Char :=
  packetTypeToString p.type ++ numberToFixLenString p.bandwidth.getUint64 dataRateLen

def liftException {α : Type} : Except CString.Exception α → Except Abort α
  | .error e => .error (.exception e)
  | .ok a => .ok a

def getType (data : List Char) : Except Abort PacketType :=
  match liftException (substr data 0 typeLen) with
  | .error e => .error e
  | .ok s => stringToPacketType s

/-- One assignment of an UnSerialize: its slice of the datagram and the field it sets. -/
structure FieldSlot (P : Type) where
  offset : Nat
  width : Nat
  store : Nat → P → P

def readField (data : List Char) (offset width : Nat) : Except Abort Nat :=
  liftException <|
    match substr data offset width with
    | .error e => .error e
    | .ok s => stoul s

/-- The assignments in their order. An exception keeps the fields stored before it. -/
def storeFields {P : Type} (data : List Char) : List (FieldSlot P) → P → Except Abort Unit × P
  | [], packet => (.ok (), packet)
  | slot :: slots, packet =>
    match readField data slot.offset slot.width with
    | .error e => (.error e, packet)
    | .ok value => storeFields data slots (slot.store value packet)

/-- The common body of the parsers: a datagram of another type is left alone. -/
def unSerialize {P : Type} (type : PacketType) (slots : List (FieldSlot P)) (data : List Char)
    (packet : P) : Except Abort Unit × P :=
  match getType data with
  | .error e => (.error e, packet)
  | .ok t => if t = type then storeFields data slots packet else (.ok (), packet)

/-- Micros and BitsPerSec of a stoul result: the conversion to int64 of FromValue. -/
def UnitBase.ofUnsigned {k : UnitKind} (value : Nat) : UnitBase k := .finite (toInt64 value)

def dataSlots : List (FieldSlot GCCDataPacket) :=
  [⟨typeLen, packetNumberLen, fun v p => { p with sequenceNumber := v }⟩,
    ⟨typeLen + packetNumberLen, timeSrtingLen, fun v p => { p with sendTime := .ofUnsigned v }⟩,
    ⟨typeLen + packetNumberLen + timeSrtingLen, packetSizeLen, fun v p => { p with size := v }⟩]

def rrSlots : List (FieldSlot GCCRRPacket) :=
  [⟨typeLen, timeSrtingLen, fun v p => { p with startTime := .ofUnsigned v }⟩,
    ⟨typeLen + timeSrtingLen, timeSrtingLen, fun v p => { p with endTime := .ofUnsigned v }⟩,
    ⟨typeLen + 2 * timeSrtingLen, packetLostLen, fun v p => { p with packetsLostDelta := v }⟩,
    ⟨typeLen + 2 * timeSrtingLen + packetLostLen, packetReceiveLen,
      fun v p => { p with packetsReceivedDelta := v }⟩]

def rembSlots : List (FieldSlot GCCREMBPacket) :=
  [⟨typeLen, dataRateLen, fun v p => { p with bandwidth := .ofUnsigned v }⟩]

def GCCDataPacketParser.unSerialize : List Char → GCCDataPacket → Except Abort Unit × GCCDataPacket :=
  ChromeGcc.unSerialize .data dataSlots

def GCCRRPacketParser.unSerialize : List Char → GCCRRPacket → Except Abort Unit × GCCRRPacket :=
  ChromeGcc.unSerialize .rr rrSlots

def GCCREMBPacketParser.unSerialize : List Char → GCCREMBPacket → Except Abort Unit × GCCREMBPacket :=
  ChromeGcc.unSerialize .remb rembSlots

end ChromeGcc
