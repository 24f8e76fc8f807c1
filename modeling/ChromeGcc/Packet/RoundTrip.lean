import ChromeGcc.Packet.Codec

/-! The encoder and the decoder agree on every offset and width. -/
namespace ChromeGcc
open CString

theorem numberToFixLenString_eq {n len : Nat} (h : (Nat.toDigits 10 n).length ≤ len) :
    numberToFixLenString n len = zeroPadded n len := by
  unfold numberToFixLenString zeroPadded
  dsimp only
  rw [if_pos h, List.take_replicate, Nat.min_eq_left (Nat.sub_le _ _)]

theorem numberToFixLenString_fits {n len : Nat} (hl : 0 < len) (h : n < 10 ^ len) :
    numberToFixLenString n len = zeroPadded n len :=
  numberToFixLenString_eq ((Nat.length_toDigits_le_iff (by decide) hl).mpr h)

theorem numberToFixLenString_length {n : Nat} (len : Nat) (hl : 0 < len) (h : n < 10 ^ len) :
    (numberToFixLenString n len).length = len := by
  rw [numberToFixLenString_fits hl h, zeroPadded_length hl h]

/-- A number written in a field is read back from it, whatever stands around the field. -/
theorem readField_numberToFixLenString (before after : List Char) {offset len n : Nat}
    (hb : before.length = offset) (hl : 0 < len) (hle : len ≤ 19) (h : n < 10 ^ len) :
    readField (before ++ (numberToFixLenString n len ++ after)) offset len = .ok n := by
  have hlen := numberToFixLenString_length len hl h
  have hread := stoul_zeroPadded hl hle h
  rw [← numberToFixLenString_fits hl h] at hread
  rw [readField, substr_field before _ after hb hlen]
  simp only [hread, liftException]

/-- The type of a datagram is read from its first two characters. -/
theorem getType_packetTypeToString (t : PacketType) (rest : List Char) :
    getType (packetTypeToString t ++ rest) = .ok t := by
  have hlen : (packetTypeToString t).length = typeLen := by
    cases t <;> rfl
  have hsub : substr (packetTypeToString t ++ rest) 0 typeLen = .ok (packetTypeToString t) :=
    substr_field [] _ rest rfl hlen
  rw [getType, hsub]
  cases t <;> rfl

/-- A parser leaves its target alone on a datagram of another type. -/
theorem unSerialize_other {P : Type} {type t : PacketType} (slots : List (FieldSlot P))
    {data : List Char} (ht : getType data = .ok t) (hne : t ≠ type) (packet : P) :
    unSerialize type slots data packet = (.ok (), packet) := by
  rw [unSerialize, ht]
  simp only [if_neg hne]

theorem unSerialize_same {P : Type} {type : PacketType} (slots : List (FieldSlot P))
    {data : List Char} (ht : getType data = .ok type) (packet : P) :
    unSerialize type slots data packet = storeFields data slots packet := by
  rw [unSerialize, ht]
  simp only [if_true]

theorem storeFields_cons {P : Type} {data : List Char} {offset width value : Nat}
    {store : Nat → P → P} (slots : List (FieldSlot P))
    (h : readField data offset width = .ok value) (packet : P) :
    storeFields data (⟨offset, width, store⟩ :: slots) packet =
      storeFields data slots (store value packet) := by
  rw [storeFields, h]

theorem ofUnsigned_getUint64 {k : UnitKind} {n : Nat} (h : n < 9223372036854775808) :
    (UnitBase.ofUnsigned (UnitBase.getUint64 (.finite (n : Int) : UnitBase k)) : UnitBase k) =
      .finite n := by
  have hvalue : UnitBase.getUint64 (.finite (n : Int) : UnitBase k) = n :=
    toUint64_natCast (by omega)
  rw [hvalue, UnitBase.ofUnsigned, toInt64_natCast h]

/-- A unit value that fits a field of some width. -/
def UnitBase.FitsWidth {k : UnitKind} (u : UnitBase k) (len : Nat) : Prop :=
  ∃ n : Nat, u = .finite n ∧ n < 10 ^ len

structure GCCDataPacket.Fits (p : GCCDataPacket) : Prop where
  sequenceNumber : p.sequenceNumber < 10 ^ packetNumberLen
  sendTime : p.sendTime.FitsWidth timeSrtingLen
  size : p.size < 10 ^ packetSizeLen

structure GCCRRPacket.Fits (p : GCCRRPacket) : Prop where
  startTime : p.startTime.FitsWidth timeSrtingLen
  endTime : p.endTime.FitsWidth timeSrtingLen
  packetsLostDelta : p.packetsLostDelta < 10 ^ packetLostLen
  packetsReceivedDelta : p.packetsReceivedDelta < 10 ^ packetReceiveLen

structure GCCREMBPacket.Fits (p : GCCREMBPacket) : Prop where
  bandwidth : p.bandwidth.FitsWidth dataRateLen

theorem UnitBase.FitsWidth.getUint64_lt {k : UnitKind} {u : UnitBase k} {len : Nat}
    (h : u.FitsWidth len) (hle : len ≤ 18) : u.getUint64 < 10 ^ len := by
  obtain ⟨n, rfl, hn⟩ := h
  have hpow : 10 ^ len ≤ 10 ^ 18 := Nat.pow_le_pow_right (by omega) hle
  have hvalue : UnitBase.getUint64 (.finite (n : Int) : UnitBase k) = n :=
    toUint64_natCast (by omega)
  rw [hvalue]
  exact hn

theorem UnitBase.FitsWidth.ofUnsigned_eq {k : UnitKind} {u : UnitBase k} {len : Nat}
    (h : u.FitsWidth len) (hle : len ≤ 18) : UnitBase.ofUnsigned u.getUint64 = u := by
  obtain ⟨n, rfl, hn⟩ := h
  have hpow : 10 ^ len ≤ 10 ^ 18 := Nat.pow_le_pow_right (by omega) hle
  exact ofUnsigned_getUint64 (by omega)

namespace GCCDataPacket
variable {p : GCCDataPacket}

theorem serialize_length (h : p.Fits) : p.serialize.length = defaultPacketSize - 1 := by
  have hnumber := numberToFixLenString_length packetNumberLen (by decide) h.sequenceNumber
  have htime := numberToFixLenString_length _ (by decide) (h.sendTime.getUint64_lt (by decide))
  have hsize := numberToFixLenString_length packetSizeLen (by decide) h.size
  have hpad := numberToFixLenString_length (n := 0) dataPaddingLen (by decide) (by positivity)
  simp only [serialize, List.length_append, hnumber, htime, hsize, hpad]
  rfl

theorem getType_serialize (p : GCCDataPacket) : getType p.serialize = .ok .data :=
  getType_packetTypeToString _ _

/-- The parser of data packets gives back every field, whatever its target held. -/
theorem unSerialize_serialize (h : p.Fits) (q : GCCDataPacket) :
    GCCDataPacketParser.unSerialize p.serialize q = (.ok (), p) := by
  have hnumber := numberToFixLenString_length packetNumberLen (by decide) h.sequenceNumber
  have htime := numberToFixLenString_length _ (by decide) (h.sendTime.getUint64_lt (by decide))
  have readNumber : readField p.serialize typeLen packetNumberLen = .ok p.sequenceNumber :=
    readField_numberToFixLenString _ _ rfl (by decide) (by decide) h.sequenceNumber
  have readTime : readField p.serialize (typeLen + packetNumberLen) timeSrtingLen =
      .ok p.sendTime.getUint64 := by
    rw [serialize, ← List.append_assoc]
    refine readField_numberToFixLenString _ _ ?_ (by decide) (by decide)
      (h.sendTime.getUint64_lt (by decide))
    rw [List.length_append, hnumber]
    rfl
  have readSize : readField p.serialize (typeLen + packetNumberLen + timeSrtingLen) packetSizeLen =
      .ok p.size := by
    rw [serialize, ← List.append_assoc, ← List.append_assoc]
    refine readField_numberToFixLenString _ _ ?_ (by decide) (by decide) h.size
    rw [List.length_append, List.length_append, hnumber, htime]
    rfl
  rw [GCCDataPacketParser.unSerialize, unSerialize_same _ p.getType_serialize, dataSlots,
    storeFields_cons _ readNumber, storeFields_cons _ readTime, storeFields_cons _ readSize,
    storeFields]
  simp only [h.sendTime.ofUnsigned_eq (by decide)]

end GCCDataPacket

namespace GCCRRPacket
variable {p : GCCRRPacket}

theorem serialize_length (h : p.Fits) :
    p.serialize.length = typeLen + 2 * timeSrtingLen + packetLostLen + packetReceiveLen := by
  have hstart := numberToFixLenString_length _ (by decide) (h.startTime.getUint64_lt (by decide))
  have hend := numberToFixLenString_length _ (by decide) (h.endTime.getUint64_lt (by decide))
  have hlost := numberToFixLenString_length packetLostLen (by decide) h.packetsLostDelta
  have hreceived := numberToFixLenString_length packetReceiveLen (by decide)
    h.packetsReceivedDelta
  simp only [serialize, List.length_append, hstart, hend, hlost, hreceived]
  rfl

theorem getType_serialize (p : GCCRRPacket) : getType p.serialize = .ok .rr :=
  getType_packetTypeToString _ _

theorem unSerialize_serialize (h : p.Fits) (q : GCCRRPacket) :
    GCCRRPacketParser.unSerialize p.serialize q = (.ok (), p) := by
  have hstart := numberToFixLenString_length _ (by decide) (h.startTime.getUint64_lt (by decide))
  have hend := numberToFixLenString_length _ (by decide) (h.endTime.getUint64_lt (by decide))
  have hlost := numberToFixLenString_length packetLostLen (by decide) h.packetsLostDelta
  have readStart : readField p.serialize typeLen timeSrtingLen = .ok p.startTime.getUint64 :=
    readField_numberToFixLenString _ _ rfl (by decide) (by decide)
      (h.startTime.getUint64_lt (by decide))
  have readEnd : readField p.serialize (typeLen + timeSrtingLen) timeSrtingLen =
      .ok p.endTime.getUint64 := by
    rw [serialize, ← List.append_assoc]
    refine readField_numberToFixLenString _ _ ?_ (by decide) (by decide)
      (h.endTime.getUint64_lt (by decide))
    rw [List.length_append, hstart]
    rfl
  have readLost : readField p.serialize (typeLen + 2 * timeSrtingLen) packetLostLen =
      .ok p.packetsLostDelta := by
    rw [serialize, ← List.append_assoc, ← List.append_assoc]
    refine readField_numberToFixLenString _ _ ?_ (by decide) (by decide) h.packetsLostDelta
    rw [List.length_append, List.length_append, hstart, hend]
    rfl
  have readReceived : readField p.serialize (typeLen + 2 * timeSrtingLen + packetLostLen)
      packetReceiveLen = .ok p.packetsReceivedDelta := by
    rw [serialize, ← List.append_assoc, ← List.append_assoc, ← List.append_assoc,
      ← List.append_nil (numberToFixLenString p.packetsReceivedDelta packetReceiveLen)]
    refine readField_numberToFixLenString _ _ ?_ (by decide) (by decide) h.packetsReceivedDelta
    rw [List.length_append, List.length_append, List.length_append, hstart, hend, hlost]
    rfl
  rw [GCCRRPacketParser.unSerialize, unSerialize_same _ p.getType_serialize, rrSlots,
    storeFields_cons _ readStart, storeFields_cons _ readEnd, storeFields_cons _ readLost,
    storeFields_cons _ readReceived, storeFields]
  simp only [h.startTime.ofUnsigned_eq (by decide), h.endTime.ofUnsigned_eq (by decide)]

end GCCRRPacket

namespace GCCREMBPacket
variable {p : GCCREMBPacket}

theorem serialize_length (h : p.Fits) : p.serialize.length = typeLen + dataRateLen := by
  have hrate := numberToFixLenString_length _ (by decide) (h.bandwidth.getUint64_lt (by decide))
  simp only [serialize, List.length_append, hrate]
  rfl

theorem getType_serialize (p : GCCREMBPacket) : getType p.serialize = .ok .remb :=
  getType_packetTypeToString _ _

theorem unSerialize_serialize (h : p.Fits) (q : GCCREMBPacket) :
    GCCREMBPacketParser.unSerialize p.serialize q = (.ok (), p) := by
  have readRate : readField p.serialize typeLen dataRateLen = .ok p.bandwidth.getUint64 := by
    rw [serialize, ← List.append_nil (numberToFixLenString p.bandwidth.getUint64 dataRateLen)]
    exact readField_numberToFixLenString _ _ rfl (by decide) (by decide)
      (h.bandwidth.getUint64_lt (by decide))
  rw [GCCREMBPacketParser.unSerialize, unSerialize_same _ p.getType_serialize, rembSlots,
    storeFields_cons _ readRate, storeFields]
  simp only [h.bandwidth.ofUnsigned_eq (by decide)]

end GCCREMBPacket

/-- A datagram of some packet: its length, its type, and what the three parsers do with it,
of which one gives the packet back and two change nothing. -/
structure RoundTrips {P : Type} (datagram : List Char) (length : Nat) (type : PacketType)
    (parser : List Char → P → Except Abort Unit × P) (packet : P) : Prop where
  length_eq : datagram.length = length
  type_eq : getType datagram = .ok type
  own : ∀ q, parser datagram q = (.ok (), packet)
  data : type ≠ .data → ∀ q, GCCDataPacketParser.unSerialize datagram q = (.ok (), q)
  rr : type ≠ .rr → ∀ q, GCCRRPacketParser.unSerialize datagram q = (.ok (), q)
  remb : type ≠ .remb → ∀ q, GCCREMBPacketParser.unSerialize datagram q = (.ok (), q)

theorem roundTrips_of_own {P : Type} {datagram : List Char} {length : Nat} {type : PacketType}
    {parser : List Char → P → Except Abort Unit × P} {packet : P}
    (hl : datagram.length = length) (ht : getType datagram = .ok type)
    (ho : ∀ q, parser datagram q = (.ok (), packet)) :
    RoundTrips datagram length type parser packet where
  length_eq := hl
  type_eq := ht
  own := ho
  data hne q := unSerialize_other dataSlots ht hne q
  rr hne q := unSerialize_other rrSlots ht hne q
  remb hne q := unSerialize_other rembSlots ht hne q

/-- The codec's round trip, for every packet of the three classes that fits its fields. -/
theorem codec_round_trips :
    (∀ p : GCCDataPacket, p.Fits →
      RoundTrips p.serialize 1471 p.type GCCDataPacketParser.unSerialize p) ∧
    (∀ p : GCCRRPacket, p.Fits →
      RoundTrips p.serialize 52 p.type GCCRRPacketParser.unSerialize p) ∧
    (∀ p : GCCREMBPacket, p.Fits →
      RoundTrips p.serialize 12 p.type GCCREMBPacketParser.unSerialize p) := by
  refine ⟨fun p h => ?_, fun p h => ?_, fun p h => ?_⟩
  · exact roundTrips_of_own (GCCDataPacket.serialize_length h) p.getType_serialize
      (GCCDataPacket.unSerialize_serialize h)
  · exact roundTrips_of_own (GCCRRPacket.serialize_length h) p.getType_serialize
      (GCCRRPacket.unSerialize_serialize h)
  · exact roundTrips_of_own (GCCREMBPacket.serialize_length h) p.getType_serialize
      (GCCREMBPacket.unSerialize_serialize h)

theorem codec_round_trips_at_bounds :
    RoundTrips (GCCDataPacket.serialize ⟨9999999999, 0, .micros 999999999999999⟩) 1471 .data
      GCCDataPacketParser.unSerialize ⟨9999999999, 0, .micros 999999999999999⟩ ∧
    RoundTrips (GCCRRPacket.serialize ⟨.micros 0, .micros 999999999999999, 0, 9999999999⟩) 52 .rr
      GCCRRPacketParser.unSerialize ⟨.micros 0, .micros 999999999999999, 0, 9999999999⟩ ∧
    RoundTrips (GCCREMBPacket.serialize ⟨.bitsPerSec 9999999999⟩) 12 .remb
      GCCREMBPacketParser.unSerialize ⟨.bitsPerSec 9999999999⟩ :=
  ⟨codec_round_trips.1 _ ⟨by decide, ⟨999999999999999, rfl, by decide⟩, by decide⟩,
    codec_round_trips.2.1 _ ⟨⟨0, rfl, by decide⟩, ⟨999999999999999, rfl, by decide⟩, by decide,
      by decide⟩,
    codec_round_trips.2.2 _ ⟨⟨9999999999, rfl, by decide⟩⟩⟩

end ChromeGcc
