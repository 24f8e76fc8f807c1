import ChromeGcc.Packet.RoundTrip
import ChromeGcc.SendSide.Steps

/-! What becomes of a field that is too long for its width: it is written as zero, and the
datagram is accepted as a packet with that zero. -/
namespace ChromeGcc
open CString

/-- The number that a field of a width holds after it was written. -/
def writtenNumber (number len : Nat) : Nat := if number < 10 ^ len then number else 0

theorem writtenNumber_lt (number len : Nat) : writtenNumber number len < 10 ^ len := by
  unfold writtenNumber
  split_ifs with h
  · exact h
  · exact Nat.pow_pos (by decide)

theorem writtenNumber_eq_iff {number len : Nat} :
    writtenNumber number len = number ↔ number < 10 ^ len := by
  constructor
  · intro h
    rw [← h]
    exact writtenNumber_lt number len
  · exact fun h => if_pos h

theorem zeroPadded_zero (len : Nat) (hl : 0 < len) : zeroPadded 0 len = List.replicate len '0' := by
  obtain ⟨k, rfl⟩ : ∃ k, len = k + 1 := ⟨len - 1, by omega⟩
  rw [List.replicate_succ']
  rfl

/-- A number that is too long leaves the zeros of the buffer. -/
theorem numberToFixLenString_tooLong {number len : Nat} (hl : 0 < len) (h : ¬ number < 10 ^ len) :
    numberToFixLenString number len = numberToFixLenString 0 len := by
  have hdigits : ¬ (Nat.toDigits 10 number).length ≤ len :=
    fun hle => h ((Nat.length_toDigits_le_iff (by decide) hl).mp hle)
  rw [numberToFixLenString_fits hl (n := 0) (Nat.pow_pos (by decide)), zeroPadded_zero len hl]
  exact if_neg hdigits

theorem numberToFixLenString_writtenNumber (number len : Nat) (hl : 0 < len) :
    numberToFixLenString (writtenNumber number len) len = numberToFixLenString number len := by
  unfold writtenNumber
  split_ifs with h
  · rfl
  · exact (numberToFixLenString_tooLong hl h).symm

/-- The unit value that a field of a width holds after it was written. -/
def UnitBase.written {k : UnitKind} (u : UnitBase k) (len : Nat) : UnitBase k :=
  .finite (writtenNumber u.getUint64 len)

theorem UnitBase.written_fits {k : UnitKind} (u : UnitBase k) (len : Nat) :
    (u.written len).FitsWidth len :=
  ⟨writtenNumber u.getUint64 len, rfl, writtenNumber_lt _ _⟩

/-- Only a value that fits its field is held by it. -/
theorem UnitBase.written_eq_iff {k : UnitKind} {u : UnitBase k} {len : Nat} (hle : len ≤ 18) :
    u.written len = u ↔ u.FitsWidth len := by
  constructor
  · intro h
    rw [← h]
    exact u.written_fits len
  · intro h
    obtain ⟨n, rfl, hn⟩ := id h
    have hpow : 10 ^ len ≤ 10 ^ 18 := Nat.pow_le_pow_right (by omega) hle
    have hvalue : UnitBase.getUint64 (.finite (n : Int) : UnitBase k) = n :=
      toUint64_natCast (by omega)
    rw [UnitBase.written, hvalue, writtenNumber_eq_iff.mpr hn]

theorem UnitBase.getUint64_written {k : UnitKind} (u : UnitBase k) {len : Nat} (hle : len ≤ 18) :
    (u.written len).getUint64 = writtenNumber u.getUint64 len := by
  have hpow : 10 ^ len ≤ 10 ^ 18 := Nat.pow_le_pow_right (by omega) hle
  have hlt := writtenNumber_lt u.getUint64 len
  exact toUint64_natCast (by omega)

theorem UnitBase.numberToFixLenString_written {k : UnitKind} (u : UnitBase k) (len : Nat)
    (hl : 0 < len) (hle : len ≤ 18) :
    numberToFixLenString (u.written len).getUint64 len = numberToFixLenString u.getUint64 len := by
  rw [u.getUint64_written hle, numberToFixLenString_writtenNumber _ _ hl]

namespace GCCDataPacket

/-- The packet whose fields are what the datagram holds. -/
def written (p : GCCDataPacket) : GCCDataPacket where
  sequenceNumber := writtenNumber p.sequenceNumber packetNumberLen
  size := writtenNumber p.size packetSizeLen
  sendTime := p.sendTime.written timeSrtingLen

theorem written_fits (p : GCCDataPacket) : p.written.Fits where
  sequenceNumber := writtenNumber_lt _ _
  sendTime := p.sendTime.written_fits _
  size := writtenNumber_lt _ _

theorem written_eq_iff {p : GCCDataPacket} : p.written = p ↔ p.Fits := by
  constructor
  · intro h
    rw [← h]
    exact p.written_fits
  · intro h
    have hnumber := writtenNumber_eq_iff.mpr h.sequenceNumber
    have hsize := writtenNumber_eq_iff.mpr h.size
    have htime := (UnitBase.written_eq_iff (by decide)).mpr h.sendTime
    rw [written, hnumber, hsize, htime]

theorem serialize_written (p : GCCDataPacket) : p.written.serialize = p.serialize := by
  have hnumber := numberToFixLenString_writtenNumber p.sequenceNumber packetNumberLen
    (by decide)
  have hsize := numberToFixLenString_writtenNumber p.size packetSizeLen (by decide)
  have htime := p.sendTime.numberToFixLenString_written timeSrtingLen (by decide) (by decide)
  simp only [serialize, written, hnumber, hsize, htime, type]

/-- Every data packet is accepted, as the packet its datagram holds. -/
theorem unSerialize_serialize_written (p q : GCCDataPacket) :
    GCCDataPacketParser.unSerialize p.serialize q = (.ok (), p.written) := by
  rw [← p.serialize_written]
  exact unSerialize_serialize p.written_fits q

end GCCDataPacket

namespace GCCRRPacket

def written (p : GCCRRPacket) : GCCRRPacket where
  startTime := p.startTime.written timeSrtingLen
  endTime := p.endTime.written timeSrtingLen
  packetsLostDelta := writtenNumber p.packetsLostDelta packetLostLen
  packetsReceivedDelta := writtenNumber p.packetsReceivedDelta packetReceiveLen

theorem written_fits (p : GCCRRPacket) : p.written.Fits where
  startTime := p.startTime.written_fits _
  endTime := p.endTime.written_fits _
  packetsLostDelta := writtenNumber_lt _ _
  packetsReceivedDelta := writtenNumber_lt _ _

theorem written_eq_iff {p : GCCRRPacket} : p.written = p ↔ p.Fits := by
  constructor
  · intro h
    rw [← h]
    exact p.written_fits
  · intro h
    have hstart := (UnitBase.written_eq_iff (by decide)).mpr h.startTime
    have hend := (UnitBase.written_eq_iff (by decide)).mpr h.endTime
    have hlost := writtenNumber_eq_iff.mpr h.packetsLostDelta
    have hreceived := writtenNumber_eq_iff.mpr h.packetsReceivedDelta
    rw [written, hstart, hend, hlost, hreceived]

theorem serialize_written (p : GCCRRPacket) : p.written.serialize = p.serialize := by
  have hstart := p.startTime.numberToFixLenString_written timeSrtingLen (by decide)
    (by decide)
  have hend := p.endTime.numberToFixLenString_written timeSrtingLen (by decide) (by decide)
  have hlost := numberToFixLenString_writtenNumber p.packetsLostDelta packetLostLen
    (by decide)
  have hreceived := numberToFixLenString_writtenNumber p.packetsReceivedDelta
    packetReceiveLen (by decide)
  simp only [serialize, written, hstart, hend, hlost, hreceived, type]

theorem unSerialize_serialize_written (p q : GCCRRPacket) :
    GCCRRPacketParser.unSerialize p.serialize q = (.ok (), p.written) := by
  rw [← p.serialize_written]
  exact unSerialize_serialize p.written_fits q

end GCCRRPacket

namespace GCCREMBPacket

def written (p : GCCREMBPacket) : GCCREMBPacket where
  bandwidth := p.bandwidth.written dataRateLen

theorem written_fits (p : GCCREMBPacket) : p.written.Fits where
  bandwidth := p.bandwidth.written_fits _

theorem written_eq_iff {p : GCCREMBPacket} : p.written = p ↔ p.Fits := by
  constructor
  · intro h
    rw [← h]
    exact p.written_fits
  · intro h
    have hrate := (UnitBase.written_eq_iff (by decide)).mpr h.bandwidth
    rw [written, hrate]

theorem serialize_written (p : GCCREMBPacket) : p.written.serialize = p.serialize := by
  have hrate := p.bandwidth.numberToFixLenString_written dataRateLen (by decide) (by decide)
  simp only [serialize, written, hrate, type]

theorem unSerialize_serialize_written (p q : GCCREMBPacket) :
    GCCREMBPacketParser.unSerialize p.serialize q = (.ok (), p.written) := by
  rw [← p.serialize_written]
  exact unSerialize_serialize p.written_fits q

end GCCREMBPacket

/-- A parser accepts a datagram as no packet but one, whatever its target held. -/
def AcceptsOnly {P : Type} (parser : List Char → P → Except Abort Unit × P) (datagram : List Char)
    (packet : P) : Prop :=
  ∀ q r, parser datagram q = (.ok (), r) → r = packet

theorem acceptsOnly_iff {P : Type} [Inhabited P] {parser : List Char → P → Except Abort Unit × P}
    {datagram : List Char} {packet held : P} (h : ∀ q, parser datagram q = (.ok (), held)) :
    AcceptsOnly parser datagram packet ↔ held = packet := by
  constructor
  · intro ha
    exact ha default held (h default)
  · intro he q r hr
    rw [h q] at hr
    cases hr
    exact he

instance : Inhabited GCCDataPacket := ⟨{}⟩
instance : Inhabited GCCRRPacket := ⟨{}⟩
instance : Inhabited GCCREMBPacket := ⟨{}⟩

/-- The limit of the sender after a REMB went through the encoder and the parser. -/
def SendSideBandwidthEstimation.receiverLimitAfter {F : Type} [FloatArith F]
    (e : SendSideBandwidthEstimation F) (atTime : Timestamp) (bandwidth : DataRate) : DataRate :=
  let parsed := (GCCREMBPacketParser.unSerialize (GCCREMBPacket.serialize ⟨bandwidth⟩) {}).2
  (e.updateReceiverEstimate atTime parsed.bandwidth).receiverLimit

namespace SendSideBandwidthEstimation
variable {F : Type} [FloatArith F]

theorem receiverLimit_updateReceiverEstimate (e : SendSideBandwidthEstimation F) (atTime : Timestamp)
    (bandwidth : DataRate) :
    (e.updateReceiverEstimate atTime bandwidth).receiverLimit =
      if bandwidth.isZero then .plusInfinity else bandwidth :=
  congrArg Core.receiverLimit (core_updateReceiverEstimate e atTime bandwidth)

/-- The sender is left without a limit exactly when the field holds a zero. -/
theorem receiverLimitAfter_eq_plusInfinity (e : SendSideBandwidthEstimation F) (atTime : Timestamp)
    (bandwidth : DataRate) :
    e.receiverLimitAfter atTime bandwidth = .plusInfinity ↔
      writtenNumber bandwidth.getUint64 dataRateLen = 0 := by
  have hparsed : (GCCREMBPacketParser.unSerialize (GCCREMBPacket.serialize ⟨bandwidth⟩) {}).2.bandwidth =
      .finite (writtenNumber bandwidth.getUint64 dataRateLen) := by
    rw [GCCREMBPacket.unSerialize_serialize_written]
    rfl
  rw [receiverLimitAfter, hparsed, receiverLimit_updateReceiverEstimate]
  simp [UnitBase.isZero]

theorem writtenNumber_eq_zero_iff {b : Int} (hpos : 0 < b) (hlt : b < 2 ^ 63) :
    writtenNumber (UnitBase.getUint64 (.bitsPerSec b : DataRate)) dataRateLen = 0 ↔
      10 ^ 10 ≤ b := by
  obtain ⟨n, rfl⟩ := Int.eq_ofNat_of_zero_le hpos.le
  have hvalue : UnitBase.getUint64 (.bitsPerSec (n : Int) : DataRate) = n :=
    toUint64_natCast (by omega)
  have hwidth : (10 : Nat) ^ dataRateLen = 10 ^ 10 := rfl
  rw [hvalue, writtenNumber, hwidth]
  split_ifs with h <;> omega

end SendSideBandwidthEstimation

/-- A datagram is accepted as its own packet alone exactly when every field of the packet
fits its width; a longer bandwidth leaves the sender without a limit. -/
theorem accepted_as_sent_iff_fits {F : Type} [FloatArith F] :
    (∀ p : GCCDataPacket, AcceptsOnly GCCDataPacketParser.unSerialize p.serialize p ↔ p.Fits) ∧
    (∀ p : GCCRRPacket, AcceptsOnly GCCRRPacketParser.unSerialize p.serialize p ↔ p.Fits) ∧
    (∀ p : GCCREMBPacket, AcceptsOnly GCCREMBPacketParser.unSerialize p.serialize p ↔ p.Fits) ∧
    ∀ (e : SendSideBandwidthEstimation F) (atTime : Timestamp) (b : Int), 0 < b → b < 2 ^ 63 →
      (e.receiverLimitAfter atTime (.bitsPerSec b) ≠ .plusInfinity ↔ b < 10 ^ 10) := by
  refine ⟨fun p => ?_, fun p => ?_, fun p => ?_, ?_⟩
  · rw [acceptsOnly_iff p.unSerialize_serialize_written, GCCDataPacket.written_eq_iff]
  · rw [acceptsOnly_iff p.unSerialize_serialize_written, GCCRRPacket.written_eq_iff]
  · rw [acceptsOnly_iff p.unSerialize_serialize_written, GCCREMBPacket.written_eq_iff]
  · intro e atTime b hpos hlt
    rw [Ne, e.receiverLimitAfter_eq_plusInfinity,
      SendSideBandwidthEstimation.writtenNumber_eq_zero_iff hpos hlt, not_le]

/-- The largest bandwidth of its field, and the packet of number 10^10 beside the last one. -/
theorem accepted_as_sent_iff_fits_at_bounds :
    AcceptsOnly GCCDataPacketParser.unSerialize (GCCDataPacket.serialize ⟨9999999999, 1472, .micros 0⟩)
        ⟨9999999999, 1472, .micros 0⟩ ∧
      ({} : SendSideBandwidthEstimation FloatArith.Rational).receiverLimitAfter (.micros 0)
        (.bitsPerSec 9999999999) ≠ .plusInfinity :=
  ⟨((accepted_as_sent_iff_fits (F := FloatArith.Rational)).1 _).mpr
      ⟨by decide, ⟨0, rfl, by decide⟩, by decide⟩,
    (accepted_as_sent_iff_fits.2.2.2 {} (.micros 0) 9999999999 (by decide) (by decide)).mpr
      (by decide)⟩

/-- Ten gigabits per second are sent as zero, which lifts the limit they were to set. -/
theorem remb_tooLong_lifts_limit :
    GCCREMBPacketParser.unSerialize (GCCREMBPacket.serialize ⟨.bitsPerSec 10000000000⟩) {} =
        (.ok (), ⟨.bitsPerSec 0⟩) ∧
      ({} : SendSideBandwidthEstimation FloatArith.Rational).receiverLimitAfter (.micros 0)
        (.bitsPerSec 10000000000) = .plusInfinity := by
  have hvalue : UnitBase.getUint64 (.bitsPerSec 10000000000 : DataRate) = 10000000000 := rfl
  have hwritten : writtenNumber 10000000000 dataRateLen = 0 := rfl
  constructor
  · rw [GCCREMBPacket.unSerialize_serialize_written]
    rfl
  · rw [SendSideBandwidthEstimation.receiverLimitAfter_eq_plusInfinity, hvalue, hwritten]

end ChromeGcc
