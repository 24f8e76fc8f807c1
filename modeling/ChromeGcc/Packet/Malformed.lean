import ChromeGcc.Packet.RoundTrip

/-! What the parsers do with any datagram, well formed or not: they store the fields before
the first one that stoul cannot read, and abort there. -/
namespace ChromeGcc
open CString

/-- The datagram begins with the two characters of a type. -/
def HasType (type : PacketType) (data : List Char) : Prop :=
  data.take typeLen = packetTypeToString type

instance (type : PacketType) (data : List Char) : Decidable (HasType type data) :=
  inferInstanceAs (Decidable (_ = _))

namespace FieldSlot
variable {P : Type}

/-- The characters of a field, fewer than its width where the datagram ends early. -/
def text (slot : FieldSlot P) (data : List Char) : List Char :=
  (data.drop slot.offset).take slot.width

/-- Some digit follows the blanks and the sign of the field. -/
def Readable (data : List Char) (slot : FieldSlot P) : Prop := numeral (slot.text data) ≠ []

instance (data : List Char) (slot : FieldSlot P) : Decidable (slot.Readable data) :=
  inferInstanceAs (Decidable (_ ≠ _))

def DigitsOnly (data : List Char) (slot : FieldSlot P) : Prop :=
  (slot.text data).length = slot.width ∧ ∀ c ∈ slot.text data, c.isDigit = true

/-- The number that stoul reads from the field. -/
def value (slot : FieldSlot P) (data : List Char) : Nat :=
  match stoul (slot.text data) with
  | .ok value => value
  | .error _ => 0

/-- How a field that cannot be read aborts: substr throws beyond the end, else stoul. -/
def abort (slot : FieldSlot P) (data : List Char) : Abort :=
  .exception (if slot.offset ≤ data.length then .invalidArgument else .outOfRange)

theorem text_length_le (slot : FieldSlot P) (data : List Char) :
    (slot.text data).length ≤ slot.width := List.length_take_le _ _

theorem Readable.offset_le {slot : FieldSlot P} {data : List Char} (h : slot.Readable data) :
    slot.offset ≤ data.length := by
  apply Nat.le_of_not_lt
  intro hlt
  have hdrop : data.drop slot.offset = [] := List.drop_eq_nil_of_le hlt.le
  exact h (by rw [text, hdrop, List.take_nil]; rfl)

theorem DigitsOnly.readable {slot : FieldSlot P} {data : List Char} (h : slot.DigitsOnly data)
    (hw : 0 < slot.width) : slot.Readable data := by
  rw [Readable, numeral_digits h.2]
  apply List.ne_nil_of_length_pos
  rw [h.1]
  exact hw

theorem readField_readable {slot : FieldSlot P} {data : List Char} (hw : slot.width ≤ 19)
    (h : slot.Readable data) :
    readField data slot.offset slot.width = .ok (slot.value data) := by
  obtain ⟨n, hn⟩ := (stoul_ok_iff ((slot.text_length_le data).trans hw)).mpr h
  rw [readField, substr, if_pos h.offset_le, value, hn]
  change liftException (stoul (slot.text data)) = .ok n
  rw [hn]
  rfl

theorem readField_unreadable {slot : FieldSlot P} {data : List Char} (hw : slot.width ≤ 19)
    (h : ¬ slot.Readable data) :
    readField data slot.offset slot.width = .error (slot.abort data) := by
  rw [readField, substr, abort]
  by_cases hle : slot.offset ≤ data.length
  · rw [if_pos hle, if_pos hle]
    change liftException (stoul (slot.text data)) = _
    have hlen := (slot.text_length_le data).trans hw
    cases hs : stoul (slot.text data) with
    | ok n => exact absurd ((stoul_ok_iff hlen).mp ⟨n, hs⟩) h
    | error e => rw [stoul_error hlen hs]; rfl
  · rw [if_neg hle, if_neg hle]
    rfl

end FieldSlot

section Fields
variable {P : Type}

/-- The first field that cannot be read decides how the assignments end. -/
def fieldOutcome (data : List Char) (slots : List (FieldSlot P)) : Except Abort Unit :=
  match slots.find? fun slot => ¬ slot.Readable data with
  | none => .ok ()
  | some slot => .error (slot.abort data)

/-- The target with the fields before the first one that cannot be read. -/
def storeReadable (data : List Char) (slots : List (FieldSlot P)) (packet : P) : P :=
  (slots.takeWhile fun slot => slot.Readable data).foldl
    (fun packet slot => slot.store (slot.value data) packet) packet

def AllReadable (data : List Char) (slots : List (FieldSlot P)) : Prop :=
  ∀ slot ∈ slots, slot.Readable data

instance (data : List Char) (slots : List (FieldSlot P)) : Decidable (AllReadable data slots) :=
  inferInstanceAs (Decidable (∀ slot ∈ slots, slot.Readable data))

/-- A datagram of a type with every field of it readable. -/
def Accepted (type : PacketType) (slots : List (FieldSlot P)) (data : List Char) : Prop :=
  HasType type data ∧ AllReadable data slots

instance (type : PacketType) (slots : List (FieldSlot P)) (data : List Char) :
    Decidable (Accepted type slots data) := inferInstanceAs (Decidable (_ ∧ _))

theorem fieldOutcome_ok_iff {data : List Char} {slots : List (FieldSlot P)} :
    fieldOutcome data slots = .ok () ↔ AllReadable data slots := by
  unfold fieldOutcome AllReadable
  cases hfind : slots.find? fun slot => ¬ slot.Readable data with
  | none =>
      have hall := List.find?_eq_none.mp hfind
      constructor
      · intro _ slot hs
        simpa using hall slot hs
      · intro _
        rfl
  | some slot =>
      have hbad : ¬ slot.Readable data := by simpa using List.find?_some hfind
      constructor
      · intro h
        cases h
      · intro h
        exact absurd (h slot (List.mem_of_find?_eq_some hfind)) hbad

/-- The assignments store the readable fields in front, whatever the datagram. -/
theorem storeFields_eq (data : List Char) {slots : List (FieldSlot P)}
    (hw : ∀ slot ∈ slots, slot.width ≤ 19) (packet : P) :
    storeFields data slots packet = (fieldOutcome data slots, storeReadable data slots packet) := by
  induction slots generalizing packet with
  | nil => rfl
  | cons slot slots ih =>
      have hslot := hw slot List.mem_cons_self
      have ih' := ih fun slot hs => hw slot (List.mem_cons_of_mem _ hs)
      by_cases h : slot.Readable data
      · rw [storeFields, FieldSlot.readField_readable hslot h]
        have houtcome : fieldOutcome data (slot :: slots) = fieldOutcome data slots := by
          simp only [fieldOutcome, List.find?_cons, h, not_true_eq_false, decide_false]
        have hstore : storeReadable data (slot :: slots) packet =
            storeReadable data slots (slot.store (slot.value data) packet) := by
          simp only [storeReadable, List.takeWhile_cons, h, decide_true, if_true, List.foldl_cons]
        rw [houtcome, hstore]
        exact ih' _
      · rw [storeFields, FieldSlot.readField_unreadable hslot h]
        have houtcome : fieldOutcome data (slot :: slots) = .error (slot.abort data) := by
          simp only [fieldOutcome, List.find?_cons, h, not_false_eq_true, decide_true]
        have hstore : storeReadable data (slot :: slots) packet = packet := by
          simp only [storeReadable, List.takeWhile_cons, h, decide_false, Bool.false_eq_true,
            if_false, List.foldl_nil]
        rw [houtcome, hstore]

end Fields

theorem packetTypeToString_injective : Function.Injective packetTypeToString := by
  intro t t' h
  cases t <;> cases t' <;> first | rfl | exact absurd h (by decide)

theorem getType_eq (data : List Char) :
    getType data = stringToPacketType (data.take typeLen) := by
  rw [getType, substr, if_pos (Nat.zero_le _)]
  rfl

theorem stringToPacketType_ok_iff {s : List Char} {t : PacketType} :
    stringToPacketType s = .ok t ↔ s = packetTypeToString t := by
  constructor
  · intro h
    unfold stringToPacketType at h
    split_ifs at h with hdata hrr hremb
    · cases h; exact hdata
    · cases h; exact hrr
    · cases h; exact hremb
  · intro h
    rw [h]
    cases t <;> rfl

theorem getType_ok_iff {data : List Char} {t : PacketType} :
    getType data = .ok t ↔ HasType t data := by
  rw [getType_eq, stringToPacketType_ok_iff]
  rfl

/-- A datagram of no known type enters pause_at_func. -/
theorem getType_unknown {data : List Char} (h : ∀ t, ¬ HasType t data) :
    getType data = .error .pauseAtFunc := by
  have hdata : data.take typeLen ≠ typeDataStr := h .data
  have hrr : data.take typeLen ≠ typeRrStr := h .rr
  have hremb : data.take typeLen ≠ typeRembStr := h .remb
  rw [getType_eq, stringToPacketType, if_neg hdata, if_neg hrr, if_neg hremb]

theorem HasType.unique {data : List Char} {t t' : PacketType} (h : HasType t data)
    (h' : HasType t' data) : t = t' :=
  packetTypeToString_injective (h.symm.trans h')

theorem HasType.not {data : List Char} {t t' : PacketType} (h : HasType t data) (hne : t ≠ t') :
    ¬ HasType t' data :=
  fun h' => hne (h.unique h')

theorem hasType_cases (data : List Char) :
    (∀ t, ¬ HasType t data) ∨ HasType .data data ∨ HasType .rr data ∨ HasType .remb data := by
  by_cases hknown : ∃ t, HasType t data
  · obtain ⟨t, ht⟩ := hknown
    cases t with
    | data => exact .inr (.inl ht)
    | rr => exact .inr (.inr (.inl ht))
    | remb => exact .inr (.inr (.inr ht))
  · exact .inl (not_exists.mp hknown)

/-- A datagram that is not accepted aborts at its first field that cannot be read. -/
theorem fieldOutcome_error_of_not_accepted {P : Type} {type : PacketType}
    {slots : List (FieldSlot P)} {data : List Char} (ht : HasType type data)
    (h : ¬ Accepted type slots data) : ∃ e, fieldOutcome data slots = .error e := by
  cases hout : fieldOutcome data slots with
  | error e => exact ⟨e, rfl⟩
  | ok u => exact absurd ⟨ht, fieldOutcome_ok_iff.mp hout⟩ h

/-- What a parser does with a datagram, for every target it is given. -/
structure ParsesReadable {P : Type} (parser : List Char → P → Except Abort Unit × P)
    (type : PacketType) (slots : List (FieldSlot P)) (data : List Char) : Prop where
  returns_iff : ∀ p, (parser data p).1 = .ok () ↔
    ∃ t, HasType t data ∧ (t = type → AllReadable data slots)
  stored : ∀ p, (parser data p).2 = if HasType type data then storeReadable data slots p else p
  digits : HasType type data → (∀ slot ∈ slots, slot.DigitsOnly data) →
    ∀ p, (parser data p).1 = .ok ()

section UnSerialize
variable {P : Type} {type : PacketType} {slots : List (FieldSlot P)} {data : List Char}

theorem unSerialize_of_type (hw : ∀ slot ∈ slots, 0 < slot.width ∧ slot.width ≤ 19)
    (ht : HasType type data) (packet : P) :
    unSerialize type slots data packet =
      (fieldOutcome data slots, storeReadable data slots packet) := by
  rw [unSerialize_same slots (getType_ok_iff.mpr ht)]
  exact storeFields_eq data (fun slot hs => (hw slot hs).2) packet

theorem unSerialize_unknown (h : ∀ t, ¬ HasType t data) (packet : P) :
    unSerialize type slots data packet = (.error .pauseAtFunc, packet) := by
  rw [unSerialize, getType_unknown h]

theorem unSerialize_returns_iff (hw : ∀ slot ∈ slots, 0 < slot.width ∧ slot.width ≤ 19)
    (packet : P) : (unSerialize type slots data packet).1 = .ok () ↔
      ∃ t, HasType t data ∧ (t = type → AllReadable data slots) := by
  by_cases hknown : ∃ t, HasType t data
  · obtain ⟨t, ht⟩ := hknown
    by_cases hty : t = type
    · rw [hty] at ht
      rw [unSerialize_of_type hw ht, fieldOutcome_ok_iff]
      constructor
      · intro hall
        exact ⟨type, ht, fun _ => hall⟩
      · rintro ⟨t', ht', hall⟩
        exact hall (ht'.unique ht)
    · rw [unSerialize_other slots (getType_ok_iff.mpr ht) hty]
      exact ⟨fun _ => ⟨t, ht, fun h => absurd h hty⟩, fun _ => rfl⟩
  · rw [unSerialize_unknown (not_exists.mp hknown)]
    constructor
    · intro h
      cases h
    · rintro ⟨t, ht, -⟩
      exact absurd ⟨t, ht⟩ hknown

theorem unSerialize_stored (hw : ∀ slot ∈ slots, 0 < slot.width ∧ slot.width ≤ 19) (packet : P) :
    (unSerialize type slots data packet).2 =
      if HasType type data then storeReadable data slots packet else packet := by
  by_cases ht : HasType type data
  · rw [unSerialize_of_type hw ht, if_pos ht]
  · rw [if_neg ht]
    by_cases hknown : ∃ t, HasType t data
    · obtain ⟨t, ht'⟩ := hknown
      have hty : t ≠ type := by
        intro h
        rw [h] at ht'
        exact ht ht'
      rw [unSerialize_other slots (getType_ok_iff.mpr ht') hty]
    · rw [unSerialize_unknown (not_exists.mp hknown)]

theorem unSerialize_parsesReadable (hw : ∀ slot ∈ slots, 0 < slot.width ∧ slot.width ≤ 19)
    (data : List Char) : ParsesReadable (unSerialize type slots) type slots data where
  returns_iff := unSerialize_returns_iff hw
  stored := unSerialize_stored hw
  digits ht hdigits packet := by
    rw [unSerialize_of_type hw ht, fieldOutcome_ok_iff]
    intro slot hs
    exact (hdigits slot hs).readable (hw slot hs).1

end UnSerialize

theorem dataSlots_width : ∀ slot ∈ dataSlots, 0 < slot.width ∧ slot.width ≤ 19 := by
  simp [dataSlots, packetNumberLen, timeSrtingLen, packetSizeLen]

theorem rrSlots_width : ∀ slot ∈ rrSlots, 0 < slot.width ∧ slot.width ≤ 19 := by
  simp [rrSlots, packetLostLen, packetReceiveLen, timeSrtingLen, packetNumberLen]

theorem rembSlots_width : ∀ slot ∈ rembSlots, 0 < slot.width ∧ slot.width ≤ 19 := by
  simp [rembSlots, dataRateLen, packetNumberLen]

theorem dataParser_parsesReadable (data : List Char) :
    ParsesReadable GCCDataPacketParser.unSerialize .data dataSlots data :=
  unSerialize_parsesReadable dataSlots_width data

theorem rrParser_parsesReadable (data : List Char) :
    ParsesReadable GCCRRPacketParser.unSerialize .rr rrSlots data :=
  unSerialize_parsesReadable rrSlots_width data

theorem rembParser_parsesReadable (data : List Char) :
    ParsesReadable GCCREMBPacketParser.unSerialize .remb rembSlots data :=
  unSerialize_parsesReadable rembSlots_width data

end ChromeGcc
