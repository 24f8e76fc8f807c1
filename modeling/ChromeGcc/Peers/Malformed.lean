import ChromeGcc.Controller.Limits
import ChromeGcc.Packet.Malformed
import ChromeGcc.Peers.Sender
import ChromeGcc.Peers.Receiver

/-! What a malformed datagram can do to the two peers: it may stop the handler, and the
controllers and the loss collection stay as they were. -/
namespace ChromeGcc
variable {F : Type} [FloatArith F]

namespace Sender

/-- The effect of any datagram on a Sender, as far as the datagram's form decides it. -/
structure Contains (s : Sender F) (data : List Char) (now : Timestamp) : Prop where
  returns_iff : (s.onPacketReceived data now).1 = .ok () ↔
    HasType .data data ∨ Accepted .rr rrSlots data ∨ Accepted .remb rembSlots data
  unknown : (∀ t, ¬ HasType t data) → s.onPacketReceived data now = (.error .pauseAtFunc, s)
  rr_outcome : HasType .rr data → (s.onPacketReceived data now).1 = fieldOutcome data rrSlots
  remb_outcome : HasType .remb data →
    (s.onPacketReceived data now).1 = fieldOutcome data rembSlots
  gccControler : ¬ Accepted .rr rrSlots data → ¬ Accepted .remb rembSlots data →
    (s.onPacketReceived data now).2.gccControler = s.gccControler
  recentRrPacket : (s.onPacketReceived data now).2.recentRrPacket =
    if HasType .rr data then storeReadable data rrSlots {} else s.recentRrPacket
  sendControl : (s.onPacketReceived data now).1 ≠ .ok () →
    (s.onPacketReceived data now).2.sendControl = s.sendControl

variable {s : Sender F} {data : List Char} {now : Timestamp}

theorem onPacketReceived_unknown (h : ∀ t, ¬ HasType t data) :
    s.onPacketReceived data now = (.error .pauseAtFunc, s) := by
  rw [onPacketReceived, getType_unknown h]

theorem onPacketReceived_data (h : HasType .data data) :
    s.onPacketReceived data now = (.ok (), s.pace) := by
  rw [onPacketReceived, getType_ok_iff.mpr h]
  rfl

/-- A loss report that cannot be read whole leaves its readable fields and nothing else. -/
theorem onPacketReceived_rr_error (h : HasType .rr data) {e : Abort}
    (he : fieldOutcome data rrSlots = .error e) :
    s.onPacketReceived data now =
      (.error e, { s with recentRrPacket := storeReadable data rrSlots {} }) := by
  have hparse := unSerialize_of_type rrSlots_width h {}
  rw [he] at hparse
  rw [onPacketReceived, getType_ok_iff.mpr h]
  simp only [dispatch, onRRPacketReceived, GCCRRPacketParser.unSerialize, hparse]

theorem onPacketReceived_rr_ok (h : HasType .rr data)
    (hok : fieldOutcome data rrSlots = .ok ()) :
    (s.onPacketReceived data now).1 = .ok () ∧
      (s.onPacketReceived data now).2.recentRrPacket = storeReadable data rrSlots {} := by
  have hparse := unSerialize_of_type rrSlots_width h {}
  rw [hok] at hparse
  rw [onPacketReceived, getType_ok_iff.mpr h]
  simp only [dispatch, onRRPacketReceived, GCCRRPacketParser.unSerialize, hparse, pace, and_self]

theorem onPacketReceived_remb_error (h : HasType .remb data) {e : Abort}
    (he : fieldOutcome data rembSlots = .error e) :
    s.onPacketReceived data now = (.error e, s) := by
  have hparse := unSerialize_of_type rembSlots_width h {}
  rw [he] at hparse
  rw [onPacketReceived, getType_ok_iff.mpr h]
  simp only [dispatch, onREMBPacketReceived, GCCREMBPacketParser.unSerialize, hparse]

theorem onPacketReceived_remb_ok (h : HasType .remb data)
    (hok : fieldOutcome data rembSlots = .ok ()) :
    (s.onPacketReceived data now).1 = .ok () ∧
      (s.onPacketReceived data now).2.recentRrPacket = s.recentRrPacket := by
  have hparse := unSerialize_of_type rembSlots_width h {}
  rw [hok] at hparse
  rw [onPacketReceived, getType_ok_iff.mpr h]
  simp only [dispatch, onREMBPacketReceived, GCCREMBPacketParser.unSerialize, hparse, pace,
    and_self]

theorem onPacketReceived_rr_outcome (h : HasType .rr data) :
    (s.onPacketReceived data now).1 = fieldOutcome data rrSlots := by
  cases hout : fieldOutcome data rrSlots with
  | error e => rw [onPacketReceived_rr_error h hout]
  | ok u => exact (onPacketReceived_rr_ok h hout).1

theorem onPacketReceived_remb_outcome (h : HasType .remb data) :
    (s.onPacketReceived data now).1 = fieldOutcome data rembSlots := by
  cases hout : fieldOutcome data rembSlots with
  | error e => rw [onPacketReceived_remb_error h hout]
  | ok u => exact (onPacketReceived_remb_ok h hout).1

theorem onPacketReceived_returns_iff : (s.onPacketReceived data now).1 = .ok () ↔
    HasType .data data ∨ Accepted .rr rrSlots data ∨ Accepted .remb rembSlots data := by
  rcases hasType_cases data with h | h | h | h
  · rw [onPacketReceived_unknown h]
    constructor
    · intro hok
      cases hok
    · rintro (h' | h' | h')
      · exact absurd h' (h .data)
      · exact absurd h'.1 (h .rr)
      · exact absurd h'.1 (h .remb)
  · rw [onPacketReceived_data h]
    exact iff_of_true rfl (.inl h)
  · rw [onPacketReceived_rr_outcome h, fieldOutcome_ok_iff]
    constructor
    · intro hall
      exact .inr (.inl ⟨h, hall⟩)
    · rintro (h' | h' | h')
      · exact absurd h' (h.not (by decide))
      · exact h'.2
      · exact absurd h'.1 (h.not (by decide))
  · rw [onPacketReceived_remb_outcome h, fieldOutcome_ok_iff]
    constructor
    · intro hall
      exact .inr (.inr ⟨h, hall⟩)
    · rintro (h' | h' | h')
      · exact absurd h' (h.not (by decide))
      · exact absurd h'.1 (h.not (by decide))
      · exact h'.2

/-- Only a report that is read whole reaches the controller. -/
theorem onPacketReceived_gccControler (hrr : ¬ Accepted .rr rrSlots data)
    (hremb : ¬ Accepted .remb rembSlots data) :
    (s.onPacketReceived data now).2.gccControler = s.gccControler := by
  rcases hasType_cases data with h | h | h | h
  · rw [onPacketReceived_unknown h]
  · rw [onPacketReceived_data h, pace]
  · obtain ⟨e, he⟩ := fieldOutcome_error_of_not_accepted h hrr
    rw [onPacketReceived_rr_error h he]
  · obtain ⟨e, he⟩ := fieldOutcome_error_of_not_accepted h hremb
    rw [onPacketReceived_remb_error h he]

theorem onPacketReceived_recentRrPacket : (s.onPacketReceived data now).2.recentRrPacket =
    if HasType .rr data then storeReadable data rrSlots {} else s.recentRrPacket := by
  rcases hasType_cases data with h | h | h | h
  · rw [onPacketReceived_unknown h, if_neg (h .rr)]
  · rw [onPacketReceived_data h, if_neg (h.not (by decide)), pace]
  · rw [if_pos h]
    cases hout : fieldOutcome data rrSlots with
    | error e => rw [onPacketReceived_rr_error h hout]
    | ok u => exact (onPacketReceived_rr_ok h hout).2
  · rw [if_neg (h.not (by decide))]
    cases hout : fieldOutcome data rembSlots with
    | error e => rw [onPacketReceived_remb_error h hout]
    | ok u => exact (onPacketReceived_remb_ok h hout).2

/-- A handler that is stopped does not touch the pacing. -/
theorem onPacketReceived_sendControl (hne : (s.onPacketReceived data now).1 ≠ .ok ()) :
    (s.onPacketReceived data now).2.sendControl = s.sendControl := by
  rcases hasType_cases data with h | h | h | h
  · rw [onPacketReceived_unknown h]
  · rw [onPacketReceived_data h] at hne
    exact absurd rfl hne
  · cases hout : fieldOutcome data rrSlots with
    | error e => rw [onPacketReceived_rr_error h hout]
    | ok u => exact absurd (onPacketReceived_rr_ok h hout).1 hne
  · cases hout : fieldOutcome data rembSlots with
    | error e => rw [onPacketReceived_remb_error h hout]
    | ok u => exact absurd (onPacketReceived_remb_ok h hout).1 hne

theorem contains (s : Sender F) (data : List Char) (now : Timestamp) : s.Contains data now where
  returns_iff := onPacketReceived_returns_iff
  unknown := onPacketReceived_unknown
  rr_outcome := onPacketReceived_rr_outcome
  remb_outcome := onPacketReceived_remb_outcome
  gccControler := onPacketReceived_gccControler
  recentRrPacket := onPacketReceived_recentRrPacket
  sendControl := onPacketReceived_sendControl

end Sender

namespace Receiver

/-- The effect of any datagram on a Receiver, as far as the datagram's form decides it. -/
structure Contains (r : Receiver F) (env : ReceiverEnv) (data : List Char) : Prop where
  aborts_iff : (∃ a, (r.onPacketReceived env data).1 = .error (.datagram a)) ↔
    ¬ (HasType .rr data ∨ HasType .remb data ∨ Accepted .data dataSlots data)
  unknown : (∀ t, ¬ HasType t data) →
    (r.onPacketReceived env data).1 = .error (.datagram .pauseAtFunc)
  data_outcome : HasType .data data → ∀ a,
    (r.onPacketReceived env data).1 = .error (.datagram a) ↔ fieldOutcome data dataSlots = .error a
  other : HasType .rr data ∨ HasType .remb data → r.onPacketReceived env data = (.ok (), r, [])
  unchanged : ¬ Accepted .data dataSlots data → (r.onPacketReceived env data).2 = (r, [])

variable {r : Receiver F} {env : ReceiverEnv} {data : List Char}

theorem onPacketReceived_unknown (h : ∀ t, ¬ HasType t data) :
    r.onPacketReceived env data = (.error (.datagram .pauseAtFunc), r, []) := by
  rw [onPacketReceived, getType_unknown h]

theorem onPacketReceived_other (h : HasType .rr data ∨ HasType .remb data) :
    r.onPacketReceived env data = (.ok (), r, []) := by
  rcases h with h | h
  · rw [onPacketReceived, getType_ok_iff.mpr h]
  · rw [onPacketReceived, getType_ok_iff.mpr h]

theorem onPacketReceived_data_error (h : HasType .data data) {e : Abort}
    (he : fieldOutcome data dataSlots = .error e) :
    r.onPacketReceived env data = (.error (.datagram e), r, []) := by
  have hparse := unSerialize_of_type dataSlots_width h {}
  rw [he] at hparse
  rw [onPacketReceived, getType_ok_iff.mpr h]
  simp only [onDataPacketReceived, GCCDataPacketParser.unSerialize, hparse]

theorem onPacketReceived_data_ok (h : HasType .data data)
    (hok : fieldOutcome data dataSlots = .ok ()) :
    r.onPacketReceived env data =
      r.onFeedback env (feedbackOf (storeReadable data dataSlots {}) env) := by
  have hparse := unSerialize_of_type dataSlots_width h {}
  rw [hok] at hparse
  rw [onPacketReceived, getType_ok_iff.mpr h]
  simp only [onDataPacketReceived, GCCDataPacketParser.unSerialize, hparse]

theorem sendText_not_datagram (r : Receiver F) (env : ReceiverEnv) (text : List Char) (a : Abort) :
    (sendText env text r).1 ≠ .error (.datagram a) := by
  unfold sendText
  split
  · simp
  · simp

theorem onDelayBaseBweUpdated_not_datagram (r : Receiver F) (env : ReceiverEnv)
    (report : BweResult) (a : Abort) :
    (r.onDelayBaseBweUpdated env report).1 ≠ .error (.datagram a) := by
  unfold onDelayBaseBweUpdated
  dsimp only
  split
  · exact sendText_not_datagram _ _ _ a
  · split
    · have hsend := sendText_not_datagram r env
        ({ bandwidth := report.targetBitrate } : GCCREMBPacket).serialize a
      split
      · next e _ _ heq =>
          rw [heq] at hsend
          exact hsend
      · simp
    · simp

theorem collectLosses_not_datagram (msg : TransportPacketsFeedback) (a : Abort) :
    (r.collectLosses env msg).1 ≠ .error (.datagram a) := by
  unfold collectLosses
  cases r.lossCollection.onTransportPacketsFeedback F msg with
  | error f => simp
  | ok result =>
      dsimp only
      split
      · exact sendText_not_datagram _ _ _ a
      · simp

/-- Once a packet is read, only a send or the loss collection can stop the handler. -/
theorem onFeedback_not_datagram (msg : TransportPacketsFeedback) (a : Abort) :
    (r.onFeedback env msg).1 ≠ .error (.datagram a) := by
  unfold onFeedback
  dsimp only
  split
  · next e r' sent heq =>
      split at heq
      · have hreport := onDelayBaseBweUpdated_not_datagram
          { r with gccControler := r.gccControler.onTransportPacketsFeedback msg } env
          (r.gccControler.onTransportPacketsFeedback msg).recentResult a
        rw [heq] at hreport
        exact hreport
      · cases heq
  · exact collectLosses_not_datagram msg a

theorem onPacketReceived_data_outcome (h : HasType .data data) (a : Abort) :
    (r.onPacketReceived env data).1 = .error (.datagram a) ↔
      fieldOutcome data dataSlots = .error a := by
  cases hout : fieldOutcome data dataSlots with
  | error e =>
      rw [onPacketReceived_data_error h hout]
      simp
  | ok u =>
      rw [onPacketReceived_data_ok h hout]
      constructor
      · intro he
        exact absurd he (onFeedback_not_datagram _ a)
      · intro he
        cases he

theorem onPacketReceived_aborts_iff :
    (∃ a, (r.onPacketReceived env data).1 = .error (.datagram a)) ↔
      ¬ (HasType .rr data ∨ HasType .remb data ∨ Accepted .data dataSlots data) := by
  rcases hasType_cases data with h | h | h | h
  · rw [onPacketReceived_unknown h]
    constructor
    · rintro - (h' | h' | h')
      · exact h .rr h'
      · exact h .remb h'
      · exact h .data h'.1
    · intro _
      exact ⟨_, rfl⟩
  · have hrr : ¬ HasType .rr data := h.not (by decide)
    have hremb : ¬ HasType .remb data := h.not (by decide)
    simp only [onPacketReceived_data_outcome h, hrr, hremb, false_or]
    constructor
    · rintro ⟨a, ha⟩ hacc
      rw [fieldOutcome_ok_iff.mpr hacc.2] at ha
      cases ha
    · intro hacc
      exact fieldOutcome_error_of_not_accepted h hacc
  · rw [onPacketReceived_other (.inl h)]
    constructor
    · rintro ⟨a, ha⟩
      cases ha
    · intro hn
      exact absurd (.inl h) hn
  · rw [onPacketReceived_other (.inr h)]
    constructor
    · rintro ⟨a, ha⟩
      cases ha
    · intro hn
      exact absurd (.inr (.inl h)) hn

/-- Only a data packet that is read whole changes the Receiver or makes it send. -/
theorem onPacketReceived_unchanged (hne : ¬ Accepted .data dataSlots data) :
    (r.onPacketReceived env data).2 = (r, []) := by
  rcases hasType_cases data with h | h | h | h
  · rw [onPacketReceived_unknown h]
  · obtain ⟨e, he⟩ := fieldOutcome_error_of_not_accepted h hne
    rw [onPacketReceived_data_error h he]
  · rw [onPacketReceived_other (.inl h)]
  · rw [onPacketReceived_other (.inr h)]

theorem contains (r : Receiver F) (env : ReceiverEnv) (data : List Char) : r.Contains env data where
  aborts_iff := onPacketReceived_aborts_iff
  unknown h := by rw [onPacketReceived_unknown h]
  data_outcome := onPacketReceived_data_outcome
  other := onPacketReceived_other
  unchanged := onPacketReceived_unchanged

end Receiver

/-- A malformed datagram is contained: whatever the peers' states, it may stop a handler,
but reaches neither the controllers nor the loss collection. -/
theorem malformed_datagrams_contained (s : Sender F) (r : Receiver F) (env : ReceiverEnv)
    (data : List Char) (now : Timestamp) :
    s.Contains data now ∧ r.Contains env data ∧
      ParsesReadable GCCDataPacketParser.unSerialize .data dataSlots data ∧
      ParsesReadable GCCRRPacketParser.unSerialize .rr rrSlots data ∧
      ParsesReadable GCCREMBPacketParser.unSerialize .remb rembSlots data :=
  ⟨s.contains data now, r.contains env data, dataParser_parsesReadable data,
    rrParser_parsesReadable data, rembParser_parsesReadable data⟩

section NewPeers
open GoogCcNetworkController (configOf)

def newSender : Sender FloatArith.Rational := .new (configOf 0 300000 2000000)
def newReceiver : Receiver FloatArith.Rational := .new (configOf 0 300000 2000000)
def newEnv : ReceiverEnv := ⟨.finite 0, .finite 0, fun _ => false⟩

/-- A rate of one digit, with letters in the rest of its field. -/
def lettersReport : List Char := '1' :: '0' :: '5' :: List.replicate 9 'x'

/-- A new Sender is stopped by the empty datagram and by a report without its field, takes a
limit from a field with letters in it, and keeps the start time of a report that ends after
it. A new Receiver is stopped by half a type. -/
theorem malformed_datagrams_stop_peers :
    (newSender.onPacketReceived [] (.finite 0)).1 = .error .pauseAtFunc ∧
      (newSender.onPacketReceived ['1', '0'] (.finite 0)).1 =
        .error (.exception .invalidArgument) ∧
      (newReceiver.onPacketReceived newEnv ['0']).1 = .error (.datagram .pauseAtFunc) ∧
      (¬ ∀ slot ∈ rembSlots, slot.DigitsOnly lettersReport) ∧
      newSender.gccControler.bandwidthEstimation.receiverLimit = .plusInfinity ∧
      (newSender.onPacketReceived lettersReport
        (.finite 0)).2.gccControler.bandwidthEstimation.receiverLimit = .finite 5 ∧
      (newSender.onPacketReceived ('0' :: '1' :: List.replicate 15 '7') (.finite 0)).1 =
        .error (.exception .invalidArgument) ∧
      (newSender.onPacketReceived ('0' :: '1' :: List.replicate 15 '7')
        (.finite 0)).2.recentRrPacket.startTime = .finite 777777777777777 := by
  refine ⟨rfl, by decide, rfl, ?_, rfl, by decide, by decide, by decide⟩
  intro hdigits
  have hx := (hdigits _ List.mem_cons_self).2 'x' (by decide)
  exact absurd hx (by decide)

end NewPeers
end ChromeGcc
