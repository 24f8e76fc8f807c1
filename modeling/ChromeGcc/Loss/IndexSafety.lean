import ChromeGcc.Loss.Sound

/-! When the collection's indices stay inside its vectors. -/
namespace ChromeGcc
namespace ReceiverLossCollection
open ReceiveVector Machine

/-- A late number lies in the waiting window, below its largest. A number inside the
in-effect window, which is written through the waiting window, finds that window
still waiting and long enough. -/
structure IndexSafe (c : ReceiverLossCollection) (p : PacketResult) : Prop where
  late : p.number < c.inEffectVector.firstPacketNumber →
    c.waitVector.firstPacketNumber ≤ p.number ∧ p.number < c.waitVector.largestPacketNumber
  inside : c.inEffectVector.firstPacketNumber ≤ p.number →
    p.number ≤ c.inEffectVector.largestPacketNumber →
    ¬ c.ReportDue p.receiveTime ∧
      p.number - c.inEffectVector.firstPacketNumber < c.waitVector.receivedVector.length

/-- The unsigned index of a number below a window wraps beyond every length. -/
theorem wrapped_index_large {w : ReceiveVector} (h : w.Spans) {n : Nat}
    (hn : n < w.firstPacketNumber) :
    w.receivedVector.length ≤ toUint64 (n - w.firstPacketNumber) := by
  have hle := h.le
  have hlt := h.lt
  have hlen := h.length
  unfold toUint64
  omega

theorem index_eq {w : ReceiveVector} {n : Nat} (h : w.firstPacketNumber ≤ n)
    (hn : n < 9223372036854775808) :
    toUint64 (n - w.firstPacketNumber) = n - w.firstPacketNumber := by
  unfold toUint64
  omega

theorem updateWaitVector_ok_iff {c : ReceiverLossCollection} {p : PacketResult}
    (hw : c.waitVector.Blank ∨ c.waitVector.Spans) :
    (∃ c', c.updateWaitVector p = .ok c') ↔
      c.waitVector.firstPacketNumber ≤ p.number ∧ p.number < c.waitVector.largestPacketNumber := by
  constructor
  · rintro ⟨c', h⟩
    obtain ⟨hn, hi, -⟩ := updateWaitVector_ok h
    refine ⟨?_, hn⟩
    cases hw with
    | inl hb =>
        rw [hb.largest] at hn
        exact absurd hn (Nat.not_lt_zero _)
    | inr hs =>
        by_contra hlow
        exact absurd hi (not_lt.mpr (wrapped_index_large hs (not_le.mp hlow)))
  · rintro ⟨hf, hn⟩
    have hs : c.waitVector.Spans := by
      refine hw.resolve_left fun hb => ?_
      rw [hb.largest] at hn
      exact Nat.not_lt_zero _ hn
    have hi : toUint64 (p.number - c.waitVector.firstPacketNumber) <
        c.waitVector.receivedVector.length := by
      rw [index_eq hf (hn.trans hs.lt), hs.length]
      omega
    simp only [updateWaitVector]
    rw [if_pos hn, if_pos hi]
    exact ⟨_, rfl⟩

theorem updateWaitVector_error {c : ReceiverLossCollection} {p : PacketResult} {e : Failure}
    (h : c.updateWaitVector p = .error e) : e.ofIndex = true := by
  simp only [updateWaitVector] at h
  split_ifs at h with hn hi
  · cases h
    rfl
  · cases h
    rfl

theorem recordInEffect_error {c : ReceiverLossCollection} {p : PacketResult} {e : Failure}
    (h : c.recordInEffect p = .error e) : e.ofIndex = true := by
  simp only [recordInEffect] at h
  split_ifs at h with hn hi
  · cases h
    rfl

section Step
variable (F : Type) [FloatArith F] {c : ReceiverLossCollection} {now : Timestamp} {p : PacketResult}

theorem recordInEffect_inside_ok_iff (hp : p.Valid)
    (hn : c.inEffectVector.firstPacketNumber ≤ p.number)
    (hl : p.number ≤ c.inEffectVector.largestPacketNumber) :
    (∃ c', (c.afterReport p.receiveTime).recordInEffect p = .ok c') ↔
      ¬ c.ReportDue p.receiveTime ∧
        p.number - c.inEffectVector.firstPacketNumber < c.waitVector.receivedVector.length := by
  have hrec : (∃ c', (c.afterReport p.receiveTime).recordInEffect p = .ok c') ↔
      p.number - c.inEffectVector.firstPacketNumber <
        (c.afterReport p.receiveTime).waitVector.receivedVector.length := by
    simp only [recordInEffect, afterReport_inEffect]
    rw [if_neg (not_lt.mpr hl), index_eq hn hp.lt]
    split_ifs with hi
    · exact ⟨fun _ => hi, fun _ => ⟨_, rfl⟩⟩
    · exact ⟨fun h => (by cases h.choose_spec), fun h => absurd h hi⟩
  rw [hrec]
  by_cases hd : c.ReportDue p.receiveTime
  · simp [afterReport, hd, ReceiveVector.reset]
  · simp [afterReport, hd]

/-- From a sound state a packet succeeds exactly when its indices are safe. -/
theorem Sound.step_ok_iff (h : Sound c now) (hp : p.Valid) (ht : now ≤ p.receiveTime) :
    (∃ r, c.onTransportPacketFeedback F p = .ok r) ↔ c.IndexSafe p := by
  by_cases hn : p.number < c.inEffectVector.firstPacketNumber
  · have hstep : (∃ r, c.onTransportPacketFeedback F p = .ok r) ↔
        ∃ c', c.updateWaitVector p = .ok c' := by
      rw [h.step_late F hn]
      cases c.updateWaitVector p with
      | error e => simp
      | ok c' => simp
    rw [hstep, updateWaitVector_ok_iff h.wait]
    exact ⟨fun hw => ⟨fun _ => hw, fun hf => absurd hn (not_lt.mpr hf)⟩, fun hs => hs.late hn⟩
  · by_cases hl : p.number ≤ c.inEffectVector.largestPacketNumber
    · have hstep : (∃ r, c.onTransportPacketFeedback F p = .ok r) ↔
          ∃ c', (c.afterReport p.receiveTime).recordInEffect p = .ok c' := by
        rw [h.step_inside F hp ht (not_lt.mp hn) hl]
        cases (c.afterReport p.receiveTime).recordInEffect p with
        | error e => simp
        | ok c₁ => simp
      rw [hstep, recordInEffect_inside_ok_iff hp (not_lt.mp hn) hl]
      exact ⟨fun hi => ⟨fun hf => absurd hf hn, fun _ _ => hi⟩, fun hs => hs.inside (not_lt.mp hn) hl⟩
    · rw [h.step_fresh F hp ht (not_lt.mp hn) (not_le.mp hl)]
      exact ⟨fun _ => ⟨fun hf => absurd hf hn, fun _ hle => absurd hle hl⟩, fun _ => ⟨_, rfl⟩⟩

/-- From a sound state only an index can fail. -/
theorem Sound.step_error (h : Sound c now) (hp : p.Valid) (ht : now ≤ p.receiveTime) {e : Failure}
    (he : c.onTransportPacketFeedback F p = .error e) : e.ofIndex = true := by
  by_cases hn : p.number < c.inEffectVector.firstPacketNumber
  · rw [h.step_late F hn] at he
    cases hu : c.updateWaitVector p with
    | error e' =>
        rw [hu] at he
        cases he
        exact updateWaitVector_error hu
    | ok c₁ => rw [hu] at he; cases he
  · by_cases hl : p.number ≤ c.inEffectVector.largestPacketNumber
    · rw [h.step_inside F hp ht (not_lt.mp hn) hl] at he
      cases hr : (c.afterReport p.receiveTime).recordInEffect p with
      | error e' =>
          rw [hr] at he
          cases he
          exact recordInEffect_error hr
      | ok c₁ => rw [hr] at he; cases he
    · rw [h.step_fresh F hp ht (not_lt.mp hn) (not_le.mp hl)] at he
      cases he

end Step

/-- A packet of an example: its number, and its receive time in milliseconds. -/
def packetAt (sequenceNumber receiveMs : Int) : PacketResult where
  sentPacket := { sendTime := .micros 0, sequenceNumber := sequenceNumber }
  receiveTime := .micros (receiveMs * 1000)

/-- The step in rational arithmetic, for examples. -/
abbrev rationalStep := onTransportPacketFeedback FloatArith.Rational

/-- The run never fails at an index exactly when every packet that is reached is safe. -/
theorem indices_stay_in_range_iff (F : Type) [FloatArith F] {ps : List PacketResult}
    (ha : Arrivals ps) :
    (∀ e, run (onTransportPacketFeedback F) {} ps = .error e → e.ofIndex = false) ↔
      ∀ pre p post os c, ps = pre ++ p :: post →
        Trace (onTransportPacketFeedback F) {} pre os c → c.IndexSafe p := by
  have next : ∀ pre p post, ps = pre ++ p :: post → Arrivals (pre ++ [p]) := by
    intro pre p post hps
    rw [hps, List.append_cons] at ha
    exact ha.of_append
  constructor
  · intro hrun pre p post os c hps ht
    have hpre := next pre p post hps
    have hs := sound_of_trace F hpre.of_append ht
    cases hstep : c.onTransportPacketFeedback F p with
    | ok r => exact (hs.step_ok_iff F hpre.last_valid hpre.lastTime_le).mp ⟨r, hstep⟩
    | error e =>
        have hfail := hrun e (run_error_iff.mpr ⟨pre, p, post, os, c, hps, ht, hstep⟩)
        rw [hs.step_error F hpre.last_valid hpre.lastTime_le hstep] at hfail
        cases hfail
  · intro hsafe e hrun
    obtain ⟨pre, p, post, os, c, hps, ht, hstep⟩ := run_error_iff.mp hrun
    have hpre := next pre p post hps
    obtain ⟨r, hok⟩ := ((sound_of_trace F hpre.of_append ht).step_ok_iff F hpre.last_valid
      hpre.lastTime_le).mpr (hsafe pre p post os c hps ht)
    rw [hok] at hstep
    cases hstep

/-- A packet that arrives one place late fails at once: its entry is looked up in the
waiting window, which is still empty. -/
theorem swapped_neighbours_fail :
    Arrivals [packetAt 1 0, packetAt 3 0, packetAt 2 0] ∧
      run rationalStep {} [packetAt 1 0, packetAt 3 0, packetAt 2 0] =
        .error .effectIndexOutOfRange ∧
      Failure.ofIndex .effectIndexOutOfRange = true := by
  refine ⟨⟨by decide, by decide⟩, by decide +kernel, rfl⟩

/-- Two late packets: one is looked up in the window that waits, and one in the window in effect,
whose index the waiting window happens to have. -/
def latePackets : List PacketResult :=
  [packetAt 1 0, packetAt 4 201, packetAt 6 210, packetAt 2 220, packetAt 8 230, packetAt 7 240]

theorem indices_stay_in_range_iff_late :
    (run rationalStep {} latePackets).isOk = true ∧
      ((∀ e, run rationalStep {} latePackets = .error e → e.ofIndex = false) ↔
        ∀ pre p post os c, latePackets = pre ++ p :: post →
          Trace rationalStep {} pre os c → c.IndexSafe p) :=
  ⟨by decide +kernel, indices_stay_in_range_iff FloatArith.Rational ⟨by decide, by decide⟩⟩

end ReceiverLossCollection
end ChromeGcc
