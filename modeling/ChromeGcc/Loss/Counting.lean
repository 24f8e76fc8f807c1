import ChromeGcc.Loss.IndexSafety

/-! What the two windows record: while no number arrives inside the in-effect
window, every entry says whether its number has arrived, and a report counts them. -/
namespace ChromeGcc

namespace ReceiveVector

/-- Each entry of the window says whether its number is among those seen. -/
def Records (w : ReceiveVector) (seen : List Nat) : Prop :=
  w.receivedVector =
    (List.range' w.firstPacketNumber (w.largestPacketNumber + 1 - w.firstPacketNumber)).map
      fun n => decide (n ∈ seen)

variable {w : ReceiveVector} {seen : List Nat} {n : Nat}

theorem Records.receivedCount_eq (h : w.Records seen) :
    w.receivedCount =
      ((Finset.Icc w.firstPacketNumber w.largestPacketNumber).filter (· ∈ seen)).card := by
  rw [receivedCount, h, List.count_eq_countP, List.countP_map, List.countP_eq_length_filter]
  congr 1
  refine List.filter_congr fun m _ => ?_
  simp

theorem Records.lossCount_eq (h : w.Records seen) :
    w.lossCount =
      ((Finset.Icc w.firstPacketNumber w.largestPacketNumber).filter (· ∉ seen)).card := by
  rw [lossCount, h, List.count_eq_countP, List.countP_map, List.countP_eq_length_filter]
  congr 1
  refine List.filter_congr fun m _ => ?_
  simp

/-- A number outside the window changes none of its entries. -/
theorem Records.see_outside (h : w.Records seen)
    (hn : n < w.firstPacketNumber ∨ w.largestPacketNumber < n) : w.Records (seen ++ [n]) := by
  unfold Records
  rw [h]
  refine List.map_congr_left fun m hm => ?_
  have hmn : m ≠ n := by
    rw [List.mem_range'_1] at hm
    omega
  simp [hmn]

theorem Records.see_inside (h : w.Records seen) (hf : w.firstPacketNumber ≤ n) :
    ReceiveVector.Records
      { w with receivedVector := w.receivedVector.set (n - w.firstPacketNumber) true }
      (seen ++ [n]) := by
  unfold Records at h ⊢
  apply List.ext_getElem
  · simp [h]
  · intro i hi hi'
    simp only [h, List.getElem_set, List.getElem_map, List.getElem_range', List.mem_append,
      List.mem_singleton]
    by_cases hin : n - w.firstPacketNumber = i
    · rw [if_pos hin]
      have : w.firstPacketNumber + i = n := by omega
      simp [this]
    · rw [if_neg hin]
      have : w.firstPacketNumber + i ≠ n := by omega
      simp [this]

/-- A number above a window and above everything seen extends the window: the gap
before it holds only numbers not seen. -/
theorem Records.see_above {p : PacketResult} (h : w.Records seen) (hw : w.Spans)
    (hl : w.largestPacketNumber < p.number) (hs : ∀ m ∈ seen, m ≤ w.largestPacketNumber) :
    (w.recordNew p).Records (seen ++ [p.number]) := by
  have hle := hw.le
  have hsplit : p.number + 1 - w.firstPacketNumber =
      (w.largestPacketNumber + 1 - w.firstPacketNumber) +
        (p.number - (w.largestPacketNumber + 1)) + 1 := by omega
  rw [recordNew_spans hw.ne_nil]
  unfold Records
  dsimp only
  rw [hsplit, List.range'_1_concat, ← List.range'_append_1, List.map_append, List.map_append, h]
  congr 1
  · congr 1
    · refine List.map_congr_left fun m hm => ?_
      have hmn : m ≠ p.number := by
        rw [List.mem_range'_1] at hm
        omega
      simp [hmn]
    · symm
      rw [List.map_eq_replicate_iff.mpr, List.length_range']
      intro m hm
      rw [List.mem_range'_1] at hm
      have hmn : m ≠ p.number := by omega
      have hms : m ∉ seen := fun hmem => by have := hs m hmem; omega
      simp [hmn, hms]
  · have : w.firstPacketNumber + ((w.largestPacketNumber + 1 - w.firstPacketNumber) +
        (p.number - (w.largestPacketNumber + 1))) = p.number := by omega
    simp [this]

theorem records_first {p : PacketResult} (hw : w.receivedVector = []) :
    (w.recordNew p).Records (seen ++ [p.number]) := by
  rw [recordNew_blank hw]
  unfold Records
  dsimp only
  rw [show p.number + 1 - p.number = 1 by omega]
  simp

end ReceiveVector

namespace ReceiverLossCollection
open ReceiveVector Machine

/-- Both windows record what was seen, and nothing seen lies above the in-effect window. -/
structure Counted (c : ReceiverLossCollection) (seen : List Nat) : Prop where
  effect : c.inEffectVector.receivedVector ≠ [] → c.inEffectVector.Records seen
  wait : c.waitVector.receivedVector ≠ [] → c.waitVector.Records seen
  below : c.inEffectVector.receivedVector = [] → ∀ n ∈ seen, n < c.inEffectVector.firstPacketNumber
  within : c.inEffectVector.receivedVector ≠ [] →
    ∀ n ∈ seen, n ≤ c.inEffectVector.largestPacketNumber
  apart : c.waitVector.receivedVector ≠ [] →
    c.waitVector.largestPacketNumber < c.inEffectVector.firstPacketNumber
  top : c.inEffectVector.receivedVector ≠ [] → c.inEffectVector.largestPacketNumber ∈ seen
  next : c.inEffectVector.receivedVector = [] → c.inEffectVector.firstPacketNumber = 0 ∨
    ∃ n ∈ seen, c.inEffectVector.firstPacketNumber = n + 1

/-- A number within the bounds of the in-effect window. -/
def InsideEffect (c : ReceiverLossCollection) (p : PacketResult) : Prop :=
  c.inEffectVector.firstPacketNumber ≤ p.number ∧ p.number ≤ c.inEffectVector.largestPacketNumber

theorem counted_init : Counted {} [] where
  effect h := absurd rfl h
  wait h := absurd rfl h
  below _ _ hn := absurd hn (List.not_mem_nil)
  within h := absurd rfl h
  apart h := absurd rfl h
  top h := absurd rfl h
  next _ := .inl rfl

section Operations
variable {c : ReceiverLossCollection} {seen : List Nat} {now t : Timestamp} {p : PacketResult}

theorem Counted.afterReport (h : Counted c seen) : Counted (c.afterReport t) seen := by
  unfold ReceiverLossCollection.afterReport
  split_ifs
  · exact ⟨h.effect, fun hw => absurd rfl hw, h.below, h.within, fun hw => absurd rfl hw, h.top,
      h.next⟩
  · exact h

/-- A late number is recorded in the waiting window and lies below the in-effect one. -/
theorem Counted.late (h : Counted c seen) (hs : Sound c now)
    (hw : c.waitVector.firstPacketNumber ≤ p.number ∧ p.number < c.waitVector.largestPacketNumber)
    (hn : p.number < c.inEffectVector.firstPacketNumber) :
    Counted (c.markWait (p.number - c.waitVector.firstPacketNumber)) (seen ++ [p.number]) := by
  have hne : c.waitVector.receivedVector ≠ [] := by
    intro hnil
    have hz := (hs.wait.resolve_right fun hspan => hspan.ne_nil hnil).largest
    omega
  constructor
  case effect =>
    intro he
    exact (h.effect he).see_outside (.inl hn)
  case wait =>
    intro _
    exact (h.wait hne).see_inside hw.1
  case below =>
    intro he m hm
    rcases List.mem_append.mp hm with hm | hm
    · exact h.below he m hm
    · rw [List.mem_singleton.mp hm]
      exact hn
  case within =>
    intro he m hm
    rcases List.mem_append.mp hm with hm | hm
    · exact h.within he m hm
    · have hle := (hs.effect_spans he).le
      rw [List.mem_singleton.mp hm]
      exact hn.le.trans hle
  case apart =>
    intro _
    exact h.apart hne
  case top =>
    intro he
    exact List.mem_append_left _ (h.top he)
  case next =>
    intro he
    refine (h.next he).imp_right ?_
    rintro ⟨m, hm, hfirst⟩
    exact ⟨m, List.mem_append_left _ hm, hfirst⟩

theorem Counted.wait_above (h : Counted c seen) (hf : c.inEffectVector.firstPacketNumber ≤ p.number)
    (hw : c.waitVector.receivedVector ≠ []) : c.waitVector.Records (seen ++ [p.number]) :=
  (h.wait hw).see_outside (.inr ((h.apart hw).trans_le hf))

theorem mem_concat_le {k : Nat} (h : ∀ m ∈ seen, m ≤ k) : ∀ m ∈ seen ++ [k], m ≤ k := by
  intro m hm
  rcases List.mem_append.mp hm with hm | hm
  · exact h m hm
  · exact (List.mem_singleton.mp hm).le

/-- The first number of a window opens it. -/
theorem Counted.opens (h : Counted c seen) (he : c.inEffectVector.receivedVector = [])
    (hf : c.inEffectVector.firstPacketNumber ≤ p.number) :
    Counted { c with inEffectVector := c.inEffectVector.recordNew p } (seen ++ [p.number]) := by
  have hseen : ∀ m ∈ seen, m ≤ p.number := fun m hm => (h.below he m hm).le.trans hf
  constructor
  case effect => exact fun _ => records_first he
  case wait => exact h.wait_above hf
  case below => exact fun hnil => absurd hnil (recordNew_ne_nil _ p)
  case within =>
    rw [recordNew_blank he]
    exact fun _ => mem_concat_le hseen
  case apart =>
    intro hw
    rw [recordNew_blank he]
    exact (h.apart hw).trans_le hf
  case top =>
    rw [recordNew_blank he]
    exact fun _ => List.mem_append_right _ (List.mem_singleton_self _)
  case next => exact fun hnil => absurd hnil (recordNew_ne_nil _ p)

/-- A number above an open window extends it. -/
theorem Counted.extends (h : Counted c seen) (hs : Sound c now)
    (he : c.inEffectVector.receivedVector ≠ [])
    (hf : c.inEffectVector.firstPacketNumber ≤ p.number)
    (hl : c.inEffectVector.largestPacketNumber < p.number) :
    Counted { c with inEffectVector := c.inEffectVector.recordNew p } (seen ++ [p.number]) := by
  have hseen : ∀ m ∈ seen, m ≤ p.number := fun m hm => (h.within he m hm).trans hl.le
  constructor
  case effect => exact fun _ => (h.effect he).see_above (hs.effect_spans he) hl (h.within he)
  case wait => exact h.wait_above hf
  case below => exact fun hnil => absurd hnil (recordNew_ne_nil _ p)
  case within =>
    rw [recordNew_spans he]
    exact fun _ => mem_concat_le hseen
  case apart =>
    intro hw
    rw [recordNew_spans he]
    exact h.apart hw
  case top =>
    rw [recordNew_spans he]
    exact fun _ => List.mem_append_right _ (List.mem_singleton_self _)
  case next => exact fun hnil => absurd hnil (recordNew_ne_nil _ p)

/-- A number above the in-effect window extends it, or opens it. -/
theorem Counted.fresh (h : Counted c seen) (hs : Sound c now)
    (hf : c.inEffectVector.firstPacketNumber ≤ p.number)
    (hl : c.inEffectVector.largestPacketNumber < p.number) :
    Counted { c with inEffectVector := c.inEffectVector.recordNew p } (seen ++ [p.number]) := by
  by_cases he : c.inEffectVector.receivedVector = []
  · exact h.opens he hf
  · exact h.extends hs he hf hl

variable (F : Type) [FloatArith F]

/-- The in-effect window becomes the waiting one, and the next window starts above it. -/
theorem Counted.handOver (h : Counted c seen) (hs : Sound c now)
    (he : c.inEffectVector.receivedVector ≠ []) (hw : c.waitVector.receivedVector = []) :
    Counted (c.updateRtt F p).handOver seen := by
  have hlt := (hs.effect_spans he).lt
  have hfirst : ((c.updateRtt F p).handOver).inEffectVector.firstPacketNumber =
      c.inEffectVector.largestPacketNumber + 1 := by
    change toUint64 (c.inEffectVector.largestPacketNumber + 1) = _
    unfold toUint64
    omega
  constructor
  case effect => exact fun he' => absurd hw he'
  case wait => exact fun _ => h.effect he
  case below =>
    intro _ n hn
    rw [hfirst]
    exact Nat.lt_succ_of_le (h.within he n hn)
  case within => exact fun he' => absurd hw he'
  case apart =>
    intro _
    rw [hfirst]
    exact Nat.lt_succ_self _
  case top => exact fun he' => absurd hw he'
  case next => exact fun _ => .inr ⟨_, h.top he, hfirst⟩

theorem Counted.settle (h : Counted c seen) (hs : Sound c p.receiveTime)
    (he : c.inEffectVector.receivedVector ≠ []) : Counted (c.settle F p) seen := by
  unfold ReceiverLossCollection.settle
  split_ifs with hend
  · exact h.handOver F hs he (hs.wait_empty he hend)
  · exact ⟨h.effect, h.wait, h.below, h.within, h.apart, h.top, h.next⟩

/-- A number above everything seen extends the in-effect window. -/
theorem Counted.above (h : Counted c seen) (hs : Sound c now) (hp : p.Valid)
    (hab : ∀ n ∈ seen, n < p.number) :
    c.inEffectVector.firstPacketNumber ≤ p.number ∧
      c.inEffectVector.largestPacketNumber < p.number := by
  have hpos := hp.pos
  by_cases he : c.inEffectVector.receivedVector = []
  · have hz := (hs.effect.resolve_right fun hspan => hspan.ne_nil he).largest
    refine ⟨?_, by omega⟩
    cases h.next he with
    | inl hfirst => omega
    | inr hfirst =>
        obtain ⟨n, hn, hfirst⟩ := hfirst
        have hlt := hab n hn
        omega
  · have hle := (hs.effect_spans he).le
    have hlt := hab _ (h.top he)
    exact ⟨by omega, hlt⟩

end Operations

section Step
variable (F : Type) [FloatArith F] {c c' : ReceiverLossCollection} {seen : List Nat}
  {now t : Timestamp} {p : PacketResult} {r : LossReportUpdate}

/-- A report counts the numbers between the bounds of the waiting window. -/
structure CountsWindow (r : LossReportUpdate) (w : ReceiveVector) (seen : List Nat) : Prop where
  received : r.report.packetsReceivedDelta =
    ((Finset.Icc w.firstPacketNumber w.largestPacketNumber).filter (· ∈ seen)).card
  lost : r.report.packetsLostDelta =
    ((Finset.Icc w.firstPacketNumber w.largestPacketNumber).filter (· ∉ seen)).card

theorem reportAt_counts (h : c.waitVector.receivedVector ≠ [] → c.waitVector.Records seen)
    (hu : (c.reportAt t).updated = true) : CountsWindow (c.reportAt t) c.waitVector seen := by
  unfold reportAt at hu ⊢
  split_ifs at hu ⊢ with hd
  · have hw : c.waitVector.Records seen := by
      refine h fun hnil => hd.2 ?_
      rw [receivedCount, hnil, List.count_nil]
    exact ⟨hw.receivedCount_eq, hw.lossCount_eq⟩

/-- One packet that does not fall inside the in-effect window keeps both records, and
a report it brings about counts the waiting window. -/
theorem Counted.step (h : Counted c seen) (hs : Sound c now) (hp : p.Valid)
    (ht : now ≤ p.receiveTime) (hout : ¬ c.InsideEffect p)
    (hok : c.onTransportPacketFeedback F p = .ok (c', r)) :
    Counted c' (seen ++ [p.number]) ∧
      (r.updated = true → CountsWindow r c.waitVector (seen ++ [p.number])) := by
  by_cases hn : p.number < c.inEffectVector.firstPacketNumber
  · obtain ⟨-, c₁, hu, rfl, rfl⟩ | ⟨hf, -⟩ := onTransportPacketFeedback_ok F hok
    · have hw := (updateWaitVector_ok_iff hs.wait).mp ⟨c₁, hu⟩
      obtain ⟨-, -, rfl⟩ := updateWaitVector_ok hu
      rw [index_eq hw.1 hp.lt]
      have hc := h.late hs hw hn
      refine ⟨hc.afterReport, fun hu => ?_⟩
      have hr := reportAt_counts hc.wait hu
      exact ⟨hr.received, hr.lost⟩
    · exact absurd hn (not_lt.mpr hf)
  · have hf := not_lt.mp hn
    have hl : c.inEffectVector.largestPacketNumber < p.number :=
      not_le.mp fun hle => hout ⟨hf, hle⟩
    rw [hs.step_fresh F hp ht hf hl] at hok
    cases hok
    have hc : Counted (c.afterFresh p) (seen ++ [p.number]) := by
      refine h.afterReport.fresh (hs.afterReport ht) ?_ ?_
      · rw [afterReport_inEffect]
        exact hf
      · rw [afterReport_inEffect]
        exact hl
    refine ⟨hc.settle F (hs.afterFresh hp ht hl) (afterFresh_ne_nil c p), ?_⟩
    refine reportAt_counts fun hw => ?_
    exact (h.wait hw).see_outside (.inr ((h.apart hw).trans_le hf))

/-- Every packet of a run met its state outside the in-effect window. -/
def StaysOutside (ps : List PacketResult) : Prop :=
  ∀ pre p post os c, ps = pre ++ p :: post →
    Trace (onTransportPacketFeedback F) {} pre os c → ¬ c.InsideEffect p

theorem StaysOutside.of_append {ps qs : List PacketResult} (h : StaysOutside F (ps ++ qs)) :
    StaysOutside F ps := by
  intro pre p post os c hps ht
  refine h pre p (post ++ qs) os c ?_ ht
  rw [hps, List.append_assoc, List.cons_append]

theorem counted_of_trace {ps : List PacketResult} {os : List LossReportUpdate}
    (ha : Arrivals ps) (ho : StaysOutside F ps)
    (ht : Trace (onTransportPacketFeedback F) {} ps os c) :
    Counted c (ps.map PacketResult.number) := by
  refine Trace.invariant (P := fun ps => Arrivals ps ∧ StaysOutside F ps)
    (I := fun ps _ c => Counted c (ps.map PacketResult.number))
    (fun ps p h => ⟨h.1.of_append, h.2.of_append F⟩) counted_init ?_ ht ⟨ha, ho⟩
  intro ps os c p c' r h ht hc hs
  rw [List.map_append]
  exact (hc.step F (sound_of_trace F h.1.of_append ht) h.1.last_valid h.1.lastTime_le
    (h.2 ps p [] os c rfl ht) hs).1

end Step

theorem counted_of_inOrder (F : Type) [FloatArith F] {ps : List PacketResult}
    {os : List LossReportUpdate} {c : ReceiverLossCollection} (hi : InOrder ps)
    (ht : Trace (onTransportPacketFeedback F) {} ps os c) :
    Counted c (ps.map PacketResult.number) := by
  refine Trace.invariant (P := InOrder) (I := fun ps _ c => Counted c (ps.map PacketResult.number))
    (fun ps p h => h.of_append) counted_init ?_ ht hi
  intro ps os c p c' r h ht hc hs
  have hsound := sound_of_trace F h.toArrivals.of_append ht
  have habove := hc.above hsound h.last_valid h.above
  rw [List.map_append]
  exact (hc.step F hsound h.last_valid h.lastTime_le
    (fun hin => absurd hin.2 (not_le.mpr habove.2)) hs).1

/-- Without reordering no number falls inside the in-effect window. -/
theorem staysOutside_of_inOrder (F : Type) [FloatArith F] {ps : List PacketResult} (hi : InOrder ps) :
    StaysOutside F ps := by
  intro pre p post os c hps ht hin
  rw [hps, List.append_cons] at hi
  have hpre := hi.of_append
  have hc := counted_of_inOrder F hpre.of_append ht
  have hs := sound_of_trace F hpre.toArrivals.of_append ht
  exact absurd hin.2 (not_le.mpr (hc.above hs hpre.last_valid hpre.above).2)

/-- In a run whose packets all arrive outside the in-effect window, every report counts
the numbers of its own window that have and have not arrived. -/
theorem reports_count_their_window (F : Type) [FloatArith F] (ps : List PacketResult)
    (ha : Arrivals ps) (ho : StaysOutside F ps) :
    ∀ pre p post os c c' r, ps = pre ++ p :: post →
      Trace (onTransportPacketFeedback F) {} pre os c →
      c.onTransportPacketFeedback F p = .ok (c', r) → r.updated = true →
      CountsWindow r c.waitVector ((pre ++ [p]).map PacketResult.number) := by
  intro pre p post os c c' r hps ht hs hu
  rw [hps, List.append_cons] at ha ho
  have hpre := ha.of_append
  have hc := counted_of_trace F hpre.of_append (ho.of_append F).of_append ht
  rw [List.map_append]
  exact (hc.step F (sound_of_trace F hpre.of_append ht) hpre.last_valid hpre.lastTime_le
    (ho.of_append F pre p [] os c rfl ht) hs).2 hu

theorem reports_count_their_window_in_order :
    let c := final rationalStep {} [packetAt 1 0, packetAt 4 201]
    CountsWindow (c.reportAt (.micros 400000)) c.waitVector [1, 4, 5] :=
  reports_count_their_window FloatArith.Rational
    [packetAt 1 0, packetAt 4 201, packetAt 5 400] ⟨by decide, by decide⟩
    (staysOutside_of_inOrder _ ⟨⟨by decide, by decide⟩, by decide⟩)
    [packetAt 1 0, packetAt 4 201] (packetAt 5 400) [] _ _
    (final rationalStep {} [packetAt 1 0, packetAt 4 201, packetAt 5 400]) _ rfl
    (trace_final (by decide +kernel)) (by decide +kernel) (by decide +kernel)

/-- Number 11 arrives inside the in-effect window 10..13 and sets an entry of the waiting
window 1..5, whose report then counts a packet that never arrived. -/
def misdirectedRun : List PacketResult :=
  [packetAt 1 0, packetAt 5 201, packetAt 10 202, packetAt 13 203, packetAt 11 204]

theorem misdirected_entry_miscounts :
    Arrivals (misdirectedRun ++ [packetAt 14 400]) ∧
      ((misdirectedRun ++ [packetAt 14 400]).map PacketResult.number).Nodup ∧
      ∃ os c c' r, Trace rationalStep {} misdirectedRun os c ∧
        rationalStep c (packetAt 14 400) = .ok (c', r) ∧ r.updated = true ∧
        ¬ CountsWindow r c.waitVector
          ((misdirectedRun ++ [packetAt 14 400]).map PacketResult.number) := by
  have ht : Trace rationalStep {} misdirectedRun (outputs rationalStep {} misdirectedRun)
      (final rationalStep {} misdirectedRun) := trace_final (by decide +kernel)
  refine ⟨⟨by decide, by decide⟩, by decide, _, _,
    final rationalStep {} (misdirectedRun ++ [packetAt 14 400]),
    (final rationalStep {} misdirectedRun).reportAt (.micros 400000), ht, by decide +kernel,
    by decide +kernel, ?_⟩
  intro h
  exact absurd h.received (by decide +kernel)

end ReceiverLossCollection
end ChromeGcc
