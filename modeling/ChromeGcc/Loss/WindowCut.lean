import ChromeGcc.Base.Batches
import ChromeGcc.Loss.Conservation
import Mathlib.Data.Bool.Count

/-! The collection as a cut of the arrivals: a window lasts from its first packet to the first
one that comes more than 200 ms later, and every report is about one window, in their order. -/
namespace ChromeGcc
open Machine Batches UnitBase

theorem Timestamp.add_le_add_delta (t : Timestamp) {d d' : TimeDelta} (h : d ≤ d') :
    t + d ≤ t + d' := by
  cases t <;> cases d <;> cases d' <;> simp_all

theorem ReceiverLossCollection.Arrivals.le_lastTime {ps : List PacketResult} (h : Arrivals ps)
    {p : PacketResult} (hp : p ∈ ps) : p.receiveTime ≤ lastTime ps := by
  obtain ⟨qs, q, rfl⟩ := List.eq_nil_or_concat'  ps |>.resolve_left (List.ne_nil_of_mem hp)
  rw [lastTime_concat]
  rcases List.mem_append.mp hp with hp | hp
  · exact (List.pairwise_append.mp h.ordered).2.2 p hp q (List.mem_singleton_self q)
  · rw [List.mem_singleton.mp hp]

/-- The last packet came after the end of the window that the first one opened. -/
def WindowFull (ps : List PacketResult) : Prop :=
  ∃ first ∈ ps.head?, ∃ last ∈ ps.getLast?, first.receiveTime + receiveDuration < last.receiveTime

/-- A report says of a window when it began, how many packets it received, and how many of the
numbers between its first and its last it missed; it comes at least 300 ms after the first. -/
structure ReportsWindow (w : List PacketResult) (report : TransportLossReport) : Prop where
  start : ∀ first ∈ w.head?, report.startTime = first.receiveTime
  received : report.packetsReceivedDelta = w.length
  lost : ∀ first ∈ w.head?, ∀ last ∈ w.getLast?,
    report.packetsLostDelta + w.length = last.number + 1 - first.number
  late : ∀ first ∈ w.head?,
    first.receiveTime + receiveDuration + TimeDelta.millis 100 ≤ report.endTime

namespace ReceiveVector

/-- A window that records some arrivals. -/
structure Holds (v : ReceiveVector) (ps : List PacketResult) : Prop where
  first : ∃ p ∈ ps.head?, v.firstReceivedTime = p.receiveTime ∧ v.firstPacketNumber = p.number
  last : ∃ p ∈ ps.getLast?, v.largestPacketNumber = p.number
  received : v.receivedCount = ps.length

variable {v : ReceiveVector} {ps : List PacketResult} {p : PacketResult}

theorem Holds.ne_nil (h : v.Holds ps) : v.receivedVector ≠ [] := by
  obtain ⟨first, hfirst, -⟩ := h.first
  have hreceived := h.received
  intro hnil
  rw [receivedCount, hnil, List.count_nil] at hreceived
  rw [List.length_eq_zero_iff.mp hreceived.symm] at hfirst
  cases hfirst

theorem holds_recordNew_blank (hv : v.receivedVector = []) : (v.recordNew p).Holds [p] := by
  rw [recordNew_blank hv]
  exact ⟨⟨p, rfl, rfl, rfl⟩, ⟨p, rfl, rfl⟩, by simp [receivedCount]⟩

theorem Holds.recordNew (h : v.Holds ps) : (v.recordNew p).Holds (ps ++ [p]) := by
  obtain ⟨first, hfirst, htime, hnumber⟩ := h.first
  have hcount := receivedCount_recordNew v p
  rw [recordNew_spans h.ne_nil] at hcount ⊢
  refine ⟨⟨first, ?_, htime, hnumber⟩, ⟨p, List.getLast?_concat, rfl⟩, ?_⟩
  · rw [List.head?_append, Option.mem_def.mp hfirst]
    rfl
  · rw [hcount, h.received, List.length_append, List.length_singleton]

/-- The report of a window that has ended. -/
theorem Holds.reports (h : v.Holds ps) (hs : v.Spans) {t : Timestamp} (ht : v.deadline < t)
    (hwait : TimeDelta.millis 100 ≤ v.waitDuration) : ReportsWindow ps (v.lossReport t).report := by
  obtain ⟨first, hfirst, htime, hnumber⟩ := h.first
  obtain ⟨last, hlast, hlargest⟩ := h.last
  constructor
  case start =>
    intro p hp
    cases Option.mem_unique hfirst hp
    exact htime
  case received => exact h.received
  case lost =>
    intro p hp q hq
    cases Option.mem_unique hfirst hp
    cases Option.mem_unique hlast hq
    have hlength := hs.length
    have hreceived := h.received
    have hcount := List.count_false_add_count_true v.receivedVector
    rw [← hlargest, ← hnumber]
    change v.lossCount + ps.length = _
    unfold lossCount
    unfold receivedCount at hreceived
    omega
  case late =>
    intro p hp
    cases Option.mem_unique hfirst hp
    refine le_trans ?_ ht.le
    unfold deadline
    rw [htime]
    exact Timestamp.add_le_add_delta _ hwait

end ReceiveVector

namespace ReceiverLossCollection
open ReceiveVector

/-- A window waits for its report, or none does. -/
def Waits (c : ReceiverLossCollection) : Option (List PacketResult) → Prop
  | none => c.waitVector.receivedVector = []
  | some w => c.waitVector.Holds w ∧ TimeDelta.millis 100 ≤ c.waitVector.waitDuration

theorem Waits.congr {c d : ReceiverLossCollection} {waiting : Option (List PacketResult)}
    (h : c.Waits waiting) (hsame : d.waitVector = c.waitVector) : d.Waits waiting := by
  cases waiting with
  | none => exact (congrArg ReceiveVector.receivedVector hsame).trans h
  | some w =>
      rw [Waits, hsame]
      exact h

/-- The window in effect, if one is open. -/
def InEffect (c : ReceiverLossCollection) (current : List PacketResult) : Prop :=
  (current = [] ∧ c.inEffectVector.receivedVector = []) ∨ c.inEffectVector.Holds current

/-- The arrivals are cut into the windows reported, the one that waits, and the one in effect. -/
structure Cuts (ps : List PacketResult) (reports : List TransportLossReport)
    (c : ReceiverLossCollection) (reported : List (List PacketResult))
    (waiting : Option (List PacketResult)) (current : List PacketResult) : Prop where
  split : Split WindowFull ps (reported ++ waiting.toList) current
  reports : List.Forall₂ ReportsWindow reported reports
  waits : c.Waits waiting
  inEffect : c.InEffect current

variable {F : Type} [FloatArith F] {c : ReceiverLossCollection} {now t : Timestamp}
  {p : PacketResult} {ps : List PacketResult} {reports : List TransportLossReport}
  {reported : List (List PacketResult)} {waiting : Option (List PacketResult)}
  {current : List PacketResult}

/-- The reports among some updates. -/
def generated (os : List LossReportUpdate) : List TransportLossReport :=
  (os.filter (·.updated)).map (·.report)

theorem generated_snoc (os : List LossReportUpdate) (o : LossReportUpdate) :
    generated (os ++ [o]) = generated os ++ generated [o] := by
  rw [generated, List.filter_append, List.map_append]
  rfl

/-- A packet's report, if it brings one, ends with the packet. -/
theorem endTimes_step (F : Type) [FloatArith F] {c c' : ReceiverLossCollection} {o : LossReportUpdate}
    (h : c.onTransportPacketFeedback F p = .ok (c', o)) :
    ((generated [o]).map (·.endTime)).Sublist [p.receiveTime] := by
  have reports (d : ReceiverLossCollection) :
      ((generated [d.reportAt p.receiveTime]).map (·.endTime)).Sublist [p.receiveTime] := by
    unfold reportAt
    split_ifs with hd
    · exact List.Sublist.refl _
    · exact List.nil_sublist _
  rcases onTransportPacketFeedback_ok F h with ⟨-, d, -, -, rfl⟩ | ⟨-, rfl, -⟩
  · exact reports d
  · exact reports c

/-- Whatever the packets, each report ends with one of them, and no two with the same. -/
theorem endTimes_of_trace (F : Type) [FloatArith F] {os : List LossReportUpdate}
    {c : ReceiverLossCollection} (ht : Trace (onTransportPacketFeedback F) {} ps os c) :
    ((generated os).map (·.endTime)).Sublist (ps.map (·.receiveTime)) := by
  induction ht with
  | nil => exact List.Sublist.refl _
  | snoc _ hs ih =>
      rw [generated_snoc, List.map_append, List.map_append]
      exact ih.append (endTimes_step F hs)

/-- A report, if one is due, is about the window that waits. -/
theorem Cuts.afterReport (h : Cuts ps reports c reported waiting current) (hs : Sound c now) :
    ∃ reported' waiting', Cuts ps (reports ++ generated [c.reportAt t]) (c.afterReport t) reported'
      waiting' current := by
  by_cases hd : c.ReportDue t
  · cases waiting with
    | none =>
        have hzero : c.waitVector.receivedCount = 0 := by
          rw [receivedCount, show c.waitVector.receivedVector = [] from h.waits, List.count_nil]
        exact absurd hzero hd.2
    | some w =>
        obtain ⟨hholds, hwait⟩ := h.waits
        have hreport : generated [c.reportAt t] = [(c.waitVector.lossReport t).report] := by
          rw [reportAt, if_pos hd]
          rfl
        have hafter : c.afterReport t = { c with waitVector := .reset } := if_pos hd
        rw [hreport, hafter]
        refine ⟨reported ++ [w], none, ?_, ?_, rfl, h.inEffect⟩
        · rw [Option.toList_none, List.append_nil]
          exact h.split
        · refine List.rel_append h.reports (.cons ?_ .nil)
          exact hholds.reports (hs.wait_spans hholds.ne_nil) hd.1 hwait
  · have hreport : generated [c.reportAt t] = [] := by
      rw [reportAt, if_neg hd]
      rfl
    have hafter : c.afterReport t = c := if_neg hd
    rw [hreport, hafter, List.append_nil]
    exact ⟨reported, waiting, h⟩

theorem InEffect.recordNew (h : c.InEffect current) :
    (c.inEffectVector.recordNew p).Holds (current ++ [p]) := by
  rcases h with ⟨rfl, hnil⟩ | h
  · exact holds_recordNew_blank hnil
  · exact h.recordNew

/-- A window in effect is full with a packet exactly when its end is due. -/
theorem windowFull_iff {v : ReceiveVector} (h : v.Holds (current ++ [p])) :
    WindowFull (current ++ [p]) ↔ v.firstReceivedTime + receiveDuration < p.receiveTime := by
  obtain ⟨first, hfirst, htime, -⟩ := h.first
  constructor
  · rintro ⟨first', hfirst', last, hlast, hfull⟩
    cases Option.mem_unique hfirst hfirst'
    rw [List.getLast?_concat] at hlast
    cases hlast
    rw [htime]
    exact hfull
  · intro hfull
    rw [htime] at hfull
    exact ⟨first, hfirst, p, List.getLast?_concat, hfull⟩

/-- The window in effect takes the packet, and waits from then on if the packet fills it. -/
theorem Cuts.settle (h : Cuts ps reports c reported waiting current)
    {d : ReceiverLossCollection}
    (hd : d = { c with inEffectVector := c.inEffectVector.recordNew p })
    (hs : Sound d p.receiveTime) :
    ∃ waiting' current', Cuts (ps ++ [p]) reports (d.settle F p) reported waiting' current' := by
  have hholds : d.inEffectVector.Holds (current ++ [p]) := by
    rw [hd]
    exact h.inEffect.recordNew
  have hiff := windowFull_iff hholds
  unfold ReceiverLossCollection.settle
  split_ifs with hend
  · have hwait := hs.wait_empty hholds.ne_nil hend
    have hnone : waiting = none := by
      cases waiting with
      | none => rfl
      | some w =>
          rw [hd] at hwait
          exact absurd hwait h.waits.1.ne_nil
    subst hnone
    have hclosed := h.split.close (hiff.mpr hend)
    rw [Option.toList_none, List.append_nil] at hclosed
    refine ⟨some (current ++ [p]), [], hclosed, h.reports, ⟨?_, le_max_right _ _⟩, .inl ⟨rfl, hwait⟩⟩
    exact ⟨hholds.first, hholds.last, hholds.received⟩
  · refine ⟨waiting, current ++ [p], h.split.wait (mt hiff.mp hend), h.reports, ?_, .inr hholds⟩
    have hsame : d.waitVector = c.waitVector := by rw [hd]
    exact h.waits.congr hsame

/-- The cut goes on with every packet in order. -/
theorem cuts_of_inOrder (F : Type) [FloatArith F] (hi : InOrder ps) :
    ∃ os c reported waiting current, Trace (onTransportPacketFeedback F) {} ps os c ∧
      KeepsAll ps os c ∧ Cuts ps (generated os) c reported waiting current := by
  induction ps using List.reverseRecOn with
  | nil =>
      have hempty : ¬ WindowFull [] := by
        rintro ⟨first, hfirst, -⟩
        cases hfirst
      exact ⟨[], {}, [], none, [], .nil, ⟨sound_init, counted_init, anchored_init, rfl⟩,
        split_nil hempty, .nil, rfl, .inl ⟨rfl, rfl⟩⟩
  | append_singleton ps p ih =>
      obtain ⟨os, c, reported, waiting, current, ht, hkeeps, hcuts⟩ := ih hi.of_append
      obtain ⟨hstep, hnext⟩ := hkeeps.step (F := F) hi
      obtain ⟨hf, hl⟩ := hkeeps.counted.above hkeeps.sound hi.last_valid hi.above
      obtain ⟨reported', waiting', hreported⟩ := hcuts.afterReport (t := p.receiveTime) hkeeps.sound
      have hfresh := hkeeps.sound.afterFresh hi.last_valid hi.lastTime_le hl
      obtain ⟨waiting'', current'', hsettled⟩ := hreported.settle (F := F) (p := p)
        (d := c.afterFresh p) (by rw [ReceiverLossCollection.afterFresh, afterReport_inEffect]) hfresh
      rw [← generated_snoc] at hsettled
      exact ⟨_, _, reported', waiting'', current'', ht.snoc hstep, hnext, hsettled⟩

/-- While a window waits, every packet after it comes within 390 ms of its first. -/
theorem Cuts.current_le (h : Cuts ps reports c reported waiting current) (hs : Sound c (lastTime ps))
    (hi : InOrder ps) {w : List PacketResult} (hw : w ∈ waiting) {first : PacketResult}
    (hfirst : first ∈ w.head?) {p : PacketResult} (hp : p ∈ current) :
    p.receiveTime ≤ first.receiveTime + receiveDuration + TimeDelta.millis 190 := by
  cases hw
  obtain ⟨hholds, -⟩ := h.waits
  obtain ⟨first', hfirst', htime, -⟩ := hholds.first
  cases Option.mem_unique hfirst hfirst'
  have hopen : c.inEffectVector.receivedVector ≠ [] := by
    rcases h.inEffect with ⟨hnil, -⟩ | hcurrent
    · rw [hnil] at hp
      cases hp
    · exact hcurrent.ne_nil
  have hdeadline := (hs.apart hholds.ne_nil hopen).1
  have hlast : p.receiveTime ≤ lastTime ps := by
    apply hi.toArrivals.le_lastTime
    rw [← h.split.eq]
    exact List.mem_append_right _ hp
  refine hlast.trans (hdeadline.trans ?_)
  rw [deadline, htime]
  exact Timestamp.add_le_add_delta _ (hs.waitDuration hholds.ne_nil)

/-- On packets in order the reports are a cut of them: the arrivals fall into windows, each from
its first packet to the first one more than 200 ms later; all of these but at most one have been
reported, in order, each by its own counts and with an arrival of its own; and what comes while one
waits comes at most 390 ms after its first packet. -/
theorem reports_cut_arrivals (F : Type) [FloatArith F] (ps : List PacketResult) (hi : InOrder ps)
    {os : List LossReportUpdate} {c : ReceiverLossCollection}
    (ht : Trace (onTransportPacketFeedback F) {} ps os c) :
    ∃ (reported : List (List PacketResult)) (waiting : Option (List PacketResult))
      (current : List PacketResult), Split WindowFull ps (reported ++ waiting.toList) current ∧
      List.Forall₂ ReportsWindow reported (generated os) ∧
      ((generated os).map (·.endTime)).Sublist (ps.map (·.receiveTime)) ∧
      ∀ w ∈ waiting, ∀ first ∈ w.head?, ∀ p ∈ current,
        p.receiveTime ≤ first.receiveTime + receiveDuration + TimeDelta.millis 190 := by
  have hends := endTimes_of_trace F ht
  obtain ⟨os', c', reported, waiting, current, ht', hkeeps, hcuts⟩ := cuts_of_inOrder F hi
  obtain ⟨rfl, rfl⟩ := ht.unique ht'
  refine ⟨reported, waiting, current, hcuts.split, hcuts.reports, hends, ?_⟩
  intro w hw first hfirst p hp
  exact hcuts.current_le hkeeps.sound hi hw hfirst hp

/-- Of two windows the first is reported and the second waits. -/
theorem reports_cut_arrivals_example :
    let ps := [packetAt 1 0, packetAt 4 201, packetAt 6 302, packetAt 9 503, packetAt 10 504]
    ∃ (reported : List (List PacketResult)) (waiting : Option (List PacketResult))
      (current : List PacketResult), Split WindowFull ps (reported ++ waiting.toList) current ∧
      List.Forall₂ ReportsWindow reported
        [{ startTime := .micros 0, endTime := .micros 503000,
           packetsReceivedDelta := 2, packetsLostDelta := 2 }] ∧
      [Timestamp.micros 503000].Sublist (ps.map (·.receiveTime)) ∧
      ∀ w ∈ waiting, ∀ first ∈ w.head?, ∀ p ∈ current,
        p.receiveTime ≤ first.receiveTime + receiveDuration + TimeDelta.millis 190 := by
  intro ps
  have hreports : generated (outputs rationalStep {} ps) =
      [{ startTime := .micros 0, endTime := .micros 503000,
         packetsReceivedDelta := 2, packetsLostDelta := 2 }] := by decide +kernel
  have hcut := reports_cut_arrivals FloatArith.Rational ps ⟨⟨by decide, by decide⟩, by decide⟩
    (trace_final (by decide +kernel))
  rw [hreports] at hcut
  exact hcut

end ReceiverLossCollection
end ChromeGcc
