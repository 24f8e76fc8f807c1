import ChromeGcc.Loss.Boundary

/-! Without reordering the received packets are conserved: each is an entry of one window,
or counted in one report. -/
namespace ChromeGcc

namespace ReceiveVector

/-- A window entry by entry: one for each number from its first to its largest, both of
which were received. -/
structure Exact (w : ReceiveVector) (seen : List Nat) : Prop where
  le : w.firstPacketNumber ≤ w.largestPacketNumber
  length : w.receivedVector.length = w.largestPacketNumber - w.firstPacketNumber + 1
  head : w.receivedVector.head? = some true
  last : w.receivedVector.getLast? = some true
  entry : ∀ i (h : i < w.receivedVector.length),
    (w.receivedVector[i] = true ↔ w.firstPacketNumber + i ∈ seen)

variable {w : ReceiveVector} {seen : List Nat}

theorem Records.getElem_iff (h : w.Records seen) (i : Nat) (hi : i < w.receivedVector.length) :
    w.receivedVector[i] = true ↔ w.firstPacketNumber + i ∈ seen := by
  unfold Records at h
  simp only [h, List.getElem_map, List.getElem_range', one_mul, decide_eq_true_eq]

/-- A window that records what was seen, and whose two ends were seen, is exact. -/
theorem Records.exact (h : w.Records seen) (hs : w.Spans) (hf : w.firstPacketNumber ∈ seen)
    (hl : w.largestPacketNumber ∈ seen) : w.Exact seen := by
  have hle := hs.le
  have hlen : w.receivedVector.length = w.largestPacketNumber - w.firstPacketNumber + 1 := by
    have hspan := hs.length
    omega
  refine ⟨hle, hlen, ?_, ?_, h.getElem_iff⟩
  · have hzero : 0 < w.receivedVector.length := by omega
    rw [List.head?_eq_getElem?, List.getElem?_eq_getElem hzero, Option.some_inj,
      h.getElem_iff 0 hzero]
    exact hf
  · have hend : w.receivedVector.length - 1 < w.receivedVector.length := by omega
    rw [List.getLast?_eq_getElem?, List.getElem?_eq_getElem hend, Option.some_inj,
      h.getElem_iff _ hend, hlen, Nat.add_sub_cancel, Nat.add_sub_cancel' hle]
    exact hl

/-- A new number adds one received entry; the gap before it adds none. -/
theorem receivedCount_recordNew (e : ReceiveVector) (p : PacketResult) :
    (e.recordNew p).receivedCount = e.receivedCount + 1 := by
  by_cases he : e.receivedVector = []
  · rw [recordNew_blank he]
    simp [receivedCount, he]
  · rw [recordNew_spans he]
    simp [receivedCount, List.count_append, List.count_replicate]

end ReceiveVector

namespace ReceiverLossCollection
open ReceiveVector Machine

/-- The first number of an open window was received, and so was a closed window's largest. -/
structure Anchored (c : ReceiverLossCollection) (seen : List Nat) : Prop where
  effectFirst : c.inEffectVector.receivedVector ≠ [] → c.inEffectVector.firstPacketNumber ∈ seen
  waitFirst : c.waitVector.receivedVector ≠ [] → c.waitVector.firstPacketNumber ∈ seen
  waitLargest : c.waitVector.receivedVector ≠ [] → c.waitVector.largestPacketNumber ∈ seen

theorem anchored_init : Anchored {} [] where
  effectFirst h := absurd rfl h
  waitFirst h := absurd rfl h
  waitLargest h := absurd rfl h

section Operations
variable {c : ReceiverLossCollection} {seen : List Nat} {now t : Timestamp} {p : PacketResult}

theorem Anchored.afterReport (h : Anchored c seen) : Anchored (c.afterReport t) seen := by
  unfold ReceiverLossCollection.afterReport
  split_ifs
  · exact ⟨h.effectFirst, fun hw => absurd rfl hw, fun hw => absurd rfl hw⟩
  · exact h

/-- A new number opens the in-effect window or extends it; the waiting one stays. -/
theorem Anchored.recordNew (h : Anchored c seen) :
    Anchored { c with inEffectVector := c.inEffectVector.recordNew p } (seen ++ [p.number]) := by
  constructor
  case effectFirst =>
    intro _
    by_cases he : c.inEffectVector.receivedVector = []
    · rw [recordNew_blank he]
      exact List.mem_append_right _ (List.mem_singleton_self _)
    · rw [recordNew_spans he]
      exact List.mem_append_left _ (h.effectFirst he)
  case waitFirst =>
    intro hw
    exact List.mem_append_left _ (h.waitFirst hw)
  case waitLargest =>
    intro hw
    exact List.mem_append_left _ (h.waitLargest hw)

variable (F : Type) [FloatArith F]

/-- The window that ends takes its ends along. -/
theorem Anchored.settle (h : Anchored c seen) (hc : Counted c seen) (hs : Sound c p.receiveTime)
    (he : c.inEffectVector.receivedVector ≠ []) : Anchored (c.settle F p) seen := by
  unfold ReceiverLossCollection.settle
  split_ifs with hend
  · have hw := hs.wait_empty he hend
    exact ⟨fun hne => absurd hw hne, fun _ => h.effectFirst he, fun _ => hc.top he⟩
  · exact ⟨h.effectFirst, h.waitFirst, h.waitLargest⟩

end Operations

/-- The packets counted in reports, and those that are entries of the two windows. -/
def receivedLedger (os : List LossReportUpdate) (c : ReceiverLossCollection) : Nat :=
  ((os.filter (·.updated)).map (·.report.packetsReceivedDelta)).sum +
    c.waitVector.receivedCount + c.inEffectVector.receivedCount

section Ledger
variable {F : Type} [FloatArith F] {c : ReceiverLossCollection} {now : Timestamp} {p : PacketResult}
  {os : List LossReportUpdate}

/-- A report takes over the entries of the waiting window. -/
theorem receivedLedger_afterReport (os : List LossReportUpdate) (c : ReceiverLossCollection)
    (t : Timestamp) : receivedLedger (os ++ [c.reportAt t]) (c.afterReport t) = receivedLedger os c := by
  unfold receivedLedger
  rw [List.filter_append, List.filter_singleton, reportAt_updated, afterReport_inEffect]
  by_cases hd : c.ReportDue t
  · have hreset : (ReceiveVector.reset).receivedCount = 0 := blank_reset.receivedCount_eq
    simp [afterReport, reportAt, hd, hreset, ReceiveVector.lossReport]
  · simp [afterReport, hd]

/-- The end of a window hands its entries to the waiting window. -/
theorem receivedLedger_settle (hs : Sound c p.receiveTime) (he : c.inEffectVector.receivedVector ≠ []) :
    receivedLedger os (c.settle F p) = receivedLedger os c := by
  unfold settle
  split_ifs with hend
  · have hw := hs.wait_empty he hend
    have hwait : (c.updateRtt F p).handOver.waitVector.receivedCount =
        c.inEffectVector.receivedCount := rfl
    have hnew : (c.updateRtt F p).handOver.inEffectVector.receivedCount =
        c.waitVector.receivedCount := rfl
    have hzero : c.waitVector.receivedCount = 0 := by rw [receivedCount, hw, List.count_nil]
    unfold receivedLedger
    rw [hwait, hnew, hzero, Nat.add_zero, Nat.add_zero]
  · rfl

/-- One packet in order adds one to the ledger. -/
theorem receivedLedger_step (hs : Sound c now) (hp : p.Valid) (ht : now ≤ p.receiveTime)
    (hl : c.inEffectVector.largestPacketNumber < p.number) :
    receivedLedger (os ++ [c.reportAt p.receiveTime]) ((c.afterFresh p).settle F p) =
      receivedLedger os c + 1 := by
  have hfresh : receivedLedger (os ++ [c.reportAt p.receiveTime]) (c.afterFresh p) =
      receivedLedger (os ++ [c.reportAt p.receiveTime]) (c.afterReport p.receiveTime) + 1 := by
    unfold receivedLedger afterFresh
    dsimp only
    rw [receivedCount_recordNew]
    exact (Nat.add_assoc _ _ _).symm
  rw [receivedLedger_settle (hs.afterFresh hp ht hl) (afterFresh_ne_nil c p), hfresh,
    receivedLedger_afterReport]

end Ledger

/-- What holds after packets in order: both windows are exact, the waiting one lies below
the in-effect one, and no packet is missing or counted twice. -/
structure Conserved (ps : List PacketResult) (os : List LossReportUpdate)
    (c : ReceiverLossCollection) : Prop where
  effect : c.inEffectVector.receivedVector ≠ [] →
    c.inEffectVector.Exact (ps.map PacketResult.number)
  wait : c.waitVector.receivedVector ≠ [] → c.waitVector.Exact (ps.map PacketResult.number)
  apart : c.waitVector.receivedVector ≠ [] →
    c.waitVector.largestPacketNumber < c.inEffectVector.firstPacketNumber
  total : receivedLedger os c = ps.length

section Runs
variable {F : Type} [FloatArith F] {ps : List PacketResult} {p : PacketResult}
  {os : List LossReportUpdate} {c : ReceiverLossCollection}

/-- The invariants that a run of packets in order keeps. -/
structure KeepsAll (ps : List PacketResult) (os : List LossReportUpdate)
    (c : ReceiverLossCollection) : Prop where
  sound : Sound c (lastTime ps)
  counted : Counted c (ps.map PacketResult.number)
  anchored : Anchored c (ps.map PacketResult.number)
  total : receivedLedger os c = ps.length

/-- The next packet in order succeeds, and keeps the invariants. -/
theorem KeepsAll.step (h : KeepsAll ps os c) (hi : InOrder (ps ++ [p])) :
    c.onTransportPacketFeedback F p =
        .ok ((c.afterFresh p).settle F p, c.reportAt p.receiveTime) ∧
      KeepsAll (ps ++ [p]) (os ++ [c.reportAt p.receiveTime]) ((c.afterFresh p).settle F p) := by
  obtain ⟨hf, hl⟩ := h.counted.above h.sound hi.last_valid hi.above
  have hstep := h.sound.step_fresh F hi.last_valid hi.lastTime_le hf hl
  have hfresh := h.sound.afterFresh hi.last_valid hi.lastTime_le hl
  have hcount : Counted (c.afterFresh p) (ps.map PacketResult.number ++ [p.number]) := by
    refine h.counted.afterReport.fresh (h.sound.afterReport hi.lastTime_le) ?_ ?_
    · rw [afterReport_inEffect]
      exact hf
    · rw [afterReport_inEffect]
      exact hl
  have hanchor : Anchored (c.afterFresh p) (ps.map PacketResult.number ++ [p.number]) :=
    h.anchored.afterReport.recordNew
  refine ⟨hstep, ?_⟩
  constructor
  case sound =>
    rw [lastTime_concat]
    exact hfresh.settle F (afterFresh_ne_nil c p)
  case counted =>
    rw [List.map_append]
    exact hcount.settle F hfresh (afterFresh_ne_nil c p)
  case anchored =>
    rw [List.map_append]
    exact hanchor.settle F hcount hfresh (afterFresh_ne_nil c p)
  case total =>
    rw [receivedLedger_step h.sound hi.last_valid hi.lastTime_le hl, h.total, List.length_append,
      List.length_singleton]

/-- Packets in order never fail, and a run of them keeps the invariants. -/
theorem keepsAll_of_inOrder (F : Type) [FloatArith F] (hi : InOrder ps) :
    ∃ os c, Trace (onTransportPacketFeedback F) {} ps os c ∧ KeepsAll ps os c := by
  induction ps using List.reverseRecOn with
  | nil => exact ⟨[], {}, .nil, sound_init, counted_init, anchored_init, rfl⟩
  | append_singleton ps p ih =>
      obtain ⟨os, c, ht, h⟩ := ih hi.of_append
      obtain ⟨hstep, hnext⟩ := h.step (F := F) hi
      exact ⟨_, _, ht.snoc hstep, hnext⟩

theorem KeepsAll.conserved (h : KeepsAll ps os c) : Conserved ps os c where
  effect he := (h.counted.effect he).exact (h.sound.effect_spans he) (h.anchored.effectFirst he)
    (h.counted.top he)
  wait hw := (h.counted.wait hw).exact (h.sound.wait_spans hw) (h.anchored.waitFirst hw)
    (h.anchored.waitLargest hw)
  apart := h.counted.apart
  total := h.total

end Runs

/-- Every prefix of packets in order succeeds, and conserves them. -/
theorem received_packets_conserved (F : Type) [FloatArith F] (ps : List PacketResult)
    (hi : InOrder ps) : ∀ pre post, ps = pre ++ post →
      ∃ os c, Trace (onTransportPacketFeedback F) {} pre os c ∧ Conserved pre os c := by
  intro pre post hps
  rw [hps] at hi
  obtain ⟨os, c, ht, h⟩ := keepsAll_of_inOrder F hi.of_append
  exact ⟨os, c, ht, h.conserved⟩

/-- Packets lost inside and between windows, up to the packet that ends the second one. -/
theorem received_packets_conserved_example :
    ∃ os c, Trace rationalStep {} [packetAt 1 0, packetAt 4 201, packetAt 6 302, packetAt 9 503] os c ∧
      Conserved [packetAt 1 0, packetAt 4 201, packetAt 6 302, packetAt 9 503] os c :=
  received_packets_conserved FloatArith.Rational
    [packetAt 1 0, packetAt 4 201, packetAt 6 302, packetAt 9 503, packetAt 10 504]
    ⟨⟨by decide, by decide⟩, by decide⟩
    [packetAt 1 0, packetAt 4 201, packetAt 6 302, packetAt 9 503] [packetAt 10 504] rfl

end ReceiverLossCollection
end ChromeGcc
