import ChromeGcc.Loss.Counting

/-! Losses across window boundaries, for packets that arrive in order: which missing
numbers the reports and the two windows account for. -/
namespace ChromeGcc

namespace ReceiveVector

/-- The numbers of the false entries of a vector whose first entry is number first. -/
def lostFrom (first : Nat) : List Bool → List Nat
  | [] => []
  | true :: l => lostFrom (first + 1) l
  | false :: l => first :: lostFrom (first + 1) l

/-- The numbers of a window's false entries. -/
def lostNumbers (w : ReceiveVector) : List Nat := lostFrom w.firstPacketNumber w.receivedVector

theorem lostFrom_length (first : Nat) (l : List Bool) : (lostFrom first l).length = l.count false := by
  induction l generalizing first with
  | nil => rfl
  | cons b l ih =>
      cases b with
      | true => simpa [lostFrom] using ih (first + 1)
      | false => simpa [lostFrom] using ih (first + 1)

theorem lostNumbers_length (w : ReceiveVector) : w.lostNumbers.length = w.lossCount :=
  lostFrom_length _ _

theorem lostFrom_append (first : Nat) (l k : List Bool) :
    lostFrom first (l ++ k) = lostFrom first l ++ lostFrom (first + l.length) k := by
  induction l generalizing first with
  | nil => simp [lostFrom]
  | cons b l ih =>
      have hlen : first + 1 + l.length = first + (l.length + 1) := by omega
      cases b with
      | true => simp [lostFrom, ih, hlen]
      | false => simp [lostFrom, ih, hlen]

theorem lostFrom_replicate (first k : Nat) :
    lostFrom first (List.replicate k false) = List.range' first k := by
  induction k generalizing first with
  | zero => rfl
  | succ k ih => rw [List.replicate_succ, List.range'_succ, lostFrom, ih]

theorem lostNumbers_nil {w : ReceiveVector} (h : w.receivedVector = []) : w.lostNumbers = [] := by
  rw [lostNumbers, h, lostFrom]

/-- The missing numbers that a new number adds to a window: the gap before it. -/
def gapBefore (e : ReceiveVector) (n : Nat) : List Nat :=
  if e.receivedVector = [] then []
  else List.range' (e.largestPacketNumber + 1) (n - (e.largestPacketNumber + 1))

theorem lostNumbers_recordNew {e : ReceiveVector} (p : PacketResult)
    (h : e.receivedVector ≠ [] → e.Spans) :
    (e.recordNew p).lostNumbers = e.lostNumbers ++ e.gapBefore p.number := by
  unfold gapBefore
  by_cases he : e.receivedVector = []
  · rw [recordNew_blank he, lostNumbers_nil he, if_pos he]
    rfl
  · have hle := (h he).le
    have hlen := (h he).length
    have hnext : e.firstPacketNumber + e.receivedVector.length = e.largestPacketNumber + 1 := by omega
    rw [recordNew_spans he, if_neg he]
    unfold lostNumbers
    dsimp only
    rw [List.append_assoc, lostFrom_append, lostFrom_append, hnext, lostFrom_replicate]
    simp [lostFrom]

end ReceiveVector

namespace ReceiverLossCollection
open ReceiveVector Machine

/-- The waiting window as MaybeGenerateReport reads it for a packet. -/
def windowRead (c : ReceiverLossCollection) (packet : PacketResult) : ReceiveVector :=
  if packet.number < c.inEffectVector.firstPacketNumber then
    match c.updateWaitVector packet with
    | .error _ => c.waitVector
    | .ok c => c.waitVector
  else c.waitVector

section Ledger
variable (F : Type) [FloatArith F]

/-- The step, observed together with the waiting window that its report reads. -/
def feedbackObserved (c : ReceiverLossCollection) (packet : PacketResult) :
    Except Failure (ReceiverLossCollection × LossReportUpdate × ReceiveVector) :=
  match c.onTransportPacketFeedback F packet with
  | .error e => .error e
  | .ok (c', r) => .ok (c', r, c.windowRead packet)

/-- The windows that were reported. -/
def reportedWindows (os : List (LossReportUpdate × ReceiveVector)) : List ReceiveVector :=
  (os.filter fun o => o.1.updated).map Prod.snd

/-- Every entry for a missing number: in a reported window, in the waiting window, or in
the in-effect window. -/
def lossLedger (os : List (LossReportUpdate × ReceiveVector)) (c : ReceiverLossCollection) :
    List Nat :=
  (reportedWindows os).flatMap lostNumbers ++ c.waitVector.lostNumbers ++ c.inEffectVector.lostNumbers

/-- A number that was not received, strictly between two received ones. -/
def Missing (seen : List Nat) (n : Nat) : Prop :=
  n ∉ seen ∧ (∃ m ∈ seen, m < n) ∧ ∃ m ∈ seen, n < m

/-- Each missing number has exactly one entry, and each report counts its window's entries. -/
structure LossesCountedOnce (ps : List PacketResult) (os : List (LossReportUpdate × ReceiveVector))
    (c : ReceiverLossCollection) : Prop where
  once : ∀ n, Missing (ps.map PacketResult.number) n → (lossLedger os c).count n = 1
  reported : ∀ o ∈ os, o.1.updated = true → o.1.report.packetsLostDelta = o.2.lostNumbers.length

/-- The packet that opens a window after another one ended carries the next number. -/
def Contiguous (c : ReceiverLossCollection) (p : PacketResult) : Prop :=
  c.inEffectVector.receivedVector = [] → c.inEffectVector.firstPacketNumber ≠ 0 →
    p.number = c.inEffectVector.firstPacketNumber

variable {F} {c c' : ReceiverLossCollection} {now : Timestamp} {p : PacketResult}
  {o : LossReportUpdate × ReceiveVector} {os : List (LossReportUpdate × ReceiveVector)}

theorem feedbackObserved_ok (h : feedbackObserved F c p = .ok (c', o)) :
    c.onTransportPacketFeedback F p = .ok (c', o.1) := by
  unfold feedbackObserved at h
  cases hs : c.onTransportPacketFeedback F p with
  | error e => rw [hs] at h; cases h
  | ok s => rw [hs] at h; cases h; rfl

/-- A report moves the waiting window's entries to the reported ones. -/
theorem ledger_afterReport (os : List (LossReportUpdate × ReceiveVector))
    (c : ReceiverLossCollection) (t : Timestamp) :
    lossLedger (os ++ [(c.reportAt t, c.waitVector)]) (c.afterReport t) = lossLedger os c := by
  unfold lossLedger reportedWindows
  rw [List.filter_append, List.filter_singleton, reportAt_updated, afterReport_inEffect]
  by_cases hd : c.ReportDue t
  · simp [afterReport, hd, lostNumbers_nil (w := .reset) rfl]
  · simp [afterReport, hd]

/-- The end of a window moves its entries to the waiting window. -/
theorem ledger_settle (hs : Sound c p.receiveTime) (he : c.inEffectVector.receivedVector ≠ []) :
    lossLedger os (c.settle F p) = lossLedger os c := by
  unfold settle
  split_ifs with hend
  · have hw := hs.wait_empty he hend
    have hwait : (c.updateRtt F p).handOver.waitVector.lostNumbers = c.inEffectVector.lostNumbers := rfl
    have heff : (c.updateRtt F p).handOver.inEffectVector.lostNumbers = [] := lostNumbers_nil hw
    unfold lossLedger
    rw [hwait, heff, lostNumbers_nil hw, List.append_nil, List.append_nil]
  · rfl

/-- In order, one packet succeeds and adds the gap before it to the ledger. -/
theorem ledger_step (h : Sound c now) (hp : p.Valid) (ht : now ≤ p.receiveTime)
    (hn : c.inEffectVector.firstPacketNumber ≤ p.number ∧ c.inEffectVector.largestPacketNumber < p.number)
    (hok : feedbackObserved F c p = .ok (c', o)) :
    o = (c.reportAt p.receiveTime, c.waitVector) ∧
      lossLedger (os ++ [o]) c' = lossLedger os c ++ c.inEffectVector.gapBefore p.number := by
  unfold feedbackObserved windowRead at hok
  rw [if_neg (not_lt.mpr hn.1), h.step_fresh F hp ht hn.1 hn.2] at hok
  cases hok
  refine ⟨rfl, ?_⟩
  rw [ledger_settle (h.afterFresh hp ht hn.2) (afterFresh_ne_nil c p),
    ← ledger_afterReport os c p.receiveTime]
  have heff : (c.afterFresh p).inEffectVector.lostNumbers =
      c.inEffectVector.lostNumbers ++ c.inEffectVector.gapBefore p.number := by
    simp only [afterFresh, afterReport_inEffect]
    exact lostNumbers_recordNew p h.effect_spans
  unfold lossLedger
  rw [heff, afterReport_inEffect, ← List.append_assoc]
  rfl

theorem reportAt_lost {t : Timestamp} (h : (c.reportAt t).updated = true) :
    (c.reportAt t).report.packetsLostDelta = c.waitVector.lostNumbers.length := by
  rw [reportAt_updated, decide_eq_true_eq] at h
  rw [reportAt, if_pos h, lostNumbers_length]
  rfl

theorem mem_gapBefore {e : ReceiveVector} {k n : Nat} (h : n ∈ e.gapBefore k) : n < k := by
  unfold gapBefore at h
  split_ifs at h
  · cases h
  · rw [List.mem_range'_1] at h
    omega

/-- No entry lies above every received number. -/
def LedgerBelow (ps : List PacketResult) (os : List (LossReportUpdate × ReceiveVector))
    (c : ReceiverLossCollection) : Prop :=
  ∀ n ∈ lossLedger os c, ∃ m ∈ ps.map PacketResult.number, n < m

/-- After a number above all those seen, what is missing lies between a number seen and it. -/
theorem Missing.of_concat {seen : List Nat} {k n : Nat} (hab : ∀ m ∈ seen, m < k)
    (h : Missing (seen ++ [k]) n) : n ∉ seen ∧ (∃ m ∈ seen, m < n) ∧ n < k := by
  obtain ⟨hn, ⟨a, ha, han⟩, b, hb, hnb⟩ := h
  have hnk : n < k := hnb.trans_le (mem_concat_le (fun m hm => (hab m hm).le) b hb)
  refine ⟨fun hmem => hn (List.mem_append_left _ hmem), ⟨a, ?_, han⟩, hnk⟩
  rcases List.mem_append.mp ha with ha | ha
  · exact ha
  · rw [List.mem_singleton.mp ha] at han
    omega

theorem count_gapBefore {e : ReceiveVector} (he : e.receivedVector ≠ []) (k n : Nat) :
    (e.gapBefore k).count n = if e.largestPacketNumber < n ∧ n < k then 1 else 0 := by
  unfold gapBefore
  rw [if_neg he, (List.nodup_range' 1).count]
  refine if_congr ?_ rfl rfl
  rw [List.mem_range'_1]
  omega

/-- A contiguous packet completes the ledger: the gap before it is all that becomes missing. -/
theorem count_ledger_concat {seen : List Nat} (hc : Counted c seen)
    (hab : ∀ n ∈ seen, n < p.number) (hcont : c.Contiguous p)
    (hbelow : ∀ n ∈ lossLedger os c, ∃ m ∈ seen, n < m)
    (honce : ∀ n, Missing seen n → (lossLedger os c).count n = 1) {n : Nat}
    (hmiss : Missing (seen ++ [p.number]) n) :
    (lossLedger os c ++ c.inEffectVector.gapBefore p.number).count n = 1 := by
  obtain ⟨hns, ⟨a, ha, han⟩, hnp⟩ := hmiss.of_concat hab
  rw [List.count_append]
  by_cases he : c.inEffectVector.receivedVector = []
  · rw [gapBefore, if_pos he, List.count_nil]
    cases hc.next he with
    | inl hz =>
        have hlt := hc.below he a ha
        omega
    | inr hnext =>
        obtain ⟨m, hm, hfirst⟩ := hnext
        have hk := hcont he (by omega)
        have hmn : n ≠ m := fun h => hns (h ▸ hm)
        exact honce n ⟨hns, ⟨a, ha, han⟩, m, hm, by omega⟩
  · have htop := hc.top he
    have hnt : n ≠ c.inEffectVector.largestPacketNumber := fun h => hns (h ▸ htop)
    rw [count_gapBefore he]
    by_cases hlt : n < c.inEffectVector.largestPacketNumber
    · rw [honce n ⟨hns, ⟨a, ha, han⟩, _, htop, hlt⟩, if_neg (by omega)]
    · have hzero : (lossLedger os c).count n = 0 := by
        refine List.count_eq_zero.mpr fun hmem => ?_
        obtain ⟨m, hm, hnm⟩ := hbelow n hmem
        have := hc.within he m hm
        omega
      rw [hzero, if_pos (by omega)]

/-- When the packet that opens a window skips the next number, that number is missing
and has no entry. -/
theorem skipped_number_uncounted {seen : List Nat} (hc : Counted c seen)
    (hn : c.inEffectVector.firstPacketNumber ≤ p.number) (hskip : ¬ c.Contiguous p)
    (hbelow : ∀ n ∈ lossLedger os c, ∃ m ∈ seen, n < m) :
    ∃ n, Missing (seen ++ [p.number]) n ∧
      (lossLedger os c ++ c.inEffectVector.gapBefore p.number).count n = 0 := by
  simp only [Contiguous, Classical.not_imp] at hskip
  obtain ⟨he, hz, hne⟩ := hskip
  obtain ⟨m, hm, hfirst⟩ := (hc.next he).resolve_left hz
  refine ⟨c.inEffectVector.firstPacketNumber, ⟨?_, ⟨m, ?_, by omega⟩, p.number, ?_, by omega⟩, ?_⟩
  · rw [List.mem_append, List.mem_singleton]
    rintro (h | h)
    · exact absurd (hc.below he _ h) (lt_irrefl _)
    · exact hne h.symm
  · exact List.mem_append_left _ hm
  · exact List.mem_append_right _ (List.mem_singleton_self _)
  · unfold gapBefore
    rw [if_pos he, List.append_nil, List.count_eq_zero]
    intro hmem
    obtain ⟨m', hm', hlt⟩ := hbelow _ hmem
    have := hc.below he m' hm'
    omega

end Ledger

section Run
variable {F : Type} [FloatArith F] {ps : List PacketResult} {c c' : ReceiverLossCollection}
  {p : PacketResult} {os : List (LossReportUpdate × ReceiveVector)}
  {o : LossReportUpdate × ReceiveVector}

/-- What an in-order run has established before its next packet. -/
theorem inOrder_next (hi : InOrder (ps ++ [p])) (ht : Trace (feedbackObserved F) {} ps os c) :
    Sound c (lastTime ps) ∧ Counted c (ps.map PacketResult.number) ∧
      c.inEffectVector.firstPacketNumber ≤ p.number ∧
        c.inEffectVector.largestPacketNumber < p.number := by
  have ht' : Trace (onTransportPacketFeedback F) {} ps (os.map Prod.fst) c :=
    ht.project fun _ _ _ _ => feedbackObserved_ok
  have hs := sound_of_trace F hi.toArrivals.of_append ht'
  have hc := counted_of_inOrder F hi.of_append ht'
  exact ⟨hs, hc, hc.above hs hi.last_valid hi.above⟩

theorem inOrder_step (hi : InOrder (ps ++ [p])) (ht : Trace (feedbackObserved F) {} ps os c) :
    feedbackObserved F c p =
      .ok ((c.afterFresh p).settle F p, c.reportAt p.receiveTime, c.windowRead p) := by
  obtain ⟨hs, -, hf, hl⟩ := inOrder_next hi ht
  rw [feedbackObserved, hs.step_fresh F hi.last_valid hi.lastTime_le hf hl]

theorem inOrder_runs (F : Type) [FloatArith F] (hi : InOrder ps) :
    ∃ os c, Trace (feedbackObserved F) {} ps os c := by
  induction ps using List.reverseRecOn with
  | nil => exact ⟨[], {}, .nil⟩
  | append_singleton ps p ih =>
      obtain ⟨os, c, ht⟩ := ih hi.of_append
      exact ⟨_, _, ht.snoc (inOrder_step hi ht)⟩

theorem ledgerBelow_of_trace (hi : InOrder ps) (ht : Trace (feedbackObserved F) {} ps os c) :
    LedgerBelow ps os c := by
  refine Trace.invariant (P := InOrder) (I := LedgerBelow) (fun ps p h => h.of_append) ?_ ?_ ht hi
  · intro n hn
    cases hn
  · intro ps os c p c' o hi ht hbelow hok n hn
    obtain ⟨hs, -, habove⟩ := inOrder_next hi ht
    rw [(ledger_step hs hi.last_valid hi.lastTime_le habove hok).2] at hn
    rw [List.map_append]
    rcases List.mem_append.mp hn with hn | hn
    · obtain ⟨m, hm, hlt⟩ := hbelow n hn
      exact ⟨m, List.mem_append_left _ hm, hlt⟩
    · exact ⟨p.number, List.mem_append_right _ (List.mem_singleton_self _), mem_gapBefore hn⟩

/-- Every packet of a run that opens a window after another one ended is contiguous. -/
def StaysContiguous (F : Type) [FloatArith F] (ps : List PacketResult) : Prop :=
  ∀ pre p post os c, ps = pre ++ p :: post →
    Trace (feedbackObserved F) {} pre os c → c.Contiguous p

theorem StaysContiguous.of_append {qs : List PacketResult} (h : StaysContiguous F (ps ++ qs)) :
    StaysContiguous F ps := by
  intro pre p post os c hps ht
  refine h pre p (post ++ qs) os c ?_ ht
  rw [hps, List.append_assoc, List.cons_append]

theorem countedOnce_of_contiguous (hi : InOrder ps) (hcont : StaysContiguous F ps)
    (ht : Trace (feedbackObserved F) {} ps os c) : LossesCountedOnce ps os c := by
  refine Trace.invariant (P := fun ps => InOrder ps ∧ StaysContiguous F ps) (I := LossesCountedOnce)
    (fun ps p h => ⟨h.1.of_append, h.2.of_append⟩) ?_ ?_ ht ⟨hi, hcont⟩
  · refine ⟨fun n hn => ?_, fun o ho => absurd ho List.not_mem_nil⟩
    obtain ⟨m, hm, -⟩ := hn.2.1
    cases hm
  · intro ps os c p c' o ⟨hi, hcont⟩ ht hones hok
    obtain ⟨hs, hc, habove⟩ := inOrder_next hi ht
    obtain ⟨rfl, hledger⟩ := ledger_step hs hi.last_valid hi.lastTime_le habove hok
    refine ⟨fun n hn => ?_, fun o ho hu => ?_⟩
    · rw [List.map_append] at hn
      rw [hledger]
      exact count_ledger_concat hc hi.above (hcont ps p [] os c rfl ht)
        (ledgerBelow_of_trace hi.of_append ht) hones.once hn
    · rcases List.mem_append.mp ho with ho | ho
      · exact hones.reported o ho hu
      · rw [List.mem_singleton.mp ho] at hu ⊢
        exact reportAt_lost hu

end Run

/-- Packets in order never fail. After every prefix each missing number has exactly one
entry if and only if every window opens with the number after the last of the one before. -/
theorem losses_counted_once_iff (F : Type) [FloatArith F] (ps : List PacketResult) (hi : InOrder ps) :
    (∃ os c, Trace (feedbackObserved F) {} ps os c) ∧
      ((∀ pre post os c, ps = pre ++ post → Trace (feedbackObserved F) {} pre os c →
        LossesCountedOnce pre os c) ↔ StaysContiguous F ps) := by
  refine ⟨inOrder_runs F hi, ?_, ?_⟩
  · intro hall pre p post os c hps ht
    have hi' : InOrder (pre ++ [p]) := by
      rw [hps, List.append_cons] at hi
      exact hi.of_append
    by_contra hskip
    obtain ⟨hs, hc, habove⟩ := inOrder_next hi' ht
    obtain ⟨n, hmiss, hzero⟩ := skipped_number_uncounted hc habove.1 hskip
      (ledgerBelow_of_trace hi'.of_append ht)
    have hok := inOrder_step hi' ht
    have honce := (hall (pre ++ [p]) post _ _ (by rw [hps]; simp) (ht.snoc hok)).once n
    rw [List.map_append] at honce
    rw [(ledger_step hs hi'.last_valid hi'.lastTime_le habove hok).2, hzero] at honce
    exact absurd (honce hmiss) (by decide)
  · intro hcont pre post os c hps ht
    rw [hps] at hi hcont
    exact countedOnce_of_contiguous hi.of_append hcont.of_append ht

/-- Number 3 is lost between a window that ends with 2 and one that opens with 4. -/
theorem boundary_loss_uncounted :
    InOrder [packetAt 1 0, packetAt 2 201, packetAt 4 202] ∧
      ∃ os c, Trace (feedbackObserved FloatArith.Rational) {}
          [packetAt 1 0, packetAt 2 201, packetAt 4 202] os c ∧
        ¬ LossesCountedOnce [packetAt 1 0, packetAt 2 201, packetAt 4 202] os c := by
  have ht : Trace (feedbackObserved FloatArith.Rational) {}
      [packetAt 1 0, packetAt 2 201, packetAt 4 202] _ _ := trace_final (by decide +kernel)
  refine ⟨⟨⟨by decide, by decide⟩, by decide⟩, _, _, ht, fun h => ?_⟩
  have honce := h.once 3 ⟨by decide, ⟨1, by decide, by decide⟩, 4, by decide, by decide⟩
  exact absurd honce (by decide +kernel)

theorem losses_counted_once_iff_contiguous_run :
    (∃ os c, Trace (feedbackObserved FloatArith.Rational) {}
        [packetAt 1 0, packetAt 3 201, packetAt 4 202] os c) ∧
      ((∀ pre post os c, [packetAt 1 0, packetAt 3 201, packetAt 4 202] = pre ++ post →
        Trace (feedbackObserved FloatArith.Rational) {} pre os c → LossesCountedOnce pre os c) ↔
        StaysContiguous FloatArith.Rational [packetAt 1 0, packetAt 3 201, packetAt 4 202]) :=
  losses_counted_once_iff FloatArith.Rational _ ⟨⟨by decide, by decide⟩, by decide⟩

end ReceiverLossCollection
end ChromeGcc
