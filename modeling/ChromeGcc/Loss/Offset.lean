import ChromeGcc.Loss.Boundary

/-! The sender's clock in the loss reports. In order, the windows depend on receive
times alone; the send times decide only how long a closed window waits. -/
namespace ChromeGcc

@[simp] theorem PacketResult.shiftSend_number (k : Int) (p : PacketResult) :
    (p.shiftSend k).number = p.number := rfl

namespace ReceiverLossCollection
open ReceiveVector Machine

/-- The receive time of a window's first packet. -/
def windowStart : List PacketResult → Timestamp
  | [] => .micros 0
  | p :: _ => p.receiveTime

/-- The windows that a sequence of packets closes, by their receive times, each with the
packets that come after it. -/
def closedWindows : List PacketResult → List PacketResult →
    List (List PacketResult × List PacketResult)
  | _, [] => []
  | w, p :: rest =>
    if p.receiveTime > windowStart (w ++ [p]) + receiveDuration then
      (w ++ [p], rest) :: closedWindows [] rest
    else closedWindows (w ++ [p]) rest

@[simp] theorem windowStart_map_shiftSend (k : Int) (w : List PacketResult) :
    windowStart (w.map (PacketResult.shiftSend k)) = windowStart w := by
  cases w <;> rfl

theorem windowStart_append {w : List PacketResult} (h : w ≠ []) (p : PacketResult) :
    windowStart (w ++ [p]) = windowStart w := by
  cases w with
  | nil => exact absurd rfl h
  | cons q w => rfl

section Doubles
variable (F : Type) [FloatArith F]

/-- The smoothed one-way delay of a window, from two clocks that are not synchronised. -/
def smoothedDelay (w : List PacketResult) : TimeDelta :=
  w.foldl (fun s (p : PacketResult) => smoothSample F s (p.receiveTime - p.sentPacket.sendTime))
    (.micros 0)

/-- The receive time after which the next packet brings about the window's report. -/
def windowDeadline (w : List PacketResult) : Timestamp :=
  windowStart w + receiveDuration +
    max (min (smoothedDelay F w) (receiveDuration - .millis 10)) (.millis 100)

/-- A packet lies on the same side of a window's deadline under both clocks. -/
def SameSide (k : Int) (w : List PacketResult) (q : PacketResult) : Prop :=
  windowDeadline F w < q.receiveTime ↔
    windowDeadline F (w.map (PacketResult.shiftSend k)) < q.receiveTime

/-- The collection's windows are those of the packets: `waiting` closed and not yet
reported, `current` not yet closed. -/
structure Follows (c : ReceiverLossCollection) (waiting current : List PacketResult) : Prop where
  effect : c.inEffectVector.receivedVector = [] ↔ current = []
  effectStart : current ≠ [] → c.inEffectVector.firstReceivedTime = windowStart current
  smooth : c.smoothRtt = smoothedDelay F current
  wait : c.waitVector.receivedVector = [] ↔ waiting = []
  waitDeadline : waiting ≠ [] → c.waitVector.deadline = windowDeadline F waiting

variable {F} {c d : ReceiverLossCollection} {now t : Timestamp} {p : PacketResult}
  {waiting current : List PacketResult}

theorem follows_init : Follows F {} [] [] :=
  ⟨⟨fun _ => rfl, fun _ => rfl⟩, fun h => absurd rfl h, rfl, ⟨fun _ => rfl, fun _ => rfl⟩,
    fun h => absurd rfl h⟩

theorem Follows.due_iff (h : Follows F c waiting current) (hs : Sound c now) :
    c.ReportDue t ↔ waiting ≠ [] ∧ windowDeadline F waiting < t := by
  constructor
  · rintro ⟨hlt, hcount⟩
    have hw : waiting ≠ [] := by
      intro hnil
      exact hcount (by rw [receivedCount, h.wait.mpr hnil, List.count_nil])
    rw [← h.waitDeadline hw]
    exact ⟨hw, hlt⟩
  · rintro ⟨hw, hlt⟩
    rw [← h.waitDeadline hw] at hlt
    exact ⟨hlt, (hs.wait_spans fun hnil => hw (h.wait.mp hnil)).receivedCount_ne⟩

/-- The waiting packets once a report was tried. -/
def afterReportPackets (c : ReceiverLossCollection) (t : Timestamp) (waiting : List PacketResult) :
    List PacketResult :=
  if c.ReportDue t then [] else waiting

theorem Follows.afterReport (h : Follows F c waiting current) :
    Follows F (c.afterReport t) (c.afterReportPackets t waiting) current := by
  unfold ReceiverLossCollection.afterReport afterReportPackets
  split_ifs with hd
  · exact ⟨h.effect, h.effectStart, h.smooth, ⟨fun _ => rfl, fun _ => rfl⟩, fun hw => absurd rfl hw⟩
  · exact h

theorem Follows.record (h : Follows F c waiting current) :
    Follows F (ReceiverLossCollection.updateRtt F
      { c with inEffectVector := c.inEffectVector.recordNew p } p) waiting (current ++ [p]) := by
  have hsmooth : smoothedDelay F (current ++ [p]) =
      smoothSample F (smoothedDelay F current) (p.receiveTime - p.sentPacket.sendTime) := by
    rw [smoothedDelay, List.foldl_append]
    rfl
  refine ⟨?_, fun _ => ?_, ?_, h.wait, h.waitDeadline⟩
  · constructor
    · intro hnil
      exact absurd hnil (recordNew_ne_nil c.inEffectVector p)
    · intro hnil
      simp at hnil
  · by_cases he : c.inEffectVector.receivedVector = []
    · rw [h.effect.mp he]
      change (c.inEffectVector.recordNew p).firstReceivedTime = _
      rw [recordNew_blank he]
      rfl
    · have hcur : current ≠ [] := fun hnil => he (h.effect.mpr hnil)
      rw [windowStart_append hcur, ← h.effectStart hcur]
      change (c.inEffectVector.recordNew p).firstReceivedTime = _
      rw [recordNew_spans he]
  · rw [hsmooth, ← h.smooth]
    rfl

theorem Follows.handOver (h : Follows F c [] current) (hcur : current ≠ []) :
    Follows F c.handOver current [] := by
  have hw := h.wait.mpr rfl
  refine ⟨⟨fun _ => rfl, fun _ => hw⟩, fun hnil => absurd rfl hnil, rfl, ?_, fun _ => ?_⟩
  · exact h.effect
  · change c.inEffectVector.firstReceivedTime + receiveDuration + c.getWaitDuration = _
    rw [h.effectStart hcur, getWaitDuration, h.smooth]
    rfl

/-- What a state of an in-order run is known to satisfy. -/
structure Tracks (F : Type) [FloatArith F] (c : ReceiverLossCollection) (now : Timestamp)
    (seen : List Nat) (waiting current : List PacketResult) : Prop where
  sound : Sound c now
  counted : Counted c seen
  follows : Follows F c waiting current

/-- The packet ends the window it is recorded in. -/
def Ends (current : List PacketResult) (p : PacketResult) : Prop :=
  p.receiveTime > windowStart (current ++ [p]) + receiveDuration

instance (current : List PacketResult) (p : PacketResult) : Decidable (Ends current p) :=
  inferInstanceAs (Decidable (_ > _))

variable {seen : List Nat}

theorem tracks_init : Tracks F {} .minusInfinity [] [] [] := ⟨sound_init, counted_init, follows_init⟩

/-- One packet of an in-order run: it succeeds, and closes a window only when none waits. -/
theorem Tracks.step (h : Tracks F c now seen waiting current) (hp : p.Valid)
    (ht : now ≤ p.receiveTime) (hab : ∀ n ∈ seen, n < p.number) :
    c.onTransportPacketFeedback F p = .ok ((c.afterFresh p).settle F p, c.reportAt p.receiveTime) ∧
      (Ends current p → (c.afterReport p.receiveTime).waitVector.receivedVector = [] ∧
        c.afterReportPackets p.receiveTime waiting = []) ∧
      Tracks F ((c.afterFresh p).settle F p) p.receiveTime (seen ++ [p.number])
        (if Ends current p then current ++ [p] else c.afterReportPackets p.receiveTime waiting)
        (if Ends current p then [] else current ++ [p]) := by
  obtain ⟨hf, hl⟩ := h.counted.above h.sound hp hab
  have hok := h.sound.step_fresh F hp ht hf hl
  have hsound := h.sound.afterFresh hp ht hl
  have hrec : Follows F ((c.afterFresh p).updateRtt F p)
      (c.afterReportPackets p.receiveTime waiting) (current ++ [p]) := h.follows.afterReport.record
  have hne : current ++ [p] ≠ [] := by simp
  have hstart : (c.afterFresh p).inEffectVector.firstReceivedTime = windowStart (current ++ [p]) :=
    hrec.effectStart hne
  have hempty : Ends current p → (c.afterReport p.receiveTime).waitVector.receivedVector = [] := by
    intro hend
    refine hsound.wait_empty (afterFresh_ne_nil c p) ?_
    rw [hstart]
    exact hend
  have hnone : Ends current p → c.afterReportPackets p.receiveTime waiting = [] :=
    fun hend => h.follows.afterReport.wait.mp (hempty hend)
  refine ⟨hok, fun hend => ⟨hempty hend, hnone hend⟩, h.sound.step F hp ht hok,
    (h.counted.step F h.sound hp ht (fun hin => absurd hin.2 (not_le.mpr hl)) hok).1, ?_⟩
  have hsettle : (c.afterFresh p).settle F p =
      if Ends current p then ((c.afterFresh p).updateRtt F p).handOver
      else (c.afterFresh p).updateRtt F p := by
    unfold ReceiverLossCollection.settle Ends
    rw [hstart]
    rfl
  rw [hsettle]
  by_cases hend : Ends current p
  · rw [if_pos hend, if_pos hend, if_pos hend]
    rw [hnone hend] at hrec
    exact hrec.handOver hne
  · rw [if_neg hend, if_neg hend, if_neg hend]
    exact hrec

/-- Two states that differ in smoothed delays and in the wait of a waiting window only. -/
structure Twin (c d : ReceiverLossCollection) : Prop where
  effect : d.inEffectVector = c.inEffectVector
  wait : d.waitVector = { c.waitVector with waitDuration := d.waitVector.waitDuration }
  empty : c.waitVector.receivedVector = [] → d.waitVector = c.waitVector

theorem Twin.reportAt (h : Twin c d) (hdue : c.ReportDue t ↔ d.ReportDue t) :
    d.reportAt t = c.reportAt t := by
  unfold ReceiverLossCollection.reportAt
  by_cases hc : c.ReportDue t
  · rw [if_pos hc, if_pos (hdue.mp hc), h.wait]
    rfl
  · rw [if_neg hc, if_neg fun hd => hc (hdue.mpr hd)]

theorem Twin.afterReport (h : Twin c d) (hdue : c.ReportDue t ↔ d.ReportDue t) :
    Twin (c.afterReport t) (d.afterReport t) := by
  unfold ReceiverLossCollection.afterReport
  by_cases hc : c.ReportDue t
  · rw [if_pos hc, if_pos (hdue.mp hc)]
    exact ⟨h.effect, rfl, fun _ => rfl⟩
  · rw [if_neg hc, if_neg fun hd => hc (hdue.mpr hd)]
    exact h

theorem Twin.record (h : Twin c d) (k : Int) :
    Twin { c with inEffectVector := c.inEffectVector.recordNew p }
      { d with inEffectVector := d.inEffectVector.recordNew (p.shiftSend k) } :=
  ⟨by rw [h.effect]; rfl, h.wait, h.empty⟩

theorem Twin.settle (h : Twin c d) (k : Int) (he : c.inEffectVector.receivedVector ≠ [])
    (hw : p.receiveTime > c.inEffectVector.firstReceivedTime + receiveDuration →
      c.waitVector.receivedVector = []) :
    Twin (c.settle F p) (d.settle F (p.shiftSend k)) := by
  unfold ReceiverLossCollection.settle
  rw [h.effect]
  by_cases hend : p.receiveTime > c.inEffectVector.firstReceivedTime + receiveDuration
  · have hempty := h.empty (hw hend)
    rw [if_pos hend, if_pos (by exact hend)]
    refine ⟨?_, ?_, fun hnil => absurd hnil he⟩
    · simp only [handOver, updateRtt, h.effect, hempty]
    · simp only [handOver, closedWindow, updateRtt, h.effect]
  · rw [if_neg hend, if_neg (by exact hend)]
    exact ⟨h.effect, h.wait, h.empty⟩

/-- Packets that continue an in-order run. -/
structure Upcoming (now : Timestamp) (seen : List Nat) (ps : List PacketResult) : Prop where
  valid : ∀ p ∈ ps, p.Valid
  later : ∀ p ∈ ps, now ≤ p.receiveTime
  ordered : ps.Pairwise fun p q => p.receiveTime ≤ q.receiveTime
  above : ∀ p ∈ ps, ∀ n ∈ seen, n < p.number
  increasing : ps.Pairwise fun p q => p.number < q.number

theorem Upcoming.tail {ps : List PacketResult} (h : Upcoming now seen (p :: ps)) :
    Upcoming p.receiveTime (seen ++ [p.number]) ps where
  valid q hq := h.valid q (List.mem_cons_of_mem _ hq)
  later := (List.pairwise_cons.mp h.ordered).1
  ordered := (List.pairwise_cons.mp h.ordered).2
  above q hq n hn := by
    rcases List.mem_append.mp hn with hn | hn
    · exact h.above q (List.mem_cons_of_mem _ hq) n hn
    · rw [List.mem_singleton.mp hn]
      exact (List.pairwise_cons.mp h.increasing).1 q hq
  increasing := (List.pairwise_cons.mp h.increasing).2

theorem InOrder.upcoming {ps : List PacketResult} (h : InOrder ps) : Upcoming .minusInfinity [] ps where
  valid := h.valid
  later _ _ := UnitBase.minusInfinity_le _
  ordered := h.ordered
  above _ _ n hn := absurd hn List.not_mem_nil
  increasing := by
    refine h.increasing.imp_of_mem fun {p q} hp hq hlt => ?_
    have hpn := (h.valid p hp).number_eq
    have hqn := (h.valid q hq).number_eq
    omega

theorem InOrder.shiftSend {ps : List PacketResult} (h : InOrder ps) (k : Int) :
    InOrder (ps.map (PacketResult.shiftSend k)) where
  valid q hq := by
    obtain ⟨p, hp, rfl⟩ := List.mem_map.mp hq
    exact h.valid p hp
  ordered := List.pairwise_map.mpr h.ordered
  increasing := List.pairwise_map.mpr h.increasing

/-- A packet past a deadline under both clocks leaves every later one past it too. -/
theorem sameSide_of_past {k : Int} {ps : List PacketResult} (hps : Upcoming now seen (p :: ps))
    (h : windowDeadline F waiting < p.receiveTime)
    (h' : windowDeadline F (waiting.map (PacketResult.shiftSend k)) < p.receiveTime) :
    ∀ q ∈ p :: ps, SameSide F k waiting q := by
  intro q hq
  have hle : p.receiveTime ≤ q.receiveTime := by
    rcases List.mem_cons.mp hq with rfl | hq
    · exact le_refl _
    · exact (List.pairwise_cons.mp hps.ordered).1 q hq
  exact ⟨fun _ => h'.trans_le hle, fun _ => h.trans_le hle⟩

theorem due_iff_sameSide {k : Int} (hc : Tracks F c now seen waiting current)
    (hd : Tracks F d now seen (waiting.map (PacketResult.shiftSend k))
      (current.map (PacketResult.shiftSend k))) :
    (c.ReportDue p.receiveTime ↔ d.ReportDue p.receiveTime) ↔
      (waiting ≠ [] → SameSide F k waiting p) := by
  rw [hc.follows.due_iff hc.sound, hd.follows.due_iff hd.sound]
  unfold SameSide
  by_cases hw : waiting = []
  · simp [hw]
  · simp [hw]

theorem ends_map_shiftSend (k : Int) :
    Ends (current.map (PacketResult.shiftSend k)) (p.shiftSend k) ↔ Ends current p := by
  have hmap : current.map (PacketResult.shiftSend k) ++ [p.shiftSend k] =
      (current ++ [p]).map (PacketResult.shiftSend k) := by simp
  unfold Ends
  rw [hmap, windowStart_map_shiftSend, PacketResult.shiftSend_receiveTime]

theorem closedWindows_cons_ends {ps : List PacketResult} (h : Ends current p) :
    closedWindows current (p :: ps) = (current ++ [p], ps) :: closedWindows [] ps := if_pos h

theorem closedWindows_cons_open {ps : List PacketResult} (h : ¬ Ends current p) :
    closedWindows current (p :: ps) = closedWindows (current ++ [p]) ps := if_neg h

theorem afterReportPackets_map {k : Int} (hdue : c.ReportDue t ↔ d.ReportDue t) :
    d.afterReportPackets t (waiting.map (PacketResult.shiftSend k)) =
      (c.afterReportPackets t waiting).map (PacketResult.shiftSend k) := by
  unfold afterReportPackets
  by_cases hc : c.ReportDue t
  · rw [if_pos hc, if_pos (hdue.mp hc), List.map_nil]
  · rw [if_neg hc, if_neg fun hd => hc (hdue.mpr hd)]

/-- While the two clocks agree on a report, the two states move in lockstep. -/
theorem lockstep {k : Int} (hc : Tracks F c now seen waiting current)
    (hd : Tracks F d now seen (waiting.map (PacketResult.shiftSend k))
      (current.map (PacketResult.shiftSend k)))
    (htwin : Twin c d) (hp : p.Valid) (ht : now ≤ p.receiveTime) (hab : ∀ n ∈ seen, n < p.number)
    (hdue : c.ReportDue p.receiveTime ↔ d.ReportDue p.receiveTime) :
    Twin ((c.afterFresh p).settle F p) ((d.afterFresh (p.shiftSend k)).settle F (p.shiftSend k)) ∧
      Tracks F ((d.afterFresh (p.shiftSend k)).settle F (p.shiftSend k)) p.receiveTime
        (seen ++ [p.number])
        ((if Ends current p then current ++ [p]
          else c.afterReportPackets p.receiveTime waiting).map (PacketResult.shiftSend k))
        ((if Ends current p then [] else current ++ [p]).map (PacketResult.shiftSend k)) := by
  constructor
  · have hl := (hc.counted.above hc.sound hp hab).2
    exact ((htwin.afterReport hdue).record k).settle (F := F) k (afterFresh_ne_nil c p)
      fun hend => (hc.sound.afterFresh hp ht hl).wait_empty (afterFresh_ne_nil c p) hend
  · obtain ⟨-, -, htrack⟩ := hd.step (p := p.shiftSend k) hp ht hab
    have hcur : current.map (PacketResult.shiftSend k) ++ [p.shiftSend k] =
        (current ++ [p]).map (PacketResult.shiftSend k) := by simp
    rw [PacketResult.shiftSend_receiveTime, PacketResult.shiftSend_number,
      afterReportPackets_map hdue, hcur] at htrack
    by_cases hend : Ends current p
    · rw [if_pos ((ends_map_shiftSend k).mpr hend), if_pos ((ends_map_shiftSend k).mpr hend)] at htrack
      rw [if_pos hend, if_pos hend]
      exact htrack
    · have hend' := fun h => hend ((ends_map_shiftSend k).mp h)
      rw [if_neg hend', if_neg hend'] at htrack
      rw [if_neg hend, if_neg hend]
      exact htrack

/-- Reports that are due under one clock only differ. -/
theorem reportAt_ne (h : ¬ (c.ReportDue t ↔ d.ReportDue t)) : d.reportAt t ≠ c.reportAt t := by
  intro heq
  have hupd := congrArg LossReportUpdate.updated heq
  rw [reportAt_updated, reportAt_updated, decide_eq_decide] at hupd
  exact h hupd.symm

/-- No packet to come lies between a deadline and its shifted one, neither of the waiting
window nor of those that the packets close. -/
def ClocksAgree (F : Type) [FloatArith F] (k : Int) (waiting current ps : List PacketResult) : Prop :=
  (waiting ≠ [] → ∀ q ∈ ps, SameSide F k waiting q) ∧
    ∀ x ∈ closedWindows current ps, ∀ q ∈ x.2, SameSide F k x.1 q

/-- Agreement on the packets to come is agreement on the next one and on those after it: a
report that is due leaves every later packet past both deadlines. -/
theorem clocksAgree_cons {k : Int} {ps : List PacketResult}
    (hpast : c.ReportDue p.receiveTime → ∀ q ∈ p :: ps, SameSide F k waiting q)
    (hside : waiting ≠ [] → SameSide F k waiting p)
    (hends : Ends current p → c.afterReportPackets p.receiveTime waiting = []) :
    ClocksAgree F k
        (if Ends current p then current ++ [p] else c.afterReportPackets p.receiveTime waiting)
        (if Ends current p then [] else current ++ [p]) ps ↔
      ClocksAgree F k waiting current (p :: ps) := by
  unfold ClocksAgree
  by_cases hend : Ends current p
  · -- the closed window is the first entry of the list, and none waits any more
    rw [if_pos hend, if_pos hend, closedWindows_cons_ends hend,
      List.forall_mem_cons (a := (current ++ [p], ps))]
    have hold : waiting ≠ [] → ∀ q ∈ p :: ps, SameSide F k waiting q := by
      intro hw
      refine hpast ?_
      by_contra hdue
      have hnil := hends hend
      rw [afterReportPackets, if_neg hdue] at hnil
      exact hw hnil
    exact ⟨fun h => ⟨hold, h.1 (by simp), h.2⟩, fun h => ⟨fun _ => h.2.1, h.2.2⟩⟩
  · rw [if_neg hend, if_neg hend, closedWindows_cons_open hend]
    refine and_congr_left fun _ => ?_
    unfold afterReportPackets
    by_cases hdue : c.ReportDue p.receiveTime
    · rw [if_pos hdue]
      exact ⟨fun _ _ => hpast hdue, fun _ hnil => absurd rfl hnil⟩
    · rw [if_neg hdue, List.forall_mem_cons]
      exact ⟨fun h hw => ⟨hside hw, h hw⟩, fun h hw => (h hw).2⟩

/-- From two states that follow the same packets under two clocks: the outputs agree
exactly when no packet lies between a deadline and its shifted one. The induction is on
the packets still to come. -/
theorem outputs_eq_iff (k : Int) {ps : List PacketResult} {c' d' : ReceiverLossCollection}
    {os os' : List LossReportUpdate} (hc : Tracks F c now seen waiting current)
    (hd : Tracks F d now seen (waiting.map (PacketResult.shiftSend k))
      (current.map (PacketResult.shiftSend k)))
    (htwin : Twin c d) (hps : Upcoming now seen ps)
    (hrun : run (onTransportPacketFeedback F) c ps = .ok (c', os))
    (hrun' : run (onTransportPacketFeedback F) d (ps.map (PacketResult.shiftSend k)) = .ok (d', os')) :
    os' = os ↔ ClocksAgree F k waiting current ps := by
  induction ps generalizing c d now seen waiting current os os' with
  | nil =>
      cases hrun
      cases hrun'
      simp [ClocksAgree, closedWindows]
  | cons p ps ih =>
      have hp := hps.valid p List.mem_cons_self
      have ht := hps.later p List.mem_cons_self
      have hab := hps.above p List.mem_cons_self
      obtain ⟨hok, hends, htrack⟩ := hc.step hp ht hab
      obtain ⟨hok', -⟩ := hd.step (p := p.shiftSend k) hp ht hab
      obtain ⟨os₁, hrun₁, rfl⟩ := run_cons_ok hok hrun
      obtain ⟨os₁', hrun₁', rfl⟩ := run_cons_ok hok' hrun'
      by_cases hdue : c.ReportDue p.receiveTime ↔ d.ReportDue p.receiveTime
      · obtain ⟨htwin₁, htrack'⟩ := lockstep hc hd htwin hp ht hab hdue
        have hpast : c.ReportDue p.receiveTime → ∀ q ∈ p :: ps, SameSide F k waiting q := by
          intro hc'
          obtain ⟨-, hlt⟩ := (hc.follows.due_iff hc.sound).mp hc'
          obtain ⟨-, hlt'⟩ := (hd.follows.due_iff hd.sound).mp (hdue.mp hc')
          exact sameSide_of_past hps hlt hlt'
        rw [PacketResult.shiftSend_receiveTime, htwin.reportAt hdue, List.cons_inj_right,
          ih htrack htrack' htwin₁ hps.tail hrun₁ hrun₁']
        exact clocksAgree_cons hpast ((due_iff_sameSide hc hd).mp hdue) fun hend => (hends hend).2
      · -- one clock reports here and the other does not
        refine iff_of_false (fun heq => reportAt_ne hdue (List.cons.inj heq).1) fun hall => hdue ?_
        exact (due_iff_sameSide hc hd).mpr fun hw => hall.1 hw p List.mem_cons_self

end Doubles

theorem inOrder_run_ok (F : Type) [FloatArith F] {ps : List PacketResult} (hi : InOrder ps) :
    ∃ c os, run (onTransportPacketFeedback F) {} ps = .ok (c, os) := by
  obtain ⟨os, c, ht⟩ := inOrder_runs F hi
  exact ⟨c, _, trace_iff_run.mp (ht.project fun _ _ _ _ => feedbackObserved_ok)⟩

/-- Packets in order succeed under both clocks, and the two sequences of reports agree if
and only if no packet after a closed window lies between its deadline as computed from
the send times given and its deadline as computed from the shifted ones. -/
theorem reports_offset_independent_iff (F : Type) [FloatArith F] (k : Int) (ps : List PacketResult)
    (hi : InOrder ps) :
    ∃ c os c' os', run (onTransportPacketFeedback F) {} ps = .ok (c, os) ∧
      run (onTransportPacketFeedback F) {} (ps.map (PacketResult.shiftSend k)) = .ok (c', os') ∧
      (os' = os ↔ ∀ x ∈ closedWindows [] ps, ∀ q ∈ x.2, SameSide F k x.1 q) := by
  obtain ⟨c, os, hrun⟩ := inOrder_run_ok F hi
  obtain ⟨c', os', hrun'⟩ := inOrder_run_ok F (hi.shiftSend k)
  refine ⟨c, os, c', os', hrun, hrun', ?_⟩
  rw [outputs_eq_iff k tracks_init tracks_init ⟨rfl, rfl, fun _ => rfl⟩ hi.upcoming hrun hrun']
  exact ⟨fun h => h.2, fun h => ⟨fun hnil => absurd rfl hnil, h⟩⟩

/-- A packet of an example with its send time, both times in milliseconds. -/
def timedPacket (sequenceNumber sendMs receiveMs : Int) : PacketResult where
  sentPacket := { sendTime := .micros (sendMs * 1000), sequenceNumber := sequenceNumber }
  receiveTime := .micros (receiveMs * 1000)

/-- A sender's clock one second behind makes the window wait longer, and its report late. -/
theorem report_depends_on_offset :
    InOrder [timedPacket 1 0 0, timedPacket 2 201 201, timedPacket 3 350 350] ∧
      outputs rationalStep {} [timedPacket 1 0 0, timedPacket 2 201 201, timedPacket 3 350 350] ≠
        outputs rationalStep {} ([timedPacket 1 0 0, timedPacket 2 201 201,
          timedPacket 3 350 350].map (PacketResult.shiftSend (-1000000))) :=
  ⟨⟨⟨by decide, by decide⟩, by decide⟩, by decide +kernel⟩

/-- The report comes 50 ms after its least deadline. -/
def reportedPackets : List PacketResult :=
  [timedPacket 1 0 0, timedPacket 2 201 201, timedPacket 3 350 350]

/-- With the sender's clock one microsecond less than 150 ms behind, the report still comes. -/
theorem reports_offset_independent_iff_example :
    (outputs rationalStep {} reportedPackets).map (·.updated) = [false, false, true] ∧
      outputs rationalStep {} (reportedPackets.map (PacketResult.shiftSend (-149999))) =
        outputs rationalStep {} reportedPackets ∧
      ∃ c os c' os', run rationalStep {} reportedPackets = .ok (c, os) ∧
        run rationalStep {} (reportedPackets.map (PacketResult.shiftSend (-149999))) = .ok (c', os') ∧
        (os' = os ↔ ∀ x ∈ closedWindows [] reportedPackets,
          ∀ q ∈ x.2, SameSide FloatArith.Rational (-149999) x.1 q) :=
  ⟨by decide +kernel, by decide +kernel, reports_offset_independent_iff FloatArith.Rational (-149999)
    reportedPackets ⟨⟨by decide, by decide⟩, by decide⟩⟩

end ReceiverLossCollection
end ChromeGcc
