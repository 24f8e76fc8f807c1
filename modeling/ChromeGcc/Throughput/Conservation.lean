import ChromeGcc.Throughput.Samples

/-! While no gap is longer than the rate window in force, no byte and no millisecond is
lost: each is in exactly one sample or still in the window. -/
namespace ChromeGcc
namespace BitrateEstimator
open FloatArith

variable {F : Type} [FloatArith F]

/-- The time from the first call to the last. -/
def elapsedMs (us : List Ack) : Int :=
  match us.head?, us.getLast? with
  | some first, some last => last.ms - first.ms
  | _, _ => 0

theorem elapsedMs_singleton (u : Ack) : elapsedMs [u] = 0 := Int.sub_self u.ms

theorem elapsedMs_between (first : Ack) (us : List Ack) (last : Ack) :
    elapsedMs (first :: us ++ [last]) = last.ms - first.ms := by
  unfold elapsedMs
  rw [List.getLast?_concat]
  rfl

theorem elapsedMs_snoc (us : List Ack) (last u : Ack) :
    elapsedMs (us ++ [last] ++ [u]) = elapsedMs (us ++ [last]) + (u.ms - last.ms) := by
  cases us with
  | nil =>
      change u.ms - last.ms = (last.ms - last.ms) + (u.ms - last.ms)
      omega
  | cons first us =>
      have hnext := elapsedMs_between first (us ++ [last]) u
      rw [← List.cons_append] at hnext
      rw [hnext, elapsedMs_between]
      omega

/-- Times in order, with no gap longer than the rate window that its call uses. -/
structure WithinWindows (F : Type) [FloatArith F] (us : List Ack) : Prop where
  ordered : us.Pairwise fun u v => u.ms ≤ v.ms
  gaps : ∀ done last u, done ++ [last] ++ [u] <+: us →
    u.ms - last.ms ≤ (afterAcks F (done ++ [last])).1.rateWindowMs

theorem WithinWindows.of_append {us vs : List Ack} (h : WithinWindows F (us ++ vs)) :
    WithinWindows F us :=
  ⟨(List.pairwise_append.mp h.ordered).1,
    fun done last u hd => h.gaps done last u (hd.trans (List.prefix_append us vs))⟩

section Rounded
variable {K : Type} [Field K] [LinearOrder K] [FloorRing K] {r : Rounding K}

/-- The bytes and the milliseconds of the samples and of the window are those of the calls. -/
structure Conserved (us : List Ack) (s : BitrateEstimator (Double r) × List (Sample (Double r))) :
    Prop where
  bytes : ∃ counts : List Int,
    List.Forall₂ (fun x bytes => x.kbps = sampleKbps (Double r) bytes x.windowMs) s.2 counts ∧
      counts.sum + s.1.sum = (us.map Ack.bytes).sum
  time : (s.2.map Sample.windowMs).sum + s.1.currentWindowMs = elapsedMs us

variable {s : BitrateEstimator (Double r) × List (Sample (Double r))}

theorem conserved_new : Conserved (r := r) [] ({}, []) := ⟨⟨[], .nil, rfl⟩, rfl⟩

variable [IsStrictOrderedRing K]

/-- A call that finds its bytes and its gap in the window. -/
theorem Conserved.record (hs : Started s) {us : List Ack} (h : Conserved us s) {u : Ack} (gap : Int)
    (hsum : (s.1.window.advance u.ms s.1.rateWindowMs).sum = s.1.sum)
    (hcurrent : (s.1.window.advance u.ms s.1.rateWindowMs).currentMs = s.1.currentWindowMs + gap)
    (helapsed : elapsedMs (us ++ [u]) = elapsedMs us + gap) :
    Conserved (us ++ [u]) (record s u) := by
  obtain ⟨counts, hcounts, hbytes⟩ := h.bytes
  have htime := h.time
  have htotal : ((us ++ [u]).map Ack.bytes).sum = (us.map Ack.bytes).sum + u.bytes := by
    rw [List.map_append, List.sum_append, List.map_singleton, List.sum_singleton]
  have hnewSum := sum_record s u
  have hnewCurrent := currentWindowMs_record s u
  by_cases he : s.1.window.Emits u.ms s.1.rateWindowMs
  · rw [windowAfter, RateWindow.next_of_emits he] at hnewSum hnewCurrent
    have hkbps : (s.1.sampleAt u).kbps =
        sampleKbps (Double r) s.1.sum (s.1.sampleAt u).windowMs := by
      rw [← hsum]
      exact (hs.sampleOf_eq he).1
    constructor
    · refine ⟨counts ++ [s.1.sum], ?_, ?_⟩
      · rw [hs.samples_record, if_pos he]
        exact List.rel_append hcounts (.cons hkbps .nil)
      · rw [hnewSum, htotal, List.sum_append, List.sum_singleton, hbytes]
    · have hwindowMs : (s.1.sampleAt u).windowMs = s.1.rateWindowMs := rfl
      rw [hnewCurrent, hs.samples_record, if_pos he, List.map_append, List.sum_append,
        List.map_singleton, List.sum_singleton, hwindowMs, hcurrent, helapsed]
      dsimp only
      omega
  · rw [windowAfter, RateWindow.next_of_not_emits he] at hnewSum hnewCurrent
    constructor
    · refine ⟨counts, ?_, ?_⟩
      · rw [hs.samples_record, if_neg he]
        exact hcounts
      · rw [hnewSum, htotal, hsum, ← add_assoc, hbytes]
    · rw [hnewCurrent, hs.samples_record, if_neg he, hcurrent, helapsed]
      omega

/-- The first call only sets the time. -/
theorem conserved_first (u : Ack) : Conserved [u] (afterAcks (Double r) [u]) := by
  have hadvance : RateWindow.advance {} u.ms kInitialRateWindowMs = { prevMs := u.ms } := by
    have hvalid := u.valid
    unfold RateWindow.advance
    rw [if_neg (by dsimp only [Ack.ms]; omega), if_pos (by decide)]
  refine conserved_new.record started_new 0 ?_ ?_ (elapsedMs_singleton u)
  · rw [started_new.rateWindowMs_eq]
    exact congrArg RateWindow.sum hadvance
  · rw [started_new.rateWindowMs_eq]
    exact congrArg RateWindow.currentMs hadvance

/-- A later call finds the bytes in the window and adds its gap. -/
theorem Conserved.next {done : List Ack} {last u : Ack}
    (hwithin : WithinWindows (Double r) (done ++ [last] ++ [u]))
    (h : Conserved (done ++ [last]) (afterAcks (Double r) (done ++ [last]))) :
    Conserved (done ++ [last] ++ [u]) (afterAcks (Double r) (done ++ [last] ++ [u])) := by
  have hprev := prevMs_afterAcks (F := Double r) done last
  have hgap := hwithin.gaps done last u (List.prefix_refl _)
  have hle : last.ms ≤ u.ms :=
    (List.pairwise_append.mp hwithin.ordered).2.2 last (by simp) u (by simp)
  have hadvance := RateWindow.advance_within
    (w := (afterAcks (Double r) (done ++ [last])).1.window)
    (hprev.symm ▸ last.valid) (hprev.le.trans hle) (hprev.symm ▸ hgap)
  rw [afterAcks_snoc]
  refine h.record (started_afterAcks _) _ (congrArg RateWindow.sum hadvance) ?_
    (elapsedMs_snoc done last u)
  rw [hadvance, ← hprev]
  rfl

theorem conserved_afterAcks {us : List Ack} (h : WithinWindows (Double r) us) :
    Conserved us (afterAcks (Double r) us) := by
  induction us using List.reverseRecOn with
  | nil => exact conserved_new
  | append_singleton us u ih =>
      have hbefore := ih h.of_append
      rcases List.eq_nil_or_concat' us with rfl | ⟨done, last, rfl⟩
      · exact conserved_first u
      · exact hbefore.next h

/-- The rate windows of the samples are those of the configuration. -/
theorem windowMs_afterAcks (us : List Ack) : ∀ x ∈ (afterAcks (Double r) us).2,
    0 < x.windowMs ∧ x.windowMs ≤ 2 ^ 24 := by
  induction us using List.reverseRecOn with
  | nil =>
      intro x hx
      cases hx
  | append_singleton us u ih =>
      have hstarted := started_afterAcks (r := r) us
      rw [afterAcks_snoc, hstarted.samples_record]
      split_ifs
      · intro x hx
        rcases List.mem_append.mp hx with hx | hx
        · exact ih x hx
        · rw [List.mem_singleton.mp hx]
          exact hstarted.rateWindowMs_bounds
      · exact ih

/-- The bytes of a sample, which carries eight bits for each of them. -/
def Sample.bytes (x : Sample (Double r)) : K := x.kbps.val * x.windowMs / 8

/-- Without rounding a sample gives its bytes back. -/
theorem sum_sample_bytes (hr : r.IsExact) {samples : List (Sample (Double r))} {counts : List Int}
    (h : List.Forall₂ (fun x bytes => x.kbps = sampleKbps (Double r) bytes x.windowMs) samples counts)
    (hwindow : ∀ x ∈ samples, 0 < x.windowMs ∧ x.windowMs ≤ 2 ^ 24) :
    (samples.map Sample.bytes).sum = (counts.sum : Int) := by
  induction h with
  | nil => simp
  | @cons x bytes samples counts hx _ ih =>
      have hsmall := hwindow x List.mem_cons_self
      have hpos : (0 : K) < x.windowMs := by exact_mod_cast hsmall.1
      have hbytes : x.bytes = (bytes : K) := by
        rw [Sample.bytes, hx, val_sampleKbps_exact hr hsmall.1 hsmall.2]
        field_simp
      rw [List.map_cons, List.sum_cons, List.sum_cons, Int.cast_add, hbytes,
        ih fun y hy => hwindow y (List.mem_cons_of_mem x hy)]

end Rounded

section Gaps
variable {K : Type} [Field K] [LinearOrder K] [FloorRing K] [IsStrictOrderedRing K] {r : Rounding K}

/-- The rate window is never shorter than the one used after the first sample. -/
theorem withinWindows_of_gaps {us : List Ack} (ordered : us.Pairwise fun u v => u.ms ≤ v.ms)
    (gaps : us.IsChain fun u v => v.ms - u.ms ≤ kRateWindowMs) : WithinWindows (Double r) us := by
  refine ⟨ordered, ?_⟩
  intro done last u ⟨rest, hus⟩
  have hgap : u.ms - last.ms ≤ kRateWindowMs := by
    rw [← hus, List.append_assoc, List.append_assoc] at gaps
    exact (List.isChain_append_cons_cons.mp gaps).2.1
  refine hgap.trans ?_
  rw [(started_afterAcks _).rateWindowMs_eq]
  split_ifs <;> decide

end Gaps

end BitrateEstimator
end ChromeGcc
