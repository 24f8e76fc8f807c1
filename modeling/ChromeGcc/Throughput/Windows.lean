import ChromeGcc.Base.Trace
import ChromeGcc.Throughput.Samples

/-! The first sample takes the initial rate window out of the time; what it leaves is held
against the shorter rate window of the calls after it. -/
namespace ChromeGcc
namespace BitrateEstimator
open FloatArith

section Windows
variable {F : Type} [FloatArith F]

/-- The window holds less time than the rate window that the next call will use. -/
def Below (s : BitrateEstimator F × List (Sample F)) : Prop :=
  0 ≤ s.1.currentWindowMs ∧ s.1.currentWindowMs < s.1.rateWindowMs

/-- Before there is an estimate, a call that does not reset the window finds in it less than
one initial and one later rate window. -/
def FirstSampleInTime (b : BitrateEstimator F) (u : Ack) : Prop :=
  b.bitrateEstimateKbps < flit 0 → 0 ≤ b.prevTimeMs → u.ms - b.prevTimeMs ≤ kInitialRateWindowMs →
    b.currentWindowMs + (u.ms - b.prevTimeMs) < kInitialRateWindowMs + kRateWindowMs

instance (b : BitrateEstimator F) (u : Ack) : Decidable (b.FirstSampleInTime u) :=
  inferInstanceAs (Decidable (_ → _ → _ → _))

def sampleTimes (s : BitrateEstimator F × List (Sample F)) : List Int := s.2.map Sample.atMs

/-- Every call of a run meets the condition in the state that it finds. -/
def InTime (F : Type) [FloatArith F] (us : List Ack) : Prop :=
  ∀ done u, done ++ [u] <+: us → (afterAcks F done).1.FirstSampleInTime u

theorem inTime_iff_take {us : List Ack} :
    InTime F us ↔ ∀ n, ∀ h : n < us.length, (afterAcks F (us.take n)).1.FirstSampleInTime us[n] := by
  constructor
  · intro hintime n h
    refine hintime (us.take n) us[n] ?_
    rw [List.take_append_getElem h]
    exact List.take_prefix (n + 1) us
  · rintro htake done u ⟨rest, rfl⟩
    simpa using htake done.length (by simp)

instance (us : List Ack) : Decidable (InTime F us) := decidable_of_iff _ inTime_iff_take.symm

/-- Not even a call repeated at its own time takes a second sample there. -/
def SamplesApart (F : Type) [FloatArith F] (us : List Ack) : Prop :=
  ∀ done last again, done ++ [last] <+: us → again.ms = last.ms →
    (sampleTimes (afterAcks F (done ++ [last] ++ [again]))).Nodup

theorem currentWindowMs_nonneg_of_emits {s : BitrateEstimator F × List (Sample F)} {u : Ack}
    (he : s.1.window.Emits u.ms s.1.rateWindowMs) : 0 ≤ (record s u).1.currentWindowMs := by
  have hfull : (s.1.window.advance u.ms s.1.rateWindowMs).currentMs ≥ s.1.rateWindowMs := he
  rw [currentWindowMs_record, windowAfter, RateWindow.next_of_emits he]
  exact Int.sub_nonneg.mpr hfull

end Windows

section Rounded
variable {K : Type} [Field K] [LinearOrder K] [FloorRing K] [IsStrictOrderedRing K] {r : Rounding K}
  {s : BitrateEstimator (Double r) × List (Sample (Double r))}

/-- A sample that the window is full for: what it leaves is below the later rate window
unless the first sample came too late. -/
theorem below_record_of_emits (hs : Started s) (h : Below s) {u : Ack}
    (he : s.1.window.Emits u.ms s.1.rateWindowMs) :
    Below (record s u) ↔ s.1.FirstSampleInTime u := by
  obtain ⟨hknown, hle, hgap⟩ := hs.emits_within he
  have hfull : s.1.window.Emits u.ms s.1.rateWindowMs := he
  have hadvance := RateWindow.advance_within (w := s.1.window) hknown hle hgap
  have hcurrent : (record s u).1.currentWindowMs =
      s.1.currentWindowMs + (u.ms - s.1.prevTimeMs) - s.1.rateWindowMs := by
    rw [currentWindowMs_record, windowAfter, RateWindow.next_of_emits he, hadvance]
    rfl
  have hwindow : (record s u).1.rateWindowMs = kRateWindowMs := by
    rw [(hs.record u).rateWindowMs_eq, hs.samples_record, if_pos he, if_neg (by simp)]
  unfold RateWindow.Emits at hfull
  rw [hadvance] at hfull
  have hfull : s.1.currentWindowMs + (u.ms - s.1.prevTimeMs) ≥ s.1.rateWindowMs := hfull
  have hbelow := h.2
  unfold Below FirstSampleInTime
  rw [hcurrent, hwindow, hs.estimate_neg_iff]
  rw [hs.rateWindowMs_eq] at hfull hgap hbelow ⊢
  unfold kInitialRateWindowMs kRateWindowMs at *
  split_ifs at * with hnil
  · constructor
    · intro hin _ _ _
      omega
    · intro hin
      have := hin hnil hknown hgap
      omega
  · constructor
    · intro _ hset
      exact absurd hset hnil
    · intro _
      omega

theorem below_record_of_not_emits (hs : Started s) (h : Below s) {u : Ack}
    (he : ¬ s.1.window.Emits u.ms s.1.rateWindowMs) :
    Below (record s u) ∧ s.1.FirstSampleInTime u := by
  have hcurrent : (record s u).1.currentWindowMs =
      (s.1.window.advance u.ms s.1.rateWindowMs).currentMs := by
    rw [currentWindowMs_record, windowAfter, RateWindow.next_of_not_emits he]
  have hwindow : (record s u).1.rateWindowMs = s.1.rateWindowMs := by
    rw [(hs.record u).rateWindowMs_eq, hs.samples_record, if_neg he, hs.rateWindowMs_eq]
  have hnot : (s.1.window.advance u.ms s.1.rateWindowMs).currentMs < s.1.rateWindowMs := not_le.mp he
  refine ⟨⟨?_, by rw [hcurrent, hwindow]; exact hnot⟩, ?_⟩
  · rw [hcurrent]
    exact RateWindow.currentMs_advance_nonneg h.1
  · intro hneg hknown hgap
    have hunset := hs.estimate_neg_iff.mp hneg
    have hbelow := h.2
    rw [hs.rateWindowMs_eq, if_pos hunset] at hnot hbelow
    by_cases hle : s.1.prevTimeMs ≤ u.ms
    · rw [RateWindow.advance_within hknown hle hgap] at hnot
      have hnot : s.1.currentWindowMs + (u.ms - s.1.prevTimeMs) < kInitialRateWindowMs := hnot
      unfold kInitialRateWindowMs kRateWindowMs at *
      omega
    · unfold kInitialRateWindowMs kRateWindowMs at *
      omega

theorem below_record_iff (hs : Started s) (h : Below s) (u : Ack) :
    Below (record s u) ↔ s.1.FirstSampleInTime u := by
  by_cases he : s.1.window.Emits u.ms s.1.rateWindowMs
  · exact below_record_of_emits hs h he
  · obtain ⟨hbelow, hintime⟩ := below_record_of_not_emits hs h he
    exact iff_of_true hbelow hintime

theorem below_new : Below (({}, []) : BitrateEstimator (Double r) × List (Sample (Double r))) := by
  refine ⟨le_refl _, ?_⟩
  rw [started_new.rateWindowMs_eq]
  exact (by decide : (0 : Int) < kInitialRateWindowMs)

/-- The windows stay below exactly when every call comes in time. -/
theorem below_iff_inTime (us : List Ack) :
    (∀ done, done <+: us → Below (afterAcks (Double r) done)) ↔ InTime (Double r) us := by
  refine Machine.foldl_all_iff (P := Below)
    (C := fun (s : BitrateEstimator (Double r) × List (Sample (Double r))) u => s.1.FirstSampleInTime u)
    below_new ?_ us
  intro done u h
  have hiff := below_record_iff (started_afterAcks (r := r) done) h u
  rw [← afterAcks_snoc] at hiff
  exact hiff

theorem sampleTimes_record (hs : Started s) (u : Ack) :
    sampleTimes (record s u) =
      if s.1.window.Emits u.ms s.1.rateWindowMs then sampleTimes s ++ [u.ms] else sampleTimes s := by
  unfold sampleTimes
  rw [hs.samples_record]
  split_ifs
  · rw [List.map_append]
    rfl
  · rfl

/-- A window that was below needs a gap to be full. -/
theorem prevTimeMs_lt_of_emits (hs : Started s) (h : Below s) {u : Ack}
    (he : s.1.window.Emits u.ms s.1.rateWindowMs) : s.1.prevTimeMs < u.ms := by
  obtain ⟨hknown, hle, hgap⟩ := hs.emits_within he
  have hfull := he
  unfold RateWindow.Emits at hfull
  rw [RateWindow.advance_within (w := s.1.window) hknown hle hgap] at hfull
  have hfull : s.1.currentWindowMs + (u.ms - s.1.prevTimeMs) ≥ s.1.rateWindowMs := hfull
  have hbelow := h.2
  omega

/-- A run whose samples come at later and later times, the last call's at most. -/
structure Increasing (s : BitrateEstimator (Double r) × List (Sample (Double r))) : Prop where
  times : (sampleTimes s).Pairwise (· < ·)
  past : ∀ t ∈ sampleTimes s, t ≤ s.1.prevTimeMs

theorem Increasing.step (hs : Started s) (hbelow : Below s) (h : Increasing s) {u : Ack}
    (hle : sampleTimes s ≠ [] → s.1.prevTimeMs ≤ u.ms) : Increasing (record s u) := by
  have hprev : (record s u).1.prevTimeMs = u.ms :=
    (congrArg RateWindow.prevMs (window_record s u)).trans RateWindow.prevMs_next
  by_cases he : s.1.window.Emits u.ms s.1.rateWindowMs
  · have hlater := prevTimeMs_lt_of_emits hs hbelow he
    constructor
    · rw [sampleTimes_record hs, if_pos he]
      refine List.pairwise_append.mpr ⟨h.times, List.pairwise_singleton _ _, ?_⟩
      intro t ht v hv
      rw [List.mem_singleton.mp hv]
      exact (h.past t ht).trans_lt hlater
    · intro t ht
      rw [sampleTimes_record hs, if_pos he] at ht
      rw [hprev]
      rcases List.mem_append.mp ht with ht | ht
      · exact (h.past t ht).trans hlater.le
      · exact (List.mem_singleton.mp ht).le
  · constructor
    · rw [sampleTimes_record hs, if_neg he]
      exact h.times
    · intro t ht
      rw [sampleTimes_record hs, if_neg he] at ht
      rw [hprev]
      exact (h.past t ht).trans (hle (List.ne_nil_of_mem ht))

/-- While the windows stay below, the samples come at later and later times. -/
theorem increasing_afterAcks {us : List Ack} (ordered : us.Pairwise fun u v => u.ms ≤ v.ms)
    (hbelow : ∀ done, done <+: us → Below (afterAcks (Double r) done)) :
    Increasing (afterAcks (Double r) us) := by
  induction us using List.reverseRecOn with
  | nil =>
      refine ⟨.nil, ?_⟩
      intro t ht
      cases ht
  | append_singleton us u ih =>
      obtain ⟨hordered, -, hlast⟩ := List.pairwise_append.mp ordered
      have hbefore := ih hordered fun done hd => hbelow done (hd.trans (List.prefix_append us [u]))
      rw [afterAcks_snoc]
      refine hbefore.step (started_afterAcks us) (hbelow us (List.prefix_append us [u])) ?_
      intro hne
      rcases List.eq_nil_or_concat' us with rfl | ⟨done, last, rfl⟩
      · exact absurd rfl hne
      · exact (prevMs_afterAcks done last).le.trans (hlast last (by simp) u (by simp))

/-- A call at the time of the one before it adds no time. -/
theorem advance_again {w : RateWindow} {rateWindowMs : Int} (hknown : 0 ≤ w.prevMs)
    (hw : 0 < rateWindowMs) : w.advance w.prevMs rateWindowMs = w := by
  rw [RateWindow.advance_within hknown (le_refl _) (by omega), Int.sub_self, Int.add_zero]

/-- A call repeated at its time takes a sample exactly when the window is not below. -/
theorem emits_again_iff (hs : Started s) (hknown : 0 ≤ s.1.prevTimeMs) {again : Ack}
    (hagain : again.ms = s.1.prevTimeMs) :
    s.1.window.Emits again.ms s.1.rateWindowMs ↔ s.1.currentWindowMs ≥ s.1.rateWindowMs := by
  have hadvance := advance_again (w := s.1.window) hknown hs.rateWindowMs_bounds.1
  unfold RateWindow.Emits
  rw [hagain]
  exact (congrArg (fun w => RateWindow.currentMs w ≥ s.1.rateWindowMs) hadvance).to_iff

/-- A call that leaves its window as full as it must not be has taken a sample, and the next
call at its time takes one more. -/
theorem not_nodup_again {us : List Ack} {last again : Ack} (hbefore : Below (afterAcks (Double r) us))
    (h : ¬ Below (afterAcks (Double r) (us ++ [last]))) (hagain : again.ms = last.ms) :
    ¬ (sampleTimes (afterAcks (Double r) (us ++ [last] ++ [again]))).Nodup := by
  have hstarted := started_afterAcks (r := r) us
  have hnext := started_afterAcks (r := r) (us ++ [last])
  have hprev : (afterAcks (Double r) (us ++ [last])).1.prevTimeMs = last.ms := prevMs_afterAcks us last
  have he : (afterAcks (Double r) us).1.window.Emits last.ms
      (afterAcks (Double r) us).1.rateWindowMs := by
    by_contra he
    rw [afterAcks_snoc] at h
    exact h (below_record_of_not_emits hstarted hbefore he).1
  have hnonneg : 0 ≤ (afterAcks (Double r) (us ++ [last])).1.currentWindowMs := by
    rw [afterAcks_snoc]
    exact currentWindowMs_nonneg_of_emits he
  have hfull : (afterAcks (Double r) (us ++ [last])).1.currentWindowMs ≥
      (afterAcks (Double r) (us ++ [last])).1.rateWindowMs := not_lt.mp fun hlt => h ⟨hnonneg, hlt⟩
  have hagainEmits := (emits_again_iff hnext (hprev ▸ last.valid) (hagain.trans hprev.symm)).mpr hfull
  rw [afterAcks_snoc, sampleTimes_record hnext, if_pos hagainEmits, afterAcks_snoc,
    sampleTimes_record hstarted, if_pos he, hagain]
  intro hnodup
  have hapart := (List.nodup_append.mp hnodup).2.2
  exact hapart last.ms (by simp) last.ms (by simp) rfl

/-- The samples stay apart, under any rounding, exactly when every call comes in time. -/
theorem samplesApart_iff_inTime {us : List Ack} (ordered : us.Pairwise fun u v => u.ms ≤ v.ms) :
    SamplesApart (Double r) us ↔ InTime (Double r) us := by
  rw [← below_iff_inTime]
  constructor
  · intro hapart done hd
    induction done using List.reverseRecOn with
    | nil => exact below_new
    | append_singleton done last ih =>
        have hbefore := ih ((List.prefix_append done [last]).trans hd)
        by_contra hnot
        exact not_nodup_again hbefore hnot rfl (hapart done last last hd rfl)
  · intro hbelow done last again hd hagain
    have hbefore := increasing_afterAcks (r := r) (ordered.sublist hd.sublist)
      fun first hfirst => hbelow first (hfirst.trans hd)
    have hnext := started_afterAcks (r := r) (done ++ [last])
    have hprev : (afterAcks (Double r) (done ++ [last])).1.prevTimeMs = last.ms :=
      prevMs_afterAcks done last
    rw [afterAcks_snoc]
    refine (hbefore.step hnext (hbelow _ hd) ?_).times.imp fun h => h.ne
    intro _
    exact (hprev.trans hagain.symm).le

/-- Every window stays below the next rate window, and no two samples have one time, exactly
when the first sample is taken in time. -/
theorem no_empty_interval_iff {us : List Ack} (ordered : us.Pairwise fun u v => u.ms ≤ v.ms) :
    ((∀ done, done <+: us → Below (afterAcks (Double r) done)) ↔ InTime (Double r) us) ∧
      (SamplesApart (Double r) us ↔ InTime (Double r) us) ∧
      (InTime (Double r) us → (sampleTimes (afterAcks (Double r) us)).Nodup) := by
  refine ⟨below_iff_inTime us, samplesApart_iff_inTime ordered, ?_⟩
  intro hintime
  have hincrease := increasing_afterAcks ordered ((below_iff_inTime us).mpr hintime)
  exact hincrease.times.imp fun h => h.ne

end Rounded

/-- The first sample leaves 140 ms, and the next two come when theirs are full. -/
theorem no_empty_interval_early :
    InTime Rational ([0, 400, 640, 660, 800].map ackAt) ∧
      sampleTimes (afterAcks Rational ([0, 400, 640, 660, 800].map ackAt)) = [640, 660, 800] ∧
      SamplesApart Rational ([0, 400, 640, 660, 800].map ackAt) ∧
      ∀ done, done <+: [0, 400, 640, 660, 800].map ackAt → Below (afterAcks Rational done) := by
  have hordered : ([0, 400, 640, 660, 800].map ackAt).Pairwise fun u v => u.ms ≤ v.ms := by decide
  have hintime : InTime Rational ([0, 400, 640, 660, 800].map ackAt) := by decide +kernel
  exact ⟨hintime, by decide +kernel, (no_empty_interval_iff hordered).2.1.mpr hintime,
    (no_empty_interval_iff hordered).1.mpr hintime⟩

/-- A first sample 800 ms after the first call leaves 300 ms, and the next call at that time
takes one more, of a single call's bytes. -/
theorem empty_interval_sampled :
    (([0, 400, 800, 800].map ackAt).Pairwise fun u v => u.ms ≤ v.ms) ∧
      sampleTimes (afterAcks Rational ([0, 400, 800, 800].map ackAt)) = [800, 800] ∧
      ¬ Below (afterAcks Rational ([0, 400, 800].map ackAt)) := by
  refine ⟨by decide, by decide +kernel, ?_⟩
  unfold Below
  decide +kernel

end BitrateEstimator
end ChromeGcc
