import ChromeGcc.Throughput.Conservation
import ChromeGcc.Throughput.Estimate

/-! Arrivals through a bottleneck: what it lets through while one rate window lasts bounds every
sample, and with the samples the estimate. -/
namespace ChromeGcc
namespace BitrateEstimator
open FloatArith

/-- Consecutive calls, where the clock does not step back, carry at most so many bits for each
millisecond, and one burst more. -/
def RateLimited (bitsPerMs burst : Nat) (us : List Ack) : Prop :=
  ∀ run, run <:+: us → run.Pairwise (fun u v => u.ms ≤ v.ms) →
    8 * (run.map Ack.bytes).sum ≤ bitsPerMs * elapsedMs run + burst

theorem RateLimited.of_append {bitsPerMs burst : Nat} {us vs : List Ack}
    (h : RateLimited bitsPerMs burst (us ++ vs)) : RateLimited bitsPerMs burst us :=
  fun run hrun => h run (hrun.trans (List.prefix_append us vs).isInfix)

/-- Where the last call is known and near, the window is moved by the gap; otherwise it is empty. -/
theorem sum_advance_far {w : RateWindow} {nowMs rateWindowMs : Int} (hunset : w.prevMs < 0 → w.sum = 0)
    (hfar : ¬ (0 ≤ w.prevMs ∧ w.prevMs ≤ nowMs ∧ nowMs - w.prevMs ≤ rateWindowMs)) :
    (w.advance nowMs rateWindowMs).sum = 0 := by
  unfold RateWindow.advance
  split_ifs with hback hneg hgap
  · rfl
  · exact hunset hneg
  · rfl
  · exact absurd ⟨not_lt.mp hneg, not_lt.mp hback, not_lt.mp hgap⟩ hfar

section Rounded
variable {K : Type} [Field K] [LinearOrder K] [FloorRing K] {r : Rounding K}
  {us : List Ack} {u : Ack} {s : BitrateEstimator (Double r) × List (Sample (Double r))}

/-- The window holds the bytes of the last calls, which took no more time than it has measured,
and no more than the rate window. -/
structure Recent (us : List Ack) (s : BitrateEstimator (Double r) × List (Sample (Double r))) :
    Prop where
  current : 0 ≤ s.1.currentWindowMs
  run : ∃ run, run <:+ us ∧ run.Pairwise (fun u v => u.ms ≤ v.ms) ∧
    s.1.sum = (run.map Ack.bytes).sum ∧ elapsedMs run ≤ s.1.currentWindowMs ∧
      elapsedMs run ≤ s.1.rateWindowMs

theorem Started.sum_of_unset (hs : Started s) (hunset : s.1.window.prevMs < 0) :
    s.1.window.sum = 0 := by
  rcases hs.live with hempty | ⟨hknown, -⟩
  · rw [hempty]
  · exact absurd hunset (not_lt.mpr hknown)

variable [IsStrictOrderedRing K]

theorem recent_single (hs : Started (record s u)) (hsum : (record s u).1.sum = u.bytes)
    (hcurrent : 0 ≤ (record s u).1.currentWindowMs) : Recent (us ++ [u]) (record s u) := by
  refine ⟨hcurrent, [u], List.suffix_append us [u], List.pairwise_singleton _ u, ?_, ?_, ?_⟩
  · rw [hsum, List.map_singleton, List.sum_singleton]
  · rw [elapsedMs_singleton]
    exact hcurrent
  · rw [elapsedMs_singleton]
    exact hs.rateWindowMs_bounds.1.le

theorem Recent.step (h : Recent us (afterAcks (Double r) us)) (u : Ack) :
    Recent (us ++ [u]) (afterAcks (Double r) (us ++ [u])) := by
  have hs := started_afterAcks (r := r) us
  have hnext := hs.record u
  obtain ⟨hcurrent, run, hsuffix, hordered, hsum, hmeasured, hwithin⟩ := h
  rw [afterAcks_snoc]
  generalize hstate : afterAcks (Double r) us = s at *
  have hnewSum := sum_record s u
  have hnewCurrent := currentWindowMs_record s u
  by_cases hnear : 0 ≤ s.1.window.prevMs ∧ s.1.window.prevMs ≤ u.ms ∧
      u.ms - s.1.window.prevMs ≤ s.1.rateWindowMs
  · obtain ⟨hknown, hle, hgap⟩ := hnear
    have hadvance := RateWindow.advance_within (w := s.1.window) hknown hle hgap
    by_cases he : s.1.window.Emits u.ms s.1.rateWindowMs
    · rw [windowAfter, RateWindow.next_of_emits he] at hnewSum hnewCurrent
      refine recent_single hnext hnewSum ?_
      rw [hnewCurrent]
      exact sub_nonneg.mpr he
    · have hlow := not_le.mp he
      rw [windowAfter, RateWindow.next_of_not_emits he, hadvance] at hnewSum hnewCurrent
      rw [hadvance] at hlow
      have hwindow : (record s u).1.rateWindowMs = s.1.rateWindowMs := by
        rw [record_of_not_emits he]
        rfl
      -- the bytes in the window are those of calls, so that the last one is among them
      obtain ⟨before, last, rfl⟩ : ∃ before last, run = before ++ [last] := by
        rcases List.eq_nil_or_concat' run with rfl | hrun
        · rcases hs.live with hempty | ⟨-, hpos⟩
          · rw [hempty] at hknown
            exact absurd hknown (by decide)
          · exact absurd hsum hpos.ne'
        · exact hrun
      obtain ⟨done, rfl⟩ := hsuffix
      have hprev : s.1.window.prevMs = last.ms := by
        rw [← hstate, ← List.append_assoc]
        exact prevMs_afterAcks (done ++ before) last
      rw [hprev] at hle hlow hnewCurrent
      have helapsed := elapsedMs_snoc before last u
      have hmeasured' : elapsedMs (before ++ [last] ++ [u]) ≤ (record s u).1.currentWindowMs := by
        rw [helapsed, hnewCurrent]
        exact add_le_add_left hmeasured _
      refine ⟨?_, before ++ [last] ++ [u], ?_, ?_, ?_, hmeasured', ?_⟩
      · rw [hnewCurrent]
        exact add_nonneg hcurrent (sub_nonneg.mpr hle)
      · rw [List.append_assoc done]
        exact List.suffix_append done _
      · refine List.pairwise_append.mpr ⟨hordered, List.pairwise_singleton _ u, ?_⟩
        intro v hv w hw
        rw [List.mem_singleton.mp hw]
        refine le_trans ?_ hle
        rcases List.mem_append.mp hv with hv | hv
        · exact (List.pairwise_append.mp hordered).2.2 v hv last (List.mem_singleton_self last)
        · rw [List.mem_singleton.mp hv]
      · rw [hnewSum, List.map_append, List.sum_append, List.map_singleton, List.sum_singleton, ← hsum]
        rfl
      · refine hmeasured'.trans ?_
        rw [hnewCurrent, hwindow]
        exact hlow.le
  · have he : ¬ s.1.window.Emits u.ms s.1.rateWindowMs := mt hs.emits_within hnear
    have hempty := sum_advance_far hs.sum_of_unset hnear
    rw [windowAfter, RateWindow.next_of_not_emits he] at hnewSum hnewCurrent
    refine recent_single hnext ?_ ?_
    · rw [hnewSum, hempty, zero_add]
    · rw [hnewCurrent]
      exact RateWindow.currentMs_advance_nonneg hcurrent

theorem recent_afterAcks (us : List Ack) : Recent us (afterAcks (Double r) us) := by
  induction us using List.reverseRecOn with
  | nil => exact ⟨le_refl _, [], List.suffix_refl _, List.Pairwise.nil, rfl, le_refl _,
      started_new.rateWindowMs_bounds.1.le⟩
  | append_singleton us u ih => exact ih.step u

end Rounded

section Exact
variable {K : Type} [Field K] [LinearOrder K] [FloorRing K] [IsStrictOrderedRing K] {r : Rounding K}
  {us : List Ack} {bitsPerMs burst : Nat}

/-- A sample carries the bits of at most one rate window, and of one burst. -/
theorem sampleOf_le (hr : r.IsExact) (hl : RateLimited bitsPerMs burst us) {u : Ack}
    (he : (afterAcks (Double r) us).1.window.Emits u.ms (afterAcks (Double r) us).1.rateWindowMs) :
    ((afterAcks (Double r) us).1.sampleOf u).val ≤ bitsPerMs + burst / 150 := by
  have hs := started_afterAcks (r := r) us
  obtain ⟨-, run, hsuffix, hordered, hsum, -, hwithin⟩ := recent_afterAcks (r := r) us
  obtain ⟨hknown, hle, hgap⟩ := hs.emits_within he
  have hadvance := RateWindow.advance_within (w := (afterAcks (Double r) us).1.window) hknown hle hgap
  have hwindow : 150 ≤ (afterAcks (Double r) us).1.rateWindowMs := by
    rw [hs.rateWindowMs_eq]
    split_ifs <;> decide
  have hbits : 8 * (afterAcks (Double r) us).1.window.sum ≤
      bitsPerMs * (afterAcks (Double r) us).1.rateWindowMs + burst := by
    calc 8 * (afterAcks (Double r) us).1.window.sum = 8 * (run.map Ack.bytes).sum := by rw [← hsum]; rfl
      _ ≤ bitsPerMs * elapsedMs run + burst := hl run hsuffix.isInfix hordered
      _ ≤ _ := by gcongr
  rw [(hs.sampleOf_eq he).1, hadvance,
    val_sampleKbps_exact hr hs.rateWindowMs_bounds.1 hs.rateWindowMs_bounds.2]
  generalize (afterAcks (Double r) us).1.rateWindowMs = windowMs at hwindow hbits ⊢
  have hwindowK : (150 : K) ≤ windowMs := by exact_mod_cast hwindow
  have hbitsK : 8 * ((afterAcks (Double r) us).1.window.sum : K) ≤ bitsPerMs * windowMs + burst := by
    exact_mod_cast hbits
  have hpos : (0 : K) < windowMs := by linarith
  calc (8 * ((afterAcks (Double r) us).1.window.sum : K)) / windowMs
      ≤ (bitsPerMs * windowMs + burst) / windowMs := by gcongr
    _ = bitsPerMs + burst / windowMs := by field_simp
    _ ≤ bitsPerMs + burst / 150 := by gcongr

theorem samples_le (hr : r.IsExact) (hl : RateLimited bitsPerMs burst us) :
    ∀ x ∈ (afterAcks (Double r) us).2, x.kbps.val ≤ bitsPerMs + burst / 150 := by
  induction us using List.reverseRecOn with
  | nil =>
      intro x hx
      cases hx
  | append_singleton us u ih =>
      have hbefore := ih hl.of_append
      rw [afterAcks_snoc, (started_afterAcks us).samples_record]
      split_ifs with he
      · intro x hx
        rcases List.mem_append.mp hx with hx | hx
        · exact hbefore x hx
        · rw [List.mem_singleton.mp hx]
          exact sampleOf_le hr hl.of_append he
      · exact hbefore

/-- The rate that the estimator reports, in bits per second. -/
theorem bitrate_le (hr : r.IsExact) (hl : RateLimited bitsPerMs burst us) {x : DataRate}
    (hx : (afterAcks (Double r) us).1.bitrate = some x) :
    ∃ v : Int, x = .finite v ∧ 0 ≤ v ∧ 3 * v ≤ 3000 * bitsPerMs + 20 * burst := by
  unfold bitrate at hx
  split_ifs at hx with hunset
  cases hx
  have hwithin := within_afterAcks hr us
  obtain ⟨lo, hlo, hi, hhi, hle, hge⟩ := hwithin.between hunset
  have hnonneg : 0 ≤ (afterAcks (Double r) us).1.bitrateEstimateKbps.val :=
    (hwithin.positive lo hlo).le.trans hle
  have hmost := hge.trans (samples_le hr hl hi hhi)
  have hval : (fmul (afterAcks (Double r) us).1.bitrateEstimateKbps (fint 1000) : Double r).val =
      (afterAcks (Double r) us).1.bitrateEstimateKbps.val * 1000 := by
    rw [val_fmul_exact hr, val_fint (by norm_num)]
    norm_num
  refine ⟨_, rfl, ?_, ?_⟩
  · rw [trunc_eq, hval]
    exact truncField_nonneg (by positivity)
  · have hfloor : ((trunc (fmul (afterAcks (Double r) us).1.bitrateEstimateKbps (fint 1000) : Double r) :
        Int) : K) ≤ (afterAcks (Double r) us).1.bitrateEstimateKbps.val * 1000 := by
      rw [trunc_eq, hval, truncField, if_pos (by positivity)]
      exact Int.floor_le _
    generalize trunc (fmul (afterAcks (Double r) us).1.bitrateEstimateKbps (fint 1000) : Double r) = v
      at hfloor ⊢
    have hcast : (3 * v : K) ≤ 3000 * bitsPerMs + 20 * burst := by linarith
    exact_mod_cast hcast

end Exact

end BitrateEstimator
end ChromeGcc
