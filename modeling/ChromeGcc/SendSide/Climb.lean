import ChromeGcc.SendSide.Fall

/-! How fast the target must rise. Under low loss a report takes the target at least eight percent
above what it was a second before, so it grows without end up to its limit. -/
namespace ChromeGcc
namespace SendSideBandwidthEstimation
open FloatArith UnitBase

section Runs
variable {F : Type} [FloatArith F]

/-- After a time every report that completes enough packets leaves a loss of at most two percent. -/
def LowLossAfter (F : Type) [FloatArith F] (calls : List (Timestamp × Call)) (s : Timestamp) : Prop :=
  ∀ before u lost n after, calls = before ++ (u, .updatePacketsLost lost n) :: after → s < u →
    (afterCalls F before).Completes n →
      ((afterCalls F before).updatePacketsLost lost n u).lastFractionLoss ≤ 5

/-- Between two times a report completes enough packets. -/
def CompletesWithin (F : Type) [FloatArith F] (calls : List (Timestamp × Call)) (s t : Timestamp) :
    Prop :=
  ∃ before u lost n after, calls = before ++ (u, .updatePacketsLost lost n) :: after ∧ s < u ∧ u ≤ t ∧
    (afterCalls F before).Completes n

theorem LowLossAfter.later {calls : List (Timestamp × Call)} {s t : Timestamp}
    (h : LowLossAfter F calls s) (hst : s ≤ t) : LowLossAfter F calls t :=
  fun before u lost n after hcalls hu => h before u lost n after hcalls (hst.trans_lt hu)

/-- The calls up to a time, and those after it, around a call that is neither the first after it
nor the last up to another. -/
theorem callsUntil_around {before after : List (Timestamp × Call)} {u : Timestamp} {c : Call}
    (h : InOrder (before ++ (u, c) :: after)) {s t : Timestamp} (hu : s < u) (hut : u ≤ t) :
    callsUntil (before ++ (u, c) :: after) s = callsUntil before s ∧
      callsUntil (before ++ (u, c) :: after) t = before ++ [(u, c)] ++ callsUntil after t := by
  obtain ⟨-, hlater, hacross⟩ := List.pairwise_append.mp h
  have hafter : ∀ d ∈ (u, c) :: after, u ≤ d.1 := by
    intro d hd
    rcases List.mem_cons.mp hd with rfl | hd
    · exact le_refl _
    · exact (List.pairwise_cons.mp hlater).1 d hd
  have hnone : callsUntil ((u, c) :: after) s = [] :=
    List.filter_eq_nil_iff.mpr fun d hd => by simpa using hu.trans_le (hafter d hd)
  have hall : callsUntil before t = before :=
    List.filter_eq_self.mpr fun d hd => by
      simpa using (hacross d hd (u, c) List.mem_cons_self).trans hut
  have hone : callsUntil ((u, c) :: after) t = (u, c) :: callsUntil after t :=
    List.filter_cons_of_pos (by simpa using hut)
  constructor
  · rw [callsUntil, List.filter_append, ← callsUntil, ← callsUntil, hnone, List.append_nil]
  · rw [callsUntil, List.filter_append, ← callsUntil, ← callsUntil, hall, hone]
    simp

theorem StartPhaseOver.append {calls : List (Timestamp × Call)} {s : Timestamp}
    (h : StartPhaseOver (afterCalls F calls) s) (more : List (Timestamp × Call)) :
    StartPhaseOver (afterCalls F (calls ++ more)) s := by
  induction more using List.reverseRecOn with
  | nil =>
      rw [List.append_nil]
      exact h
  | append_singleton more c ih =>
      rw [← List.append_assoc, show c = (c.1, c.2) from rfl, afterCalls_snoc]
      exact ih.call c.2

theorem StartPhaseOver.until {calls : List (Timestamp × Call)} {s t : Int}
    (hover : StartPhaseOver (afterCalls F (callsUntil calls (.finite s))) (.finite (s - 1000000)))
    (h : InOrder calls) (hst : s ≤ t) :
    StartPhaseOver (afterCalls F (callsUntil calls (.finite t))) (.finite (t - 1000000)) := by
  have hlate : InOrder (callsUntil calls (.finite t)) := h.sublist List.filter_sublist
  have hsplit := callsUntil_append_after hlate (.finite s)
  rw [callsUntil_callsUntil (finite_le_finite.mpr hst)] at hsplit
  rw [← hsplit]
  exact (hover.append _).later (by omega)

end Runs

section Steps
variable {K : Type} [Field K] [LinearOrder K] [FloorRing K] [IsStrictOrderedRing K]
  {r : Rounding K} {e : SendSideBandwidthEstimation (Double r)} {s t since : Timestamp} {rate : DataRate}
  {jump : Option (Timestamp × DataRate)}

/-- The target is not below a rate, nor is an entry of the history that is later than a time. -/
structure Climbing (r : Rounding K) (s : Timestamp) (rate : DataRate) (c : Core (Double r)) : Prop where
  kept : rate ≤ c.target
  recent : ∀ h ∈ c.history, s < h.1 → rate ≤ h.2

/-- What a report of low loss does after the start phase. -/
theorem lowLoss_report (hreg : e.core.Regular) (hover : StartPhaseOver e s) (hst : s ≤ t)
    (ht : t.isFinite = true) {lost n : Int} (hn : e.Completes n)
    (hlow : (e.updatePacketsLost lost n t).lastFractionLoss ≤ 5) :
    ∃ front rest, e.core.pushed t = front :: rest ∧
      (e.updatePacketsLost lost n t).core.history = e.core.pushed t ∧
      (e.updatePacketsLost lost n t).core.target =
        e.core.clamp (increasedBitrate (Double r) front.2) := by
  obtain ⟨v, hv⟩ := isFinite_iff.mp ht
  have hstep := core_updatePacketsLost hn lost t
  have hkept := core_reported e lost n t
  have hloss : (e.reported lost n t).lastFractionLoss ≤ 5 := by
    rw [← fractionLoss_updateEstimate _ t, ← hstep]
    exact hlow
  have hsame : (e.reported lost n t).core.pushed t = e.core.pushed t := by
    rw [hkept]
    rfl
  obtain ⟨front, rest, hpush, hfront⟩ := minHistoryFront_updateMinHistory (e.reported lost n t) t
  refine ⟨front, rest, hsame.symm.trans hpush, ?_⟩
  rw [hstep]
  rcases updateEstimate_cases (e.reported lost n t) t with
    ⟨hjump, -⟩ | ⟨-, -, hcore⟩ | ⟨-, hnot, -⟩
  · exact absurd hjump (hover.not_jumps hst lost n)
  · rw [hcore, hfront]
    refine ⟨hsame, ?_⟩
    rw [hkept]
    rfl
  · exact absurd (lowLoss_of_report (regular_reported hreg lost n t) hv
      (lastLossPacketReport_reported e lost n t) hloss) hnot

theorem climbing_call (hreg : e.core.Regular) (hramp : Ramp r e.core.history e.core.target jump t)
    (hexpired : ∀ tj rj, jump = some (tj, rj) → historyExpired t tj = true)
    (hover : StartPhaseOver e s) (hst : s ≤ t) (ht : t.isFinite = true) (c : Call)
    (hlow : ∀ lost n, c = .updatePacketsLost lost n → e.Completes n →
      (e.updatePacketsLost lost n t).lastFractionLoss ≤ 5)
    (h : Climbing r since rate e.core) : Climbing r since rate (e.call t c).core := by
  cases c with
  | updateReceiverEstimate bandwidth =>
      rw [call, core_updateReceiverEstimate, hreg.clamp_of_inRange hreg.target]
      exact ⟨h.kept, h.recent⟩
  | updatePacketsLost lost n =>
      by_cases hn : e.Completes n
      · obtain ⟨front, rest, hpush, hhistory, htarget⟩ :=
          lowLoss_report hreg hover hst ht hn (hlow lost n rfl hn)
        have hmem : front ∈ e.core.pushed t := by
          rw [hpush]
          exact List.mem_cons_self
        have hrate : InRange front.2 := hramp.inRange_push hreg.target hmem
        constructor
        · rw [call, htarget]
          refine h.kept.trans ?_
          refine (hreg.le_clamp_iff hreg.target (hrate.1.trans hrate.le_increased)).mpr ?_
          refine (hramp.target_le_increase_iff hreg.target hpush).mpr ?_
          intro tj rj hjump
          exact .inl (hexpired tj rj hjump)
        · rw [call, hhistory]
          intro entry hentry hlater
          rcases MinQueue.mem_push hentry with hentry | rfl
          · exact h.recent entry hentry hlater
          · exact h.kept
      · rw [call, core_updatePacketsLost_accumulate hn]
        exact h

/-- A report a second later takes the target to an increase of the rate. -/
theorem Climbing.climbs (hreg : e.core.Regular) (hramp : Ramp r e.core.history e.core.target jump t)
    (hover : StartPhaseOver e s) (hst : s ≤ t) (ht : t.isFinite = true) {lost n : Int}
    (hn : e.Completes n) (hlow : (e.updatePacketsLost lost n t).lastFractionLoss ≤ 5)
    (hlater : historyExpired t since = true) (hrate : InRange rate) (h : Climbing r since rate e.core) :
    min (increasedBitrate (Double r) rate) kDefaultMaxBitrate ≤
      (e.updatePacketsLost lost n t).core.target := by
  obtain ⟨front, rest, hpush, -, htarget⟩ := lowLoss_report hreg hover hst ht hn hlow
  have hmem : front ∈ e.core.pushed t := by
    rw [hpush]
    exact List.mem_cons_self
  have hfront : InRange front.2 := hramp.inRange_push hreg.target hmem
  have hle : rate ≤ front.2 := by
    rcases MinQueue.front_push hpush with rfl | ⟨hold, hfresh⟩
    · exact h.kept
    · refine h.recent front hold (not_le.mp fun hearly => ?_)
      rw [historyExpired_anti hearly hlater] at hfresh
      cases hfresh
  rw [htarget, hreg.clamp_eq]
  refine le_trans ?_ (le_max_right _ _)
  exact min_le_min_right _ (hrate.increased_mono hfront hle)

end Steps

section Climbs
variable {K : Type} [Field K] [LinearOrder K] [FloorRing K] [IsStrictOrderedRing K]
  {r : Rounding K} {calls before mid after : List (Timestamp × Call)} {s t : Int} {rate : DataRate}

/-- At a call after the start phase the history bounds the target, and the latest jump has expired. -/
theorem ready_afterCalls {u : Timestamp} {c : Call} (h : InOrder (before ++ [(u, c)]))
    (hover : StartPhaseOver (afterCalls (Double r) before) (.finite (s - 1000000)))
    (hu : .finite s ≤ u) :
    Ramp r (afterCalls (Double r) before).core.history (afterCalls (Double r) before).core.target
        (latestJump (Double r) before) u ∧
      ∀ tj rj, latestJump (Double r) before = some (tj, rj) → historyExpired u tj = true := by
  obtain ⟨hbefore, hpast⟩ := h.of_snoc
  refine ⟨ramp_afterCalls hbefore hpast, ?_⟩
  intro tj rj hj
  exact historyExpired_mono hu (historyExpired_latestJump hbefore hover hj)

/-- The target does not fall below the rate through any calls of low loss. -/
theorem climbing_append {since : Timestamp} (h : InOrder (before ++ mid ++ after))
    (hover : StartPhaseOver (afterCalls (Double r) before) (.finite (s - 1000000)))
    (hlow : LowLossAfter (Double r) (before ++ mid ++ after) (.finite s))
    (hmid : ∀ c ∈ mid, .finite s < c.1 ∧ c.1.isFinite = true)
    (hstart : Climbing r since rate (afterCalls (Double r) before).core) :
    Climbing r since rate (afterCalls (Double r) (before ++ mid)).core := by
  induction mid using List.reverseRecOn generalizing after with
  | nil =>
      rw [List.append_nil]
      exact hstart
  | append_singleton mid c ih =>
      obtain ⟨u, c⟩ := c
      have hsplit : before ++ (mid ++ [(u, c)]) ++ after = before ++ mid ++ (u, c) :: after := by simp
      rw [hsplit] at h hlow
      obtain ⟨hlate, hfinite⟩ := hmid (u, c) (by simp)
      have hbefore := ih h hlow fun d hd => hmid d (List.mem_append_left _ hd)
      have hprefix : InOrder (before ++ mid ++ [(u, c)]) := by
        refine h.sublist (List.Sublist.append_left ?_ _)
        exact List.Sublist.cons_cons _ (List.nil_sublist after)
      obtain ⟨hramp, hexpired⟩ := ready_afterCalls hprefix (hover.append mid) hlate.le
      rw [← List.append_assoc, afterCalls_snoc]
      refine climbing_call (regular_afterCalls _) hramp hexpired
        ((hover.append mid).later (by omega : s - 1000000 ≤ s)) hlate.le hfinite c ?_ hbefore
      rintro lost n rfl hn
      exact hlow (before ++ mid) u lost n after rfl hlate hn

/-- Right after some calls no entry of the history is later than they are. -/
theorem climbing_of_past {since : Timestamp} (h : InOrder calls) (hpast : ∀ c ∈ calls, c.1 ≤ since)
    (hrate : rate ≤ (afterCalls (Double r) calls).currentTarget) :
    Climbing r since rate (afterCalls (Double r) calls).core where
  kept := hrate
  recent entry hentry hlater :=
    absurd hlater (not_lt.mpr ((ramp_afterCalls (r := r) h hpast).past entry hentry))

/-- Up to a call the target does not fall below what it was at a time before. -/
theorem climbing_until {u : Timestamp} {c : Call} (h : InOrder (before ++ (u, c) :: after))
    (hover : StartPhaseOver (afterCalls (Double r) (callsUntil before (.finite s)))
      (.finite (s - 1000000)))
    (hlow : LowLossAfter (Double r) (before ++ (u, c) :: after) (.finite s))
    (hfinite : u.isFinite = true) :
    StartPhaseOver (afterCalls (Double r) before) (.finite (s - 1000000)) ∧
      Climbing r (.finite s) (targetAt (Double r) before (.finite s))
        (afterCalls (Double r) before).core := by
  have hbefore : InOrder before := h.sublist (List.sublist_append_left _ _)
  have hsplit := callsUntil_append_after hbefore (.finite s)
  have hstart : Climbing r (.finite s) (targetAt (Double r) before (.finite s))
      (afterCalls (Double r) (callsUntil before (.finite s))).core := by
    refine climbing_of_past (hbefore.sublist List.filter_sublist) ?_ (le_refl _)
    intro d hd
    simpa [callsUntil] using (List.mem_filter.mp hd).2
  have hmid : ∀ d ∈ before.filter (fun d => decide (.finite s < d.1)),
      .finite s < d.1 ∧ d.1.isFinite = true := by
    intro d hd
    obtain ⟨hmem, hlater⟩ := List.mem_filter.mp hd
    have hsd : .finite s < d.1 := by simpa using hlater
    have hdu : d.1 ≤ u := (List.pairwise_append.mp h).2.2 d hmem (u, c) List.mem_cons_self
    obtain ⟨v, rfl⟩ := isFinite_iff.mp hfinite
    exact ⟨hsd, isFinite_iff.mpr (exists_finite_between hsd.le hdu)⟩
  have horder : InOrder (callsUntil before (.finite s) ++
      before.filter (fun d => decide (.finite s < d.1)) ++ (u, c) :: after) := by
    rw [hsplit]
    exact h
  have hclimbing := climbing_append horder hover (by rw [hsplit]; exact hlow) hmid hstart
  have hkept := hover.append (before.filter fun d => decide (.finite s < d.1))
  rw [hsplit] at hclimbing hkept
  exact ⟨hkept, hclimbing⟩

/-- A report a second after a time takes the target to an increase of what it was, and it stays
there. -/
theorem climbs_between (h : InOrder calls)
    (hover : StartPhaseOver (afterCalls (Double r) (callsUntil calls (.finite s)))
      (.finite (s - 1000000)))
    (hlow : LowLossAfter (Double r) calls (.finite s))
    (hreport : CompletesWithin (Double r) calls (.finite (s + 1000000)) (.finite t)) :
    min (increasedBitrate (Double r) (targetAt (Double r) calls (.finite s))) kDefaultMaxBitrate ≤
      targetAt (Double r) calls (.finite t) := by
  obtain ⟨before, u, lost, n, after, rfl, hu, hut, hn⟩ := hreport
  have hsu : (.finite s : Timestamp) < u := (finite_lt_finite.mpr (by omega)).trans hu
  have hfinite : u.isFinite = true := isFinite_iff.mpr (exists_finite_between hsu.le hut)
  have hlater : historyExpired u (.finite s) = true := by
    refine historyExpired_mono hu.le ?_
    rw [historyExpired_finite, decide_eq_true_iff]
    omega
  have hreach : InOrder (before ++ [(u, .updatePacketsLost lost n)]) :=
    h.sublist (List.Sublist.append_left (List.Sublist.cons_cons _ (List.nil_sublist after)) _)
  obtain ⟨hearly, huntil⟩ := callsUntil_around h hsu hut
  rw [targetAt, targetAt, huntil]
  rw [hearly] at hover ⊢
  obtain ⟨hkept, hclimbing⟩ := climbing_until h hover hlow hfinite
  have hup := hclimbing.climbs (regular_afterCalls before) (ready_afterCalls hreach hkept hsu.le).1
    (hkept.later (by omega : s - 1000000 ≤ s)) hsu.le hfinite hn (hlow before u lost n after rfl hsu hn)
    hlater (regular_afterCalls (callsUntil before (.finite s))).target
  -- From the report on the target is kept.
  have hafter : InOrder after := h.sublist
    ((List.sublist_cons_self _ _).trans (List.sublist_append_right _ _))
  have hwhole : before ++ [(u, .updatePacketsLost lost n)] ++ callsUntil after (.finite t) ++
      after.filter (fun c => decide (.finite t < c.1)) =
        before ++ (u, .updatePacketsLost lost n) :: after := by
    rw [List.append_assoc, callsUntil_append_after hafter]
    simp
  have hpast : ∀ c ∈ before ++ [(u, .updatePacketsLost lost n)], c.1 ≤ u := by
    intro c hc
    rcases List.mem_append.mp hc with hc | hc
    · exact hreach.of_snoc.2 c hc
    · rw [List.mem_singleton.mp hc]
  have hreached : min (increasedBitrate (Double r) (targetAt (Double r) before (.finite s)))
      kDefaultMaxBitrate ≤
        (afterCalls (Double r) (before ++ [(u, .updatePacketsLost lost n)])).currentTarget := by
    rw [afterCalls_snoc]
    exact hup
  refine (climbing_append (by rw [hwhole]; exact h) (hkept.append _) (by rw [hwhole]; exact hlow) ?_
    (climbing_of_past hreach hpast hreached)).kept
  intro d hd
  obtain ⟨hmem, huntil⟩ := List.mem_filter.mp hd
  have hud : u ≤ d.1 :=
    (List.pairwise_cons.mp (List.pairwise_append.mp h).2.1).1 d hmem
  have hdt : d.1 ≤ .finite t := by simpa using huntil
  have hsd := hsu.trans_le hud
  exact ⟨hsd, isFinite_iff.mpr (exists_finite_between hsd.le hdt)⟩

/-- Without rounding an increase is at least eight percent. -/
theorem le_increasedBitrate_exact (hr : r.IsExact) {y : Int} (hy : 0 ≤ y) :
    (27 / 25 : K) * y ≤ (increasedBitrate (Double r) (.finite y)).bps := by
  have hgrown : grown r y = 27 / 25 * (y : K) + 1 / 2 := by
    unfold grown
    rw [val_add, val_mul, val_ofInt, val_lit_exact hr, val_lit_exact hr, hr.rnd, hr.rnd, hr.rnd]
    norm_num
    ring
  have hy' : (0 : K) ≤ y := by exact_mod_cast hy
  have hnonneg : (0 : K) ≤ 27 / 25 * (y : K) + 1 / 2 := by positivity
  have hfloor := Int.lt_floor_add_one (27 / 25 * (y : K) + 1 / 2)
  rw [increasedBitrate_finite, hgrown, truncField, if_pos hnonneg]
  change _ ≤ ((⌊27 / 25 * (y : K) + 1 / 2⌋ + 1000 : Int) : K)
  push_cast
  linarith

/-- While every second has a report of low loss, the target grows by eight percent every two
seconds, up to the limit. -/
theorem low_loss_climbs (hr : r.IsExact) (h : InOrder calls)
    (hover : StartPhaseOver (afterCalls (Double r) (callsUntil calls (.finite s)))
      (.finite (s - 1000000)))
    (hlow : LowLossAfter (Double r) calls (.finite s)) (n : Nat)
    (hreports : ∀ u, s ≤ u → u + 1000000 ≤ s + 2000000 * n →
      CompletesWithin (Double r) calls (.finite u) (.finite (u + 1000000))) :
    min ((27 / 25 : K) ^ n * (targetAt (Double r) calls (.finite s)).bps) 1000000000 ≤
      (targetAt (Double r) calls (.finite (s + 2000000 * n))).bps := by
  induction n with
  | zero =>
      rw [pow_zero, one_mul, Nat.cast_zero, mul_zero, add_zero]
      exact min_le_left _ _
  | succ n ih =>
      have hbefore := ih fun u hu hlast => hreports u hu (by push_cast; omega)
      have hlater : s ≤ s + 2000000 * n := by omega
      have hreport := hreports (s + 2000000 * n + 1000000) (by omega) (by push_cast; omega)
      rw [show s + 2000000 * n + 1000000 + 1000000 = s + 2000000 * (n + 1 : Nat) by push_cast; ring]
        at hreport
      have hstep := climbs_between h (hover.until h hlater) (hlow.later (finite_le_finite.mpr hlater))
        hreport
      obtain ⟨x, hx, hlow, -⟩ := (regular_afterCalls (F := Double r)
        (callsUntil calls (.finite (s + 2000000 * n)))).target.exists_finite
      obtain ⟨y, hy, -, -⟩ := (regular_afterCalls (F := Double r)
        (callsUntil calls (.finite (s + 2000000 * (n + 1 : Nat))))).target.exists_finite
      change targetAt (Double r) calls _ = _ at hx hy
      have hgrow := le_increasedBitrate_exact hr (y := x) (by omega)
      rw [hx] at hbefore hstep
      rw [hy] at hstep ⊢
      change min _ _ ≤ (x : K) at hbefore
      change min _ _ ≤ (y : K)
      rcases min_le_iff.mp hstep with hincreased | hlimit
      · rw [increasedBitrate_finite] at hgrow hincreased
        have hcast : ((truncField (grown r x) + 1000 : Int) : K) ≤ y := by
          exact_mod_cast finite_le_finite.mp hincreased
        have hnext : (27 / 25 : K) * x ≤ y := hgrow.trans hcast
        rcases min_le_iff.mp hbefore with hgrown | hreached
        · refine (min_le_left _ _).trans ?_
          rw [pow_succ', mul_assoc]
          linarith
        · refine (min_le_right _ _).trans ?_
          linarith
      · refine (min_le_right _ _).trans ?_
        exact_mod_cast finite_le_finite.mp hlimit

end Climbs

/-- A report without loss at one second, and one a second from four seconds on. -/
def losslessReports : List (Timestamp × Call) :=
  [(.finite 1000000, .updatePacketsLost 0 20), (.finite 4000000, .updatePacketsLost 0 20),
    (.finite 5000000, .updatePacketsLost 0 20), (.finite 6000000, .updatePacketsLost 0 20)]

theorem lowLossAfter_losslessReports : LowLossAfter Rational losslessReports (.finite 4000000) := by
  intro before u lost n after hcalls _ _
  unfold losslessReports at hcalls
  rcases before with _ | ⟨a, _ | ⟨b, _ | ⟨c, _ | ⟨d, before⟩⟩⟩⟩
  · cases hcalls
    decide +kernel
  · cases hcalls
    decide +kernel
  · cases hcalls
    decide +kernel
  · cases hcalls
    decide +kernel
  · simp at hcalls

theorem low_loss_climbs_lossless :
    min ((27 / 25 : ℚ) ^ 1 * (targetAt Rational losslessReports (.finite 4000000)).bps) 1000000000 ≤
      (targetAt Rational losslessReports (.finite 6000000)).bps := by
  refine low_loss_climbs Rounding.exact_isExact (by decide) ⟨by decide +kernel, by decide +kernel⟩
    lowLossAfter_losslessReports 1 ?_
  intro u hu hlast
  have hreport : (u < 5000000) ∨ u = 5000000 := by omega
  rcases hreport with hearly | rfl
  · exact ⟨[_, _], .finite 5000000, 0, 20, [_], rfl, finite_lt_finite.mpr hearly,
      finite_le_finite.mpr (by omega), by decide +kernel⟩
  · exact ⟨[_, _, _], .finite 6000000, 0, 20, [], rfl, by decide, by decide, by decide +kernel⟩

end SendSideBandwidthEstimation
end ChromeGcc
