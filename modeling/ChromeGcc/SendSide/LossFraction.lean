import ChromeGcc.Base.Batches
import ChromeGcc.SendSide.Runs

/-! The loss fraction: the reports are cut into batches of at least twenty packets, and the
fraction is that of the latest batch. -/
namespace ChromeGcc
namespace SendSideBandwidthEstimation
open FloatArith Batches

/-- The arguments of one call of UpdatePacketsLost. -/
structure LossCount where
  packetsLost : Int
  numberOfPackets : Int
  atTime : Timestamp
  deriving DecidableEq, Repr

namespace LossCount

/-- No more packets are lost than there are. -/
structure Valid (c : LossCount) : Prop where
  nonneg : 0 ≤ c.packetsLost
  le : c.packetsLost ≤ c.numberOfPackets

def lost (cs : List LossCount) : Int := (cs.map packetsLost).sum
def expected (cs : List LossCount) : Int := (cs.map numberOfPackets).sum

/-- The reports that count packets reach the limit. -/
def Full (cs : List LossCount) : Prop :=
  kLimitNumPackets ≤ expected (cs.filter fun c => decide (0 < c.numberOfPackets))

/-- The lost part of a batch in 256 parts, cut to eight bits. -/
def fraction (cs : List LossCount) : Nat := min 255 (256 * lost cs / expected cs).toNat

variable {cs : List LossCount} {c : LossCount}

theorem lost_snoc (cs : List LossCount) (c : LossCount) :
    lost (cs ++ [c]) = lost cs + c.packetsLost := by
  simp [lost]

theorem expected_snoc (cs : List LossCount) (c : LossCount) :
    expected (cs ++ [c]) = expected cs + c.numberOfPackets := by
  simp [expected]

theorem lost_bounds (h : ∀ c ∈ cs, c.Valid) : 0 ≤ lost cs ∧ lost cs ≤ expected cs := by
  induction cs using List.reverseRecOn with
  | nil => exact ⟨le_refl _, le_refl _⟩
  | append_singleton cs c ih =>
      have hbefore := ih fun d hd => h d (List.mem_append_left _ hd)
      have hc := h c (List.mem_append_right _ (List.mem_singleton_self c))
      have hnonneg := hc.nonneg
      have hle := hc.le
      rw [lost_snoc, expected_snoc]
      omega

/-- Reports of no packets add nothing. -/
theorem full_iff (h : ∀ c ∈ cs, c.Valid) : Full cs ↔ kLimitNumPackets ≤ expected cs := by
  have hsum : expected (cs.filter fun c => decide (0 < c.numberOfPackets)) = expected cs := by
    induction cs using List.reverseRecOn with
    | nil => rfl
    | append_singleton cs c ih =>
        have hc := h c (List.mem_append_right _ (List.mem_singleton_self c))
        have hbefore := ih fun d hd => h d (List.mem_append_left _ hd)
        rw [List.filter_append, expected_snoc]
        by_cases hpos : 0 < c.numberOfPackets
        · rw [List.filter_singleton, decide_eq_true hpos, cond_true, expected_snoc, hbefore]
        · have hnonneg := hc.nonneg
          have hle := hc.le
          rw [List.filter_singleton, decide_eq_false hpos, cond_false, List.append_nil, hbefore]
          omega
  rw [Full, hsum]

instance (cs : List LossCount) : Decidable (Full cs) := inferInstanceAs (Decidable (_ ≤ _))

theorem not_full_nil : ¬ Full [] := by decide

end LossCount

open LossCount

section Step
variable {F : Type} [FloatArith F] {e : SendSideBandwidthEstimation F} {cs : List LossCount}
  {c : LossCount}

theorem toInt32_of_small {n : Int} (h0 : 0 ≤ n) (h : n < 2147483648) : toInt32 n = n := by
  unfold toInt32
  omega

/-- The fraction that UpdatePacketsLost computes, without the conversions. -/
theorem fraction_eq {lost expected : Int} (h0 : 0 ≤ lost) (hle : lost ≤ expected) :
    toUint8 (min (toInt32 ((lost * 256).tdiv expected)) 255) =
      min 255 (256 * lost / expected).toNat := by
  have hdiv : (lost * 256).tdiv expected = 256 * lost / expected := by
    rw [Int.tdiv_eq_ediv_of_nonneg (by omega), mul_comm]
  have hnonneg : 0 ≤ 256 * lost / expected := Int.ediv_nonneg (by omega) (by omega)
  have hbound : 256 * lost / expected ≤ 256 := by
    rcases (h0.trans hle).lt_or_eq with hpos | hzero
    · rw [Int.ediv_le_iff_le_mul hpos]
      omega
    · rw [← hzero, Int.ediv_zero]
      norm_num
  rw [hdiv, toInt32_of_small hnonneg (by omega)]
  unfold toUint8
  omega

/-- The accounting after the open batch cs, with the fraction n of the batch before it. -/
structure Counts (e : SendSideBandwidthEstimation F) (cs : List LossCount) (n : Nat) : Prop where
  lost : e.lostPacketsSinceLastLossUpdate = LossCount.lost cs
  expected : e.expectedPacketsSinceLastLossUpdate = LossCount.expected cs
  fraction : e.lastFractionLoss = n

/-- A report that leaves the batch open joins it. -/
theorem Counts.wait {n : Nat} (h : Counts e cs n) (hcs : ∀ d ∈ cs ++ [c], d.Valid)
    (hopen : LossCount.expected (cs ++ [c]) < kLimitNumPackets) :
    Counts (e.updatePacketsLost c.packetsLost c.numberOfPackets c.atTime) (cs ++ [c]) n := by
  have hbounds := lost_bounds hcs
  have hstep := reportFields_updatePacketsLost e c.atTime c.packetsLost c.numberOfPackets
  rw [h.lost, h.expected, h.fraction, ← lost_snoc, ← expected_snoc, if_pos hopen] at hstep
  have hsmall : LossCount.expected (cs ++ [c]) < 2147483648 := hopen.trans (by decide)
  by_cases hpos : c.numberOfPackets > 0
  · rw [if_pos hpos, toInt32_of_small (by omega) (by omega),
      toInt32_of_small (by omega) hsmall] at hstep
    exact ⟨congrArg ReportFields.lost hstep, congrArg ReportFields.expected hstep,
      congrArg ReportFields.fraction hstep⟩
  · -- a report of no packets has no losses either
    have hc := hcs c (List.mem_append_right _ (List.mem_singleton_self c))
    have hnonneg := hc.nonneg
    have hle := hc.le
    rw [if_neg hpos] at hstep
    have hlost : c.packetsLost = 0 := by omega
    have hnumber : c.numberOfPackets = 0 := by omega
    refine ⟨(congrArg ReportFields.lost hstep).trans ?_,
      (congrArg ReportFields.expected hstep).trans ?_,
      (congrArg ReportFields.fraction hstep).trans h.fraction⟩
    · rw [lost_snoc, hlost, add_zero]
      exact h.lost
    · rw [expected_snoc, hnumber, add_zero]
      exact h.expected

/-- A report that fills the batch sets its fraction and starts the next batch. -/
theorem Counts.close {n : Nat} (h : Counts e cs n) (hcs : ∀ d ∈ cs ++ [c], d.Valid)
    (hopen : LossCount.expected cs < kLimitNumPackets)
    (hfull : kLimitNumPackets ≤ LossCount.expected (cs ++ [c])) :
    Counts (e.updatePacketsLost c.packetsLost c.numberOfPackets c.atTime) []
      (LossCount.fraction (cs ++ [c])) := by
  have hbounds := lost_bounds hcs
  have hpos : c.numberOfPackets > 0 := by
    rw [expected_snoc] at hfull
    omega
  have hstep := reportFields_updatePacketsLost e c.atTime c.packetsLost c.numberOfPackets
  rw [if_pos hpos, h.lost, h.expected, ← lost_snoc, ← expected_snoc, if_neg (not_lt.mpr hfull),
    fraction_eq hbounds.1 hbounds.2] at hstep
  exact ⟨congrArg ReportFields.lost hstep, congrArg ReportFields.expected hstep,
    congrArg ReportFields.fraction hstep⟩

end Step

section Runs
variable {F : Type} [FloatArith F] {e : SendSideBandwidthEstimation F} {cs : List LossCount}
  {c : LossCount}

/-- The estimation after a sequence of reports. -/
def afterReports (e : SendSideBandwidthEstimation F) (cs : List LossCount) :
    SendSideBandwidthEstimation F :=
  cs.foldl (fun e c => e.updatePacketsLost c.packetsLost c.numberOfPackets c.atTime) e

theorem afterReports_snoc (e : SendSideBandwidthEstimation F) (cs : List LossCount) (c : LossCount) :
    e.afterReports (cs ++ [c]) =
      (e.afterReports cs).updatePacketsLost c.packetsLost c.numberOfPackets c.atTime :=
  List.foldl_concat _ _ _ _

/-- The fraction of the latest batch; before the first one, that of the start. -/
def latestFraction (e : SendSideBandwidthEstimation F) (batches : List (List LossCount)) : Nat :=
  (batches.getLast?.map LossCount.fraction).getD e.lastFractionLoss

/-- No batch is open: the state after an update of the fraction, and of a new object. -/
structure NoneOpen (e : SendSideBandwidthEstimation F) : Prop where
  lost : e.lostPacketsSinceLastLossUpdate = 0
  expected : e.expectedPacketsSinceLastLossUpdate = 0

theorem expected_lt_of_waiting (hcs : ∀ d ∈ cs, d.Valid) (h : ∀ pre, pre <+: cs → ¬ Full pre) :
    LossCount.expected cs < kLimitNumPackets := by
  have hfull := h cs (List.prefix_refl cs)
  rwa [full_iff hcs, not_le] at hfull

/-- The accounting follows the batches of the reports. -/
theorem counts_afterReports (h : NoneOpen e) (hcs : ∀ d ∈ cs, d.Valid) :
    ∃ batches rest, Split Full cs batches rest ∧
      Counts (e.afterReports cs) rest (e.latestFraction batches) := by
  induction cs using List.reverseRecOn with
  | nil => exact ⟨[], [], split_nil not_full_nil, h.lost, h.expected, rfl⟩
  | append_singleton cs c ih =>
      obtain ⟨batches, rest, hsplit, hcounts⟩ := ih fun d hd => hcs d (List.mem_append_left _ hd)
      have hrest : ∀ d ∈ rest ++ [c], d.Valid := by
        intro d hd
        refine hcs d ?_
        rw [← hsplit.eq, List.append_assoc]
        exact List.mem_append_right _ hd
      have hopen : LossCount.expected rest < kLimitNumPackets :=
        expected_lt_of_waiting (fun d hd => hrest d (List.mem_append_left _ hd)) hsplit.waiting
      rw [afterReports_snoc]
      by_cases hfull : Full (rest ++ [c])
      · refine ⟨_, _, hsplit.close hfull, ?_⟩
        rw [latestFraction, List.getLast?_concat]
        exact hcounts.close hrest hopen ((full_iff hrest).mp hfull)
      · refine ⟨_, _, hsplit.wait hfull, hcounts.wait hrest ?_⟩
        rwa [full_iff hrest, not_le] at hfull

/-- The fraction after any reports is that of their latest batch; one more report leaves it
alone or, if it fills the open batch, makes it that batch's. -/
theorem loss_fraction_of_batches (h : NoneOpen e) (hcs : ∀ d ∈ cs, d.Valid) :
    (∃ batches rest, Split Full cs batches rest) ∧
      ∀ batches rest, Split Full cs batches rest →
        (e.afterReports cs).lastFractionLoss = e.latestFraction batches ∧
        ∀ c : LossCount, c.Valid →
          (e.afterReports (cs ++ [c])).lastFractionLoss =
            if Full (rest ++ [c]) then LossCount.fraction (rest ++ [c])
            else (e.afterReports cs).lastFractionLoss := by
  refine ⟨exists_split not_full_nil cs, ?_⟩
  intro batches rest hsplit
  obtain ⟨batches', rest', hsplit', hcounts⟩ := counts_afterReports h hcs
  obtain ⟨rfl, rfl⟩ := hsplit.unique hsplit'
  refine ⟨hcounts.fraction, ?_⟩
  intro c hc
  have hrest : ∀ d ∈ rest ++ [c], d.Valid := by
    intro d hd
    rcases List.mem_append.mp hd with hd | hd
    · exact hcs d (hsplit.eq ▸ List.mem_append_right _ hd)
    · rwa [List.mem_singleton.mp hd]
  rw [afterReports_snoc, hcounts.fraction]
  by_cases hfull : Full (rest ++ [c])
  · rw [if_pos hfull]
    have hopen : LossCount.expected rest < kLimitNumPackets :=
      expected_lt_of_waiting (fun d hd => hrest d (List.mem_append_left _ hd)) hsplit.waiting
    exact (hcounts.close hrest hopen ((full_iff hrest).mp hfull)).fraction
  · rw [if_neg hfull]
    rw [full_iff hrest, not_le] at hfull
    exact (hcounts.wait hrest hfull).fraction

end Runs

/-- Reports of 12, 9 and 15 packets, the second of which fills a batch. -/
theorem loss_fraction_of_three_reports :
    let cs : List LossCount := [⟨3, 12, .finite 1000000⟩, ⟨0, 9, .finite 2000000⟩,
      ⟨15, 15, .finite 3000000⟩]
    (∃ batches rest, Split Full cs batches rest) ∧
      ∀ batches rest, Split Full cs batches rest →
        (({} : SendSideBandwidthEstimation Rational).afterReports cs).lastFractionLoss =
          latestFraction ({} : SendSideBandwidthEstimation Rational) batches ∧
        ∀ c : LossCount, c.Valid →
          (({} : SendSideBandwidthEstimation Rational).afterReports (cs ++ [c])).lastFractionLoss =
            if Full (rest ++ [c]) then LossCount.fraction (rest ++ [c])
            else (({} : SendSideBandwidthEstimation Rational).afterReports cs).lastFractionLoss :=
  loss_fraction_of_batches ⟨rfl, rfl⟩ (by
    intro d hd
    simp only [List.mem_cons, List.not_mem_nil, or_false] at hd
    rcases hd with rfl | rfl | rfl
    · exact ⟨by decide, by decide⟩
    · exact ⟨by decide, by decide⟩
    · exact ⟨by decide, by decide⟩)

end SendSideBandwidthEstimation
end ChromeGcc
