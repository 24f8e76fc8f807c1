import ChromeGcc.SendSide.Runs

/-! When a report of low loss keeps the target. The increase starts from the smallest
rate of the history, and the start phase leaves the target it jumped from there. -/
namespace ChromeGcc
namespace SendSideBandwidthEstimation
open FloatArith UnitBase

variable {K : Type} [Field K] [LinearOrder K] [FloorRing K] {r : Rounding K}

/-- What the history says about the target at a time: its rates increase, and eight percent
above any of them bounds the target, except above the rate that the last jump left; while
that jump has not expired, some entry holds a rate no higher than the one it left. -/
structure Ramp (r : Rounding K) (history : List (Timestamp × DataRate)) (target : DataRate)
    (jump : Option (Timestamp × DataRate)) (now : Timestamp) : Prop where
  increasing : MinQueue.Increasing history
  past : ∀ h ∈ history, h.1 ≤ now
  inRange : ∀ h ∈ history, InRange h.2
  ceiling : ∀ h ∈ history, target ≤ increasedBitrate (Double r) h.2 ∨ jump = some h
  jumpPast : ∀ tj rj, jump = some (tj, rj) → tj ≤ now ∧ InRange rj
  floor : ∀ tj rj, jump = some (tj, rj) → historyExpired now tj = false →
    ∃ h ∈ history, h.2 ≤ rj ∧ tj ≤ h.1

section Ramp
variable {history : List (Timestamp × DataRate)} {target : DataRate}
  {jump : Option (Timestamp × DataRate)} {now t : Timestamp}

theorem ramp_fresh (now : Timestamp) (target : DataRate) : Ramp r [] target none now where
  increasing := List.Pairwise.nil
  past := by simp
  inRange := by simp
  ceiling := by simp
  jumpPast := by simp
  floor := by simp

theorem Ramp.later (h : Ramp r history target jump now) (ht : now ≤ t) :
    Ramp r history target jump t where
  increasing := h.increasing
  past e he := (h.past e he).trans ht
  inRange := h.inRange
  ceiling := h.ceiling
  jumpPast tj rj hj := ⟨(h.jumpPast tj rj hj).1.trans ht, (h.jumpPast tj rj hj).2⟩
  floor tj rj hj hexp := by
    refine h.floor tj rj hj ?_
    by_contra hne
    rw [historyExpired_mono ht (Bool.not_eq_false _ ▸ hne)] at hexp
    cases hexp

/-- The start phase forgets the history and keeps only the rate it leaves. -/
theorem ramp_jump (htarget : InRange target) (next : DataRate) (t : Timestamp) :
    Ramp r [(t, target)] next (some (t, target)) t where
  increasing := List.pairwise_singleton _ _
  past h hh := by
    rw [List.mem_singleton.mp hh]
  inRange h hh := by
    rw [List.mem_singleton.mp hh]
    exact htarget
  ceiling h hh := .inr (by rw [List.mem_singleton.mp hh])
  jumpPast tj rj hj := by
    cases hj
    exact ⟨le_refl _, htarget⟩
  floor tj rj hj _ := by
    cases hj
    exact ⟨_, List.mem_singleton_self _, le_refl _, le_refl _⟩

/-- The history after UpdateMinHistory. -/
abbrev pushedHistory (history : List (Timestamp × DataRate)) (target : DataRate) (t : Timestamp) :
    List (Timestamp × DataRate) := MinQueue.push (historyExpired t) history t target

theorem Ramp.front_le {h : Timestamp × DataRate} {rest : List (Timestamp × DataRate)}
    (hramp : Ramp r history target jump t) (hpush : pushedHistory history target t = h :: rest) :
    ∀ e ∈ pushedHistory history target t, h.2 ≤ e.2 := by
  have hsorted : MinQueue.Increasing (pushedHistory history target t) := hramp.increasing.push
  rw [hpush] at hsorted ⊢
  exact hsorted.front_le

theorem Ramp.inRange_push (hramp : Ramp r history target jump t) (htarget : InRange target)
    {h : Timestamp × DataRate} (hh : h ∈ pushedHistory history target t) : InRange h.2 := by
  rcases MinQueue.mem_push hh with hh | rfl
  · exact hramp.inRange h hh
  · exact htarget

/-- Before the jump expires an entry below the rate it left is in the updated history. -/
theorem Ramp.floor_push (hramp : Ramp r history target jump t) {tj : Timestamp} {rj : DataRate}
    (hj : jump = some (tj, rj)) (hexp : historyExpired t tj = false) :
    ∃ h ∈ pushedHistory history target t, h.2 ≤ rj ∧ tj ≤ h.1 := by
  obtain ⟨e, he, hrate, htime⟩ := hramp.floor tj rj hj hexp
  obtain ⟨e', he', htime', hrate'⟩ := MinQueue.exists_le_push (p := (tj ≤ ·)) (x := target) he
    (fun _ hlater => historyExpired_eq_false hlater hexp) htime hrate (hramp.jumpPast tj rj hj).1
  exact ⟨e', he', hrate', htime'⟩

variable [IsStrictOrderedRing K]

theorem InRange.le_increased {y : DataRate} (h : InRange y) : y ≤ increasedBitrate (Double r) y := by
  obtain ⟨n, rfl, hlow, hhigh⟩ := h.exists_finite
  exact (finite_le_finite.mpr (by omega)).trans (le_increasedBitrate (by omega) (by omega))

theorem InRange.increased_mono {y y' : DataRate} (h : InRange y) (h' : InRange y') (hle : y ≤ y') :
    increasedBitrate (Double r) y ≤ increasedBitrate (Double r) y' := by
  obtain ⟨n, rfl, -, -⟩ := h.exists_finite
  obtain ⟨n', rfl, -, -⟩ := h'.exists_finite
  exact increasedBitrate_mono (finite_le_finite.mp hle)

theorem InRange.decreased_le {x : DataRate} (h : InRange x) {n : Nat} (hn : n ≤ 512) :
    decreasedBitrate (Double r) x n ≤ x := by
  obtain ⟨x, rfl, hlow, hhigh⟩ := h.exists_finite
  exact decreasedBitrate_le (by omega) (by omega) hn

/-- A target that does not exceed the old one, or the increase of the front, keeps the bound. -/
theorem Ramp.push (hramp : Ramp r history target jump t) (htarget : InRange target)
    {h : Timestamp × DataRate} {rest : List (Timestamp × DataRate)}
    (hpush : pushedHistory history target t = h :: rest) {next : DataRate}
    (hnext : next ≤ target ∨ next ≤ increasedBitrate (Double r) h.2) :
    Ramp r (pushedHistory history target t) next jump t where
  increasing := hramp.increasing.push
  past e he := by
    rcases MinQueue.mem_push he with he | rfl
    · exact hramp.past e he
    · exact le_refl _
  inRange e he := hramp.inRange_push htarget he
  ceiling e he := by
    rcases hnext with hnext | hnext
    · rcases MinQueue.mem_push he with he | rfl
      · exact (hramp.ceiling e he).imp hnext.trans id
      · exact .inl (hnext.trans htarget.le_increased)
    · left
      have hfront : InRange h.2 := hramp.inRange_push htarget (hpush ▸ List.mem_cons_self)
      have hrate : InRange e.2 := hramp.inRange_push htarget he
      exact hnext.trans (hfront.increased_mono hrate (hramp.front_le hpush e he))
  jumpPast := hramp.jumpPast
  floor tj rj hj hexp := hramp.floor_push hj hexp

/-- The increase falls short of the target exactly when the last jump is in the history
and left a rate too low. -/
theorem Ramp.target_le_increase_iff (hramp : Ramp r history target jump t) (htarget : InRange target)
    {h : Timestamp × DataRate} {rest : List (Timestamp × DataRate)}
    (hpush : pushedHistory history target t = h :: rest) :
    target ≤ increasedBitrate (Double r) h.2 ↔
      ∀ tj rj, jump = some (tj, rj) →
        historyExpired t tj = true ∨ target ≤ increasedBitrate (Double r) rj := by
  have hmem : h ∈ pushedHistory history target t := hpush ▸ List.mem_cons_self
  constructor
  · intro hle tj rj hj
    cases hexp : historyExpired t tj with
    | true => exact .inl rfl
    | false =>
        right
        obtain ⟨e, he, hrate, -⟩ := hramp.floor_push hj hexp
        have hfront : InRange h.2 := hramp.inRange_push htarget hmem
        have hfrontle := (hramp.front_le hpush e he).trans hrate
        exact hle.trans (hfront.increased_mono (hramp.jumpPast tj rj hj).2 hfrontle)
  · intro hjump
    rcases MinQueue.front_push hpush with rfl | ⟨hold, hfresh⟩
    · exact htarget.le_increased
    · rcases hramp.ceiling h hold with hle | hj
      · exact hle
      · rcases hjump h.1 h.2 hj with hexp | hle
        · rw [hexp] at hfresh
          cases hfresh
        · exact hle

end Ramp

section Runs
variable {e : SendSideBandwidthEstimation (Double r)} {jump : Option (Timestamp × DataRate)}
  {t : Timestamp}

theorem minHistoryFront_updateMinHistory (e : SendSideBandwidthEstimation (Double r))
    (t : Timestamp) : ∃ h rest, pushedHistory e.core.history e.core.target t = h :: rest ∧
      (e.updateMinHistory t).minHistoryFront = h.2 := by
  have hpushed : (e.updateMinHistory t).minBitrateHistory =
      pushedHistory e.core.history e.core.target t := rfl
  unfold minHistoryFront
  rw [hpushed]
  cases hq : pushedHistory e.core.history e.core.target t with
  | nil => exact absurd hq MinQueue.push_ne_nil
  | cons h rest => exact ⟨h, rest, rfl, rfl⟩

/-- Without a dated report the target is only kept within its limits. -/
theorem core_adjustToLoss_undated (h : e.lastLossPacketReport.isInfinite = true) :
    (e.adjustToLoss t).core = { e.core with target := e.core.clamp e.core.target } := by
  unfold adjustToLoss
  rw [if_pos h]
  exact core_applyTargetLimits e t

theorem fractionLoss_updateEstimate (e : SendSideBandwidthEstimation (Double r)) (t : Timestamp) :
    (e.updateEstimate t).core.fractionLoss = e.lastFractionLoss := by
  obtain ⟨history, rate, hcore⟩ := core_updateEstimate e t
  rw [hcore]
  rfl

variable [IsStrictOrderedRing K]

/-- UpdateEstimate keeps the bound; a jump starts a new one. -/
theorem ramp_updateEstimate (hreg : e.core.Regular) (hloss : e.lastFractionLoss ≤ 512)
    (hramp : Ramp r e.core.history e.core.target jump t) :
    Ramp r (e.updateEstimate t).core.history (e.updateEstimate t).core.target
      (if e.Jumps t then some (t, e.core.target) else jump) t := by
  obtain ⟨h, rest, hpush, hfront⟩ := minHistoryFront_updateMinHistory e t
  have hmem : h ∈ pushedHistory e.core.history e.core.target t := hpush ▸ List.mem_cons_self
  have hlow : InRange h.2 := hramp.inRange_push hreg.target hmem
  rcases updateEstimate_cases e t with ⟨hj, hcore⟩ | ⟨hj, -, hcore⟩ | ⟨hj, -, hcore | hcore⟩
  · rw [hcore, if_pos hj]
    exact ramp_jump hreg.target _ t
  · rw [hcore, if_neg hj]
    refine hramp.push hreg.target hpush (.inr ?_)
    rw [hfront]
    exact hreg.clamp_le (hlow.1.trans hlow.le_increased)
  · rw [hcore, if_neg hj]
    refine hramp.push hreg.target hpush (.inl ?_)
    have hless := hreg.clamp_mono (hreg.target.decreased_le (r := r) hloss)
    rwa [hreg.clamp_of_inRange hreg.target] at hless
  · rw [hcore, if_neg hj]
    refine hramp.push hreg.target hpush (.inl ?_)
    exact (hreg.clamp_of_inRange hreg.target).le

theorem ramp_call (hreg : e.core.Regular) (hramp : Ramp r e.core.history e.core.target jump t)
    (c : Call) :
    Ramp r (e.call t c).core.history (e.call t c).core.target
      (if e.JumpsOn t c then some (t, e.currentTarget) else jump) t := by
  cases c with
  | updateReceiverEstimate bandwidth =>
      rw [if_neg (by exact id), call, core_updateReceiverEstimate, hreg.clamp_of_inRange hreg.target]
      exact hramp
  | updatePacketsLost lost n =>
      by_cases hn : e.Completes n
      · have hkept : (e.reported lost n t).core.history = e.core.history ∧
            (e.reported lost n t).core.target = e.core.target := by
          rw [core_reported]
          exact ⟨rfl, rfl⟩
        have hbefore : Ramp r (e.reported lost n t).core.history (e.reported lost n t).core.target
            jump t := by
          rw [hkept.1, hkept.2]
          exact hramp
        have hstep := ramp_updateEstimate (regular_reported hreg lost n t)
          (lastFractionLoss_reported_le e lost n t) hbefore
        rw [call, core_updatePacketsLost hn]
        rw [hkept.2] at hstep
        by_cases hj : (e.reported lost n t).Jumps t
        · rw [if_pos hj] at hstep
          rw [if_pos ⟨hn, hj⟩]
          exact hstep
        · rw [if_neg hj] at hstep
          rw [if_neg fun h => hj h.2]
          exact hstep
      · rw [call, core_updatePacketsLost_accumulate hn, if_neg fun h => hn h.1]
        exact hramp

/-- Calls in the order of their times. -/
def InOrder (calls : List (Timestamp × Call)) : Prop := calls.Pairwise fun a b => a.1 ≤ b.1

instance (calls : List (Timestamp × Call)) : Decidable (InOrder calls) :=
  inferInstanceAs (Decidable (calls.Pairwise _))

theorem InOrder.of_snoc {calls : List (Timestamp × Call)} {c : Timestamp × Call}
    (h : InOrder (calls ++ [c])) : InOrder calls ∧ ∀ d ∈ calls, d.1 ≤ c.1 := by
  obtain ⟨hcalls, -, hlast⟩ := List.pairwise_append.mp h
  exact ⟨hcalls, fun d hd => hlast d hd c (List.mem_singleton_self c)⟩

/-- The history bounds the target after any calls in order. -/
theorem ramp_afterCalls {calls : List (Timestamp × Call)} (h : InOrder calls) {now : Timestamp}
    (hnow : ∀ c ∈ calls, c.1 ≤ now) :
    Ramp r (afterCalls (Double r) calls).core.history (afterCalls (Double r) calls).core.target
      (latestJump (Double r) calls) now := by
  induction calls using List.reverseRecOn generalizing now with
  | nil => exact ramp_fresh now _
  | append_singleton calls c ih =>
      obtain ⟨hcalls, hpast⟩ := h.of_snoc
      have hlast : c.1 ≤ now := hnow c (List.mem_append_right _ (List.mem_singleton_self c))
      rw [show c = (c.1, c.2) from rfl, afterCalls_snoc, latestJump_snoc]
      exact (ramp_call (regular_afterCalls calls) (ih hcalls hpast) c.2).later hlast

/-- A fresh report of at most five parts in 256 takes the low-loss branch. -/
theorem lowLoss_of_report (hreg : e.core.Regular) {v : Int} (ht : t = .finite v)
    (hreport : e.lastLossPacketReport = t) (hloss : e.lastFractionLoss ≤ 5) : e.LowLoss t := by
  subst ht
  refine ⟨by rw [hreport]; rfl, ?_, .inr ?_⟩
  · rw [hreport, Timestamp.finite_sub, sub_self]
    exact zero_lt_feedbackWindow
  · rw [show e.lowLossThreshold = kDefaultLowLossThreshold (Double r) from hreg.lowLossThreshold]
    exact lossFraction_le hloss

/-- What UpdateEstimate does to the target right after a report of low loss. -/
theorem target_le_updateEstimate_iff (hreg : e.core.Regular)
    (hramp : Ramp r e.core.history e.core.target jump t)
    (hreport : e.lastLossPacketReport = t) (hloss : e.lastFractionLoss ≤ 5) :
    e.core.target ≤ (e.updateEstimate t).core.target ↔
      e.Jumps t ∨ ∀ tj rj, jump = some (tj, rj) →
        historyExpired t tj = true ∨ e.core.target ≤ increasedBitrate (Double r) rj := by
  by_cases hj : e.Jumps t
  · have hup : e.core.target ≤ (e.updateEstimate t).core.target := by
      rw [updateEstimate_jump hj, core_updateTargetBitrate]
      have hstart := hreg.clamp_mono e.core.le_startBitrate
      rwa [hreg.clamp_of_inRange hreg.target] at hstart
    exact ⟨fun _ => .inl hj, fun _ => hup⟩
  · have hor : ∀ p : Prop, e.Jumps t ∨ p ↔ p := fun p => or_iff_right hj
    rw [hor]
    cases hinf : t.isInfinite with
    | true =>
        have hsame : (e.updateEstimate t).core.target = e.core.target := by
          rw [updateEstimate_regular hj, core_adjustToLoss_undated (by exact hreport ▸ hinf)]
          exact hreg.clamp_of_inRange hreg.target
        constructor
        · intro _ tj rj hjump
          exact .inl (historyExpired_of_infinite hinf (hramp.jumpPast tj rj hjump).1)
        · intro _
          exact hsame.ge
    | false =>
        obtain ⟨v, hv⟩ := isFinite_iff.mp (by simpa [isInfinite] using hinf)
        obtain ⟨h, rest, hpush, hfront⟩ := minHistoryFront_updateMinHistory e t
        have hmem : h ∈ pushedHistory e.core.history e.core.target t := hpush ▸ List.mem_cons_self
        have hrate : InRange h.2 := hramp.inRange_push hreg.target hmem
        have hlow : (e.updateMinHistory t).LowLoss t :=
          lowLoss_of_report (e := e) hreg hv hreport hloss
        have hnext : (e.updateEstimate t).core.target =
            e.core.clamp (increasedBitrate (Double r) h.2) := by
          rw [updateEstimate_regular hj, adjustToLoss_lowLoss hlow, core_updateTargetBitrate, hfront]
          rfl
        rw [hnext, hreg.le_clamp_iff hreg.target (hrate.1.trans hrate.le_increased)]
        exact hramp.target_le_increase_iff hreg.target hpush

/-- A report of at most two percent loss keeps the target or raises it, unless an unexpired
jump of the start phase left a rate whose increase is below the target. -/
theorem low_loss_keeps_target_iff (r : Rounding K) (calls : List (Timestamp × Call))
    (t : Timestamp) (packetsLost numberOfPackets : Int)
    (inOrder : InOrder (calls ++ [(t, .updatePacketsLost packetsLost numberOfPackets)]))
    (completes : (afterCalls (Double r) calls).Completes numberOfPackets)
    (lowLoss : ((afterCalls (Double r) calls).updatePacketsLost packetsLost numberOfPackets
      t).lastFractionLoss ≤ 5) :
    (afterCalls (Double r) calls).currentTarget ≤
        ((afterCalls (Double r) calls).updatePacketsLost packetsLost numberOfPackets t).currentTarget ↔
      (afterCalls (Double r) calls).JumpsOn t (.updatePacketsLost packetsLost numberOfPackets) ∨
        ∀ tj rj, latestJump (Double r) calls = some (tj, rj) → historyExpired t tj = true ∨
          (afterCalls (Double r) calls).currentTarget ≤ increasedBitrate (Double r) rj := by
  have hstep := core_updatePacketsLost completes packetsLost t
  have hreg : (afterCalls (Double r) calls).core.Regular := regular_afterCalls calls
  obtain ⟨hcalls, hpast⟩ := inOrder.of_snoc
  have hramp := ramp_afterCalls (r := r) hcalls hpast
  generalize afterCalls (Double r) calls = e at *
  have hkept := core_reported e packetsLost numberOfPackets t
  have hhistory : (e.reported packetsLost numberOfPackets t).core.history = e.core.history := by
    rw [hkept]
  have htarget : (e.reported packetsLost numberOfPackets t).core.target = e.core.target := by
    rw [hkept]
  have hloss : (e.reported packetsLost numberOfPackets t).lastFractionLoss ≤ 5 := by
    rw [← fractionLoss_updateEstimate _ t, ← hstep]
    exact lowLoss
  have hjumps : e.JumpsOn t (.updatePacketsLost packetsLost numberOfPackets) ↔
      (e.reported packetsLost numberOfPackets t).Jumps t := and_iff_right completes
  have hiff := target_le_updateEstimate_iff (regular_reported hreg packetsLost numberOfPackets t)
    (by rw [hhistory, htarget]; exact hramp)
    (lastLossPacketReport_reported e packetsLost numberOfPackets t) hloss
  rw [htarget, ← hstep, ← hjumps] at hiff
  exact hiff

end Runs

/-- A limit of 10 Mbps and a report without loss, at one second: the start phase jumps. -/
def jumpedCalls : List (Timestamp × Call) :=
  [(.finite 1000000, .updateReceiverEstimate (.bitsPerSec 10000000)),
    (.finite 1000000, .updatePacketsLost 0 20)]

/-- Once the jump has expired a report without loss keeps the target. -/
theorem low_loss_keeps_target_after_expiry :
    (afterCalls Rational jumpedCalls).currentTarget ≤
      ((afterCalls Rational jumpedCalls).updatePacketsLost 0 20 (.finite 2100000)).currentTarget := by
  refine (low_loss_keeps_target_iff _ jumpedCalls (.finite 2100000) 0 20 (by decide) (by decide)
    (by decide +kernel)).mpr (.inr ?_)
  intro tj rj hjump
  have hlatest : latestJump Rational jumpedCalls = some (.finite 1000000, .finite 500000) := by
    decide +kernel
  rw [hlatest] at hjump
  cases hjump
  exact .inl (by decide)

/-- A second report without loss, 100 ms after the jump, takes the target from 10 Mbps
back to 541 kbps. -/
theorem low_loss_lowers_target :
    InOrder (jumpedCalls ++ [(.finite 1100000, .updatePacketsLost 0 20)]) ∧
      (afterCalls Rational jumpedCalls).Completes 20 ∧
      ((afterCalls Rational jumpedCalls).updatePacketsLost 0 20
        (.finite 1100000)).lastFractionLoss = 0 ∧
      (afterCalls Rational jumpedCalls).currentTarget = .finite 10000000 ∧
      ((afterCalls Rational jumpedCalls).updatePacketsLost 0 20
        (.finite 1100000)).currentTarget = .finite 541000 := by
  decide +kernel

end SendSideBandwidthEstimation
end ChromeGcc
