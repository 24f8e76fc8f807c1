import ChromeGcc.DelayBased.BackOff

/-! What MaybeUpdateEstimate can do: it leaves the rate control alone, updates it, or halves its
estimate; the detectors are not touched. -/
namespace ChromeGcc
namespace DelayBasedBwe
variable {F : Type} [FloatArith F]

/-- What becomes of the rate control, and what is reported of it. -/
inductive Outcome (d : DelayBasedBwe F) (acked : Option DataRate) (t : Timestamp)
    (after : DelayBasedBwe F × BweResult) : Prop
  | waits (hover : d.activeState = .kBwOverusing) (hrate : after.1.rateControl = d.rateControl)
    (hnot : after.2.updated = false)
  | updates (hknown : d.activeState = .kBwOverusing → acked.isSome = true)
    (hrate : after.1.rateControl = d.rateControl.update ⟨d.activeState, acked⟩ t)
    (hupdated : after.2.updated = after.1.rateControl.bitrateIsInitialized)
    (htarget : after.2.targetBitrate = after.1.rateControl.currentBitrate)
    (hdue : d.activeState = .kBwOverusing → ∀ x, acked = some x →
      d.rateControl.timeToReduceFurther t x = true)
  | halves (hover : d.activeState = .kBwOverusing)
    (hvalid : d.rateControl.bitrateIsInitialized = true)
    (hrate : after.1.rateControl =
      d.rateControl.setEstimate (d.rateControl.latestEstimate.divInt F 2) t)
    (hupdated : after.2.updated = true)
    (htarget : after.2.targetBitrate = after.1.rateControl.currentBitrate) (hunknown : acked = none)

variable (d : DelayBasedBwe F) (acked : Option DataRate) (recovered : Bool) (t : Timestamp)

theorem outcome_maybeUpdateEstimate :
    d.Outcome acked t (d.maybeUpdateEstimate acked recovered false t) := by
  have hrecord := fun (d : DelayBasedBwe F) result => rateControl_recordBitrate (d := d) result
  unfold maybeUpdateEstimate
  dsimp only
  by_cases hover : d.activeState = .kBwOverusing
  · rw [if_pos hover]
    unfold reduceOnOveruse
    simp only [Bool.and_false, Bool.false_eq_true, if_false]
    cases acked with
    | none =>
        dsimp only
        split_ifs with hdue
        · refine .halves hover (Bool.and_eq_true_iff.mp hdue).1 (hrecord _ _) rfl ?_ rfl
          rw [hrecord]
          rfl
        · exact .waits hover (hrecord _ _) rfl
    | some x =>
        dsimp only
        split_ifs with hdue
        · refine .updates (fun _ => rfl) (hrecord _ _) ?_ ?_ ?_
          · rw [hrecord]
            rfl
          · rw [hrecord]
            rfl
          · intro _ y hy
            cases hy
            exact hdue
        · exact .waits hover (hrecord _ _) rfl
  · rw [if_neg hover]
    refine .updates (fun hyes => absurd hyes hover) (hrecord _ _) ?_ ?_ fun hyes => absurd hyes hover
    · rw [hrecord]
      rfl
    · rw [hrecord]
      rfl

/-- A result that is an update carries the estimate that the rate control is left with. -/
theorem target_of_updated (h : (d.maybeUpdateEstimate acked recovered false t).2.updated = true) :
    (d.maybeUpdateEstimate acked recovered false t).2.targetBitrate =
      (d.maybeUpdateEstimate acked recovered false t).1.rateControl.currentBitrate := by
  cases d.outcome_maybeUpdateEstimate acked recovered t with
  | waits hover hrate hnot =>
      rw [hnot] at h
      cases h
  | updates hknown hrate hupdated htarget => exact htarget
  | halves hover hvalid hrate hupdated htarget => exact htarget

/-- An estimate writes to the rate control and to what it remembers of overuse. -/
theorem maybeUpdateEstimate_writes (inAlr : Bool) :
    ∃ rateControl hasOnceDetectedOveruse prevBitrate prevState,
      (d.maybeUpdateEstimate acked recovered inAlr t).1 = { d with
        rateControl := rateControl
        hasOnceDetectedOveruse := hasOnceDetectedOveruse
        prevBitrate := prevBitrate
        prevState := prevState } := by
  unfold maybeUpdateEstimate reduceOnOveruse updateEstimate recordBitrate
  dsimp only
  cases acked with
  | none => split_ifs <;> exact ⟨_, _, _, _, rfl⟩
  | some throughput =>
      dsimp only
      split_ifs <;> exact ⟨_, _, _, _, rfl⟩

theorem activeState_maybeUpdateEstimate (inAlr : Bool) :
    (d.maybeUpdateEstimate acked recovered inAlr t).1.activeState = d.activeState := by
  obtain ⟨_, _, _, _, hwrites⟩ := d.maybeUpdateEstimate_writes acked recovered t inAlr
  rw [hwrites]
  rfl

end DelayBasedBwe
end ChromeGcc
