import ChromeGcc.Throughput.BitrateEstimator

/-! Runs of the throughput estimate. The window is a matter of integers: how many bytes and
milliseconds are in it, and when a sample empties it. The samples conserve both. -/
namespace ChromeGcc
open FloatArith

/-- The arguments of one call of Update: a time, never negative, and a size that an int
holds. -/
structure Ack where
  atTime : Timestamp
  bytes : Int
  valid : 0 ≤ atTime.ms
  pos : 0 < bytes
  fits : bytes < 2147483648

namespace Ack

def ms (u : Ack) : Int := u.atTime.ms
def amount (u : Ack) : DataSize := .ofBytes u.bytes

theorem toInt32_amount (u : Ack) : toInt32 u.amount.bytes = u.bytes := by
  have hpos := u.pos
  have hfits := u.fits
  change toInt32 u.bytes = u.bytes
  unfold toInt32
  omega

end Ack

/-- A thousand bytes at a time in milliseconds. -/
def ackAt (ms : Nat) : Ack where
  atTime := .finite (1000 * ms)
  bytes := 1000
  valid := by
    change 0 ≤ (1000 * (ms : Int) + 500).tdiv 1000
    exact Int.tdiv_nonneg (by omega) (by decide)
  pos := by decide
  fits := by decide

/-- The integers of the estimator. -/
structure RateWindow where
  sum : Int := 0
  currentMs : Int := 0
  prevMs : Int := -1
  deriving DecidableEq, Repr

namespace RateWindow

/-- The window moved to a time: backwards it starts over, over a gap longer than the rate
window it keeps only the remainder of the time. -/
def advance (w : RateWindow) (nowMs rateWindowMs : Int) : RateWindow :=
  if nowMs < w.prevMs then { prevMs := nowMs }
  else if w.prevMs < 0 then { w with prevMs := nowMs }
  else if nowMs - w.prevMs > rateWindowMs then
    { currentMs := (w.currentMs + (nowMs - w.prevMs)).tmod rateWindowMs, prevMs := nowMs }
  else { w with currentMs := w.currentMs + (nowMs - w.prevMs), prevMs := nowMs }

/-- The call takes a sample. -/
def Emits (w : RateWindow) (nowMs rateWindowMs : Int) : Prop :=
  (w.advance nowMs rateWindowMs).currentMs ≥ rateWindowMs

instance (w : RateWindow) (nowMs rateWindowMs : Int) : Decidable (w.Emits nowMs rateWindowMs) :=
  inferInstanceAs (Decidable (_ ≥ _))

/-- The window after a call: a sample takes its bytes and one rate window of its time. -/
def next (w : RateWindow) (nowMs bytes rateWindowMs : Int) : RateWindow :=
  let moved := w.advance nowMs rateWindowMs
  if w.Emits nowMs rateWindowMs then
    { moved with sum := bytes, currentMs := moved.currentMs - rateWindowMs }
  else { moved with sum := moved.sum + bytes }

variable {w : RateWindow} {nowMs bytes rateWindowMs : Int}

@[simp] theorem prevMs_advance : (w.advance nowMs rateWindowMs).prevMs = nowMs := by
  unfold advance
  split_ifs <;> rfl

@[simp] theorem prevMs_next : (w.next nowMs bytes rateWindowMs).prevMs = nowMs := by
  unfold next
  split_ifs <;> exact prevMs_advance

theorem next_of_emits (h : w.Emits nowMs rateWindowMs) :
    w.next nowMs bytes rateWindowMs =
      { sum := bytes, currentMs := (w.advance nowMs rateWindowMs).currentMs - rateWindowMs,
        prevMs := nowMs } := by
  unfold next
  rw [if_pos h, prevMs_advance]

theorem next_of_not_emits (h : ¬ w.Emits nowMs rateWindowMs) :
    w.next nowMs bytes rateWindowMs =
      { sum := (w.advance nowMs rateWindowMs).sum + bytes,
        currentMs := (w.advance nowMs rateWindowMs).currentMs, prevMs := nowMs } := by
  unfold next
  rw [if_neg h, prevMs_advance]

/-- A sample takes a known time and a gap no longer than the rate window. -/
theorem Emits.within (h : w.Emits nowMs rateWindowMs) (hw : 0 < rateWindowMs)
    (hcurrent : w.prevMs < 0 → w.currentMs < rateWindowMs) :
    0 ≤ w.prevMs ∧ w.prevMs ≤ nowMs ∧ nowMs - w.prevMs ≤ rateWindowMs := by
  unfold Emits advance at h
  split_ifs at h with hback hneg hgap
  · dsimp only at h
    omega
  · dsimp only at h
    exact absurd (hcurrent hneg) (not_lt.mpr h)
  · have hrest := Int.tmod_lt_of_pos (w.currentMs + (nowMs - w.prevMs)) hw
    exact absurd hrest (not_lt.mpr h)
  · exact ⟨not_lt.mp hneg, not_lt.mp hback, not_lt.mp hgap⟩

/-- A known time and a short gap: the bytes stay, and the gap is added. -/
theorem advance_within (hprev : 0 ≤ w.prevMs) (hle : w.prevMs ≤ nowMs)
    (hgap : nowMs - w.prevMs ≤ rateWindowMs) :
    w.advance nowMs rateWindowMs =
      { w with currentMs := w.currentMs + (nowMs - w.prevMs), prevMs := nowMs } := by
  unfold advance
  rw [if_neg (by omega), if_neg (by omega), if_neg (by omega)]

theorem currentMs_advance_nonneg (h : 0 ≤ w.currentMs) :
    0 ≤ (w.advance nowMs rateWindowMs).currentMs := by
  unfold advance
  split_ifs with hback
  · exact le_refl _
  · exact h
  · exact Int.tmod_nonneg _ (by omega)
  · dsimp only
    omega

end RateWindow

namespace BitrateEstimator
variable {F : Type} [FloatArith F] (b : BitrateEstimator F)

def window (b : BitrateEstimator F) : RateWindow where
  sum := b.sum
  currentMs := b.currentWindowMs
  prevMs := b.prevTimeMs

def withWindow (b : BitrateEstimator F) (w : RateWindow) : BitrateEstimator F :=
  { b with sum := w.sum, currentWindowMs := w.currentMs, prevTimeMs := w.prevMs }

theorem advanceWindow_eq (nowMs rateWindowMs : Int) :
    b.advanceWindow nowMs rateWindowMs = b.withWindow (b.window.advance nowMs rateWindowMs) := by
  unfold advanceWindow RateWindow.advance window withWindow
  by_cases hback : nowMs < b.prevTimeMs
  · simp only [hback, if_true]
    rfl
  · by_cases hknown : b.prevTimeMs ≥ 0
    · have hnot : ¬ b.prevTimeMs < 0 := by omega
      simp only [hback, hknown, hnot, if_false, if_true]
      split_ifs <;> rfl
    · have hneg : b.prevTimeMs < 0 := by omega
      simp only [hback, hknown, hneg, if_false, if_true]

/-- The value of a sample over a rate window. -/
def sampleKbps (F : Type) [FloatArith F] (bytes rateWindowMs : Int) : F :=
  fdiv (fmul (flit 8) (fint bytes)) (fint rateWindowMs)

/-- UpdateWindow moves the window and leaves the estimate alone. -/
theorem updateWindow_eq (nowMs bytes rateWindowMs : Int) :
    b.updateWindow nowMs bytes rateWindowMs =
      (b.withWindow (b.window.next nowMs bytes rateWindowMs),
        if b.window.Emits nowMs rateWindowMs then
          sampleKbps F (b.window.advance nowMs rateWindowMs).sum rateWindowMs
        else flit (-1)) := by
  unfold updateWindow
  rw [advanceWindow_eq]
  by_cases h : b.window.Emits nowMs rateWindowMs
  · have hcurrent : (b.withWindow (b.window.advance nowMs rateWindowMs)).currentWindowMs ≥
        rateWindowMs := h
    rw [RateWindow.next, if_pos h, if_pos h]
    simp only [if_pos hcurrent, zero_add]
    rfl
  · have hcurrent : ¬ (b.withWindow (b.window.advance nowMs rateWindowMs)).currentWindowMs ≥
        rateWindowMs := h
    rw [RateWindow.next, if_neg h, if_neg h]
    simp only [if_neg hcurrent]
    rfl

/-- The sample that a call takes, or minus one. -/
def sampleOf (b : BitrateEstimator F) (u : Ack) : F :=
  (b.updateWindow u.ms u.bytes b.rateWindowMs).2

/-- The window after a call. -/
def windowAfter (b : BitrateEstimator F) (u : Ack) : RateWindow :=
  b.window.next u.ms u.bytes b.rateWindowMs

/-- The three ways of Update: no sample, the first one, and a later one. -/
theorem update_eq (u : Ack) :
    b.update u.atTime u.amount =
      if b.sampleOf u < flit 0 then b.withWindow (b.windowAfter u)
      else if b.bitrateEstimateKbps < flit 0 then
        { b.withWindow (b.windowAfter u) with bitrateEstimateKbps := b.sampleOf u }
      else (b.withWindow (b.windowAfter u)).weigh (b.sampleOf u) := by
  have hms : u.atTime.ms = u.ms := rfl
  unfold update sampleOf windowAfter
  rw [u.toInt32_amount, hms, updateWindow_eq]
  rfl

theorem window_update (u : Ack) : (b.update u.atTime u.amount).window = b.windowAfter u := by
  rw [update_eq]
  split_ifs <;> rfl

/-- A sample that UpdateWindow returned: its value, its rate window and its time. -/
structure Sample (F : Type) where
  kbps : F
  windowMs : Int
  atMs : Int

def sampleAt (b : BitrateEstimator F) (u : Ack) : Sample F where
  kbps := b.sampleOf u
  windowMs := b.rateWindowMs
  atMs := u.ms

/-- A call, with the sample that it takes put behind those before it. -/
def record (s : BitrateEstimator F × List (Sample F)) (u : Ack) :
    BitrateEstimator F × List (Sample F) :=
  (s.1.update u.atTime u.amount,
    if s.1.sampleOf u < flit 0 then s.2
    else s.2 ++ [s.1.sampleAt u])

theorem window_record (s : BitrateEstimator F × List (Sample F)) (u : Ack) :
    (record s u).1.window = s.1.windowAfter u := s.1.window_update u

theorem sum_record (s : BitrateEstimator F × List (Sample F)) (u : Ack) :
    (record s u).1.sum = (s.1.windowAfter u).sum := congrArg RateWindow.sum (window_record s u)

theorem currentWindowMs_record (s : BitrateEstimator F × List (Sample F)) (u : Ack) :
    (record s u).1.currentWindowMs = (s.1.windowAfter u).currentMs :=
  congrArg RateWindow.currentMs (window_record s u)

/-- A new estimator after calls, and the samples they took. -/
def afterAcks (F : Type) [FloatArith F] (us : List Ack) : BitrateEstimator F × List (Sample F) :=
  us.foldl record ({}, [])

theorem afterAcks_snoc (us : List Ack) (u : Ack) :
    afterAcks F (us ++ [u]) = record (afterAcks F us) u :=
  List.foldl_concat _ _ _ _

theorem prevMs_afterAcks (us : List Ack) (last : Ack) :
    (afterAcks F (us ++ [last])).1.window.prevMs = last.ms := by
  rw [afterAcks_snoc, window_record, windowAfter, RateWindow.prevMs_next]

/-! The sign of the estimate tells whether there was a sample, under any rounding. -/

section Rounded
variable {K : Type} [Field K] [LinearOrder K] [FloorRing K] {r : Rounding K}

theorem val_fint {n : Int} (h : |n| ≤ 2 ^ 24) : (fint n : Double r).val = n := r.narrow_rnd_int h

theorem val_flit {n : Int} (h : |n| ≤ 2 ^ 24) : (flit n : Double r).val = n := val_narrow_lit h

theorem val_flit_zero : (flit 0 : Double r).val = 0 := by
  simpa using val_flit (r := r) (n := 0) (by norm_num)

theorem val_flit_neg_one : (flit (-1) : Double r).val = -1 := by
  simpa using val_flit (r := r) (n := -1) (by norm_num)

theorem val_flit_eight : (flit 8 : Double r).val = 8 := by
  simpa using val_flit (r := r) (n := 8) (by norm_num)

theorem val_flit_five : (flit 5 : Double r).val = 5 := by
  simpa using val_flit (r := r) (n := 5) (by norm_num)

theorem val_fadd_exact (hr : r.IsExact) (x y : Double r) : (fadd x y).val = x.val + y.val := by
  rw [fadd, val_narrow, val_add, hr.narrow, hr.rnd]

theorem val_fmul_exact (hr : r.IsExact) (x y : Double r) : (fmul x y).val = x.val * y.val := by
  rw [fmul, val_narrow, val_mul, hr.narrow, hr.rnd]

theorem val_fdiv_exact (hr : r.IsExact) {x y : Double r} (h : y.val ≠ 0) :
    (fdiv x y).val = x.val / y.val := by
  rw [fdiv, val_narrow, val_div _ _ h, hr.narrow, hr.rnd]

/-- The floor under the estimate is zero. -/
theorem val_kbpsFloat_zero : (DataRate.kbpsFloat .zero : Double r).val = 0 := by
  have hzero := r.narrow_rnd_int (n := 0) (by norm_num)
  have hrnd : r.rnd 0 = 0 := by simpa using r.rnd_int 0 (by norm_num)
  have hrate : (narrow (UnitBase.toDouble (.zero : DataRate)) : Double r).val = 0 := by
    change r.narrow (r.rnd ((0 : Int) : K)) = 0
    rw [hzero, Int.cast_zero]
  change r.narrow (r.rnd ((narrow (UnitBase.toDouble (.zero : DataRate)) : Double r).val *
    (fdiv (fint 1) (fint 1000) : Double r).val)) = 0
  rw [hrate, zero_mul, hrnd]
  simpa [hrnd] using hzero

/-- A run of an estimator with its samples: the settings are those of the constructor, the
window has bytes from the first call on, and the estimate is negative until the first sample
and never after it. -/
structure Started (s : BitrateEstimator (Double r) × List (Sample (Double r))) : Prop where
  initialWindow : s.1.initialWindowMs = kInitialRateWindowMs
  noninitialWindow : s.1.noninitialWindowMs = kRateWindowMs
  scale : s.1.uncertaintyScale = lit 10
  symmetryCap : s.1.uncertaintySymmetryCap = .zero
  floor : s.1.estimateFloor = .zero
  live : s.1.window = {} ∨ 0 ≤ s.1.prevTimeMs ∧ 0 < s.1.sum
  unset : s.2 = [] → s.1.bitrateEstimateKbps = flit (-1)
  set : s.2 ≠ [] → 0 ≤ s.1.bitrateEstimateKbps.val

variable {s : BitrateEstimator (Double r) × List (Sample (Double r))}

theorem started_new : Started (r := r) ({}, []) :=
  ⟨rfl, rfl, rfl, rfl, rfl, .inl rfl, fun _ => rfl, fun h => absurd rfl h⟩

theorem Started.sum_advance_nonneg (h : Started s) (u : Ack) :
    0 ≤ (s.1.window.advance u.ms s.1.rateWindowMs).sum := by
  have hsum : 0 ≤ s.1.window.sum := by
    rcases h.live with hempty | ⟨-, hpos⟩
    · rw [hempty]
    · exact hpos.le
  unfold RateWindow.advance
  split_ifs
  · exact le_refl _
  · exact hsum
  · exact le_refl _
  · exact hsum

theorem Started.sum_windowAfter (h : Started s) (u : Ack) : 0 < (s.1.windowAfter u).sum := by
  have hpos := u.pos
  have hsum := h.sum_advance_nonneg u
  unfold windowAfter RateWindow.next
  split_ifs
  · exact hpos
  · dsimp only
    omega

/-- Weighing keeps the estimate above its floor. -/
theorem Started.weigh_nonneg (h : Started s) (w : RateWindow) (kbps : Double r) :
    0 ≤ ((s.1.withWindow w).weigh kbps).bitrateEstimateKbps.val := by
  have hfloor : (DataRate.kbpsFloat (s.1.withWindow w).estimateFloor : Double r).val = 0 := by
    change (DataRate.kbpsFloat s.1.estimateFloor : Double r).val = 0
    rw [h.floor, val_kbpsFloat_zero]
  have hmax := val_stdMax (r := r) (K := K)
  unfold weigh
  dsimp only
  rw [hmax, hfloor]
  exact le_max_right _ _

variable [IsStrictOrderedRing K]

theorem sampleKbps_nonneg {bytes rateWindowMs : Int} (hb : 0 ≤ bytes) (hw : 0 < rateWindowMs)
    (hsmall : rateWindowMs ≤ 2 ^ 24) : 0 ≤ (sampleKbps (Double r) bytes rateWindowMs).val := by
  have hwindow : (fint rateWindowMs : Double r).val = rateWindowMs :=
    val_fint (by rwa [abs_of_pos hw])
  have hpos : (0 : K) < rateWindowMs := by exact_mod_cast hw
  have hbytes : 0 ≤ (fint bytes : Double r).val := r.narrow_rnd_nonneg (by exact_mod_cast hb)
  have hbits : 0 ≤ (fmul (flit 8) (fint bytes) : Double r).val := by
    refine r.narrow_rnd_nonneg ?_
    rw [val_flit_eight]
    exact mul_nonneg (by norm_num) hbytes
  rw [sampleKbps, fdiv, val_narrow, val_div _ _ (by rw [hwindow]; exact hpos.ne'), hwindow]
  exact r.narrow_rnd_nonneg (div_nonneg hbits hpos.le)

theorem Started.estimate_neg_iff (h : Started s) : s.1.bitrateEstimateKbps < flit 0 ↔ s.2 = [] := by
  rw [lt_iff, val_flit_zero]
  constructor
  · intro hneg
    by_contra hne
    exact absurd (h.set hne) (not_le.mpr hneg)
  · intro hnil
    rw [h.unset hnil, val_flit_neg_one]
    norm_num

theorem Started.rateWindowMs_eq (h : Started s) :
    s.1.rateWindowMs = if s.2 = [] then kInitialRateWindowMs else kRateWindowMs := by
  unfold rateWindowMs
  rw [h.initialWindow, h.noninitialWindow]
  exact if_congr h.estimate_neg_iff rfl rfl

theorem Started.rateWindowMs_bounds (h : Started s) :
    0 < s.1.rateWindowMs ∧ s.1.rateWindowMs ≤ 2 ^ 24 := by
  rw [h.rateWindowMs_eq]
  split_ifs <;> decide

/-- A call that takes a sample returns its value, which is not negative. -/
theorem Started.sampleOf_eq (h : Started s) {u : Ack}
    (he : s.1.window.Emits u.ms s.1.rateWindowMs) :
    s.1.sampleOf u = sampleKbps (Double r) (s.1.window.advance u.ms s.1.rateWindowMs).sum
        s.1.rateWindowMs ∧
      ¬ s.1.sampleOf u < flit 0 := by
  have heq : s.1.sampleOf u = sampleKbps (Double r)
      (s.1.window.advance u.ms s.1.rateWindowMs).sum s.1.rateWindowMs := by
    rw [sampleOf, updateWindow_eq, if_pos he]
  refine ⟨heq, ?_⟩
  rw [lt_iff, val_flit_zero, heq, not_lt]
  exact sampleKbps_nonneg (h.sum_advance_nonneg u) h.rateWindowMs_bounds.1 h.rateWindowMs_bounds.2

theorem sampleOf_lt_of_not_emits {b : BitrateEstimator (Double r)} {u : Ack}
    (he : ¬ b.window.Emits u.ms b.rateWindowMs) : b.sampleOf u < flit 0 := by
  rw [sampleOf, updateWindow_eq, if_neg he, lt_iff, val_flit_zero, val_flit_neg_one]
  norm_num

theorem record_of_not_emits {u : Ack} (he : ¬ s.1.window.Emits u.ms s.1.rateWindowMs) :
    record s u = (s.1.withWindow (s.1.windowAfter u), s.2) := by
  unfold record
  rw [update_eq, if_pos (sampleOf_lt_of_not_emits he), if_pos (sampleOf_lt_of_not_emits he)]

/-- The first sample becomes the estimate; a later one is weighed. -/
theorem Started.record_of_emits (h : Started s) {u : Ack}
    (he : s.1.window.Emits u.ms s.1.rateWindowMs) :
    record s u =
      (if s.2 = [] then
          { s.1.withWindow (s.1.windowAfter u) with bitrateEstimateKbps := s.1.sampleOf u }
        else (s.1.withWindow (s.1.windowAfter u)).weigh (s.1.sampleOf u),
        s.2 ++ [s.1.sampleAt u]) := by
  have hnot := (h.sampleOf_eq he).2
  unfold record
  rw [update_eq, if_neg hnot, if_neg hnot]
  congr 1
  exact if_congr h.estimate_neg_iff rfl rfl

/-- The samples grow exactly when the window is full. -/
theorem Started.samples_record (h : Started s) (u : Ack) :
    (record s u).2 =
      if s.1.window.Emits u.ms s.1.rateWindowMs then s.2 ++ [s.1.sampleAt u] else s.2 := by
  split_ifs with he
  · rw [h.record_of_emits he]
  · rw [record_of_not_emits he]

/-- A sample needs a call before it, not later and no more than a rate window ago. -/
theorem Started.emits_within (h : Started s) {u : Ack}
    (he : s.1.window.Emits u.ms s.1.rateWindowMs) :
    0 ≤ s.1.prevTimeMs ∧ s.1.prevTimeMs ≤ u.ms ∧ u.ms - s.1.prevTimeMs ≤ s.1.rateWindowMs := by
  refine he.within h.rateWindowMs_bounds.1 ?_
  intro hneg
  rcases h.live with hempty | ⟨hknown, -⟩
  · rw [hempty]
    exact h.rateWindowMs_bounds.1
  · exact absurd hknown (not_le.mpr hneg)

theorem Started.record (h : Started s) (u : Ack) : Started (record s u) := by
  have hlive : 0 ≤ (s.1.windowAfter u).prevMs ∧ 0 < (s.1.windowAfter u).sum := by
    refine ⟨?_, h.sum_windowAfter u⟩
    rw [windowAfter, RateWindow.prevMs_next]
    exact u.valid
  by_cases he : s.1.window.Emits u.ms s.1.rateWindowMs
  · have hne : s.2 ++ [s.1.sampleAt u] ≠ [] :=
      List.append_ne_nil_of_right_ne_nil _ (List.cons_ne_nil _ _)
    have hnonneg : 0 ≤ (s.1.sampleOf u).val := by
      rw [(h.sampleOf_eq he).1]
      exact sampleKbps_nonneg (h.sum_advance_nonneg u) h.rateWindowMs_bounds.1
        h.rateWindowMs_bounds.2
    rw [h.record_of_emits he]
    split_ifs with hnil
    · exact ⟨h.initialWindow, h.noninitialWindow, h.scale, h.symmetryCap, h.floor, .inr hlive,
        fun hnil => absurd hnil hne, fun _ => hnonneg⟩
    · exact ⟨h.initialWindow, h.noninitialWindow, h.scale, h.symmetryCap, h.floor, .inr hlive,
        fun hnil => absurd hnil hne, fun _ => h.weigh_nonneg _ _⟩
  · rw [record_of_not_emits he]
    exact ⟨h.initialWindow, h.noninitialWindow, h.scale, h.symmetryCap, h.floor, .inr hlive,
      h.unset, h.set⟩

theorem started_afterAcks (us : List Ack) : Started (afterAcks (Double r) us) := by
  induction us using List.reverseRecOn with
  | nil => exact started_new
  | append_singleton us u ih =>
      rw [afterAcks_snoc]
      exact ih.record u

/-- Without rounding, the bits of the window in kbps. -/
theorem val_sampleKbps_exact (hr : r.IsExact) {bytes rateWindowMs : Int} (hw : 0 < rateWindowMs)
    (hsmall : rateWindowMs ≤ 2 ^ 24) :
    (sampleKbps (Double r) bytes rateWindowMs).val = 8 * bytes / rateWindowMs := by
  have hwindow : (fint rateWindowMs : Double r).val = rateWindowMs :=
    val_fint (by rwa [abs_of_pos hw])
  have hpos : (0 : K) < rateWindowMs := by exact_mod_cast hw
  have hbytes : (fint bytes : Double r).val = bytes := by
    rw [fint, val_narrow, val_ofInt, hr.rnd, hr.narrow]
  rw [sampleKbps, val_fdiv_exact hr (by rw [hwindow]; exact hpos.ne'), hwindow, val_fmul_exact hr,
    val_flit_eight, hbytes]

end Rounded

end BitrateEstimator
end ChromeGcc
