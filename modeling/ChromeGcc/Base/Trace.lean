import Mathlib.Tactic

/-! Runs of a deterministic machine whose step may fail. A trace records the
inputs and outputs of the steps that succeeded; a run stops at the first failure. -/

namespace Machine
variable {σ ι ο ε : Type}

/-- Executable run: the last state and the outputs, or the first failure. -/
def run (step : σ → ι → Except ε (σ × ο)) (s : σ) : List ι → Except ε (σ × List ο)
  | [] => .ok (s, [])
  | i :: is =>
    match step s i with
    | .error e => .error e
    | .ok (s', o) =>
      match run step s' is with
      | .error e => .error e
      | .ok (s'', os) => .ok (s'', o :: os)

/-- Trace step s₀ is os s: from s₀ the inputs is all succeed, give os and end in s.
It grows at its end, so that an invariant may speak of everything seen so far. -/
inductive Trace (step : σ → ι → Except ε (σ × ο)) (s₀ : σ) : List ι → List ο → σ → Prop
  | nil : Trace step s₀ [] [] s₀
  | snoc {is : List ι} {os : List ο} {s s' : σ} {i : ι} {o : ο} :
      Trace step s₀ is os s → step s i = .ok (s', o) → Trace step s₀ (is ++ [i]) (os ++ [o]) s'

variable {step : σ → ι → Except ε (σ × ο)} {s₀ s : σ} {is : List ι} {os : List ο}

theorem run_cons_ok {s' t : σ} {i : ι} {o : ο} (hs : step s i = .ok (s', o))
    (h : run step s (i :: is) = .ok (t, os)) :
    ∃ os', run step s' is = .ok (t, os') ∧ os = o :: os' := by
  rw [run, hs] at h
  cases hr : run step s' is with
  | error e => simp only [hr] at h; cases h
  | ok r =>
      simp only [hr] at h
      cases h
      exact ⟨r.2, rfl, rfl⟩

theorem run_cons_iff {t : σ} {i : ι} :
    run step s (i :: is) = .ok (t, os) ↔
      ∃ s' o os', step s i = .ok (s', o) ∧ run step s' is = .ok (t, os') ∧ os = o :: os' := by
  constructor
  · intro h
    cases hs : step s i with
    | error e => simp only [run, hs] at h; cases h
    | ok r =>
        obtain ⟨os', hr, hos⟩ := run_cons_ok hs h
        exact ⟨r.1, r.2, os', rfl, hr, hos⟩
  · rintro ⟨s', o, os', hs, hr, rfl⟩
    simp only [run, hs, hr]

theorem run_snoc (s : σ) (is : List ι) (i : ι) :
    run step s (is ++ [i]) =
      match run step s is with
      | .error e => .error e
      | .ok (s', os) =>
        match step s' i with
        | .error e => .error e
        | .ok (s'', o) => .ok (s'', os ++ [o]) := by
  induction is generalizing s with
  | nil =>
      simp only [List.nil_append, run]
  | cons j is ih =>
      simp only [List.cons_append, run]
      cases step s j with
      | error e => rfl
      | ok r =>
          simp only [ih r.1]
          cases run step r.1 is with
          | error e => rfl
          | ok t =>
              dsimp only
              cases step t.1 i <;> rfl

theorem trace_iff_run : Trace step s₀ is os s ↔ run step s₀ is = .ok (s, os) := by
  constructor
  · intro h
    induction h with
    | nil => rfl
    | snoc h hs ih => rw [run_snoc, ih]; simp only [hs]
  · induction is using List.reverseRecOn generalizing os s with
    | nil => intro h; cases h; exact .nil
    | append_singleton is i ih =>
        intro h
        rw [run_snoc] at h
        cases hr : run step s₀ is with
        | error e => rw [hr] at h; cases h
        | ok r =>
            rw [hr] at h
            cases hs : step r.1 i with
            | error e => simp only [hs] at h; cases h
            | ok t =>
                simp only [hs] at h
                cases h
                exact .snoc (ih hr) hs

theorem Trace.unique {s' : σ} {os' : List ο} (h : Trace step s₀ is os s)
    (h' : Trace step s₀ is os' s') : os = os' ∧ s = s' := by
  rw [trace_iff_run] at h h'
  rw [h] at h'
  cases h'
  exact ⟨rfl, rfl⟩

theorem Trace.snoc_inv {i : ι} (h : Trace step s₀ (is ++ [i]) os s) :
    ∃ os' o t, os = os' ++ [o] ∧ Trace step s₀ is os' t ∧ step t i = .ok (s, o) := by
  generalize hl : is ++ [i] = l at h
  cases h with
  | nil => simp at hl
  | snoc h hs =>
      obtain ⟨rfl, hi⟩ := List.append_inj' hl rfl
      cases hi
      exact ⟨_, _, _, rfl, h, hs⟩

theorem Trace.of_append {js : List ι} (h : Trace step s₀ (is ++ js) os s) :
    ∃ os' t, Trace step s₀ is os' t := by
  induction js using List.reverseRecOn generalizing os s with
  | nil => exact ⟨os, s, by simpa using h⟩
  | append_singleton js j ih =>
      rw [← List.append_assoc] at h
      obtain ⟨_, _, _, _, h', _⟩ := h.snoc_inv
      exact ih h'

theorem Trace.length_eq (h : Trace step s₀ is os s) : os.length = is.length := by
  induction h with
  | nil => rfl
  | snoc _ _ ih => simp [ih]

/-- The induction rule: what holds at the start and is kept by every step that
succeeds holds of every state reached. The invariant may mention the inputs and
outputs so far, and may assume a property of prefixes that the input sequence has. -/
theorem Trace.invariant {P : List ι → Prop} {I : List ι → List ο → σ → Prop}
    (hP : ∀ is i, P (is ++ [i]) → P is) (init : I [] [] s₀)
    (keep : ∀ is os s i s' o, P (is ++ [i]) → Trace step s₀ is os s → I is os s →
      step s i = .ok (s', o) → I (is ++ [i]) (os ++ [o]) s')
    (h : Trace step s₀ is os s) (hp : P is) : I is os s := by
  induction h with
  | nil => exact init
  | snoc h hs ih => exact keep _ _ _ _ _ _ hp h (ih (hP _ _ hp)) hs

/-- A machine that only observes more than another has that machine's traces. -/
theorem Trace.project {ο' : Type} {step' : σ → ι → Except ε (σ × ο')} {f : ο' → ο} {os' : List ο'}
    (hf : ∀ s i s' o', step' s i = .ok (s', o') → step s i = .ok (s', f o'))
    (h : Trace step' s₀ is os' s) : Trace step s₀ is (os'.map f) s := by
  induction h with
  | nil => exact .nil
  | snoc h hs ih =>
      rw [List.map_append]
      exact .snoc ih (hf _ _ _ _ hs)

theorem Trace.append {js : List ι} {ps : List ο} {t : σ} (h : Trace step s₀ is os s)
    (h' : Trace step s js ps t) : Trace step s₀ (is ++ js) (os ++ ps) t := by
  induction h' with
  | nil => simpa using h
  | snoc _ hs ih =>
      rw [← List.append_assoc, ← List.append_assoc]
      exact .snoc ih hs

section Simulation
variable {τ κ π δ : Type} {step' : τ → κ → Except δ (τ × π)} {R : σ → τ → Prop} {Q : ο → Prop}
  {inputs : ο → List κ} {seen : ο → List π}

/-- The simulation rule: where another machine matches every step of this one by a run, which
may be empty, it matches every run. What a step shows decides the inputs that match it. -/
theorem Trace.simulate
    (matched : ∀ s i s' o t, R s t → Q o → step s i = .ok (s', o) →
      ∃ t', Trace step' t (inputs o) (seen o) t' ∧ R s' t')
    (h : Trace step s₀ is os s) (hq : ∀ o ∈ os, Q o) {t₀ : τ} (init : R s₀ t₀) :
    ∃ t, Trace step' t₀ (os.flatMap inputs) (os.flatMap seen) t ∧ R s t := by
  induction h with
  | nil => exact ⟨t₀, .nil, init⟩
  | @snoc is os s s' i o h hs ih =>
      obtain ⟨t, ht, hr⟩ := ih fun o ho => hq o (List.mem_append_left _ ho)
      obtain ⟨t', ht', hr'⟩ := matched s i s' o t hr (hq o (by simp)) hs
      refine ⟨t', ?_, hr'⟩
      rw [List.flatMap_append, List.flatMap_append, List.flatMap_singleton,
        List.flatMap_singleton]
      exact ht.append ht'

end Simulation

/-- A run fails exactly when some prefix succeeds and the next step fails. -/
theorem run_error_iff {e : ε} : run step s₀ is = .error e ↔
    ∃ pre i post os s, is = pre ++ i :: post ∧ Trace step s₀ pre os s ∧ step s i = .error e := by
  constructor
  · induction is using List.reverseRecOn with
    | nil => intro h; cases h
    | append_singleton is i ih =>
        intro h
        rw [run_snoc] at h
        cases hr : run step s₀ is with
        | error e' =>
            rw [hr] at h
            cases h
            obtain ⟨pre, j, post, os, s, rfl, ht, hs⟩ := ih hr
            exact ⟨pre, j, post ++ [i], os, s, by simp, ht, hs⟩
        | ok r =>
            rw [hr] at h
            cases hs : step r.1 i with
            | error e' =>
                simp only [hs] at h
                cases h
                exact ⟨is, i, [], r.2, r.1, rfl, trace_iff_run.mpr hr, hs⟩
            | ok t => simp only [hs] at h; cases h
  · rintro ⟨pre, i, post, os, s, rfl, ht, hs⟩
    have hpre : run step s₀ (pre ++ [i]) = .error e := by
      rw [run_snoc, trace_iff_run.mp ht]
      simp only [hs]
    rw [List.append_cons]
    generalize pre ++ [i] = l at hpre ⊢
    induction post using List.reverseRecOn with
    | nil => simpa using hpre
    | append_singleton post j ih => rw [← List.append_assoc, run_snoc, ih]

/-- The last state of a run that succeeds; on a failure, its first. -/
def final (step : σ → ι → Except ε (σ × ο)) (s : σ) (is : List ι) : σ :=
  match run step s is with
  | .error _ => s
  | .ok (s', _) => s'

def outputs (step : σ → ι → Except ε (σ × ο)) (s : σ) (is : List ι) : List ο :=
  match run step s is with
  | .error _ => []
  | .ok (_, os) => os

theorem trace_final (h : (run step s₀ is).isOk = true) :
    Trace step s₀ is (outputs step s₀ is) (final step s₀ is) := by
  rw [trace_iff_run]
  unfold outputs final
  cases hr : run step s₀ is with
  | error e => rw [hr] at h; cases h
  | ok r => rfl

/-! Runs of a machine whose step cannot fail. -/

section Total
variable {advance : σ → ι → σ} {P : σ → Prop} {C : σ → ι → Prop}

/-- Every state of a run has a property exactly when every step meets the condition under
which it keeps that property. -/
theorem foldl_all_iff (init : P s₀)
    (keep : ∀ done i, P (done.foldl advance s₀) →
      (P ((done ++ [i]).foldl advance s₀) ↔ C (done.foldl advance s₀) i)) (is : List ι) :
    (∀ done, done <+: is → P (done.foldl advance s₀)) ↔
      ∀ done i, done ++ [i] <+: is → C (done.foldl advance s₀) i := by
  induction is using List.reverseRecOn with
  | nil =>
      constructor
      · intro _ done i hd
        simp at hd
      · intro _ done hd
        rw [List.prefix_nil.mp hd]
        exact init
  | append_singleton is i ih =>
      constructor
      · intro h done j hd
        rcases List.prefix_concat_iff.mp hd with he | hd
        · obtain ⟨rfl, hj⟩ := List.append_inj' he rfl
          cases hj
          have hbefore := h done ((List.prefix_append done [i]))
          exact (keep done i hbefore).mp (h _ (List.prefix_refl _))
        · exact ih.mp (fun done hd => h done (hd.trans (List.prefix_append is [i]))) done j hd
      · intro h
        have hbefore := ih.mpr fun done j hd => h done j (hd.trans (List.prefix_append is [i]))
        intro done hd
        rcases List.prefix_concat_iff.mp hd with rfl | hd
        · exact (keep is i (hbefore is (List.prefix_refl is))).mpr (h is i (List.prefix_refl _))
        · exact hbefore done hd

end Total

/-! Runs of a machine that reports something with some of its steps. -/

section Reports
variable {step : σ → ι → σ × Option ο}

/-- What the steps of a run report, in order. -/
def reported (step : σ → ι → σ × Option ο) (s : σ) : List ι → List ο
  | [] => []
  | i :: is => (step s i).2.toList ++ reported step (step s i).1 is

theorem reported_cons_none {s : σ} {i : ι} (h : (step s i).2 = none) (is : List ι) :
    reported step s (i :: is) = reported step (step s i).1 is := by
  rw [reported, h, Option.toList_none, List.nil_append]

theorem reported_concat (s : σ) (is : List ι) (i : ι) : reported step s (is ++ [i]) =
    reported step s is ++ (step (is.foldl (fun s i => (step s i).1) s) i).2.toList := by
  induction is generalizing s with
  | nil => exact List.append_nil _
  | cons j is ih =>
      rw [List.cons_append, reported, reported, ih, List.append_assoc]
      rfl

/-- The rank rule: where every silent step lowers the rank and no rank is zero, a run of as
many steps as its rank reports something. -/
theorem reported_ne_nil_of_rank {R : Nat → σ → List ι → Prop} (pos : ∀ s is, ¬ R 0 s is)
    (silent : ∀ n s i is, R (n + 1) s (i :: is) → (step s i).2 = none →
      ∃ m, m ≤ n ∧ R m (step s i).1 is)
    {n : Nat} {s : σ} {is : List ι} (h : R n s is) (hlength : n ≤ is.length) :
    reported step s is ≠ [] := by
  induction is generalizing n s with
  | nil =>
      cases Nat.le_zero.mp hlength
      exact absurd h (pos s [])
  | cons i is ih =>
      cases n with
      | zero => exact absurd h (pos s (i :: is))
      | succ n =>
          cases hs : (step s i).2 with
          | some o =>
              rw [reported, hs]
              exact List.cons_ne_nil _ _
          | none =>
              obtain ⟨m, hm, hrank⟩ := silent n s i is h hs
              rw [reported_cons_none hs]
              exact ih hrank (hm.trans (Nat.le_of_succ_le_succ hlength))

end Reports

end Machine
