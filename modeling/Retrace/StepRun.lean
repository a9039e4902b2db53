import Mathlib.Data.List.Induction

/-! Runs of a partial step function that also gives outputs. -/

set_option autoImplicit false

namespace StepRun

variable {σ ε ω : Type}

/-- The state after the events and all their outputs, or `none` if a step is not allowed. -/
def run (step : σ → ε → Option (σ × List ω)) : List ε → σ → Option (σ × List ω)
  | [], s => some (s, [])
  | e :: es, s => do
    let (mid, out) ← step s e
    let (last, more) ← run step es mid
    some (last, out ++ more)

variable {step : σ → ε → Option (σ × List ω)}

@[simp] theorem run_nil (s : σ) : run step [] s = some (s, []) := rfl

theorem run_cons {e : ε} {es : List ε} {s s' : σ} {outs : List ω} :
    run step (e :: es) s = some (s', outs) ↔ ∃ mid out more, step s e = some (mid, out) ∧
      run step es mid = some (s', more) ∧ outs = out ++ more := by
  constructor
  · intro h
    cases hstep : step s e with
    | none =>
      rw [run, hstep] at h
      cases h
    | some first =>
      cases hrest : run step es first.1 with
      | none =>
        simp only [run, hstep, Option.bind_eq_bind, Option.bind_some, hrest, Option.bind_none,
          reduceCtorEq] at h
      | some last =>
        simp only [run, hstep, Option.bind_eq_bind, Option.bind_some, hrest, Option.some.injEq,
          Prod.mk.injEq] at h
        exact ⟨first.1, first.2, last.2, rfl, by rw [hrest, ← h.1], h.2.symm⟩
  · rintro ⟨mid, out, more, hstep, hrest, rfl⟩
    simp only [run, hstep, Option.bind_eq_bind, Option.bind_some, hrest]

theorem run_singleton {e : ε} {s s' : σ} {outs : List ω} :
    run step [e] s = some (s', outs) ↔ step s e = some (s', outs) := by
  rw [run_cons]
  constructor
  · rintro ⟨mid, out, more, hstep, hrest, rfl⟩
    cases hrest
    rw [List.append_nil]
    exact hstep
  · intro h
    exact ⟨s', outs, [], h, rfl, (List.append_nil outs).symm⟩

theorem run_append {first second : List ε} {s s' : σ} {outs : List ω} :
    run step (first ++ second) s = some (s', outs) ↔ ∃ mid out more,
      run step first s = some (mid, out) ∧ run step second mid = some (s', more) ∧
        outs = out ++ more := by
  induction first generalizing s outs with
  | nil =>
    constructor
    · intro h
      exact ⟨s, [], outs, rfl, h, rfl⟩
    · rintro ⟨mid, out, more, hfirst, hsecond, rfl⟩
      cases hfirst
      exact hsecond
  | cons e first ih =>
    rw [List.cons_append, run_cons]
    constructor
    · rintro ⟨next, out, more, hstep, hrest, rfl⟩
      obtain ⟨mid, out', more', hfirst, hsecond, rfl⟩ := ih.mp hrest
      exact ⟨mid, out ++ out', more', run_cons.mpr ⟨next, out, out', hstep, hfirst, rfl⟩, hsecond,
        (List.append_assoc _ _ _).symm⟩
    · rintro ⟨mid, out, more, hfirst, hsecond, rfl⟩
      obtain ⟨next, out', more', hstep, hrest, rfl⟩ := run_cons.mp hfirst
      exact ⟨next, out', more' ++ more, hstep, ih.mpr ⟨mid, more', more, hrest, hsecond, rfl⟩,
        List.append_assoc _ _ _⟩

theorem run_invariant {Inv : σ → Prop}
    (hstep : ∀ s e s' out, Inv s → step s e = some (s', out) → Inv s') {es : List ε} {s s' : σ}
    {outs : List ω} (h : Inv s) (hrun : run step es s = some (s', outs)) : Inv s' := by
  induction es generalizing s outs with
  | nil =>
    cases hrun
    exact h
  | cons e es ih =>
    obtain ⟨mid, out, more, hone, hrest, -⟩ := run_cons.mp hrun
    exact ih (hstep s e mid out h hone) hrest

theorem run_map {σ' : Type} {step' : σ' → ε → Option (σ' × List ω)} {Inv : σ → Prop} {f : σ → σ'}
    (hkept : ∀ s e s' out, Inv s → step s e = some (s', out) → Inv s')
    (hmap : ∀ s e, Inv s →
      (step s e).map (fun result => (f result.1, result.2)) = step' (f s) e)
    (es : List ε) {s : σ} (h : Inv s) :
    run step' es (f s) = (run step es s).map (fun result => (f result.1, result.2)) := by
  induction es generalizing s with
  | nil => rfl
  | cons e es ih =>
    have hone := hmap s e h
    unfold run
    cases hstep : step s e with
    | none =>
      rw [hstep] at hone
      rw [← hone]
      rfl
    | some result =>
      rw [hstep] at hone
      have hrest := ih (hkept s e result.1 result.2 h hstep)
      rw [← hone]
      simp only [Option.map_some, Option.bind_eq_bind, Option.bind_some, hrest]
      cases run step es result.1 <;> rfl

theorem run_induction {Inv : List ε → σ → List ω → Prop} {s₀ : σ} (hstart : Inv [] s₀ [])
    (hnext : ∀ es s outs e s' out, run step es s₀ = some (s, outs) → Inv es s outs →
      step s e = some (s', out) → Inv (es ++ [e]) s' (outs ++ out)) {es : List ε} {s : σ}
    {outs : List ω} (hrun : run step es s₀ = some (s, outs)) : Inv es s outs := by
  induction es using List.reverseRecOn generalizing s outs with
  | nil =>
    cases hrun
    exact hstart
  | append_singleton es e ih =>
    obtain ⟨mid, first, last, hfirst, hlast, rfl⟩ := run_append.mp hrun
    exact hnext es mid first e s last hfirst (ih hfirst) (run_singleton.mp hlast)

/-- What holds of every step that a run takes. -/
def Always (step : σ → ε → Option (σ × List ω)) (P : σ → ε → σ → List ω → Prop) :
    List ε → σ → Prop
  | [], _ => True
  | e :: es, s => ∀ mid out, step s e = some (mid, out) → P s e mid out ∧ Always step P es mid

instance Always.decidable (P : σ → ε → σ → List ω → Prop)
    [∀ s e mid out, Decidable (P s e mid out)] : ∀ es s, Decidable (Always step P es s)
  | [], _ => isTrue trivial
  | e :: es, s =>
    match hstep : step s e with
    | none => isTrue (by
      intro mid out heq
      rw [hstep] at heq
      cases heq)
    | some (mid, out) =>
      have := Always.decidable P es mid
      decidable_of_iff (P s e mid out ∧ Always step P es mid) (by
        constructor
        · intro h mid' out' heq
          rw [hstep] at heq
          cases heq
          exact h
        · intro h
          exact h mid out hstep)

section always
variable {P Q : σ → ε → σ → List ω → Prop} {Inv : σ → Prop}

theorem always_cons {e : ε} {es : List ε} {s mid : σ} {out : List ω}
    (hstep : step s e = some (mid, out)) :
    Always step P (e :: es) s ↔ P s e mid out ∧ Always step P es mid := by
  constructor
  · intro h
    exact h mid out hstep
  · intro h mid' out' hstep'
    rw [hstep] at hstep'
    cases hstep'
    exact h

theorem always_append {first second : List ε} {s mid : σ} {out : List ω}
    (hrun : run step first s = some (mid, out)) :
    Always step P (first ++ second) s ↔ Always step P first s ∧ Always step P second mid := by
  induction first generalizing s out with
  | nil =>
    cases hrun
    exact ⟨fun h => ⟨trivial, h⟩, fun h => h.2⟩
  | cons e first ih =>
    obtain ⟨next, out', more, hstep, hrest, -⟩ := run_cons.mp hrun
    rw [List.cons_append, always_cons hstep, always_cons hstep, ih hrest, and_assoc]

theorem Always.imp (hkeeps : ∀ s e s' out, Inv s → step s e = some (s', out) → P s e s' out →
    Inv s' ∧ Q s e s' out) {es : List ε} {s : σ} (h : Inv s) (hall : Always step P es s) :
    Always step Q es s := by
  induction es generalizing s with
  | nil => trivial
  | cons e es ih =>
    intro mid out hstep
    obtain ⟨hone, hrest⟩ := hall mid out hstep
    obtain ⟨hmid, hgiven⟩ := hkeeps s e mid out h hstep hone
    exact ⟨hgiven, ih hmid hrest⟩

theorem Always.run_induction {Inv : σ → List ω → Prop} {s₀ : σ} (hstart : Inv s₀ [])
    (hnext : ∀ s outs e s' out, Inv s outs → step s e = some (s', out) → P s e s' out →
      Inv s' (outs ++ out)) {es : List ε} {s : σ} {outs : List ω} (hall : Always step P es s₀)
    (hrun : run step es s₀ = some (s, outs)) : Inv s outs := by
  induction es using List.reverseRecOn generalizing s outs with
  | nil =>
    cases hrun
    exact hstart
  | append_singleton es e ih =>
    obtain ⟨mid, first, last, hfirst, hlast, rfl⟩ := run_append.mp hrun
    have hstep := run_singleton.mp hlast
    rw [always_append hfirst, always_cons hstep] at hall
    exact hnext mid first e s last (ih hall.1 hfirst) hstep hall.2.1

theorem always_congr
    (hkeeps : ∀ s e s' out, Inv s → step s e = some (s', out) → Inv s')
    (hagree : ∀ s e s' out, Inv s → step s e = some (s', out) → (P s e s' out ↔ Q s e s' out))
    {es : List ε} {s : σ} (h : Inv s) : Always step P es s ↔ Always step Q es s := by
  induction es generalizing s with
  | nil => exact Iff.rfl
  | cons e es ih =>
    unfold Always
    constructor
    · intro hall mid out hstep
      obtain ⟨hone, hrest⟩ := hall mid out hstep
      have hmid := hkeeps s e mid out h hstep
      exact ⟨(hagree s e mid out h hstep).mp hone, (ih hmid).mp hrest⟩
    · intro hall mid out hstep
      obtain ⟨hone, hrest⟩ := hall mid out hstep
      have hmid := hkeeps s e mid out h hstep
      exact ⟨(hagree s e mid out h hstep).mpr hone, (ih hmid).mpr hrest⟩

theorem Always.and {es : List ε} {s : σ} (h : Always step P es s) (h' : Always step Q es s) :
    Always step (fun s e s' out => P s e s' out ∧ Q s e s' out) es s := by
  induction es generalizing s with
  | nil => trivial
  | cons e es ih =>
    intro mid out hstep
    obtain ⟨hone, hrest⟩ := h mid out hstep
    obtain ⟨hone', hrest'⟩ := h' mid out hstep
    exact ⟨⟨hone, hone'⟩, ih hrest hrest'⟩

/-- Two runs of the same events in lockstep: what relates the states, and agrees on what is shown
of the outputs of each step, agrees on whole runs. -/
theorem Always.lockstep {β : Type} {R : σ → σ → Prop} {shown : ω → β} {es : List ε}
    (hkeeps : ∀ e ∈ es, ∀ s t s' t' out out', R s t → P s e s' out → Q t e t' out' →
      step s e = some (s', out) → step t e = some (t', out') →
      R s' t' ∧ out.map shown = out'.map shown) {s t s' t' : σ} {outs outs' : List ω} (h : R s t)
    (hall : Always step P es s) (hall' : Always step Q es t)
    (hrun : run step es s = some (s', outs)) (hrun' : run step es t = some (t', outs')) :
    R s' t' ∧ outs.map shown = outs'.map shown := by
  induction es generalizing s t outs outs' with
  | nil =>
    cases hrun
    cases hrun'
    exact ⟨h, rfl⟩
  | cons e es ih =>
    obtain ⟨mid, out, more, hone, hrest, rfl⟩ := run_cons.mp hrun
    obtain ⟨mid', out', more', hone', hrest', rfl⟩ := run_cons.mp hrun'
    rw [always_cons hone] at hall
    rw [always_cons hone'] at hall'
    obtain ⟨hmid, hshown⟩ := hkeeps e List.mem_cons_self s t mid mid' out out' h hall.1 hall'.1
      hone hone'
    obtain ⟨hend, hmore⟩ := ih (fun e he => hkeeps e (List.mem_cons_of_mem _ he)) hmid hall.2
      hall'.2 hrest hrest'
    rw [List.map_append, List.map_append, hshown, hmore]
    exact ⟨hend, rfl⟩

end always

section answers
variable {τ ι κ : Type} {step' : τ → ι → Option (τ × List κ)} {P : σ → ε → σ → List ω → Prop}
  {R : σ → τ → Prop} {answer : σ → ε → List ι}

/-- What answers the events of a run, each answer chosen at the state that its event comes to. -/
def answers (step : σ → ε → Option (σ × List ω)) (answer : σ → ε → List ι) : List ε → σ → List ι
  | [], _ => []
  | e :: es, s => answer s e ++
      match step s e with
      | none => []
      | some (mid, _) => answers step answer es mid

theorem Always.answered (hkeeps : ∀ s e s' out t, R s t → P s e s' out →
      step s e = some (s', out) → ∃ t' out', run step' (answer s e) t = some (t', out') ∧ R s' t')
    {es : List ε} {s s' : σ} {t : τ} {outs : List ω} (h : R s t) (hall : Always step P es s)
    (hrun : run step es s = some (s', outs)) :
    ∃ t' outs', run step' (answers step answer es s) t = some (t', outs') ∧ R s' t' := by
  induction es generalizing s t outs with
  | nil =>
    cases hrun
    exact ⟨t, [], rfl, h⟩
  | cons e es ih =>
    obtain ⟨mid, out, more, hone, hrest, rfl⟩ := run_cons.mp hrun
    obtain ⟨hgiven, hlater⟩ := (always_cons hone).mp hall
    obtain ⟨t₁, out₁, hfirst, hmid⟩ := hkeeps s e mid out t h hgiven hone
    obtain ⟨t₂, out₂, hsecond, hlast⟩ := ih hmid hlater hrest
    refine ⟨t₂, out₁ ++ out₂, ?_, hlast⟩
    rw [answers, hone]
    exact run_append.mpr ⟨t₁, out₁, out₂, hfirst, hsecond, rfl⟩

end answers

end StepRun
