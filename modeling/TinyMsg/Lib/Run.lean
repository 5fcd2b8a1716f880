import Mathlib

/-!
# Runs of a machine that may stop

A step function `step : σ → ι → Except ε σ` takes a state and an event to the next state, or stops
with a reason.  `run` folds it over a list of events.  The induction rules carry what one step keeps
over to whole runs: an invariant (`run_invariant`), a relation to the events so far
(`run_history`), a property that only some steps keep (`run_forall_iff`), and a view of the state
that follows another machine (`run_traced`).
-/

namespace TinyMsg

universe u

variable {α β σ : Type u} {ι ε : Type*}

/-- A computation in two parts ends well exactly when both parts do. -/
theorem bind_eq_ok {x : Except ε α} {f : α → Except ε β} {b : β} :
    x >>= f = .ok b ↔ ∃ a, x = .ok a ∧ f a = .ok b := by
  constructor
  · intro h
    cases x with
    | error e => exact absurd h (by simp [bind, Except.bind])
    | ok a => exact ⟨a, rfl, h⟩
  · rintro ⟨a, rfl, h⟩
    exact h

@[simp] theorem ok_bind (a : α) (f : α → Except ε β) : (Except.ok a >>= f) = f a := rfl

@[simp] theorem error_bind (e : ε) (f : α → Except ε β) :
    ((Except.error e : Except ε α) >>= f) = .error e := rfl

/-- A last part that cannot stop does not change why a computation stops. -/
theorem bind_ok_eq_error {x : Except ε α} {f : α → β} {e : ε} :
    (x >>= fun a => .ok (f a)) = .error e ↔ x = .error e := by
  cases x with
  | error e' =>
    rw [error_bind]
    exact ⟨fun h => congrArg _ (Except.error.inj h), fun h => congrArg _ (Except.error.inj h)⟩
  | ok a => exact ⟨(by rintro ⟨⟩), (by rintro ⟨⟩)⟩

theorem toOption_eq_some {x : Except ε α} {a : α} : x.toOption = some a ↔ x = .ok a := by
  cases x <;> simp [Except.toOption]

/-- The state after the events `es`, one step for each, unless a step stops. -/
def run (step : σ → ι → Except ε σ) (s : σ) (es : List ι) : Except ε σ := es.foldlM step s

@[simp] theorem run_nil (step : σ → ι → Except ε σ) (s : σ) : run step s [] = .ok s := rfl

@[simp] theorem run_cons (step : σ → ι → Except ε σ) (s : σ) (e : ι) (es : List ι) :
    run step s (e :: es) = step s e >>= fun s' => run step s' es := rfl

/-- A run over two lists of events is the run over the second from where the first ends. -/
theorem run_append (step : σ → ι → Except ε σ) (s : σ) (es fs : List ι) :
    run step s (es ++ fs) = run step s es >>= fun s' => run step s' fs := by
  rw [run, List.foldlM_append]
  rfl

/-- A run over one more event takes one more step. -/
theorem run_concat (step : σ → ι → Except ε σ) (s : σ) (es : List ι) (e : ι) :
    run step s (es ++ [e]) = run step s es >>= fun s' => step s' e := by
  rw [run_append]
  congr 1
  funext s'
  rw [run_cons]
  cases step s' e <;> rfl

/-- A run whose steps never stop is a fold. -/
theorem run_total {step : σ → ι → Except ε σ} {f : σ → ι → σ}
    (hstep : ∀ s e, step s e = .ok (f s e)) (s : σ) (es : List ι) :
    run step s es = .ok (es.foldl f s) := by
  induction es generalizing s with
  | nil => rfl
  | cons e es ih => rw [run_cons, hstep, ok_bind, ih, List.foldl_cons]

/-- Events that leave a state as it is leave it so in a run. -/
theorem run_fixed {step : σ → ι → Except ε σ} {s : σ} {es : List ι}
    (h : ∀ e ∈ es, step s e = .ok s) : run step s es = .ok s := by
  induction es with
  | nil => rfl
  | cons e es ih =>
    rw [run_cons, h e List.mem_cons_self, ok_bind]
    exact ih fun e he => h e (List.mem_cons_of_mem _ he)

/-- A run whose steps another machine takes as well is a run of that machine. -/
theorem run_mono {ε' : Type*} {step : σ → ι → Except ε σ} {step' : σ → ι → Except ε' σ}
    (hstep : ∀ s e s', step s e = .ok s' → step' s e = .ok s') {s s' : σ} {es : List ι}
    (hrun : run step s es = .ok s') : run step' s es = .ok s' := by
  induction es generalizing s with
  | nil =>
    obtain rfl := Except.ok.inj hrun
    rfl
  | cons e es ih =>
    rw [run_cons, bind_eq_ok] at hrun
    obtain ⟨t, ht, hrun⟩ := hrun
    rw [run_cons, hstep s e t ht, ok_bind]
    exact ih hrun

/-- Where a step stops at exactly the events that fail a test, a run stops at exactly the lists with
such an event. -/
theorem run_guarded {step : σ → ι → Except ε σ} {P : ι → Prop} {stop : ε}
    (hgood : ∀ s e, P e → ∃ s', step s e = .ok s') (hbad : ∀ s e, ¬ P e → step s e = .error stop)
    (s : σ) (es : List ι) :
    (∀ e ∈ es, P e) ∧ (∃ s', run step s es = .ok s') ∨
      (¬ ∀ e ∈ es, P e) ∧ run step s es = .error stop := by
  induction es generalizing s with
  | nil => exact Or.inl ⟨fun _ he => absurd he List.not_mem_nil, s, rfl⟩
  | cons e es ih =>
    rw [List.forall_mem_cons]
    by_cases he : P e
    · obtain ⟨t, ht⟩ := hgood s e he
      rw [run_cons, ht, ok_bind]
      rcases ih t with ⟨hes, hrun⟩ | ⟨hes, hrun⟩
      · exact Or.inl ⟨⟨he, hes⟩, hrun⟩
      · exact Or.inr ⟨fun h => hes h.2, hrun⟩
    · rw [run_cons, hbad s e he]
      exact Or.inr ⟨fun h => he h.1, rfl⟩

/-- What every step preserves, a whole run preserves. -/
theorem run_invariant {step : σ → ι → Except ε σ} {I : σ → Prop}
    (hstep : ∀ s e s', I s → step s e = .ok s' → I s') {s s' : σ} {es : List ι}
    (hs : I s) (hrun : run step s es = .ok s') : I s' := by
  induction es generalizing s with
  | nil =>
    rw [run_nil] at hrun
    exact Except.ok.inj hrun ▸ hs
  | cons e es ih =>
    rw [run_cons, bind_eq_ok] at hrun
    obtain ⟨t, ht, hrun⟩ := hrun
    exact ih (hstep s e t hs ht) hrun

/-- What links a state to the events before it and is kept by every further event holds after
every run. -/
theorem run_history {step : σ → ι → Except ε σ} {I : List ι → σ → Prop} {s₀ : σ}
    (hinit : I [] s₀)
    (hstep : ∀ es s e s', I es s → step s e = .ok s' → I (es ++ [e]) s') {s' : σ} {es : List ι}
    (hrun : run step s₀ es = .ok s') : I es s' := by
  induction es using List.reverseRecOn generalizing s' with
  | nil =>
    rw [run_nil] at hrun
    exact Except.ok.inj hrun ▸ hinit
  | append_singleton es e ih =>
    rw [run_concat, bind_eq_ok] at hrun
    obtain ⟨t, ht, hrun⟩ := hrun
    exact hstep es t e s' (ih ht) hrun

/-- A machine that follows another one for as long as the states of that one have a property, and
stops when they lose it, gets through exactly the lists of events along which they have it. -/
theorem run_refines_iff {τ : Type*} {step : σ → ι → Except ε σ} {next : τ → ι → τ}
    {R : τ → σ → Prop} {P : τ → Prop} (hP : ∀ t s, R t s → P t)
    (hgood : ∀ t s e, R t s → P (next t e) → ∃ s', step s e = .ok s' ∧ R (next t e) s')
    (hbad : ∀ t s e, R t s → ¬ P (next t e) → ∃ stop, step s e = .error stop) {t : τ} {s : σ}
    (hR : R t s) (es : List ι) :
    (∃ s', run step s es = .ok s' ∧ R (es.foldl next t) s') ↔
      ∀ fs, fs <+: es → P (fs.foldl next t) := by
  induction es generalizing t s with
  | nil =>
    constructor
    · rintro - fs hfs
      rw [List.prefix_nil.mp hfs]
      exact hP t s hR
    · intro
      exact ⟨s, rfl, hR⟩
  | cons e es ih =>
    rw [run_cons, List.foldl_cons]
    constructor
    · rintro ⟨s', hrun, hR'⟩ fs hfs
      obtain ⟨u, hu, hrun⟩ := bind_eq_ok.mp hrun
      rcases List.prefix_cons_iff.mp hfs with rfl | ⟨gs, rfl, hgs⟩
      · exact hP t s hR
      · by_cases hnext : P (next t e)
        · obtain ⟨u', hu', hRu⟩ := hgood t s e hR hnext
          obtain rfl := Except.ok.inj (hu.symm.trans hu')
          exact (ih hRu).mp ⟨s', hrun, hR'⟩ gs hgs
        · obtain ⟨stop, hstop⟩ := hbad t s e hR hnext
          rw [hstop] at hu
          cases hu
    · intro h
      have hnext : P (next t e) := h [e] (List.prefix_append [e] es)
      obtain ⟨u, hu, hRu⟩ := hgood t s e hR hnext
      rw [hu, ok_bind]
      exact (ih hRu).mpr fun gs hgs => h (e :: gs) ((List.prefix_cons_inj e).mpr hgs)

/-! ## Traces -/

/-- A step that also puts on record what is seen of it. -/
def traced {κ : Type} (step : σ → ι → Except ε σ) (seen : σ → ι → List κ) (s : σ × List κ)
    (e : ι) : Except ε (σ × List κ) := do
  let s' ← step s.1 e
  .ok (s', s.2 ++ seen s.1 e)

/-- If a view of the state changes in each step as another machine would on what is seen of it,
then after a run the view is what that machine makes of the record. -/
theorem run_traced {κ τ : Type} {step : σ → ι → Except ε σ} {seen : σ → ι → List κ}
    {step' : τ → κ → Except ε τ} {view : σ → τ} {I : σ → Prop} {good : ι → Prop} {s₀ : σ}
    (hI : I s₀) (hstep : ∀ s e s', I s → good e → step s e = .ok s' → I s')
    (hview : ∀ s e s', I s → good e → step s e = .ok s' →
      run step' (view s) (seen s e) = .ok (view s')) {es : List ι} (hes : ∀ e ∈ es, good e) {s : σ}
    {trace : List κ} (hrun : run (traced step seen) (s₀, []) es = .ok (s, trace)) :
    I s ∧ run step' (view s₀) trace = .ok (view s) := by
  induction es using List.reverseRecOn generalizing s trace with
  | nil =>
    obtain ⟨rfl, rfl⟩ := Prod.mk.inj (Except.ok.inj hrun)
    exact ⟨hI, rfl⟩
  | append_singleton es e ih =>
    rw [run_concat, bind_eq_ok] at hrun
    obtain ⟨⟨t, before⟩, hbefore, hlast⟩ := hrun
    rw [traced, bind_eq_ok] at hlast
    obtain ⟨s', hs', heq⟩ := hlast
    obtain ⟨rfl, rfl⟩ := Prod.mk.inj (Except.ok.inj heq)
    obtain ⟨ht, habs⟩ := ih (fun e he => hes e (List.mem_append_left _ he)) hbefore
    have he := hes e (List.mem_append_right _ (List.mem_singleton_self e))
    refine ⟨hstep t e s' ht he hs', ?_⟩
    rw [run_append, habs, ok_bind]
    exact hview t e s' ht he hs'

/-- A traced run is a run. -/
theorem run_of_traced {κ : Type} {step : σ → ι → Except ε σ} {seen : σ → ι → List κ} {s₀ s : σ}
    {es : List ι} {trace : List κ} (hrun : run (traced step seen) (s₀, []) es = .ok (s, trace)) :
    run step s₀ es = .ok s := by
  induction es using List.reverseRecOn generalizing s trace with
  | nil =>
    obtain ⟨rfl, -⟩ := Prod.mk.inj (Except.ok.inj hrun)
    rfl
  | append_singleton es e ih =>
    rw [run_concat, bind_eq_ok] at hrun
    obtain ⟨⟨t, before⟩, hbefore, hlast⟩ := hrun
    rw [traced, bind_eq_ok] at hlast
    obtain ⟨s', hs', heq⟩ := hlast
    obtain ⟨rfl, -⟩ := Prod.mk.inj (Except.ok.inj heq)
    rw [run_concat, ih hbefore, ok_bind, hs']

/-- A run has a record. -/
theorem traced_of_run {κ : Type} {step : σ → ι → Except ε σ} (seen : σ → ι → List κ) {s₀ s : σ}
    {es : List ι} (hrun : run step s₀ es = .ok s) :
    ∃ trace, run (traced step seen) (s₀, []) es = .ok (s, trace) := by
  induction es using List.reverseRecOn generalizing s with
  | nil =>
    obtain rfl := Except.ok.inj hrun
    exact ⟨[], rfl⟩
  | append_singleton es e ih =>
    rw [run_concat, bind_eq_ok] at hrun
    obtain ⟨t, ht, hlast⟩ := hrun
    obtain ⟨trace, hbefore⟩ := ih ht
    refine ⟨trace ++ seen t e, ?_⟩
    rw [run_concat, hbefore, ok_bind, traced, hlast, ok_bind]

/-- A run that goes on from a record has the record of a run of its own behind it. -/
theorem run_traced_from {κ : Type} {step : σ → ι → Except ε σ} {seen : σ → ι → List κ} {s₀ s : σ}
    {es : List ι} {before trace : List κ}
    (hrun : run (traced step seen) (s₀, before) es = .ok (s, trace)) :
    ∃ after, trace = before ++ after ∧ run (traced step seen) (s₀, []) es = .ok (s, after) := by
  induction es using List.reverseRecOn generalizing s trace with
  | nil =>
    obtain ⟨rfl, rfl⟩ := Prod.mk.inj (Except.ok.inj hrun)
    exact ⟨[], (List.append_nil _).symm, rfl⟩
  | append_singleton es e ih =>
    rw [run_concat, bind_eq_ok] at hrun
    obtain ⟨⟨t, middle⟩, hmiddle, hlast⟩ := hrun
    rw [traced, bind_eq_ok] at hlast
    obtain ⟨s', hs', heq⟩ := hlast
    obtain ⟨rfl, rfl⟩ := Prod.mk.inj (Except.ok.inj heq)
    obtain ⟨after, rfl, hafter⟩ := ih hmiddle
    refine ⟨after ++ seen t e, List.append_assoc _ _ _, ?_⟩
    have hstep : step t e = .ok s' := hs'
    rw [run_concat, hafter, ok_bind, traced, hstep, ok_bind]

/-- A record that is read off a finer one. -/
theorem run_traced_map {κ κ' : Type} {step : σ → ι → Except ε σ} {seen : σ → ι → List κ}
    {seen' : σ → ι → List κ'} {f : κ → κ'} (hseen : ∀ s e, (seen s e).map f = seen' s e)
    {s₀ s : σ} {es : List ι} {trace : List κ}
    (hrun : run (traced step seen) (s₀, []) es = .ok (s, trace)) :
    run (traced step seen') (s₀, []) es = .ok (s, trace.map f) := by
  induction es using List.reverseRecOn generalizing s trace with
  | nil =>
    obtain ⟨rfl, rfl⟩ := Prod.mk.inj (Except.ok.inj hrun)
    rfl
  | append_singleton es e ih =>
    rw [run_concat, bind_eq_ok] at hrun
    obtain ⟨⟨t, before⟩, hbefore, hlast⟩ := hrun
    rw [traced, bind_eq_ok] at hlast
    obtain ⟨s', hs', heq⟩ := hlast
    obtain ⟨rfl, rfl⟩ := Prod.mk.inj (Except.ok.inj heq)
    have hstep : step t e = .ok s' := hs'
    rw [run_concat, ih hbefore, ok_bind, traced, hstep, ok_bind, List.map_append, hseen]

/-! ## Events in a run -/

/-- An event of a run that was extended by one event is that one, or an earlier one. -/
theorem concat_eq_append_cons {es es₁ es₂ : List ι} {e x : ι} (h : es ++ [e] = es₁ ++ x :: es₂) :
    (es₂ = [] ∧ es = es₁ ∧ e = x) ∨ ∃ es₃, es₂ = es₃ ++ [e] ∧ es = es₁ ++ x :: es₃ := by
  rcases List.eq_nil_or_concat es₂ with rfl | ⟨es₃, y, rfl⟩
  · obtain ⟨rfl, heq⟩ := List.append_inj' h rfl
    exact Or.inl ⟨rfl, rfl, List.singleton_inj.mp heq⟩
  · rw [List.concat_eq_append] at h ⊢
    have h' : es ++ [e] = (es₁ ++ x :: es₃) ++ [y] := by simpa using h
    obtain ⟨rfl, heq⟩ := List.append_inj' h' rfl
    obtain rfl := List.singleton_inj.mp heq
    exact Or.inr ⟨es₃, rfl, rfl⟩

/-- What every step that meets a condition preserves holds after every run whose steps all meet the
condition. -/
theorem run_of_good {step : σ → ι → Except ε σ} {I : σ → Prop} {good : σ → ι → Prop} {s₀ : σ}
    (hI : I s₀) (hstep : ∀ s e s', I s → good s e → step s e = .ok s' → I s') {es : List ι}
    (hgood : ∀ fs e s, fs ++ [e] <+: es → run step s₀ fs = .ok s → good s e) {s : σ}
    (hrun : run step s₀ es = .ok s) : I s := by
  induction es using List.reverseRecOn generalizing s with
  | nil =>
    rw [run_nil] at hrun
    exact Except.ok.inj hrun ▸ hI
  | append_singleton es e ih =>
    rw [run_concat, bind_eq_ok] at hrun
    obtain ⟨t, ht, hlast⟩ := hrun
    have hprev := ih (fun fs f u hfs => hgood fs f u (hfs.trans (List.prefix_append es [e]))) ht
    exact hstep t e s hprev (hgood es e t List.prefix_rfl ht) hlast

/-- Whether all steps of a run meet a condition can be computed. -/
theorem good_of_takes {step : σ → ι → Except ε σ} {good : σ → ι → Prop}
    [∀ s e, Decidable (good s e)] {s₀ : σ} {es : List ι}
    (h : ∀ k : Fin es.length, ((run step s₀ (es.take k)).toOption.all
      fun s => decide (good s (es.get k))) = true) {fs : List ι} {e : ι} {s : σ}
    (hfs : fs ++ [e] <+: es) (hrun : run step s₀ fs = .ok s) : good s e := by
  obtain ⟨rest, hrest⟩ := hfs
  have hlt : fs.length < es.length := by
    rw [← hrest]
    simp
  have hgood := h ⟨fs.length, hlt⟩
  have hget : es.get ⟨fs.length, hlt⟩ = e := by
    simp only [List.get_eq_getElem, ← hrest]
    simp
  have htake : es.take fs.length = fs := by
    rw [← hrest, List.append_assoc, List.take_left]
  rw [hget, htake, toOption_eq_some.mpr hrun] at hgood
  exact of_decide_eq_true hgood

/-- Where an invariant is kept by every step, and a property by exactly the steps that meet a
condition, the property holds all along a run if and only if all its steps meet the condition. -/
theorem run_forall_iff {step : σ → ι → Except ε σ} {I P : σ → Prop} {good : σ → ι → Prop} {s₀ : σ}
    (hI : I s₀) (hP : P s₀) (hstep : ∀ s e s', I s → step s e = .ok s' → I s')
    (hgood : ∀ s e s', I s → P s → good s e → step s e = .ok s' → P s')
    (hbad : ∀ s e, I s → ¬ good s e → ∃ s', step s e = .ok s' ∧ ¬ P s') (es : List ι) :
    (∀ fs s, fs <+: es → run step s₀ fs = .ok s → P s) ↔
      ∀ fs e s, fs ++ [e] <+: es → run step s₀ fs = .ok s → good s e := by
  constructor
  · intro h fs e s hfs hrun
    by_contra hnot
    obtain ⟨s', hs', hP'⟩ := hbad s e (run_invariant hstep hI hrun) hnot
    refine hP' (h (fs ++ [e]) s' hfs ?_)
    rw [run_concat, hrun, ok_bind, hs']
  · intro h fs s hfs hrun
    have hkeep : ∀ t e t', I t ∧ P t → good t e → step t e = .ok t' → I t' ∧ P t' := by
      rintro t e t' ⟨ht, hPt⟩ he ht'
      exact ⟨hstep t e t' ht ht', hgood t e t' ht hPt he ht'⟩
    exact (run_of_good ⟨hI, hP⟩ hkeep (fun gs e t hgs => h gs e t (hgs.trans hfs)) hrun).2

end TinyMsg
