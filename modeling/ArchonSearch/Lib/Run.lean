import Mathlib.Data.List.Basic

/-!
# Runs of a labelled machine

A machine is a partial step function on states, labelled by events: `step s e` is
the state the event `e` leads to from `s`, or `none` when `e` cannot happen there.
A run is the iteration of `step` along a list of events.

Every safety result about a machine is an invariant: it holds at the start, one step preserves it,
so it holds at the end of every run (`run_invariant`). Where a step preserves it only under a
condition on the event and the state it happens in, the runs considered are the ones along which
that condition holds (`Along`, `run_invariant_along`).
-/

namespace ArchonSearch.Lib

open List Option

variable {σ ε : Type*} (step : σ → ε → Option σ)

def run (s : σ) : List ε → Option σ
  | [] => some s
  | e :: es => (step s e).bind fun s' => run s' es

@[simp] theorem run_nil (s : σ) : run step s [] = some s := rfl

variable {es : List ε}

theorem run_cons_eq_some {s t : σ} {e : ε} :
    run step s (e :: es) = some t ↔ ∃ s', step s e = some s' ∧ run step s' es = some t := by
  simp [run, bind_eq_some_iff]

theorem run_append (s : σ) (es es' : List ε) :
    run step s (es ++ es') = (run step s es).bind fun t => run step t es' := by
  induction es generalizing s with
  | nil => rfl
  | cons e es ih =>
    simp only [cons_append, run, bind_assoc]
    exact congrArg _ (funext ih)

theorem run_concat_eq_some {s t : σ} {e : ε} :
    run step s (es ++ [e]) = some t ↔ ∃ s', run step s es = some s' ∧ step s' e = some t := by
  simp [run_append, run, bind_eq_some_iff]

/-- An event that has happened was allowed. -/
theorem of_guard {p : Prop} [Decidable p] {s t : σ} (h : (if p then some s else none) = some t) :
    p ∧ s = t :=
  ite_some_none_eq_some.mp h

/-- The condition `C` holds of every event of the run and of the state it happens
in. -/
def Along (C : σ → ε → Prop) : σ → List ε → Prop
  | _, [] => True
  | s, e :: es => C s e ∧ ∀ s', step s e = some s' → Along C s' es

variable {step}

instance Along.decidable {C : σ → ε → Prop} [∀ s e, Decidable (C s e)] :
    ∀ (s : σ) (es : List ε), Decidable (Along step C s es)
  | _, [] => .isTrue trivial
  | s, e :: es =>
    have (s' : σ) : Decidable (Along step C s' es) := Along.decidable s' es
    decidable_of_iff (C s e ∧ ∀ s' ∈ step s e, Along step C s' es) Iff.rfl

/-- A condition on the events alone holds along a run if it holds of its events. -/
theorem along_of_forall {C : ε → Prop} : ∀ {es : List ε} {s : σ}, (∀ e ∈ es, C e) →
    Along step (fun _ e => C e) s es
  | [], _, _ => trivial
  | e :: _, _, h => ⟨h e mem_cons_self, fun _ _ =>
      along_of_forall fun e' he' => h e' (mem_cons_of_mem e he')⟩

theorem Along.and {C D : σ → ε → Prop} : ∀ {es : List ε} {s : σ}, Along step C s es →
    Along step D s es → Along step (fun s e => C s e ∧ D s e) s es
  | [], _, _, _ => trivial
  | _ :: _, _, hC, hD => ⟨⟨hC.1, hD.1⟩, fun s' hs' => Along.and (hC.2 s' hs') (hD.2 s' hs')⟩

variable {C : σ → ε → Prop}

/-- A condition that holds along a run holds along its beginning. -/
theorem Along.of_append : ∀ {es es' : List ε} {s : σ},
    Along step C s (es ++ es') → Along step C s es
  | [], _, _, _ => trivial
  | _ :: _, _, _, h => ⟨h.1, fun s' hs' => Along.of_append (h.2 s' hs')⟩

/-- A condition that holds along a run holds along its rest. -/
theorem Along.after : ∀ {es es' : List ε} {s t : σ},
    Along step C s (es ++ es') → run step s es = some t → Along step C t es'
  | [], _, _, _, h, hr => some.inj hr ▸ h
  | _ :: _, _, _, _, h, hr => by
    obtain ⟨s', hs', hr'⟩ := (run_cons_eq_some step).mp hr
    exact Along.after (h.2 s' hs') hr'

/-- A condition holds along a run if it holds of every event and of the state that the run has
come to. -/
theorem along_iff : ∀ {es : List ε} {s : σ}, Along step C s es ↔
    ∀ before e after t, es = before ++ e :: after → run step s before = some t → C t e
  | [], s => by
    refine iff_of_true trivial ?_
    intro before e after t hes
    cases before <;> cases hes
  | e :: es, s => by
    constructor
    · rintro ⟨hC, hrs⟩ before e' after t hes hr
      cases before with
      | nil =>
        cases hes
        exact some.inj hr ▸ hC
      | cons _ before =>
        cases hes
        obtain ⟨s', hs', hr⟩ := (run_cons_eq_some step).mp hr
        exact along_iff.mp (hrs s' hs') before e' after t rfl hr
    · intro h
      refine ⟨h [] e es s rfl rfl, fun s' hs' => along_iff.mpr ?_⟩
      intro before e' after t hes hr
      refine h (e :: before) e' after t (congrArg _ hes) ?_
      exact (run_cons_eq_some step).mpr ⟨s', hs', hr⟩

variable {I : σ → Prop}

/-- **What every good step preserves holds at the end of every run of good
steps.** -/
theorem run_invariant_along
    (hst : ∀ s e s', C s e → I s → step s e = some s' → I s') :
    ∀ {es : List ε} {s t : σ}, Along step C s es → I s → run step s es = some t → I t
  | [], s, t, _, hs, hr => by
    obtain rfl : s = t := by simpa using hr
    exact hs
  | e :: es, s, t, ⟨hC, hrs⟩, hs, hr => by
    obtain ⟨s', hs', hr'⟩ := (run_cons_eq_some step).mp hr
    exact run_invariant_along hst (hrs s' hs') (hst s e s' hC hs hs') hr'

/-- **What every step preserves holds at the end of every run.** -/
theorem run_invariant
    (hst : ∀ s e s', I s → step s e = some s' → I s') :
    ∀ {es : List ε} {s t : σ}, I s → run step s es = some t → I t
  | [], s, t, hs, hr => by
    obtain rfl : s = t := by simpa using hr
    exact hs
  | e :: es, s, t, hs, hr => by
    obtain ⟨s', hs', hr'⟩ := (run_cons_eq_some step).mp hr
    exact run_invariant hst (hst s e s' hs hs') hr'

end ArchonSearch.Lib
