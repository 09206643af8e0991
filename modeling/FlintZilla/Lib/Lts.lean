import Mathlib.Tactic

/-!
# Labelled transition systems

The invariant rules every state machine of this development goes through. A system is an initial
predicate and a labelled step relation; `Reach` collects the states of all finite runs, `Run` keeps
the labels. A machine given by a partial step function is the system `ofFun`, and `restrict` is the
system whose steps also meet a condition on the label and the state before the step.

Main results:

* `Reach.invariant`, `Run.invariant`: what holds at first and is kept by every step.
* `reach_ofFun`, `run_restrict_ofFun`: a run that is given by its labels.
-/

namespace Lib

universe u v

/-- A labelled transition system: where runs start, and what one step may do. -/
structure Lts (σ : Type u) (ε : Type v) where
  Init : σ → Prop
  Step : σ → ε → σ → Prop

namespace Lts

variable {σ : Type u} {ε : Type v}

/-- The states that some finite run reaches. -/
inductive Reach (M : Lts σ ε) : σ → Prop where
  | init {s : σ} : M.Init s → Reach M s
  | step {s t : σ} {e : ε} : Reach M s → M.Step s e t → Reach M t

/-- `Run M s es t`: the steps labelled `es`, in order, lead from `s` to `t`. -/
inductive Run (M : Lts σ ε) : σ → List ε → σ → Prop where
  | nil (s : σ) : Run M s [] s
  | cons {s t u : σ} {e : ε} {es : List ε} : M.Step s e t → Run M t es u → Run M s (e :: es) u

/-- The system of a partial step function. -/
def ofFun (init : σ → Prop) (step : σ → ε → Option σ) : Lts σ ε where
  Init := init
  Step := fun s e t => step s e = some t

/-- The system whose steps must also meet `G`. -/
def restrict (M : Lts σ ε) (G : σ → ε → Prop) : Lts σ ε where
  Init := M.Init
  Step := fun s e t => M.Step s e t ∧ G s e

variable {M : Lts σ ε}

/-- Standard invariant induction: what holds initially and is kept by every step holds in every
reachable state. -/
theorem Reach.invariant (Inv : σ → Prop) (hinit : ∀ s, M.Init s → Inv s)
    (hstep : ∀ s e t, M.Step s e t → Inv s → Inv t) {s : σ} (h : M.Reach s) : Inv s := by
  induction h with
  | init h0 => exact hinit _ h0
  | step _ hs ih => exact hstep _ _ _ hs ih

variable {es : List ε} {s t : σ}

/-- Invariant induction along one run. -/
theorem Run.invariant (Inv : σ → Prop) (hstep : ∀ s e t, M.Step s e t → Inv s → Inv t)
    (h : M.Run s es t) (hs : Inv s) : Inv t := by
  induction h with
  | nil _ => exact hs
  | cons h1 _ ih => exact ih (hstep _ _ _ h1 hs)

/-- A run that starts in a reachable state ends in one. -/
theorem Reach.run (h : M.Reach s) (hr : M.Run s es t) : M.Reach t := by
  refine Run.invariant M.Reach ?_ hr h
  intro _ _ _ hs hi
  exact Reach.step hi hs

/-- A run with one more step at its end. -/
theorem Run.snoc {u : σ} {e : ε} (h : M.Run s es t) (hstep : M.Step t e u) :
    M.Run s (es ++ [e]) u := by
  induction h with
  | nil s => exact .cons hstep (.nil u)
  | cons h1 _ ih => exact .cons h1 (ih hstep)

variable {step : σ → ε → Option σ}

/-- Folding a partial function whose values are steps along labels that all succeed is a run. -/
theorem run_foldlM (hstep : ∀ s e t, step s e = some t → M.Step s e t)
    (h : es.foldlM step s = some t) : M.Run s es t := by
  induction es generalizing s with
  | nil =>
    have hst : s = t := by simpa using h
    subst hst
    exact Run.nil s
  | cons e es ih =>
    rw [List.foldlM_cons, Option.bind_eq_bind, Option.bind_eq_some_iff] at h
    obtain ⟨u, hu, hrest⟩ := h
    exact Run.cons (hstep s e u hu) (ih hrest)

variable {init : σ → Prop}

theorem run_ofFun (h : es.foldlM step s = some t) :
    (ofFun init step).Run s es t := run_foldlM (fun _ _ _ hu => hu) h

variable {G : σ → ε → Prop}

/-- The same for a step function under a decidable condition. -/
theorem run_restrict_ofFun [∀ s e, Decidable (G s e)]
    (h : es.foldlM (fun s e => if G s e then step s e else none) s = some t) :
    ((ofFun init step).restrict G).Run s es t := by
  refine run_foldlM ?_ h
  intro s e u hu
  split_ifs at hu with hG
  exact ⟨hu, hG⟩

section Fold

variable {init : σ → Prop} {step : σ → ε → Option σ} {G : σ → ε → Prop}
  [∀ s e, Decidable (G s e)] (es : List ε) (hs : init s)
include hs

/-- A fold that starts in an initial state ends in a reachable one. -/
theorem reach_ofFun (h : es.foldlM step s = some t) : (ofFun init step).Reach t :=
  Reach.run (Reach.init hs) (run_ofFun h)

theorem reach_restrict_ofFun
    (h : es.foldlM (fun s e => if G s e then step s e else none) s = some t) :
    ((ofFun init step).restrict G).Reach t :=
  Reach.run (Reach.init hs) (run_restrict_ofFun h)

end Fold

/-- A run whose labels meet the condition in every state. -/
theorem Run.restrict (h : M.Run s es t) (hG : ∀ e ∈ es, ∀ s, G s e) :
    (M.restrict G).Run s es t := by
  induction h with
  | nil s => exact Run.nil s
  | cons h1 _ ih =>
    exact Run.cons ⟨h1, hG _ List.mem_cons_self _⟩ (ih fun e he => hG e (List.mem_cons_of_mem _ he))

end Lts

end Lib
