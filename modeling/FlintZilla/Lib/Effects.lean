import Mathlib.Tactic

/-!
# What a program does to its state

`EStateM ε σ` are programs that change a state and may stop, with the state they have reached.
`Ensures I R X Q m` says of a program `m` started in a state with the invariant `I`: it goes from
there by `R`, whether it returns or stops; if it stops then for a reason in `X`, and if it returns
then `I` holds again and the value meets `Q`. The rules follow the way programs are put together.

Main results:

* `Ensures.bind`, `Ensures.seq`, `Ensures.ite`, `Ensures.forM`: the rules for programs.
-/

namespace Lib.Effects

universe u

variable {ε σ α β : Type u}

/-- See the head of the module. -/
def Ensures (I : σ → Prop) (R : σ → σ → Prop) (X : ε → Prop) (Q : α → Prop)
    (m : EStateM ε σ α) : Prop :=
  ∀ s, I s →
    match m s with
    | .ok a t => I t ∧ R s t ∧ Q a
    | .error e t => X e ∧ R s t

variable {I : σ → Prop} {R : σ → σ → Prop} {X : ε → Prop} {Q : α → Prop} {Q' : β → Prop}
  {m : EStateM ε σ α}
  {s t : σ} {a : α}

theorem Ensures.ok (h : Ensures I R X Q m) (hs : I s) (hrun : m s = .ok a t) :
    I t ∧ R s t ∧ Q a := by
  have hm := h s hs
  rw [hrun] at hm
  exact hm

theorem Ensures.error {e : ε} (h : Ensures I R X Q m) (hs : I s)
    (hrun : m s = .error e t) : X e ∧ R s t := by
  have hm := h s hs
  rw [hrun] at hm
  exact hm

theorem Ensures.pure [Std.Refl R] (h : Q a) : Ensures I R X Q (Pure.pure a : EStateM ε σ α) := by
  intro s hs
  exact ⟨hs, Std.Refl.refl s, h⟩

theorem Ensures.throw [Std.Refl R] {e : ε} (h : X e) :
    Ensures I R X Q (MonadExcept.throw e : EStateM ε σ α) := by
  intro s _
  exact ⟨h, Std.Refl.refl s⟩

theorem Ensures.get {σ : Type u} {I : σ → Prop} {R : σ → σ → Prop} [Std.Refl R] :
    Ensures I R X I (MonadState.get : EStateM ε σ σ) := by
  intro s hs
  exact ⟨hs, Std.Refl.refl s, hs⟩

theorem Ensures.update {f : σ → σ} (h : ∀ s, I s → I (f s) ∧ R s (f s)) :
    Ensures I R X (fun _ => True) (modify f : EStateM ε σ PUnit) := by
  intro s hs
  exact ⟨(h s hs).1, (h s hs).2, trivial⟩

variable {f : α → EStateM ε σ β}

/-- If the first part stops, so does the whole, for the same reason. -/
theorem Ensures.bind [IsTrans σ R] (hm : Ensures I R X Q m)
    (hf : ∀ a, Q a → Ensures I R X Q' (f a)) :
    Ensures I R X Q' (m >>= f) := by
  intro s hs
  change match EStateM.bind m f s with
    | .ok a t => I t ∧ R s t ∧ Q' a
    | .error e t => X e ∧ R s t
  unfold EStateM.bind
  cases hrun : m s with
  | error e t => exact hm.error hs hrun
  | ok a t =>
    obtain ⟨ht, hst, ha⟩ := hm.ok hs hrun
    dsimp only
    cases hrest : f a t with
    | error e u =>
      obtain ⟨he, htu⟩ := (hf a ha).error ht hrest
      exact ⟨he, IsTrans.trans s t u hst htu⟩
    | ok b u =>
      obtain ⟨hu, htu, hb⟩ := (hf a ha).ok ht hrest
      exact ⟨hu, IsTrans.trans s t u hst htu, hb⟩

/-- `bind` where it does not matter what is returned. -/
theorem Ensures.seq [IsTrans σ R] (hm : Ensures I R X Q m) (hf : ∀ {a}, Ensures I R X Q' (f a)) :
    Ensures I R X Q' (m >>= f) :=
  hm.bind fun _ _ => hf

theorem Ensures.ite {c : Prop} [Decidable c] {n : EStateM ε σ α} (hm : Ensures I R X Q m)
    (hn : Ensures I R X Q n) : Ensures I R X Q (if c then m else n) := by
  split
  · exact hm
  · exact hn

/-- The loop over a list, by induction on it. -/
theorem Ensures.forM [Std.Refl R] [IsTrans σ R] {γ : Type u} {f : γ → EStateM ε σ PUnit}
    (l : List γ) (h : ∀ x ∈ l, Ensures I R X (fun _ => True) (f x)) :
    Ensures I R X (fun _ => True) (l.forM f) := by
  induction l with
  | nil => exact Ensures.pure trivial
  | cons x l ih =>
    refine .seq (h x List.mem_cons_self) ?_
    exact ih fun y hy => h y (List.mem_cons_of_mem x hy)

end Lib.Effects
