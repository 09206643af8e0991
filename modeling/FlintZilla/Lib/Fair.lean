import FlintZilla.Lib.Lts

/-!
# Fair behaviours

Infinite runs of a labelled transition system and the two rules the liveness results go through:
under weak fairness of an action, a rank that no step raises falls if the action lowers it wherever
it stays enabled (`WeakFair.rank_falls`), and a rank that always falls again is exhausted
(`eventually_of_rank`).
-/

namespace Lib.Lts

universe u v

variable {σ : Type u} {ε : Type v} {M : Lts σ ε}

/-- An infinite run. -/
structure Behavior (M : Lts σ ε) where
  state : Nat → σ
  label : Nat → ε
  step : ∀ i, M.Step (state i) (label i) (state (i + 1))

/-- Weak fairness of the steps labelled by `A`, which are enabled where `En` holds: one is taken
again and again, unless they are disabled again and again. -/
def WeakFair (b : M.Behavior) (A : ε → Prop) (En : σ → Prop) : Prop :=
  ∀ i, ∃ j, i ≤ j ∧ (A (b.label j) ∨ ¬ En (b.state j))

/-- What holds at first and is kept by each step of the behaviour holds always. -/
theorem Behavior.invariant (b : M.Behavior) (Inv : σ → Prop) (h0 : Inv (b.state 0))
    (hstep : ∀ i, Inv (b.state i) → Inv (b.state (i + 1))) (i : Nat) : Inv (b.state i) := by
  induction i with
  | zero => exact h0
  | succ i ih => exact hstep i ih

/-- A behaviour from a reachable state stays in reachable states. -/
theorem Behavior.reach (b : M.Behavior) (h0 : M.Reach (b.state 0)) (i : Nat) :
    M.Reach (b.state i) := by
  refine b.invariant M.Reach h0 ?_ i
  intro i hi
  exact Reach.step hi (b.step i)

/-- The rule of weak fairness: `P` enables the action, and a step lowers the rank or leaves it and
`P` alone, which the action does not. -/
theorem WeakFair.rank_falls {b : M.Behavior} {A : ε → Prop} {En : σ → Prop}
    (hfair : WeakFair b A En) (rank : σ → Nat) {P : σ → Prop} (henabled : ∀ s, P s → En s)
    (hstep : ∀ i, P (b.state i) → rank (b.state (i + 1)) < rank (b.state i) ∨
      rank (b.state (i + 1)) = rank (b.state i) ∧ P (b.state (i + 1)) ∧ ¬ A (b.label i))
    {i : Nat} (hi : P (b.state i)) : ∃ j, rank (b.state j) < rank (b.state i) := by
  rcases hfair i with ⟨j, hij, hj⟩
  -- either the rank has fallen up to `j`, or `P` still holds there
  have hlast : ∀ k, (∃ l, rank (b.state l) < rank (b.state i)) ∨
      rank (b.state (i + k)) = rank (b.state i) ∧ P (b.state (i + k)) := by
    intro k
    induction k with
    | zero => exact .inr ⟨rfl, hi⟩
    | succ k ih =>
      rcases ih with hfall | ⟨hrank, hP⟩
      · exact .inl hfall
      · rcases hstep _ hP with hlt | ⟨heq, hP', -⟩
        · exact .inl ⟨_, hrank ▸ hlt⟩
        · exact .inr ⟨heq.trans hrank, hP'⟩
  rcases hlast (j - i) with hfall | ⟨hrank, hP⟩
  · exact hfall
  · rw [Nat.add_sub_cancel' hij] at hrank hP
    rcases hj with hA | hdisabled
    · rcases hstep j hP with hlt | ⟨-, -, hidle⟩
      · exact ⟨_, hrank ▸ hlt⟩
      · exact absurd hA hidle
    · exact absurd (henabled _ hP) hdisabled

/-- Rank induction: if the rank falls again wherever `Done` does not hold, `Done` is reached. -/
theorem Behavior.eventually_of_rank (b : M.Behavior) (rank : σ → Nat) {Done : σ → Prop}
    (hfall : ∀ i, ¬ Done (b.state i) → ∃ j, rank (b.state j) < rank (b.state i)) :
    ∃ i, Done (b.state i) := by
  have hall : ∀ r i, rank (b.state i) = r → ∃ j, Done (b.state j) := by
    intro r
    induction r using Nat.strong_induction_on with
    | _ r ih =>
      intro i hi
      by_cases hdone : Done (b.state i)
      · exact ⟨i, hdone⟩
      · rcases hfall i hdone with ⟨j, hj⟩
        exact ih _ (hi ▸ hj) j rfl
  exact hall _ 0 rfl

/-- A behaviour does not descend forever. -/
theorem Behavior.exists_not_descending (b : M.Behavior) {r : σ → σ → Prop} (hwf : WellFounded r) :
    ∃ i, ¬ r (b.state (i + 1)) (b.state i) := by
  -- the minimum over the behaviour is followed by a state that is not below it
  obtain ⟨s, ⟨i, rfl⟩, hmin⟩ := hwf.has_min (Set.range b.state) ⟨b.state 0, 0, rfl⟩
  exact ⟨i, hmin (b.state (i + 1)) ⟨i + 1, rfl⟩⟩

/-- A finite run into a state with a step to itself, continued forever. -/
theorem Run.exists_behavior {s t : σ} {es : List ε} {e : ε} (h : M.Run s es t)
    (hloop : M.Step t e t) :
    ∃ b : M.Behavior, b.state 0 = s ∧ (∀ i, b.label i ∈ es ∨ b.label i = e) ∧
      ∃ n, ∀ i, n ≤ i → b.state i = t ∧ b.label i = e := by
  induction h with
  | nil s =>
    exact ⟨⟨fun _ => s, fun _ => e, fun _ => hloop⟩, rfl, fun _ => .inr rfl, 0,
      fun _ _ => ⟨rfl, rfl⟩⟩
  | @cons s u t f es hfirst _ ih =>
    rcases ih hloop with ⟨b, hb0, hlabel, n, hn⟩
    refine ⟨⟨fun i => Nat.casesOn i s b.state, fun i => Nat.casesOn i f b.label, ?_⟩, rfl, ?_,
      n + 1, ?_⟩
    · intro i
      cases i with
      | zero =>
        show M.Step s f (b.state 0)
        rw [hb0]
        exact hfirst
      | succ i => exact b.step i
    · intro i
      cases i with
      | zero => exact .inl (List.mem_cons_self ..)
      | succ i => exact (hlabel i).imp_left (List.mem_cons_of_mem _)
    · intro i hi
      cases i with
      | zero => omega
      | succ i => exact hn i (by omega)

end Lib.Lts
