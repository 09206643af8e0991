import Mathlib.Tactic

/-!
# Programs on a device that may stop at any moment

A program asks a device for one operation at a time. A fault decides how an operation goes wrong,
if at all, and a crash changes the state by a loss. `exec` performs as many operations as there are
faults given, so that a list of faults and a loss together are a crash point; `finish` runs a
program to its end.

`Safe ok Q C p s` is what has to be known of `p` in `s` to say that `C` holds whenever it is
stopped, and `Q` when it ends, under faults that meet `ok`.

Main results:

* `Safe.bind`, `Safe.perform`, `Safe.ite`: the rules for programs.
* `Safe.exec`, `Safe.finish`: what they say about a run that is stopped, and about one that ends.
-/

namespace Lib.Crash

/-- See the head of the module. -/
inductive Prog {Op : Type} (Res : Op → Type) (α : Type) where
  | ret (a : α) : Prog Res α
  | call (o : Op) (next : Res o → Prog Res α) : Prog Res α

variable {Op : Type} {Res : Op → Type} {α β : Type}

def Prog.bind : Prog Res α → (α → Prog Res β) → Prog Res β
  | .ret a, f => f a
  | .call o next, f => .call o fun r => (next r).bind f

instance Prog.monad : Monad (Prog Res) where
  pure := Prog.ret
  bind := Prog.bind

/-- The program of one operation. -/
def Prog.perform (o : Op) : Prog Res (Res o) := .call o .ret

/-- What operations do and return, and what a crash leaves. -/
structure Device {Op : Type} (Res : Op → Type) (σ F L : Type) where
  perform : (o : Op) → F → σ → Res o × σ
  crash : L → σ → σ

variable {σ F L : Type} (D : Device Res σ F L)

/-- What is left of the program after one operation for each fault, and the state there. -/
def Prog.exec : List F → Prog Res α → σ → Prog Res α × σ
  | f :: fs, .call o next, s => exec fs (next (D.perform o f s).1) (D.perform o f s).2
  | _, p, s => (p, s)

/-- The whole program under one and the same fault. -/
def Prog.finish (f : F) : Prog Res α → σ → α × σ
  | .ret a, s => (a, s)
  | .call o next, s => finish f (next (D.perform o f s).1) (D.perform o f s).2

/-- See the head of the module. -/
def Safe (ok : F → Prop) (Q : α → σ → Prop) (C : σ → Prop) : Prog Res α → σ → Prop
  | .ret a, s => C s ∧ Q a s
  | .call o next, s =>
    C s ∧ ∀ f, ok f → Safe ok Q C (next (D.perform o f s).1) (D.perform o f s).2

variable {D} {ok : F → Prop} {Q : α → σ → Prop} {C : σ → Prop} {p : Prog Res α} {s : σ}

/-- A program may be stopped before it does anything. -/
theorem Safe.stopped (h : Safe D ok Q C p s) : C s := by
  cases p with
  | ret a | call o next => exact h.1

theorem Safe.pure {a : α} (hC : C s) (hQ : Q a s) : Safe D ok Q C (Pure.pure a) s := ⟨hC, hQ⟩

/-- A weaker result. -/
theorem Safe.mono {Q' : α → σ → Prop} (h : Safe D ok Q C p s)
    (hQ : ∀ a t, C t → Q a t → Q' a t) : Safe D ok Q' C p s := by
  induction p generalizing s with
  | ret a => exact ⟨h.1, hQ a s h.1 h.2⟩
  | call o next ih =>
    refine ⟨h.1, ?_⟩
    intro f hf
    exact ih _ (h.2 f hf)

/-- Programs one after the other. -/
theorem Safe.bind {Q' : β → σ → Prop} {g : α → Prog Res β} (h : Safe D ok Q C p s)
    (hg : ∀ a t, C t → Q a t → Safe D ok Q' C (g a) t) : Safe D ok Q' C (p >>= g) s := by
  induction p generalizing s with
  | ret a => exact hg a s h.1 h.2
  | call o next ih =>
    refine ⟨h.1, ?_⟩
    intro f hf
    exact ih _ (h.2 f hf)

/-- One operation, and the program behind it. -/
theorem Safe.perform {o : Op} {g : Res o → Prog Res α} (hC : C s)
    (h : ∀ f, ok f → Safe D ok Q C (g (D.perform o f s).1) (D.perform o f s).2) :
    Safe D ok Q C (Prog.perform o >>= g) s := ⟨hC, h⟩

theorem Safe.ite {c : Prop} [Decidable c] {q : Prog Res α} (hp : c → Safe D ok Q C p s)
    (hq : ¬c → Safe D ok Q C q s) : Safe D ok Q C (if c then p else q) s := by
  split
  · next hc => exact hp hc
  · next hc => exact hq hc

/-- Wherever the program is stopped, what is left of it is still safe. -/
theorem Safe.exec (h : Safe D ok Q C p s) {fs : List F} (hfs : ∀ f ∈ fs, ok f) :
    Safe D ok Q C (p.exec D fs s).1 (p.exec D fs s).2 := by
  induction fs generalizing p s with
  | nil => cases p <;> exact h
  | cons f fs ih =>
    cases p with
    | ret a => exact h
    | call o next =>
      refine ih (h.2 f (hfs f List.mem_cons_self)) ?_
      intro g hg
      exact hfs g (List.mem_cons_of_mem f hg)

/-- The program ends, and as `Q` says. -/
theorem Safe.finish (h : Safe D ok Q C p s) {f : F} (hf : ok f) :
    Q (p.finish D f s).1 (p.finish D f s).2 := by
  induction p generalizing s with
  | ret a => exact h.2
  | call o next ih => exact ih _ (h.2 f hf)

end Lib.Crash
