import Mathlib.Tactic
import Mathlib.Data.List.TakeWhile

/-!
# Searching and splitting sequences

The index searches of `std::basic_string` (`find`, `rfind`, `find_first_of`, `find_last_of`) on
lists, and the maximal runs between separators that a tokenizer loop visits. Every search is
stated for a predicate `p`; a search for one character is the search for `(· == c)`.

Each search has two lemmas: one computes it on a list whose shape is known, the other recovers
the shape from the index it returned.
-/

namespace Lib.Search

open List

variable {α : Type*} {p : α → Bool}

/-- Index of the first element that satisfies `p` (`npos` is `none`). -/
def find (p : α → Bool) (s : List α) : Option Nat := s.findIdx? p

/-- Index of the last element that satisfies `p` (`npos` is `none`). -/
def rfind (p : α → Bool) (s : List α) : Option Nat :=
  (s.reverse.findIdx? p).map fun i => s.length - 1 - i

/-- Index of the first occurrence of a text (`npos` is `none`). -/
def findText [BEq α] (text s : List α) : Option Nat := s.tails.findIdx? text.isPrefixOf

/-- The maximal nonempty runs of elements that do not satisfy `p`, in order. -/
def fields (p : α → Bool) (s : List α) : List (List α) :=
  (s.splitOnP p).filter fun w => !w.isEmpty

/-- The fields after their leading elements that satisfy `q` are dropped; what becomes empty is no
field. -/
def trimmedFields (p q : α → Bool) (s : List α) : List (List α) :=
  ((s.splitOnP p).map (List.dropWhile q)).filter fun w => !w.isEmpty

/-! ## `find` -/

variable {s : List α} {c : α} {a b : List α}

/-- The search for one element passes over a list without it. -/
theorem forall_beq_eq_false [BEq α] [LawfulBEq α] (h : c ∉ s) : ∀ x ∈ s, (x == c) = false := by
  intro x hx
  rw [beq_eq_false_iff_ne]
  rintro rfl
  exact h hx

/-- The first element that satisfies `p`, where it is known. -/
theorem find_append_cons (ha : ∀ x ∈ a, p x = false) (hc : p c) :
    find p (a ++ c :: b) = some a.length := by
  unfold find
  induction a with
  | nil => simp [findIdx?_cons, hc]
  | cons x xs ih =>
    have hx : p x = false := ha x (by simp)
    have hxs := ih fun y hy => ha y (by simp [hy])
    rw [cons_append, findIdx?_cons, hx]
    simp [hxs]

theorem find_eq_none : find p s = none ↔ ∀ x ∈ s, p x = false := findIdx?_eq_none_iff

variable {i : Nat}

/-- What an index that was found says about the list. -/
theorem find_eq_some (h : find p s = some i) :
    ∃ a c b, s = a ++ c :: b ∧ a.length = i ∧ p c = true ∧ ∀ x ∈ a, p x = false := by
  unfold find at h
  induction s generalizing i with
  | nil => simp at h
  | cons x xs ih =>
    rw [findIdx?_cons] at h
    by_cases hx : p x = true
    · rw [if_pos hx] at h
      cases h
      exact ⟨[], x, xs, rfl, rfl, hx, by simp⟩
    · rw [if_neg hx] at h
      rw [Option.map_eq_some_iff] at h
      obtain ⟨j, hj, rfl⟩ := h
      obtain ⟨a, c, b, rfl, rfl, hc, ha⟩ := ih hj
      refine ⟨x :: a, c, b, rfl, rfl, hc, ?_⟩
      intro y hy
      rcases mem_cons.mp hy with rfl | hy
      · simpa using hx
      · exact ha y hy

/-! ## `rfind` -/

/-- The last element that satisfies `p`, where it is known. -/
theorem rfind_append_cons (hb : ∀ x ∈ b, p x = false) (hc : p c) :
    rfind p (a ++ c :: b) = some a.length := by
  have hrev : (a ++ c :: b).reverse = b.reverse ++ c :: a.reverse := by simp
  have hfind : find p (b.reverse ++ c :: a.reverse) = some b.reverse.length :=
    find_append_cons (by simpa using hb) hc
  unfold find at hfind
  unfold rfind
  rw [hrev, hfind]
  simp

theorem rfind_eq_none : rfind p s = none ↔ ∀ x ∈ s, p x = false := by
  unfold rfind
  simp

/-- What an index that was found from the back says about the list. -/
theorem rfind_eq_some (h : rfind p s = some i) :
    ∃ a c b, s = a ++ c :: b ∧ a.length = i ∧ p c = true ∧ ∀ x ∈ b, p x = false := by
  unfold rfind at h
  rw [Option.map_eq_some_iff] at h
  obtain ⟨j, hj, rfl⟩ := h
  obtain ⟨a, c, b, hs, hlen, hc, ha⟩ := find_eq_some (p := p) (s := s.reverse) hj
  have hs' : s = b.reverse ++ c :: a.reverse := by
    have := congrArg reverse hs
    simpa using this
  refine ⟨b.reverse, c, a.reverse, hs', ?_, hc, by simpa using ha⟩
  rw [hs']
  simp
  omega

/-! ## `fields` -/

@[simp] theorem fields_nil : fields p ([] : List α) = [] := by simp [fields]

/-- A separator cuts the fields in two. -/
theorem fields_append_cons (hc : p c) : fields p (a ++ c :: b) = fields p a ++ fields p b := by
  unfold fields
  rw [splitOnP_append_cons a b hc, filter_append]

theorem fields_cons_of_pos (hc : p c) : fields p (c :: s) = fields p s := by
  have h := fields_append_cons (a := []) (b := s) hc
  simpa using h

variable {w : List α}

theorem fields_of_forall (hw : w ≠ []) (h : ∀ x ∈ w, p x = false) : fields p w = [w] := by
  unfold fields
  rw [splitOnP_eq_singleton h]
  simp [hw]

theorem fields_append_singleton (hc : p c) : fields p (s ++ [c]) = fields p s := by
  rw [fields_append_cons hc, fields_nil, append_nil]

variable {s : List α}

theorem fields_run_cons (hw : w ≠ []) (h : ∀ x ∈ w, p x = false) (hc : p c) :
    fields p (w ++ c :: s) = w :: fields p s := by
  rw [fields_append_cons hc, fields_of_forall hw h]
  rfl

/-- The parts have no separators. -/
theorem forall_mem_splitOnP (s : List α) : ∀ w ∈ s.splitOnP p, ∀ x ∈ w, p x = false := by
  -- strong induction: cut the list at its first separator
  induction hn : s.length using Nat.strong_induction_on generalizing s with
  | _ n ih =>
    subst hn
    cases hf : find p s with
    | none =>
      rw [find_eq_none] at hf
      rw [splitOnP_eq_singleton hf]
      intro w hw x hx
      rw [mem_singleton] at hw
      subst hw
      exact hf x hx
    | some i =>
      obtain ⟨a, c, b, rfl, _, hc, ha⟩ := find_eq_some hf
      rw [splitOnP_append_cons a b hc, splitOnP_eq_singleton ha]
      intro w hw x hx
      rcases mem_append.mp hw with hw | hw
      · rw [mem_singleton] at hw
        subst hw
        exact ha x hx
      · refine ih b.length ?_ b rfl w hw x hx
        simp
        omega

/-- A field is nonempty and free of separators. -/
theorem mem_fields (h : w ∈ fields p s) : w ≠ [] ∧ ∀ x ∈ w, p x = false := by
  unfold fields at h
  rw [mem_filter] at h
  refine ⟨?_, forall_mem_splitOnP s w h.1⟩
  intro hw
  simp [hw] at h

/-- A text that does not end in a separator ends as its last field does. -/
theorem fields_getLast? (hs : s.getLast? = some c) (hc : p c = false) :
    ∃ w, (fields p s).getLast? = some w ∧ w.getLast? = some c := by
  cases hf : rfind p s with
  | none =>
    have hne : s ≠ [] := by
      rintro rfl
      simp at hs
    rw [fields_of_forall hne (rfind_eq_none.mp hf)]
    exact ⟨s, rfl, hs⟩
  | some i =>
    obtain ⟨a, x, b, rfl, -, hx, hb⟩ := rfind_eq_some hf
    have hne : b ≠ [] := by
      rintro rfl
      have hxc : x = c := by simpa using hs
      subst hxc
      rw [hx] at hc
      cases hc
    rw [fields_append_cons hx, fields_of_forall hne hb]
    refine ⟨b, by simp, ?_⟩
    rwa [getLast?_append_of_ne_nil _ (by simp), getLast?_cons_of_ne_nil hne] at hs

/-! ## `trimmedFields` -/

section TrimmedFields

variable {q : α → Bool}

@[simp] theorem trimmedFields_nil : trimmedFields p q ([] : List α) = [] := by simp [trimmedFields]

variable {c : α}

/-- A separator cuts these fields in two as well. -/
theorem trimmedFields_append_cons {a b : List α} (hc : p c) :
    trimmedFields p q (a ++ c :: b) = trimmedFields p q a ++ trimmedFields p q b := by
  unfold trimmedFields
  rw [splitOnP_append_cons a b hc, map_append, filter_append]

variable {s : List α}

/-- An element before the first field is a separator, or it is trimmed. -/
theorem trimmedFields_cons_of_pos (hc : p c = true ∨ q c = true) :
    trimmedFields p q (c :: s) = trimmedFields p q s := by
  by_cases hp : p c = true
  · have h := trimmedFields_append_cons (a := []) (b := s) (q := q) hp
    simpa using h
  · have hq : q c = true := hc.resolve_left hp
    unfold trimmedFields
    rw [splitOnP_cons_eq_if_modifyHead, if_neg hp]
    cases hs : s.splitOnP p with
    | nil => exact absurd hs (splitOnP_ne_nil p s)
    | cons w ws => simp [hq]

/-- What is dropped at the front would have been dropped anyway. -/
theorem trimmedFields_dropWhile_append {b : α → Bool}
    (hb : ∀ x, b x = true → p x = true ∨ q x = true) (s t : List α) :
    trimmedFields p q (s.dropWhile b ++ t) = trimmedFields p q (s ++ t) := by
  induction s with
  | nil => rfl
  | cons c s ih =>
    by_cases hc : b c = true
    · rw [dropWhile_cons_of_pos hc, ih, cons_append, trimmedFields_cons_of_pos (hb c hc)]
    · rw [dropWhile_cons_of_neg hc]

variable {w : List α}

theorem trimmedFields_of_forall (hc : q c = false) (h : ∀ x ∈ c :: w, p x = false) :
    trimmedFields p q (c :: w) = [c :: w] := by
  unfold trimmedFields
  rw [splitOnP_eq_singleton h]
  simp [hc]

theorem trimmedFields_run_cons {c d : α} (hc : q c = false) (h : ∀ x ∈ c :: w, p x = false)
    (hd : p d) : trimmedFields p q (c :: w ++ d :: s) = (c :: w) :: trimmedFields p q s := by
  rw [trimmedFields_append_cons hd, trimmedFields_of_forall hc h]
  rfl

/-- A run that may still go on is the start of the first field. -/
theorem trimmedFields_run_append (hc : q c = false) (h : ∀ x ∈ c :: w, p x = false)
    (s : List α) : ∃ t rest, trimmedFields p q (c :: w ++ s) = (c :: w ++ t) :: rest := by
  cases hs : find p s with
  | none =>
    refine ⟨s, [], trimmedFields_of_forall hc ?_⟩
    intro x hx
    exact (mem_append.mp (cons_append ▸ hx)).elim (h x) (find_eq_none.mp hs x)
  | some i =>
    obtain ⟨t, d, rest, rfl, -, hd, ht⟩ := find_eq_some hs
    refine ⟨t, trimmedFields p q rest, ?_⟩
    rw [← append_assoc]
    refine trimmedFields_run_cons (w := w ++ t) hc ?_ hd
    intro x hx
    exact (mem_append.mp (cons_append ▸ hx)).elim (h x) (ht x)

end TrimmedFields

end Lib.Search
