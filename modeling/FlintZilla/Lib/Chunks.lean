import Mathlib.Data.List.TakeWhile
import Mathlib.Tactic

/-!
# Streams in chunks

A stream that arrives in pieces is kept as a list of chunks and an offset into the first one. The
three loops over it: skip elements, walk to an element, and copy what the walk has passed. Each is
related to the same operation on `view`, the stream that is left.

Main results:

* `skipWhile_spec`, `walk_outcome`: the loops are `dropWhile` and `takeWhile` on the view.
-/

namespace Lib.Chunks

open List

variable {α : Type*}

/-- The stream that is left. -/
def view (chunks : List (List α)) (offset : Nat) : List α := chunks.flatten.drop offset

/-- No chunk is empty and the offset is inside of the first one. -/
structure Readable (chunks : List (List α)) (offset : Nat) : Prop where
  ne_nil : ∀ c ∈ chunks, c ≠ []
  offset_lt : ∀ c ∈ chunks.head?, offset < c.length

/-- The offset is also right for the first chunk that is still to come. -/
structure Valid (chunks : List (List α)) (offset : Nat) : Prop extends Readable chunks offset where
  offset_eq : chunks = [] → offset = 0

/-- Skip the elements that satisfy `p` and drop the chunks that are used up. -/
def skipWhile (p : α → Bool) : List (List α) → Nat → List (List α) × Nat
  | [], _ => ([], 0)
  | c :: rest, offset =>
    let stop := offset + ((c.drop offset).takeWhile p).length
    if c.length ≤ stop then skipWhile p rest 0 else (c :: rest, stop)

/-- Where a walk has stopped: how many elements and chunks it has passed, the offset in the chunk it
stands in, and whether it has found what it looked for. -/
structure Walk where
  count : Nat
  passed : Nat
  offset : Nat
  found : Bool
deriving DecidableEq

/-- Walk to the first element that satisfies `p`. -/
def walk (p : α → Bool) : List (List α) → Nat → Walk
  | [], offset => ⟨0, 0, offset, false⟩
  | c :: rest, offset =>
    let n := ((c.drop offset).takeWhile fun x => !p x).length
    if offset + n < c.length then ⟨n, 0, offset + n, true⟩
    else
      let w := walk p rest (if rest.isEmpty then offset + n else 0)
      ⟨n + w.count, w.passed + 1, w.offset, w.found⟩

/-- Copy from the chunks that a walk has passed, at most `n` elements: the copy, how many of the `n`
are still missing, and where they start in the next chunk. -/
def copyPassed : Nat → List (List α) → Nat → Nat → List α × Nat × Nat
  | k + 1, c :: rest, start, n =>
    if n = 0 then ([], 0, start)
    else
      let len := min (c.length - start) n
      let r := copyPassed k rest 0 (n - len)
      ((c.drop start).take len ++ r.1, r.2)
  | _, _, start, n => ([], n, start)

/-- What a walk has passed, and the chunks from the one it stands in. -/
def cut (w : Walk) (chunks : List (List α)) (start : Nat) : List α × List (List α) :=
  let copy := copyPassed w.passed chunks start w.count
  match chunks.drop w.passed with
  | [] => (copy.1, [])
  | last :: rest =>
    if copy.2.1 = 0 then (copy.1, last :: rest)
    else
      (copy.1 ++ (last.drop copy.2.2).take (min (w.offset - copy.2.2) copy.2.1),
        if last.length ≤ copy.2.1 then rest else last :: rest)

variable {p : α → Bool} {chunks rest : List (List α)} {c : List α} {offset : Nat}

/-! ## Positions -/

theorem valid_nil : Valid ([] : List (List α)) 0 := ⟨⟨by simp, by simp⟩, fun _ => rfl⟩

theorem Readable.lt (h : Readable (c :: rest) offset) : offset < c.length := h.offset_lt c rfl

theorem Readable.tail (h : Readable (c :: rest) offset) : Readable rest 0 where
  ne_nil := fun d hd => h.ne_nil d (mem_cons_of_mem c hd)
  offset_lt := by
    intro d hd
    have hmem : d ∈ c :: rest := mem_cons_of_mem c (mem_of_mem_head? hd)
    exact length_pos_iff.mpr (h.ne_nil d hmem)

/-- The offset may be moved within the first chunk. -/
theorem Readable.move {stop : Nat} (h : Readable (c :: rest) offset) (hstop : stop < c.length) :
    Valid (c :: rest) stop := by
  refine ⟨⟨h.ne_nil, ?_⟩, fun hnil => absurd hnil (cons_ne_nil c rest)⟩
  intro d hd
  cases hd
  exact hstop

variable {more : List α}

/-- Another chunk arrives. -/
theorem Valid.append (h : Valid chunks offset) (hmore : more ≠ []) :
    Valid (chunks ++ [more]) offset := by
  cases chunks with
  | nil =>
    have hoffset : offset = 0 := h.offset_eq rfl
    subst hoffset
    refine ⟨⟨by simpa using hmore, ?_⟩, fun _ => rfl⟩
    intro d hd
    cases hd
    exact length_pos_iff.mpr hmore
  | cons c rest =>
    refine ⟨⟨?_, h.offset_lt⟩, fun hnil => absurd hnil (cons_ne_nil c _)⟩
    exact forall_mem_append.mpr ⟨h.ne_nil, forall_mem_singleton.mpr hmore⟩

@[simp] theorem view_nil (offset : Nat) : view ([] : List (List α)) offset = [] := by simp [view]

theorem view_cons (rest : List (List α)) (h : offset ≤ c.length) :
    view (c :: rest) offset = c.drop offset ++ view rest 0 := by
  rw [view, flatten_cons, drop_append_of_le_length h]
  rfl

/-- A chunk at the end is a chunk at the end of the view. -/
theorem view_append (h : Valid chunks offset) :
    view (chunks ++ [more]) offset = view chunks offset ++ more := by
  cases chunks with
  | nil =>
    rw [h.offset_eq rfl]
    simp [view]
  | cons c rest =>
    rw [cons_append, view_cons _ h.lt.le, view_cons _ h.lt.le]
    simp [view]

theorem Readable.view_ne_nil (h : Readable (c :: rest) offset) : view (c :: rest) offset ≠ [] := by
  rw [view_cons rest h.lt.le]
  intro hnil
  have hend := drop_eq_nil_iff.mp (append_eq_nil_iff.mp hnil).1
  exact absurd h.lt (Nat.not_lt_of_le hend)

theorem length_view_le : (view chunks offset).length ≤ chunks.flatten.length := by
  rw [view, length_drop]
  omega

/-! ## Skipping -/

/-- Nothing is behind a scan that has passed the whole list. -/
theorem dropWhile_eq_nil_iff_length {s : List α} :
    s.dropWhile p = [] ↔ s.length ≤ (s.takeWhile p).length := by
  have hlen := congrArg length (takeWhile_append_dropWhile (p := p) (l := s))
  rw [length_append] at hlen
  rw [← length_eq_zero_iff]
  omega

theorem drop_length_takeWhile (s : List α) : s.drop (s.takeWhile p).length = s.dropWhile p := by
  have hsplit : s.takeWhile p ++ s.dropWhile p = s := takeWhile_append_dropWhile
  calc s.drop (s.takeWhile p).length
      = (s.takeWhile p ++ s.dropWhile p).drop (s.takeWhile p).length := by rw [hsplit]
    _ = s.dropWhile p := drop_left

/-- A scan that stops inside of the first chunk does not look at the others. -/
theorem scan_view_inside (rest : List (List α)) (h : offset ≤ c.length)
    (hstop : offset + ((c.drop offset).takeWhile p).length < c.length) :
    (view (c :: rest) offset).takeWhile p = (c.drop offset).takeWhile p ∧
      (view (c :: rest) offset).dropWhile p =
        view (c :: rest) (offset + ((c.drop offset).takeWhile p).length) := by
  have hlen : (c.drop offset).length = c.length - offset := List.length_drop
  rw [view_cons rest h, view_cons rest hstop.le, List.takeWhile_append, List.dropWhile_append]
  refine ⟨if_neg (by omega), ?_⟩
  rw [if_neg, ← List.drop_drop, drop_length_takeWhile]
  rw [List.isEmpty_iff, dropWhile_eq_nil_iff_length]
  omega

/-- A scan that uses up the first chunk goes on with the others. -/
theorem scan_view_beyond (rest : List (List α)) (h : offset ≤ c.length)
    (hstop : c.length ≤ offset + ((c.drop offset).takeWhile p).length) :
    (view (c :: rest) offset).takeWhile p = c.drop offset ++ (view rest 0).takeWhile p ∧
      (view (c :: rest) offset).dropWhile p = (view rest 0).dropWhile p := by
  have hlen : (c.drop offset).length = c.length - offset := List.length_drop
  have hle := (List.takeWhile_prefix p (l := c.drop offset)).length_le
  rw [view_cons rest h, List.takeWhile_append, List.dropWhile_append]
  refine ⟨if_pos (by omega), if_pos ?_⟩
  rw [List.isEmpty_iff, dropWhile_eq_nil_iff_length]
  omega

/-- Skipping is `dropWhile` on what is left, and chunks that are used up are gone. -/
theorem skipWhile_spec (p : α → Bool) (h : Readable chunks offset) :
    Valid (skipWhile p chunks offset).1 (skipWhile p chunks offset).2 ∧
      view (skipWhile p chunks offset).1 (skipWhile p chunks offset).2 =
        (view chunks offset).dropWhile p := by
  induction chunks generalizing offset with
  | nil => exact ⟨valid_nil, by simp [skipWhile]⟩
  | cons c rest ih =>
    rw [skipWhile]
    by_cases hstop : c.length ≤ offset + ((c.drop offset).takeWhile p).length
    · rw [if_pos hstop, (scan_view_beyond rest h.lt.le hstop).2]
      exact ih h.tail
    · have hstop := Nat.lt_of_not_le hstop
      rw [if_neg (by omega)]
      exact ⟨h.move hstop, (scan_view_inside rest h.lt.le hstop).2.symm⟩

/-! ## Walking -/

/-- What `walk` and `cut` give when the stream that is left is `text` up to the first element that
satisfies `p`. -/
inductive WalkOutcome (p : α → Bool) (chunks : List (List α)) (offset : Nat) :
    Walk → List α × List (List α) → Prop where
  | found {w : Walk} {text : List α} {left : List (List α)} (hfound : w.found = true)
      (hcount : w.count = text.length)
      (htext : (view chunks offset).takeWhile (fun x => !p x) = text)
      (hvalid : Valid left w.offset)
      (hleft : view left w.offset = (view chunks offset).dropWhile fun x => !p x)
      (hne : view left w.offset ≠ []) :
      WalkOutcome p chunks offset w (text, left)
  | ended {w : Walk} {text : List α} (hfound : w.found = false) (hcount : w.count = text.length)
      (htext : view chunks offset = text) (hall : ∀ x ∈ text, p x = false) :
      WalkOutcome p chunks offset w (text, [])

/-- The element is in the first chunk. -/
theorem cut_inside {n : Nat} (hstop : offset + n < c.length) :
    cut ⟨n, 0, offset + n, true⟩ (c :: rest) offset = ((c.drop offset).take n, c :: rest) := by
  by_cases hn : n = 0
  · subst hn
    rfl
  · have hlen : ¬c.length ≤ n := by omega
    simp [cut, copyPassed, hn, hlen]

/-- The first chunk is passed as a whole. -/
theorem cut_beyond (w : Walk) (h : offset < c.length) :
    cut ⟨c.length - offset + w.count, w.passed + 1, w.offset, w.found⟩ (c :: rest) offset =
      (c.drop offset ++ (cut w rest 0).1, (cut w rest 0).2) := by
  have hcopy : copyPassed (w.passed + 1) (c :: rest) offset (c.length - offset + w.count) =
      (c.drop offset ++ (copyPassed w.passed rest 0 w.count).1,
        (copyPassed w.passed rest 0 w.count).2) := by
    rw [copyPassed, if_neg (by omega), Nat.min_eq_left (Nat.le_add_right _ _)]
    dsimp only
    rw [Nat.add_sub_cancel_left, take_of_length_le (by rw [length_drop])]
  simp only [cut, hcopy, drop_succ_cons]
  cases hdrop : rest.drop w.passed with
  | nil => rfl
  | cons last tail =>
    dsimp only
    by_cases hmissing : (copyPassed w.passed rest 0 w.count).2.1 = 0
    · rw [if_pos hmissing, if_pos hmissing]
    · rw [if_neg hmissing, if_neg hmissing, append_assoc]

/-- The outcome in the other chunks is the outcome in all of them when the first one is used up. -/
theorem WalkOutcome.beyond {w : Walk} {res : List α × List (List α)} (h : offset < c.length)
    (hall : ∀ x ∈ c.drop offset, p x = false) (hrest : WalkOutcome p rest 0 w res) :
    WalkOutcome p (c :: rest) offset
      ⟨c.length - offset + w.count, w.passed + 1, w.offset, w.found⟩
      (c.drop offset ++ res.1, res.2) := by
  have hskip : ∀ x ∈ c.drop offset, (!p x) = true := fun x hx => by rw [hall x hx]; rfl
  have hview := view_cons rest h.le
  cases hrest with
  | found hfound hcount htext hvalid hleft hne =>
    refine .found hfound ?_ ?_ hvalid ?_ hne
    · simp [hcount]
    · rw [hview, takeWhile_append_of_pos hskip, htext]
    · rw [hview, dropWhile_append_of_pos hskip, hleft]
  | ended hfound hcount htext hnone =>
    refine .ended hfound ?_ (by rw [hview, htext]) ?_
    · simp [hcount]
    · intro x hx
      exact (mem_append.mp hx).elim (hall x) (hnone x)

/-- The walk stops at the first element with the property, or at the end. -/
theorem walk_outcome (p : α → Bool) (h : Readable chunks offset) :
    WalkOutcome p chunks offset (walk p chunks offset)
      (cut (walk p chunks offset) chunks offset) := by
  induction chunks generalizing offset with
  | nil => exact .ended rfl rfl (view_nil offset) (by simp [copyPassed])
  | cons c rest ih =>
    have hlt := h.lt
    have hpre := takeWhile_prefix (fun x => !p x) (l := c.drop offset)
    rw [walk]
    by_cases hstop : offset + ((c.drop offset).takeWhile fun x => !p x).length < c.length
    · obtain ⟨htake, hdrop⟩ := scan_view_inside rest hlt.le hstop
      rw [if_pos hstop, cut_inside hstop, ← prefix_iff_eq_take.mp hpre]
      have hvalid := h.move hstop
      exact .found rfl rfl htake hvalid hdrop.symm hvalid.view_ne_nil
    · have hle := hpre.length_le
      rw [length_drop] at hle
      have hn : ((c.drop offset).takeWhile fun x => !p x).length = c.length - offset := by omega
      have heq := hpre.eq_of_length (by rw [hn, length_drop])
      rw [if_neg hstop, hn, cut_beyond _ hlt]
      apply WalkOutcome.beyond hlt
      · intro x hx
        rw [← heq] at hx
        simpa using mem_takeWhile_imp hx
      · -- behind the last chunk the offset is not set to the start of the next one
        cases rest with
        | nil => exact .ended rfl rfl (view_nil 0) (by simp [copyPassed])
        | cons d more => exact ih h.tail

end Lib.Chunks
