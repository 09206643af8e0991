import Mathlib.Tactic

/-!
# Words of a command line, and quoting

A line is cut into words at blanks. A quotation mark switches to a mode in which blanks do not
separate, and back; two marks in a row stand for a mark of the word, in either mode. `quoted`
encloses a word in marks and doubles those inside it. Reading a quoted word back gives `reread`,
which is the word itself as soon as some character of it is not a mark.

Main results:

* `undoubled_doubled`: doubling can be undone.
* `reread_eq_self_iff`: which words are read back from their quoted form.
* `words_line`: a command and quoted words are read back word by word.
-/

namespace Lib.Quoting

open List

variable {α : Type*}

/-! ## Where a word ends -/

/-- The line ends here, or a blank comes next. -/
def AtEnd (blank : α → Bool) (tail : List α) : Prop := ∀ c ∈ tail.head?, blank c = true

section AtEnd

variable {q : α} {blank : α → Bool} {tail : List α}

theorem AtEnd.nil : AtEnd blank [] := by simp [AtEnd]

variable {c : α}

theorem AtEnd.cons (h : blank c) : AtEnd blank (c :: tail) := by simp [AtEnd, h]

theorem AtEnd.head?_ne (hq : blank q = false) (htail : AtEnd blank tail) : tail.head? ≠ some q := by
  intro h
  have hblank := htail q h
  rw [hq] at hblank
  cases hblank

theorem dropWhile_blank (h : blank c = false) (rest : List α) :
    (c :: rest).dropWhile blank = c :: rest := by
  rw [dropWhile_cons_of_neg (by simp [h])]

end AtEnd

/-! ## Quoting and reading -/

variable [DecidableEq α]

/-- The word with its marks doubled. -/
def doubled (q : α) (w : List α) : List α := w.flatMap fun c => if c = q then [q, q] else [c]

/-- The word between marks. -/
def quoted (q : α) (w : List α) : List α := q :: (doubled q w ++ [q])

/-- Two marks in a row become one, from left to right. -/
def undoubled (q : α) : List α → List α
  | c :: d :: rest => if c = q ∧ d = q then q :: undoubled q rest else c :: undoubled q (d :: rest)
  | w => w

/-- One word from the start of the line, and the line from the blank that ends it. -/
def scanWord (q : α) (blank : α → Bool) : Bool → List α → List α × List α
  | _, [] => ([], [])
  | quoting, [c] =>
    if !quoting && blank c then ([], [c]) else if c = q then ([], []) else ([c], [])
  | quoting, c :: d :: rest =>
    if !quoting && blank c then ([], c :: d :: rest)
    else if c = q then
      if d = q then
        let r := scanWord q blank quoting rest
        (q :: r.1, r.2)
      else scanWord q blank (!quoting) (d :: rest)
    else
      let r := scanWord q blank quoting (d :: rest)
      (c :: r.1, r.2)

/-- The words of a line. The fuel bounds their number. -/
def words (q : α) (blank : α → Bool) : Nat → List α → List (List α)
  | 0, _ => []
  | fuel + 1, line =>
    match line.dropWhile blank with
    | [] => []
    | c :: rest =>
      let r := scanWord q blank false (c :: rest)
      r.1 :: words q blank fuel r.2.tail

/-- What a quoted word is read as. -/
def reread (q : α) : List α → List α
  | [] => [q]
  | c :: w => if c = q then q :: reread q w else c :: w

variable {q : α} {blank : α → Bool} {w tail : List α}

@[simp] theorem doubled_nil : doubled q [] = [] := rfl

@[simp] theorem doubled_mark (w : List α) : doubled q (q :: w) = q :: q :: doubled q w := by
  simp [doubled]

variable {c : α}

theorem doubled_cons (h : c ≠ q) (w : List α) : doubled q (c :: w) = c :: doubled q w := by
  simp [doubled, h]

theorem doubled_append (u w : List α) : doubled q (u ++ w) = doubled q u ++ doubled q w :=
  flatMap_append

theorem doubled_of_notMem (h : q ∉ w) : doubled q w = w := by
  induction w with
  | nil => rfl
  | cons c w ih =>
    rw [mem_cons, not_or] at h
    rw [doubled_cons (Ne.symm h.1), ih h.2]

theorem undoubled_cons (h : c ≠ q) (w : List α) : undoubled q (c :: w) = c :: undoubled q w := by
  cases w with
  | nil => rfl
  | cons d w => rw [undoubled, if_neg fun hmarks => h hmarks.1]

/-- Doubled marks are read back in pairs, whatever follows them. -/
theorem undoubled_doubled_append (w tail : List α) :
    undoubled q (doubled q w ++ tail) = w ++ undoubled q tail := by
  induction w with
  | nil => rfl
  | cons c w ih =>
    by_cases hc : c = q
    · rw [hc, doubled_mark, cons_append, cons_append, undoubled, if_pos ⟨rfl, rfl⟩, ih]
      rfl
    · rw [doubled_cons hc, cons_append, undoubled_cons hc, ih]
      rfl

/-- What was doubled is found again. -/
theorem undoubled_doubled (w : List α) : undoubled q (doubled q w) = w := by
  simpa [undoubled] using undoubled_doubled_append (q := q) w []

/-! ## One character of a word -/

/-- Two marks are one, in either mode. -/
theorem scanWord_literal (quoting : Bool) (rest : List α) (hq : blank q = false) :
    scanWord q blank quoting (q :: q :: rest) =
      (q :: (scanWord q blank quoting rest).1, (scanWord q blank quoting rest).2) := by
  rw [scanWord]
  simp [hq]

variable {rest : List α}

/-- One mark switches the mode. -/
theorem scanWord_mark (quoting : Bool) (hrest : rest.head? ≠ some q) (hq : blank q = false) :
    scanWord q blank quoting (q :: rest) = scanWord q blank (!quoting) rest := by
  cases rest with
  | nil => simp [scanWord, hq]
  | cons d rest =>
    have hd : d ≠ q := by simpa using hrest
    rw [scanWord]
    simp [hq, hd]

/-- A character that does not separate belongs to the word. -/
theorem scanWord_char {quoting : Bool} (hc : c ≠ q)
    (hblank : quoting = true ∨ blank c = false) (rest : List α) :
    scanWord q blank quoting (c :: rest) =
      (c :: (scanWord q blank quoting rest).1, (scanWord q blank quoting rest).2) := by
  have hgo : (!quoting && blank c) = false := by rcases hblank with h | h <;> simp [h]
  cases rest with
  | nil => simp [scanWord, hgo, hc]
  | cons d rest =>
    rw [scanWord]
    simp [hgo, hc]

/-- A blank ends the word. -/
theorem scanWord_end (htail : AtEnd blank tail) : scanWord q blank false tail = ([], tail) := by
  match tail, htail with
  | [], _ => rfl
  | [c], h =>
    have hc : blank c = true := h c rfl
    simp [scanWord, hc]
  | c :: d :: rest, h =>
    have hc : blank c = true := h c rfl
    simp [scanWord, hc]

/-! ## Whole words -/

/-- A word without marks. -/
theorem scanWord_plain (hw : ∀ c ∈ w, c ≠ q ∧ blank c = false) (htail : AtEnd blank tail) :
    scanWord q blank false (w ++ tail) = (w, tail) := by
  induction w with
  | nil => exact scanWord_end htail
  | cons c w ih =>
    obtain ⟨hc, hblank⟩ := hw c mem_cons_self
    have hrest := ih fun d hd => hw d (mem_cons_of_mem c hd)
    rw [cons_append, scanWord_char hc (.inr hblank), hrest]

/-- Inside the marks the word is read as it is, up to the closing mark. -/
theorem scanWord_doubled (hq : blank q = false) (htail : AtEnd blank tail) (w : List α) :
    scanWord q blank true (doubled q w ++ q :: tail) = (w, tail) := by
  induction w with
  | nil =>
    rw [doubled_nil, nil_append, scanWord_mark true (htail.head?_ne hq) hq]
    exact scanWord_end htail
  | cons c w ih =>
    by_cases hc : c = q
    · subst hc
      rw [doubled_mark, cons_append, cons_append, scanWord_literal true _ hq, ih]
    · rw [doubled_cons hc, cons_append, scanWord_char hc (.inl rfl), ih]

/-- A quoted word. The opening mark is one of a pair as long as the word starts with marks; only
the first other character makes it open the quotation. -/
theorem scanWord_quoted (hq : blank q = false) (htail : AtEnd blank tail) (w : List α) :
    scanWord q blank false (quoted q w ++ tail) = (reread q w, tail) := by
  rw [show quoted q w ++ tail = q :: (doubled q w ++ q :: tail) by simp [quoted]]
  induction w with
  | nil =>
    rw [doubled_nil, nil_append, scanWord_literal false _ hq, scanWord_end htail]
    rfl
  | cons c w ih =>
    by_cases hc : c = q
    · subst hc
      rw [doubled_mark, cons_append, cons_append, scanWord_literal false _ hq, ih]
      simp [reread]
    · have hhead : (doubled q (c :: w) ++ q :: tail).head? ≠ some q := by
        simpa [doubled_cons hc] using hc
      rw [scanWord_mark false hhead hq, Bool.not_false, scanWord_doubled hq htail]
      simp [reread, hc]

/-- Only a word of nothing but marks comes back changed, with one mark more. -/
theorem reread_eq_self_iff : reread q w = w ↔ ∃ c ∈ w, c ≠ q := by
  induction w with
  | nil => simp [reread]
  | cons c w ih =>
    by_cases hc : c = q
    · simp [reread, hc, ih]
    · simp [reread, hc]

/-! ## Whole lines -/

variable {sep : α}

/-- The words after the first one, each behind a separator. -/
def quotedTail (q sep : α) (ws : List (List α)) : List α := ws.flatMap fun w => sep :: quoted q w

theorem AtEnd.quotedTail (hsep : blank sep) (ws : List (List α)) :
    AtEnd blank (quotedTail q sep ws) := by
  cases ws with
  | nil => exact AtEnd.nil
  | cons w ws => exact AtEnd.cons hsep

variable {line : List α}

/-- A line that does not start with a blank, when its first word is known. -/
theorem words_succ (fuel : Nat)
    (hline : scanWord q blank false (c :: line) = (w, rest)) (hc : blank c = false) :
    words q blank (fuel + 1) (c :: line) = w :: words q blank fuel rest.tail := by
  rw [words, dropWhile_blank hc]
  change (scanWord q blank false (c :: line)).1 ::
    words q blank fuel (scanWord q blank false (c :: line)).2.tail = _
  rw [hline]

/-- Quoted words one after the other. -/
theorem words_quotedTail (hq : blank q = false) (hsep : blank sep) (ws : List (List α))
    (fuel : Nat) (hfuel : ws.length ≤ fuel) :
    words q blank fuel (quotedTail q sep ws).tail = ws.map (reread q) := by
  induction ws generalizing fuel with
  | nil => cases fuel <;> rfl
  | cons w ws ih =>
    obtain ⟨fuel, rfl⟩ : ∃ n, fuel = n + 1 := ⟨fuel - 1, by simp at hfuel; omega⟩
    have hword := scanWord_quoted hq (AtEnd.quotedTail (q := q) hsep ws) w
    rw [map_cons, ← ih fuel (by simpa using hfuel)]
    exact words_succ fuel hword hq

/-- A plain first word and quoted ones after it. -/
theorem words_line (hq : blank q = false) (hsep : blank sep) {c : List α} (hne : c ≠ [])
    (hc : ∀ a ∈ c, a ≠ q ∧ blank a = false) (ws : List (List α)) (fuel : Nat)
    (hfuel : ws.length < fuel) :
    words q blank fuel (c ++ quotedTail q sep ws) = c :: ws.map (reread q) := by
  obtain ⟨fuel, rfl⟩ : ∃ n, fuel = n + 1 := ⟨fuel - 1, by omega⟩
  have hword := scanWord_plain hc (AtEnd.quotedTail (q := q) hsep ws)
  obtain ⟨a, c, rfl⟩ := exists_cons_of_ne_nil hne
  rw [← words_quotedTail hq hsep ws fuel (by omega)]
  exact words_succ fuel hword (hc a mem_cons_self).2

theorem length_quotedTail (q sep : α) (ws : List (List α)) :
    ws.length ≤ (quotedTail q sep ws).length := by
  induction ws with
  | nil => exact le_rfl
  | cons w ws ih =>
    rw [quotedTail, flatMap_cons, length_append, length_cons, length_cons]
    rw [quotedTail] at ih
    omega

/-! ## Where the characters of a word come from -/

end Lib.Quoting
