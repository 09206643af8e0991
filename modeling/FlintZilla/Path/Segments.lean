import FlintZilla.Path.ServerPath

/-!
# The segmenter and the printer

What one segment of a parsed path looks like (`GoodSegment`), that the segmenter produces only such
segments, and that it reads a printed list of them back. On VMS a separator inside a segment is
escaped, so one printed segment is several tokens; `pushSegment` is associative enough to absorb
them one by one.

Main results:

* `segmentize_good`: the segmenter produces good segments only.
* `segmentize_printSegments`: it reads printed segments back.
* `changePath_append`: changing to a path in two steps is changing to it at once.
-/

namespace FlintZilla

open Lib.Search List

/-- A segment that the segmenter can produce for the server type `t`. -/
structure GoodSegment (t : ServerType) (w : WString) : Prop where
  ne_nil : w ≠ []
  /-- Without an escape character no separator gets into a segment. -/
  plain : (traits t).separatorEscape = none → ∀ c ∈ w, isSeparator t c = false
  /-- With one, a segment cannot end in the escape or in a separator. -/
  last : ∀ e, (traits t).separatorEscape = some e →
    ∀ c, w.getLast? = some c → c ≠ e ∧ isSeparator t c = false
  not_dots : (traits t).hasDots = true → w ≠ ['.'] ∧ w ≠ ['.', '.']

/-! ## Small facts about the table -/

theorem isSeparator_separator (t : ServerType) : isSeparator t (separator t) = true := by
  cases t <;> decide

variable {t : ServerType} {w : WString} {segs : List WString} {st : List WString × Bool} {c : Char}

/-- VMS is the only type with an escape character. -/
theorem eq_vms_of_separatorEscape {e : Char} (h : (traits t).separatorEscape = some e) :
    t = .vms ∧ e = '^' := by
  cases t <;> simp [traits] at h
  exact ⟨rfl, h.symm⟩

theorem escapeSeparators_of_none (h : (traits t).separatorEscape = none) (w : WString) :
    escapeSeparators t w = w := by
  simp [escapeSeparators, h]

theorem isSeparator_vms (c : Char) : isSeparator .vms c = (c == '.') := by
  simp [isSeparator, traits, Bool.beq_eq_decide_eq]

/-- Escaping is done character by character. -/
theorem escapeSeparators_vms (w : WString) :
    escapeSeparators .vms w =
      w.flatMap fun c => if isSeparator .vms c then ['^', '.'] else [c] := by
  simp [escapeSeparators, traits, separator, isSeparator_vms]

theorem escapeSeparators_vms_append (u w : WString) :
    escapeSeparators .vms (u ++ w) = escapeSeparators .vms u ++ escapeSeparators .vms w := by
  simp [escapeSeparators_vms]

theorem escapeSeparators_vms_of_forall (h : ∀ c ∈ w, isSeparator .vms c = false) :
    escapeSeparators .vms w = w := by
  rw [escapeSeparators_vms]
  induction w with
  | nil => rfl
  | cons c cs ih =>
    have hc : isSeparator .vms c = false := h c (by simp)
    rw [flatMap_cons, ih fun x hx => h x (by simp [hx]), hc]
    simp

/-! ## One token -/

/-- Continuing a segment twice is continuing it once with both parts. -/
theorem pushSegment_pushSegment (st : List WString × Bool) (u w : WString) :
    pushSegment (pushSegment st u, true) w = pushSegment st (u ++ w) := by
  unfold pushSegment
  rcases st with ⟨l, _ | _⟩
  · simp [appendToBack]
  · simp [appendToBack]

/-- A token that is neither a dot name nor ends in the escape is pushed as it is. -/
theorem segmentizeAddSegment_plain (st : List WString × Bool)
    (hdots : (traits t).hasDots = true → w ≠ ['.'] ∧ w ≠ ['.', '.'])
    (hesc : ∀ e, (traits t).separatorEscape = some e → w.getLast? ≠ some e) :
    segmentizeAddSegment t st w = (pushSegment st w, false) := by
  have h1 : ((traits t).hasDots && w == ['.']) = false := by
    cases hd : (traits t).hasDots with
    | false => rfl
    | true => simpa using (hdots hd).1
  have h2 : ((traits t).hasDots && w == ['.', '.']) = false := by
    cases hd : (traits t).hasDots with
    | false => rfl
    | true => simpa using (hdots hd).2
  have h3 : ((traits t).separatorEscape.isSome &&
      w.getLast? == (traits t).separatorEscape) = false := by
    cases he : (traits t).separatorEscape with
    | none => rfl
    | some e => simpa using hesc e he
  simp [segmentizeAddSegment, h1, h2, h3]

/-- A VMS token that ends in the escape opens a segment with a separator in it. -/
theorem segmentizeAddSegment_escaped (st : List WString × Bool) (a : WString) :
    segmentizeAddSegment .vms st (a ++ ['^']) = (pushSegment st (a ++ ['.']), true) := by
  simp [segmentizeAddSegment, traits, separator]

/-! ## Reading a printed list back -/

/-- The escaped case: each separator inside the segment ends one token. -/
theorem foldl_fields_escapeSeparators_vms (w : WString) (hne : w ≠ [])
    (hlast : ∀ c, w.getLast? = some c → c ≠ '^' ∧ isSeparator .vms c = false)
    (st : List WString × Bool) :
    (fields (isSeparator .vms) (escapeSeparators .vms w)).foldl (segmentizeAddSegment .vms) st =
      (pushSegment st w, false) := by
  -- by induction on the length, from one separator of the name to the next
  induction hn : w.length using Nat.strong_induction_on generalizing w st with
  | _ n ih =>
    subst hn
    cases hf : find (isSeparator .vms) w with
    | none =>
      rw [find_eq_none] at hf
      rw [escapeSeparators_vms_of_forall hf, fields_of_forall hne hf, foldl_cons, foldl_nil]
      refine segmentizeAddSegment_plain st ?_ ?_
      · simp [traits]
      · intro e he hw
        exact (hlast e hw).1 (eq_vms_of_separatorEscape he).2
    | some i =>
      obtain ⟨a, c, b, rfl, -, hc, ha⟩ := find_eq_some hf
      have hc' : c = '.' := by simpa [isSeparator_vms] using hc
      subst hc'
      have hb : b ≠ [] := by
        rintro rfl
        have hdot := (hlast '.' (by simp)).2
        rw [hc] at hdot
        cases hdot
      -- the escape ends up as the last character of the field before the separator
      have hprint : escapeSeparators .vms (a ++ '.' :: b) =
          (a ++ ['^']) ++ '.' :: escapeSeparators .vms b := by
        rw [escapeSeparators_vms_append, escapeSeparators_vms_of_forall ha,
          ← singleton_append, escapeSeparators_vms_append]
        simp [escapeSeparators_vms, hc]
      have htok : ∀ x ∈ a ++ ['^'], isSeparator .vms x = false := by
        exact forall_mem_append.mpr ⟨ha, forall_mem_singleton.mpr (by decide)⟩
      have hlast' : ∀ x, b.getLast? = some x → x ≠ '^' ∧ isSeparator .vms x = false := by
        intro x hx
        refine hlast x ?_
        rw [getLast?_append, getLast?_cons, hx]
        rfl
      rw [hprint, fields_run_cons (by simp) htok hc, foldl_cons,
        segmentizeAddSegment_escaped, ih b.length (by simp; omega) b hb hlast' _ rfl,
        pushSegment_pushSegment]
      simp

/-- Printing one good segment and reading its tokens pushes the segment. -/
theorem foldl_fields_escapeSeparators (hw : GoodSegment t w) (st : List WString × Bool) :
    (fields (isSeparator t) (escapeSeparators t w)).foldl (segmentizeAddSegment t) st =
      (pushSegment st w, false) := by
  cases he : (traits t).separatorEscape with
  | none =>
    rw [escapeSeparators_of_none he, fields_of_forall hw.ne_nil (hw.plain he)]
    exact segmentizeAddSegment_plain st hw.not_dots (by simp [he])
  | some e =>
    obtain ⟨rfl, rfl⟩ := eq_vms_of_separatorEscape he
    exact foldl_fields_escapeSeparators_vms w hw.ne_nil (hw.last _ he) st

/-- The segmenter inverts the printer on good segments. -/
theorem segmentize_printSegments (h : ∀ w ∈ segs, GoodSegment t w) (l : List WString) :
    segmentize t (printSegments t segs) l = some (l ++ segs) := by
  have hfold : ∀ l : List WString,
      (fields (isSeparator t) (printSegments t segs)).foldl (segmentizeAddSegment t) (l, false) =
        (l ++ segs, false) := by
    unfold printSegments
    induction segs with
    | nil => simp
    | cons w ws ih =>
      intro l
      have hw := foldl_fields_escapeSeparators (h w (by simp)) (l, false)
      have hws := ih fun v hv => h v (by simp [hv])
      cases ws with
      | nil => simpa [pushSegment] using hw
      | cons v vs =>
        rw [map_cons, map_cons, intercalate_cons_cons, append_assoc,
          singleton_append, fields_append_cons (isSeparator_separator t), foldl_append,
          hw, ← map_cons, hws]
        simp [pushSegment]
  simp [segmentize, hfold l]

/-- Without dots and escapes the segmenter appends the tokens as they are. -/
theorem segmentize_plain (hdots : (traits t).hasDots = false)
    (hesc : (traits t).separatorEscape = none) (str : WString) (l : List WString) :
    segmentize t str l = some (l ++ fields (isSeparator t) str) := by
  have hfold : ∀ (toks l : List WString),
      toks.foldl (segmentizeAddSegment t) (l, false) = (l ++ toks, false) := by
    intro toks
    induction toks with
    | nil => simp
    | cons w ws ih =>
      intro l
      rw [foldl_cons, segmentizeAddSegment_plain _ (by simp [hdots]) (by simp [hesc]),
        show pushSegment (l, false) w = l ++ [w] from rfl, ih]
      simp
  simp [segmentize, hfold]

/-- Separators in front of a text, or behind it, do not change its segments. -/
theorem segmentize_cons_separator (hc : isSeparator t c) (s : WString) (l : List WString) :
    segmentize t (c :: s) l = segmentize t s l := by
  unfold segmentize
  rw [fields_cons_of_pos hc]

theorem segmentize_append_separator (hc : isSeparator t c) (s : WString) (l : List WString) :
    segmentize t (s ++ [c]) l = segmentize t s l := by
  unfold segmentize
  rw [fields_append_singleton hc]

/-! ## The ends of a printed list -/

theorem printSegments_cons (t : ServerType) (w : WString) (ws : List WString) :
    ∃ u, printSegments t (w :: ws) = escapeSeparators t w ++ u := by
  unfold printSegments
  cases ws with
  | nil => exact ⟨[], by simp⟩
  | cons v vs => exact ⟨_, rfl⟩

/-- The last segment is printed last. -/
theorem printSegments_append_singleton (t : ServerType) (l : List WString) (w : WString) :
    ∃ u, printSegments t (l ++ [w]) = u ++ escapeSeparators t w := by
  induction l with
  | nil => exact ⟨[], by simp [printSegments]⟩
  | cons v vs ih =>
    obtain ⟨u, hu⟩ := ih
    unfold printSegments at hu ⊢
    cases hvs : vs ++ [w] with
    | nil => simp at hvs
    | cons x xs =>
      rw [hvs, map_cons] at hu
      refine ⟨escapeSeparators t v ++ [separator t] ++ u, ?_⟩
      rw [cons_append, hvs, map_cons, map_cons, intercalate_cons_cons, hu]
      simp

theorem escapeSeparators_ne_nil (h : w ≠ []) : escapeSeparators t w ≠ [] := by
  cases he : (traits t).separatorEscape with
  | none => rwa [escapeSeparators_of_none he]
  | some e =>
    obtain ⟨rfl, -⟩ := eq_vms_of_separatorEscape he
    obtain ⟨c, cs, rfl⟩ := exists_cons_of_ne_nil h
    rw [escapeSeparators_vms, flatMap_cons]
    split_ifs <;> simp

/-- Something is printed. -/
theorem printSegments_ne_nil (hs : segs ≠ []) (h : ∀ w ∈ segs, GoodSegment t w) :
    printSegments t segs ≠ [] := by
  obtain ⟨w, ws, rfl⟩ := exists_cons_of_ne_nil hs
  obtain ⟨u, hu⟩ := printSegments_cons t w ws
  rw [hu]
  simp [escapeSeparators_ne_nil (h w (by simp)).ne_nil]

/-- Without escapes a printed list does not start with a separator. -/
theorem printSegments_head (he : (traits t).separatorEscape = none)
    (h : ∀ w ∈ segs, GoodSegment t w) (hc : (printSegments t segs).head? = some c) :
    isSeparator t c = false := by
  cases segs with
  | nil => simp [printSegments] at hc
  | cons w ws =>
    have hw := h w (by simp)
    obtain ⟨u, hu⟩ := printSegments_cons t w ws
    rw [hu, escapeSeparators_of_none he, head?_append_of_ne_nil _ hw.ne_nil] at hc
    exact hw.plain he c (mem_of_head? hc)

/-- Without escapes a printed list ends as its last segment does. -/
theorem printSegments_getLast? (he : (traits t).separatorEscape = none)
    (h : ∀ w ∈ segs, GoodSegment t w) (hw : segs.getLast? = some w) :
    (printSegments t segs).getLast? = w.getLast? := by
  obtain ⟨l, rfl⟩ := getLast?_eq_some_iff.mp hw
  obtain ⟨u, hu⟩ := printSegments_append_singleton t l w
  rw [hu, escapeSeparators_of_none he]
  exact getLast?_append_of_ne_nil _ (h w (by simp)).ne_nil

/-! ## The segmenter produces good segments -/

/-- The loop invariant of `segmentize`: only the segment still being continued may be unfinished. -/
structure SegmentizeInv (t : ServerType) (st : List WString × Bool) : Prop where
  finished : ∀ w ∈ st.1.dropLast, GoodSegment t w
  all : st.2 = false → ∀ w ∈ st.1, GoodSegment t w
  vms : st.2 = true → t = .vms

theorem pushSegment_dropLast (h : SegmentizeInv t st) (w : WString) :
    ∀ v ∈ (pushSegment st w).dropLast, GoodSegment t v := by
  rcases st with ⟨l, _ | _⟩
  · simpa [pushSegment] using h.all rfl
  · simpa [pushSegment, appendToBack] using h.finished

/-- A token that leaves `append` unset finishes a good segment. -/
theorem pushSegment_good (h : SegmentizeInv t st) (hw : w ≠ [])
    (hsep : ∀ c ∈ w, isSeparator t c = false)
    (hdots : (traits t).hasDots = true → w ≠ ['.'] ∧ w ≠ ['.', '.'])
    (hesc : ∀ e, (traits t).separatorEscape = some e → w.getLast? ≠ some e) :
    ∀ v ∈ pushSegment st w, GoodSegment t v := by
  have hlast : ∀ e, (traits t).separatorEscape = some e →
      ∀ c, w.getLast? = some c → c ≠ e ∧ isSeparator t c = false := by
    intro e he c hc
    refine ⟨?_, hsep c (mem_of_getLast? hc)⟩
    rintro rfl
    exact hesc c he hc
  rcases st with ⟨l, _ | _⟩
  · intro v hv
    have hv' : v ∈ l ++ [w] := hv
    rcases mem_append.mp hv' with hv | hv
    · exact h.all rfl v hv
    · rw [mem_singleton.mp hv]
      exact ⟨hw, fun _ => hsep, hlast, hdots⟩
  · intro v hv
    have ht : t = .vms := h.vms rfl
    subst ht
    have hv' : v ∈ l.dropLast ++ [l.getLastD [] ++ w] := hv
    rcases mem_append.mp hv' with hv | hv
    · exact h.finished v hv
    · -- the continued segment ends as the token does
      rw [mem_singleton.mp hv]
      refine ⟨by simp [hw], by simp [traits], ?_, by simp [traits]⟩
      intro e he c hc
      rw [getLast?_append_of_ne_nil _ hw] at hc
      exact hlast e he c hc

/-- One token: `.`, `..`, or a segment that may go on an escaped one. -/
theorem segmentizeAddSegment_inv (hw : w ≠ []) (hsep : ∀ c ∈ w, isSeparator t c = false)
    (h : SegmentizeInv t st) : SegmentizeInv t (segmentizeAddSegment t st w) := by
  have hflag : (traits t).hasDots = true → st.2 = false := by
    intro hd
    cases hst : st.2 with
    | false => rfl
    | true =>
      rw [h.vms hst] at hd
      cases hd
  unfold segmentizeAddSegment
  split_ifs with h1 h2
  · exact h
  · have hf := hflag (by simp_all)
    have hgood : ∀ v ∈ st.1.dropLast, GoodSegment t v := h.finished
    exact ⟨fun v hv => hgood v (dropLast_subset _ hv), fun _ => hgood, h.vms⟩
  · cases hnext : (traits t).separatorEscape.isSome &&
        w.getLast? == (traits t).separatorEscape with
    | true =>
      obtain ⟨e, he⟩ := Option.isSome_iff_exists.mp (Bool.and_eq_true_iff.mp hnext).1
      refine ⟨pushSegment_dropLast h _, ?_, ?_⟩
      · intro hc
        cases hc
      · intro _
        exact (eq_vms_of_separatorEscape he).1
    | false =>
      refine ⟨pushSegment_dropLast h _, ?_, ?_⟩
      · intro _
        refine pushSegment_good h hw hsep ?_ ?_
        · intro hd
          constructor
          · rintro rfl
            simp [hd] at h1
          · rintro rfl
            simp [hd] at h2
        · intro e he hlast
          rw [he] at hnext
          exact absurd hlast (by simpa using hnext)
      · intro hc
        cases hc

/-- Every segment list that the segmenter returns is good if the one it started from is. -/
theorem segmentize_good {str : WString} {l segs : List WString} (hl : ∀ w ∈ l, GoodSegment t w)
    (h : segmentize t str l = some segs) : ∀ w ∈ segs, GoodSegment t w := by
  have hrun : ∀ (toks : List WString) (st : List WString × Bool),
      (∀ w ∈ toks, w ≠ [] ∧ ∀ c ∈ w, isSeparator t c = false) → SegmentizeInv t st →
      SegmentizeInv t (toks.foldl (segmentizeAddSegment t) st) := by
    intro toks
    induction toks with
    | nil =>
      intro st _ hst
      exact hst
    | cons w ws ih =>
      intro st htok hst
      obtain ⟨hw, hsep⟩ := htok w (by simp)
      exact ih _ (fun v hv => htok v (by simp [hv])) (segmentizeAddSegment_inv hw hsep hst)
  have hinit : SegmentizeInv t (l, false) :=
    ⟨fun w hw => hl w (dropLast_subset _ hw), fun _ => hl, by simp⟩
  have hend := hrun (fields (isSeparator t) str) (l, false) (fun w hw => mem_fields hw) hinit
  simp only [segmentize] at h
  split at h
  · cases h
  · next hflag =>
    cases h
    exact hend.all (by simpa using hflag)

/-! ## One change after the other -/

variable {a b dir : WString} {l : List WString}

/-- The segments after a text, where no segment is continued by the next one. -/
def walk (t : ServerType) (segments : List WString) (str : WString) : List WString :=
  ((fields (isSeparator t) str).foldl (segmentizeAddSegment t) (segments, false)).1

section

variable (hescape : (traits t).separatorEscape = none)

include hescape

/-- Without escapes no segment goes on. -/
theorem foldl_segmentizeAddSegment (words : List WString) :
    words.foldl (segmentizeAddSegment t) (l, false) =
      ((words.foldl (segmentizeAddSegment t) (l, false)).1, false) := by
  induction words generalizing l with
  | nil => rfl
  | cons w words ih =>
    have hstep : segmentizeAddSegment t (l, false) w =
        ((segmentizeAddSegment t (l, false) w).1, false) := by
      unfold segmentizeAddSegment
      rw [hescape]
      split_ifs <;> rfl
    rw [foldl_cons, hstep]
    exact ih

theorem segmentize_eq_walk (str : WString) : segmentize t str l = some (walk t l str) := by
  unfold segmentize
  rw [foldl_segmentizeAddSegment hescape]
  rfl

/-- At a separator the walk can be cut in two. -/
theorem walk_append {c : Char} (hc : isSeparator t c) :
    walk t l (a ++ c :: b) = walk t (walk t l a) b := by
  unfold walk
  rw [fields_append_cons hc, foldl_append, foldl_segmentizeAddSegment hescape]

end

/-- What a change starts from: the root, for a path that begins with a separator. A second one is
the prefix of Cygwin. -/
def startData (t : ServerType) (d : CServerPathData) (dir : WString) : CServerPathData :=
  if isSeparator t (dir.headD '\x00') then
    ⟨[], if t ≠ .cygwin then d.pfx else if dir[1]? = some '/' then some ['/'] else none⟩
  else d

section

variable (htype : t ∈ [ServerType.unix, .zvm, .dosVirtual, .cygwin]) (d : CServerPathData)

include htype

theorem traits_rooted : (traits t).separatorEscape = none ∧ (traits t).hasRoot = true ∧
    (traits t).separators = [separator t] := by
  revert t
  decide

/-- On these types a change is a walk from the root or from where it is. -/
theorem changeByType_eq : changeByType t d false dir false =
    some (⟨walk t (startData t d dir).segments dir, (startData t d dir).pfx⟩, []) := by
  have hwalk := fun l str => segmentize_eq_walk (l := l) (traits_rooted htype).1 str
  simp only [mem_cons, not_mem_nil, or_false] at htype
  rcases htype with rfl | rfl | rfl | rfl
  case inr.inr.inr =>
    -- the second of two separators starts no segment
    have hskip : ∀ rest, walk .cygwin [] ('/' :: rest) = walk .cygwin [] rest := by
      intro rest
      rw [walk, fields_cons_of_pos (by decide), walk]
    unfold changeByType changeCygwin startData
    cases dir with
    | nil => simp [isSeparator, traits, extractIfFile, finishSegments, hwalk]
    | cons c rest =>
      by_cases hc : c = '/' <;> by_cases hdouble : rest[0]? = some '/' <;>
        simp [isSeparator, separator, traits, extractIfFile, finishSegments, hwalk, hc, hdouble,
          hskip]
  all_goals
    unfold changeByType changeRooted startData
    split_ifs <;> simp_all [extractIfFile, finishSegments]

theorem changePath_eq (hdir : dir ≠ []) : (CServerPath.mk t (some d)).changePath dir false =
    (true, ⟨t, some ⟨walk t (startData t d dir).segments dir, (startData t d dir).pfx⟩⟩, dir) := by
  simp [CServerPath.changePath, CServerPath.doChangePath, CServerPath.empty, hdir,
    changeByType_eq htype, (traits_rooted htype).2.1]

end

/-- A change to `a` and then to a relative `b` is the change to both with a separator between
them. -/
theorem changePath_append {p : CServerPath}
    (htype : p.type ∈ [ServerType.unix, .zvm, .dosVirtual, .cygwin]) (hp : p.empty = false)
    {a b : WString} (ha : a ≠ []) (hlast : a.getLast? ≠ some (separator p.type)) (hb : b ≠ [])
    (hrelative : b.head? ≠ some (separator p.type)) :
    ((p.changePath (a ++ separator p.type :: b) false).1 = true ↔
      (p.changePath a false).1 = true ∧ ((p.changePath a false).2.1.changePath b false).1 = true) ∧
    (p.changePath (a ++ separator p.type :: b) false).2.1 =
      ((p.changePath a false).2.1.changePath b false).2.1 := by
  obtain ⟨t, data⟩ := p
  cases data with
  | none => cases hp
  | some d =>
    obtain ⟨hescape, -, hseparators⟩ := traits_rooted htype
    have hstart : startData t d (a ++ separator t :: b) = startData t d a := by
      -- a single character in front of the separator is not one itself
      rcases a with - | ⟨c, - | ⟨c', a⟩⟩
      · cases ha rfl
      · simp_all [startData, isSeparator]
      · rfl
    have hstay : ∀ d', startData t d' b = d' := by
      cases b with
      | nil => cases hb rfl
      | cons c b => simp_all [startData, isSeparator]
    dsimp only
    rw [changePath_eq htype d (by simp), changePath_eq htype d ha]
    dsimp only
    rw [changePath_eq htype _ hb, hstart, hstay, walk_append hescape (isSeparator_separator t)]
    exact ⟨by simp, rfl⟩

/-- Up from `/a` beyond the root and down again. -/
theorem changePath_append_up :
    (((unixPath ["a"]).changePath "../../b".toList false).2.1.changePath "./c".toList false).2.1 =
      unixPath ["b", "c"] :=
  (changePath_append (p := unixPath ["a"]) (a := "../../b".toList) (b := "./c".toList) (by decide)
    rfl (by decide) (by decide) (by decide) (by decide)).2.symm.trans (by decide)

end FlintZilla
