import FlintZilla.Path.WellFormed

/-!
# Printing and reparsing

On well-formed bodies every branch of `DoChangePath`, started from an empty path, reads the output
of `GetPath` back. One lemma to a grammar: it cuts the printed text where the branch cuts it, and
leaves the segments to `segmentize_printSegments`.

Main results:

* `changeByType_getPath`: each grammar reads its own output back.
* `setPath_getPath_wellFormed`, `ofText_getPath`: so do `SetPath` and the constructor.
-/

namespace FlintZilla

open Lib Lib.Search CServerPath List

variable {d : CServerPathData} {t : ServerType}

/-- What is left to show when the text has been cut. -/
theorem finishSegments_of_segmentize {dir file : WString} {segs : List WString}
    {pfx : Option WString} {refuse : Bool} (h : segmentize t dir segs = some d.segments)
    (hpfx : d.pfx = pfx) (hne : refuse = true → d.segments ≠ []) :
    finishSegments t dir file segs pfx refuse = some (d, file) := by
  have hguard : (d.segments.isEmpty && refuse) = false := by
    cases refuse with
    | false => simp
    | true => simpa using hne rfl
  subst hpfx
  simp [finishSegments, h, hguard]

/-! ## The rooted grammars -/

/-- A text that starts with the separator. -/
theorem changeRooted_getPath (ht : t = .default ∨ t = .unix ∨ t = .zvm ∨ t = .dosVirtual)
    (hd : WellFormedData t d) :
    changeRooted t {} true (mk t (some d)).getPath false = some (d, []) := by
  have hpfx : d.pfx = none :=
    (goodPrefixFor_iff (by rcases ht with rfl | rfl | rfl | rfl <;> decide)).mp hd.pfx
  have hprint : (mk t (some d)).getPath = separator t :: printSegments t d.segments := by
    rcases ht with rfl | rfl | rfl | rfl <;> simp [getPath, traits, hpfx]
  rw [hprint]
  simp only [changeRooted, headD_cons, isSeparator_separator]
  refine finishSegments_of_segmentize ?_ hpfx (by simp)
  rw [segmentize_cons_separator (isSeparator_separator t), segmentize_printSegments hd.good]
  rfl

/-- Either form of a Cygwin path. -/
theorem changeCygwin_getPath (hd : WellFormedData .cygwin d) :
    changeCygwin {} true (mk .cygwin (some d)).getPath false = some (d, []) := by
  have hslash : isSeparator .cygwin '/' = true := by decide
  have hseg : segmentize .cygwin ('/' :: printSegments .cygwin d.segments) [] =
      some d.segments := by
    rw [segmentize_cons_separator hslash, segmentize_printSegments hd.good]
    rfl
  -- with the prefix, the printed path starts with two separators
  rcases hd.pfx with hpfx | hpfx
  · have hprint : (mk .cygwin (some d)).getPath = '/' :: printSegments .cygwin d.segments := by
      simp [getPath, traits, separator, hpfx]
    -- no segment is empty, so a second separator can only be the prefix
    have hhead : (printSegments .cygwin d.segments)[0]? ≠ some '/' := by
      rw [← head?_eq_getElem?]
      intro hc
      have hfree := printSegments_head rfl hd.good hc
      rw [hslash] at hfree
      cases hfree
    rw [hprint]
    simp only [changeCygwin, extractIfFile, headD_cons, hslash, reduceIte, Bool.false_eq_true,
      getElem?_cons_succ, hhead, and_false]
    exact finishSegments_of_segmentize hseg hpfx (by simp)
  · have hprint : (mk .cygwin (some d)).getPath =
        '/' :: '/' :: printSegments .cygwin d.segments := by
      simp [getPath, traits, separator, hpfx]
    rw [hprint]
    simp only [changeCygwin, extractIfFile, headD_cons, hslash, reduceIte, Bool.false_eq_true,
      getElem?_cons_succ, getElem?_cons_zero, head?_cons, and_self,
      drop_succ_cons, drop_zero]
    exact finishSegments_of_segmentize hseg hpfx (by simp)

/-- The device comes first, with its colon. -/
theorem changeVxworks_getPath (hd : WellFormedData .vxworks d) :
    changeVxworks {} true (mk .vxworks (some d)).getPath false = some (d, []) := by
  obtain ⟨x, hx, hfree, hpfx⟩ := hd.pfx
  have hprint : (mk .vxworks (some d)).getPath =
      ':' :: (x ++ ':' :: printSegments .vxworks d.segments) := by
    simp [getPath, traits, hpfx]
  have hfind : find (· == ':') (x ++ ':' :: printSegments .vxworks d.segments) = some x.length :=
    find_append_cons hfree rfl
  obtain ⟨k, hk⟩ : ∃ k, x.length = k + 1 := Nat.exists_eq_succ_of_ne_zero (by simpa using hx)
  rw [hk] at hfind
  have hcut : x ++ ':' :: printSegments .vxworks d.segments =
      (x ++ [':']) ++ printSegments .vxworks d.segments := by simp
  have hlen : k + 2 = (x ++ [':']).length := by simp [hk]
  rw [hprint]
  simp only [changeVxworks, extractIfFile, head?_cons, ne_eq, not_true_eq_false, reduceIte,
    drop_succ_cons, drop_zero, hfind, Bool.false_eq_true, take_succ_cons]
  rw [hcut, hlen, drop_left, take_left]
  exact finishSegments_of_segmentize (segmentize_printSegments hd.good []) hpfx (by simp)

/-! ## The grammars without a root -/

/-- The drive is the first segment. -/
theorem changeDos_getPath (ht : t = .dos ∨ t = .dosFwdSlashes) (hd : WellFormedData t d) :
    changeDos t {} true (mk t (some d)).getPath false = some (d, []) := by
  have hpfx : d.pfx = none := (goodPrefixFor_iff (by rcases ht with rfl | rfl <;> decide)).mp hd.pfx
  have hesc : (traits t).separatorEscape = none := by rcases ht with rfl | rfl <;> rfl
  have hne : d.segments ≠ [] := hd.rooted (by rcases ht with rfl | rfl <;> rfl)
  have hprint : ∃ u, (u = [] ∨ u = [separator t]) ∧
      (mk t (some d)).getPath = printSegments t d.segments ++ u := by
    refine ⟨if d.segments.length = 1 then [separator t] else [], ?_, ?_⟩
    · split_ifs
      · exact .inr rfl
      · exact .inl rfl
    · rcases ht with rfl | rfl <;> simp [getPath, traits, hpfx, hne]
  obtain ⟨u, hu, hprint⟩ := hprint
  have hseg : segmentize t (printSegments t d.segments ++ u) [] = some d.segments := by
    rcases hu with rfl | rfl
    · rw [append_nil, segmentize_printSegments hd.good]
      rfl
    · rw [segmentize_append_separator (isSeparator_separator t), segmentize_printSegments hd.good]
      rfl
  have hhead : isSeparator t ((printSegments t d.segments ++ u).headD '\x00') = false := by
    obtain ⟨c, cs, hcs⟩ := exists_cons_of_ne_nil (printSegments_ne_nil hne hd.good)
    exact printSegments_head hesc hd.good (by rw [hcs]; rfl)
  rw [hprint]
  -- absolute or not, an empty path has no segments to keep
  simp only [changeDos, hhead, Bool.false_eq_true, reduceIte, ite_self]
  exact finishSegments_of_segmentize hseg hpfx (fun _ => hne)

/-- The system comes behind a backslash. -/
theorem changeHpNonstop_getPath (hd : WellFormedData .hpNonstop d) :
    changeHpNonstop {} true (mk .hpNonstop (some d)).getPath false = some (d, []) := by
  have hpfx : d.pfx = none := hd.pfx
  have hne : d.segments ≠ [] := hd.rooted rfl
  have hprint : (mk .hpNonstop (some d)).getPath = printSegments .hpNonstop d.segments := by
    simp [getPath, traits, hpfx, hne]
  rw [hprint]
  simp only [changeHpNonstop, extractIfFile, ite_self, Bool.false_eq_true, reduceIte]
  exact finishSegments_of_segmentize (segmentize_printSegments hd.good []) hpfx (fun _ => hne)

/-- The device comes before the bracket; inside it separators are escaped. -/
theorem changeVms_getPath (hd : WellFormedData .vms d) :
    changeVms {} true (mk .vms (some d)).getPath false = some (d, []) := by
  have hne : d.segments ≠ [] := hd.rooted rfl
  have hpfx : ∀ c ∈ d.pfx.getD [], (c == '[') = false := by
    cases hp : d.pfx with
    | none => simp
    | some x => exact (hd.pfx x hp).2
  have hlen := length_pos_of_ne_nil (printSegments_ne_nil hne hd.good)
  have hsegs := segmentize_printSegments hd.good []
  have hprint : (mk .vms (some d)).getPath =
      d.pfx.getD [] ++ '[' :: (printSegments .vms d.segments ++ [']']) := by
    simp [getPath, traits, hne]
  rw [hprint]
  -- the text is cut at its first opening and its last closing bracket
  generalize printSegments .vms d.segments = body at hlen hsegs
  generalize hpre : d.pfx.getD [] = pre at hpfx
  have hfind : find (· == '[') (pre ++ '[' :: (body ++ [']'])) = some pre.length :=
    find_append_cons hpfx rfl
  have hsplit : pre ++ '[' :: (body ++ [']']) = (pre ++ '[' :: body) ++ [']'] := by simp
  have hrfind : rfind (· == ']') (pre ++ '[' :: (body ++ [']'])) =
      some (pre ++ '[' :: body).length := by
    rw [hsplit]
    exact rfind_append_cons (by simp) rfl
  have hcut : (pre ++ '[' :: (body ++ [']'])).take (pre ++ '[' :: body).length =
      pre ++ '[' :: body := by
    rw [hsplit, take_left]
  have hbody : (pre ++ '[' :: body).drop (pre.length + 1) = body := by
    rw [show pre ++ '[' :: body = (pre ++ ['[']) ++ body by simp,
      show pre.length + 1 = (pre ++ ['[']).length by simp, drop_left]
  have hpos : ¬ (pre ++ '[' :: body).length ≤ pre.length + 1 := by
    rw [length_append, length_cons]
    omega
  simp only [changeVms, hfind, hrfind, hcut, hbody, Bool.false_eq_true, reduceIte]
  rw [if_neg hpos, if_neg (by simp)]
  refine finishSegments_of_segmentize hsegs ?_ (fun _ => hne)
  subst hpre
  cases hp : d.pfx with
  | none => rfl
  | some x =>
    have hx := (hd.pfx x hp).1
    simp [hx]

/-- Quotes around it; a member set, or a qualifier with a dot behind it. -/
theorem changeMvs_getPath (hd : WellFormedData .mvs d) :
    changeMvs {} true (mk .mvs (some d)).getPath false = some (d, []) := by
  have hne : d.segments ≠ [] := hd.rooted rfl
  have hprint : (mk .mvs (some d)).getPath =
      '\'' :: (printSegments .mvs d.segments ++ d.pfx.getD [] ++ ['\'']) := by
    simp [getPath, traits, hne]
  have hstrip : ∀ s : WString, stripMvsQuotes ('\'' :: (s ++ ['\''])) = '\'' :: (s ++ ['\'']) := by
    intro s
    have hq : ('\'' == mvsDoubleQuote) = false := by decide
    simp [stripMvsQuotes, hq]
  have henc : ∀ s : WString, mvsEnclosure {} true ('\'' :: (s ++ ['\''])) = some (s, []) := by
    intro s
    have hlast : ('\'' :: (s ++ ['\''])).getLast? = some '\'' := by
      rw [← cons_append, getLast?_concat]
    simp [mvsEnclosure, hlast]
  -- the segments of the inner text, and how it ends
  have hinner : segmentize .mvs (printSegments .mvs d.segments ++ d.pfx.getD []) [] =
        some d.segments ∧
      (printSegments .mvs d.segments ++ d.pfx.getD []).getLast? ≠ some ')' ∧
      d.pfx = if (printSegments .mvs d.segments ++ d.pfx.getD []).getLast? = some '.' then
        some ['.'] else none := by
    have hsegs := segmentize_printSegments hd.good []
    rcases hd.pfx with hpfx | ⟨hpfx, hparen⟩
    · rw [hpfx]
      refine ⟨?_, by simp, by simp⟩
      rw [Option.getD_some, segmentize_append_separator (by decide), hsegs]
      rfl
    · rw [hpfx, Option.getD_none, append_nil]
      obtain ⟨w, hw⟩ : ∃ w, d.segments.getLast? = some w :=
        ⟨d.segments.getLast hne, getLast?_eq_some_getLast hne⟩
      have hlast := printSegments_getLast? rfl hd.good hw
      refine ⟨hsegs, ?_, ?_⟩
      · rw [hlast]
        exact hparen w hw
      · rw [hlast, if_neg]
        intro hdot
        have hfree := (hd.good w (mem_of_getLast? hw)).plain rfl '.' (mem_of_getLast? hdot)
        simp [isSeparator, traits] at hfree
  rw [hprint]
  simp only [changeMvs, hstrip, henc, mvsMember, isEmpty_cons, Bool.false_eq_true, reduceIte,
    hinner.2.1, Bool.not_true, Bool.false_and]
  exact finishSegments_of_segmentize hinner.1 hinner.2.2 (by simp)

/-! ## All types -/

/-- Every server type. -/
theorem changeByType_getPath (hd : WellFormedData t d) :
    changeByType t {} true (mk t (some d)).getPath false = some (d, []) := by
  cases t <;> simp only [changeByType]
  case default => exact changeRooted_getPath (by simp) hd
  case unix => exact changeRooted_getPath (by simp) hd
  case vms => exact changeVms_getPath hd
  case dos => exact changeDos_getPath (by simp) hd
  case mvs => exact changeMvs_getPath hd
  case vxworks => exact changeVxworks_getPath hd
  case zvm => exact changeRooted_getPath (by simp) hd
  case hpNonstop => exact changeHpNonstop_getPath hd
  case dosVirtual => exact changeRooted_getPath (by simp) hd
  case cygwin => exact changeCygwin_getPath hd
  case dosFwdSlashes => exact changeDos_getPath (by simp) hd

/-- No branch starts a path with the empty text, so a printed path is not empty. -/
theorem getPath_ne_nil (hd : WellFormedData t d) : (mk t (some d)).getPath ≠ [] := by
  have hnil : changeByType t {} true [] false = none := by cases t <;> rfl
  intro h
  have hread := changeByType_getPath hd
  rw [h, hnil] at hread
  cases hread

/-- A well-formed path of a concrete type is read back from its text. -/
theorem setPath_getPath_wellFormed (ht : t ≠ .default) (hd : WellFormedData t d) :
    setPath ⟨t, none⟩ (mk t (some d)).getPath false =
      (true, ⟨t, some d⟩, (mk t (some d)).getPath) := by
  have hroot : (!(traits t).hasRoot && d.segments.isEmpty) = false := by
    cases hr : (traits t).hasRoot with
    | true => rfl
    | false => simpa using hd.rooted hr
  have hne : (mk t (some d)).getPath.isEmpty = false := by simpa using getPath_ne_nil hd
  simp [setPath, hne, ht, changePath, doChangePath, empty, changeByType_getPath hd, hroot]

/-- Every nonempty path of a concrete type that directory operations can build is equal to the path
constructed from its text. -/
theorem ofText_getPath {p : CServerPath} (h : directorySystem.Reach p) (ht : p.type ≠ .default)
    (hne : p.data ≠ none) :
    (CServerPath.setPath ⟨p.type, none⟩ p.getPath false).1 = true ∧
      CServerPath.ofText p.getPath p.type = p := by
  obtain ⟨t, data⟩ := p
  obtain ⟨d, rfl⟩ := Option.ne_none_iff_exists'.mp hne
  have hd : WellFormedData t d := directorySystem_wellFormed h d rfl
  have hread := setPath_getPath_wellFormed ht hd
  exact ⟨congrArg (·.1) hread, congrArg (·.2.1) hread⟩

/-- The escaped dot of a VMS directory: `DKA0:[A^.B.C]`, then up, then down into `D`. -/
theorem ofText_getPath_vms :
    ∃ p : CServerPath, p.getPath = "DKA0:[A^.B.D]".toList ∧
      (CServerPath.setPath ⟨p.type, none⟩ p.getPath false).1 = true ∧
      CServerPath.ofText p.getPath p.type = p := by
  refine ⟨⟨.vms, some ⟨["A.B".toList, "D".toList], some "DKA0:".toList⟩⟩, by decide,
    ofText_getPath ?_ (by decide) (by decide)⟩
  have h0 : directorySystem.Reach ⟨.default, none⟩ := Lts.Reach.init rfl
  have h1 := Lts.Reach.step (M := directorySystem) h0 (e := .setPath "DKA0:[A^.B.C]".toList false)
    ⟨rfl, rfl⟩
  have h2 := Lts.Reach.step (M := directorySystem) h1 (e := .makeParent) ⟨rfl, trivial⟩
  have h3 := Lts.Reach.step (M := directorySystem) h2 (e := .changePath "D".toList false) ⟨rfl, rfl⟩
  have hend : (apply (apply (apply ⟨.default, none⟩
      (.setPath "DKA0:[A^.B.C]".toList false)) .makeParent) (.changePath "D".toList false)) =
      ⟨.vms, some ⟨["A.B".toList, "D".toList], some "DKA0:".toList⟩⟩ := by decide
  rw [← hend]
  exact h3

end FlintZilla
