import FlintZilla.Listing.Parser
import Mathlib.Data.List.TakeWhile

/-!
# Listings do not depend on how they arrive

The listing is a function of the whole data: its lines are cut out of the stream (`rawLines`) and
read one after the other (`readLines`). A parser that has been fed some of the data stands for the
function of what is still to come, and each of its operations keeps that function. With a known
encoding it follows that the chunks do not matter, and that a parser can be used again after
`Reset`.

Main results:

* `getLine_outcome`, `parseLoop_parsed`: the next line, and the loop over all lines there are.
* `parse_fed`, `parse_independent_of_chunks`: the listing of the data, however it was cut.
* `parse_feed_unknown`: the same for an encoding that is found out from the first bytes.
* `reset_as_new`: exactly when a parser is as good as new after `Reset`.
-/

namespace FlintZilla

open Lib.Search Lib.Chunks List Nat ListingEncoding

/-! ## The stream -/

/-- The lines of a stream. -/
def rawLines (stream : List UInt8) : List (List UInt8) := trimmedFields isLineEnd isPadding stream

theorem rawLines_trim (s t : List UInt8) :
    rawLines (s.dropWhile isPadding ++ t) = rawLines (s ++ t) :=
  trimmedFields_dropWhile_append (fun _ h => .inr h) s t

theorem isLineEnd_of_isPadding {b : UInt8} (h : isPadding b = false) : isLineEnd b = false := by
  simp only [isPadding, Bool.or_eq_false_iff] at h
  exact h.1.1

/-- A line that has ended is a line whatever comes behind it. -/
theorem rawLines_ended {x : UInt8} {u left : List UInt8} (hx : isPadding x = false)
    (hleft : (x :: u).dropWhile (fun b => !isLineEnd b) = left) (hne : left ≠ []) (t : List UInt8) :
    rawLines (x :: u ++ t) =
      (x :: u).takeWhile (fun b => !isLineEnd b) :: rawLines (left ++ t) := by
  obtain ⟨d, rest, rfl⟩ := exists_cons_of_ne_nil hne
  have hd : isLineEnd d = true := by
    have hhead := head?_dropWhile_not (fun b => !isLineEnd b) (x :: u)
    rw [hleft] at hhead
    simpa using hhead
  have hsplit := takeWhile_append_dropWhile (p := fun b => !isLineEnd b) (l := x :: u)
  rw [hleft] at hsplit
  have htext : (x :: u).takeWhile (fun b => !isLineEnd b) =
      x :: u.takeWhile fun b => !isLineEnd b :=
    takeWhile_cons_of_pos (by simp [isLineEnd_of_isPadding hx])
  have hall : ∀ b ∈ x :: u.takeWhile (fun b => !isLineEnd b), isLineEnd b = false := by
    intro b hb
    rw [← htext] at hb
    simpa using mem_takeWhile_imp hb
  conv_lhs => rw [← hsplit]
  rw [htext, append_assoc, cons_append, cons_append]
  unfold rawLines
  rw [trimmedFields_cons_of_pos (.inl hd)]
  exact trimmedFields_run_cons hx hall hd

/-- What `getRawLine` makes of a stream that starts with `v`: for every continuation `t` it takes
the first line off, or it leaves the lines as they are. Without `breakAtEnd` there is no
continuation. -/
inductive RawOutcome (breakAtEnd : Bool) (v : List UInt8) :
    RawLine × List (List UInt8) × Nat → Prop where
  | line {bytes : List UInt8} {chunks : List (List UInt8)} {offset : Nat}
      (hreadable : Readable chunks offset) (hvalid : breakAtEnd = true → Valid chunks offset)
      (hshort : bytes.length ≤ 10000) (hless : (view chunks offset).length < v.length)
      (hlines : ∀ t, (breakAtEnd = false → t = []) →
        rawLines (v ++ t) = bytes :: rawLines (view chunks offset ++ t)) :
      RawOutcome breakAtEnd v (.line bytes, chunks, offset)
  | tooLong {chunks : List (List UInt8)} {offset : Nat} (hvalid : Valid chunks offset)
      (hlines : ∀ t, rawLines (view chunks offset ++ t) = rawLines (v ++ t))
      (hlong : ∀ t, ∃ bytes rest, rawLines (v ++ t) = bytes :: rest ∧ 10000 < bytes.length) :
      RawOutcome breakAtEnd v (.tooLong, chunks, offset)
  | none {chunks : List (List UInt8)} {offset : Nat} (hvalid : Valid chunks offset)
      (hlines : ∀ t, rawLines (view chunks offset ++ t) = rawLines (v ++ t))
      (hend : breakAtEnd = false → view chunks offset = []) :
      RawOutcome breakAtEnd v (.none, chunks, offset)

/-- The next line of the stream: it is cut out, it is not complete yet, or it is too long. -/
theorem getRawLine_outcome (breakAtEnd : Bool) {chunks : List (List UInt8)} {offset : Nat}
    (h : Readable chunks offset) :
    RawOutcome breakAtEnd (view chunks offset) (getRawLine breakAtEnd chunks offset) := by
  obtain ⟨hvalid, hview⟩ := skipWhile_spec isPadding h
  rw [getRawLine]
  generalize hv : view chunks offset = v at hview ⊢
  generalize skipWhile isPadding chunks offset = skipped at hvalid hview ⊢
  obtain ⟨left, start⟩ := skipped
  -- the padding belongs to no line
  have hlines : ∀ t, rawLines (view left start ++ t) = rawLines (v ++ t) := by
    intro t
    rw [hview, rawLines_trim]
  cases left with
  | nil => exact .none hvalid hlines fun _ => view_nil start
  | cons c rest =>
    obtain ⟨x, u, hxu⟩ := exists_cons_of_ne_nil hvalid.view_ne_nil
    have hx : isPadding x = false := by
      have hhead := head?_dropWhile_not isPadding v
      rw [← hview, hxu] at hhead
      exact hhead
    have hle : (view (c :: rest) start).length ≤ v.length := by
      rw [hview]
      exact (dropWhile_suffix isPadding).length_le
    have hwalk := walk_outcome isLineEnd hvalid.toReadable
    dsimp only
    generalize Lib.Chunks.walk isLineEnd (c :: rest) start = w at hwalk ⊢
    generalize cut w (c :: rest) start = res at hwalk ⊢
    cases hwalk with
    | @found text left hfound hcount htext hleftValid hleft hleftNe =>
      -- a line end was found; the line may still be too long
      rw [hxu] at htext hleft
      have hfirst : ∀ t, rawLines (v ++ t) = text :: rawLines (view left w.offset ++ t) := by
        intro t
        rw [← hlines t, hxu, rawLines_ended hx hleft.symm hleftNe t, htext]
      by_cases hlong : 10000 < w.count
      · rw [if_pos hlong]
        exact .tooLong hvalid hlines fun t => ⟨text, _, hfirst t, hcount ▸ hlong⟩
      · have hshort : text.length ≤ 10000 := by omega
        rw [if_neg hlong, hfound]
        refine .line hleftValid.toReadable (fun _ => hleftValid) hshort ?_ fun t _ => hfirst t
        rw [hleft, dropWhile_cons_of_pos (by simp [isLineEnd_of_isPadding hx])]
        have hsuffix := (dropWhile_suffix (fun b => !isLineEnd b) (l := u)).length_le
        rw [hxu, length_cons] at hle
        omega
    | @ended text hfound hcount htext hall =>
      -- the data ends in the line, which is complete only if nothing can follow
      rw [hxu] at htext
      subst htext
      by_cases hlong : 10000 < w.count
      · rw [if_pos hlong]
        refine .tooLong hvalid hlines fun t => ?_
        obtain ⟨more, others, hfirst⟩ := trimmedFields_run_append hx hall t
        refine ⟨_, others, by rw [← hlines t, hxu]; exact hfirst, ?_⟩
        rw [length_append]
        omega
      · have hshort : (x :: u).length ≤ 10000 := by omega
        rw [if_neg hlong, hfound]
        cases breakAtEnd with
        | true => exact .none hvalid hlines (by simp)
        | false =>
          refine .line ⟨by simp, by simp⟩ (by simp) hshort ?_ ?_
          · rw [hxu, length_cons] at hle
            rw [view_nil, length_nil]
            omega
          · intro t ht
            rw [← hlines t, hxu, ht rfl, append_nil, view_nil]
            exact trimmedFields_of_forall hx hall

/-! ## Reading the lines -/

section Reading

variable {σ : Type} (env : ListingEnv σ) (server : CServer)

/-- Read one line: convert it and, unless nothing is left of it, parse it. -/
def LineParser.readLine (s : LineParser σ) (bytes : List UInt8) : LineParser σ :=
  let (buffer, outside) := env.convToLocal bytes s.outside
  let s := { s with outside := outside }
  if stripBom buffer = [] then s else s.handleLine env server ⟨stripBom buffer, none⟩

/-- A line that is empty after the conversion is no line. -/
theorem LineParser.readLine_eq (s : LineParser σ) (bytes : List UInt8) :
    s.readLine env server bytes = if stripBom (env.convToLocal bytes s.outside).1 = [] then
        { s with outside := (env.convToLocal bytes s.outside).2 }
      else
        { s with outside := (env.convToLocal bytes s.outside).2 }.handleLine env server
          ⟨stripBom (env.convToLocal bytes s.outside).1, none⟩ := rfl

/-- Read lines up to one that is too long. -/
def LineParser.readLines (s : LineParser σ) : List (List UInt8) → Option (LineParser σ)
  | [] => some s
  | bytes :: rest =>
    if 10000 < bytes.length then none else (s.readLine env server bytes).readLines rest

end Reading

namespace ListingParser

variable {σ : Type} {env : ListingEnv σ} {isPartial : Bool} {p p' p'' : ListingParser σ}

/-- The bytes that are still to be read. -/
def unread (p : ListingParser σ) : List UInt8 := view p.dataList p.currentOffset

/-- The lines that the parser will have read when `t` arrives behind what it has. -/
def outcome (env : ListingEnv σ) (p : ListingParser σ) (t : List UInt8) : Option (LineParser σ) :=
  p.lines.readLines env p.server (rawLines (p.unread ++ t))

/-- The listing that belongs to the lines. -/
def listingOf (path : CServerPath) (lines : Option (LineParser σ)) : CDirectoryListing :=
  match lines with
  | none => { path := path, entries := [], failed := true }
  | some s => listing path s

/-- No continuation helps: the line at the front is too long. -/
def Stuck (env : ListingEnv σ) (p : ListingParser σ) : Prop := ∀ t, p.outcome env t = none

/-- From `p` to `p'` nothing is lost. With `isPartial` more data may follow. -/
structure Reads (env : ListingEnv σ) (isPartial : Bool) (p p' : ListingParser σ) : Prop where
  server : p'.server = p.server
  encoding : p'.listingEncoding = p.listingEncoding
  readable : Readable p'.dataList p'.currentOffset
  valid : isPartial = true → Valid p'.dataList p'.currentOffset
  outcome : ∀ t, (isPartial = false → t = []) → p'.outcome env t = p.outcome env t

theorem Reads.refl (h : Valid p.dataList p.currentOffset) : Reads env isPartial p p :=
  ⟨rfl, rfl, h.toReadable, fun _ => h, fun _ _ => rfl⟩

theorem Reads.trans (h : Reads env isPartial p p') (h' : Reads env isPartial p' p'') :
    Reads env isPartial p p'' where
  server := h'.server.trans h.server
  encoding := h'.encoding.trans h.encoding
  readable := h'.readable
  valid := h'.valid
  outcome := fun t ht => (h'.outcome t ht).trans (h.outcome t ht)

/-- What `getLine` gives. A line is described by the parser that has parsed it. -/
inductive GotOutcome (env : ListingEnv σ) (isPartial : Bool) (p : ListingParser σ) :
    GotLine × ListingParser σ → Prop where
  | line {l : CLine} {p' : ListingParser σ}
      (hreads : Reads env isPartial p { p' with lines := p'.lines.handleLine env p'.server l })
      (hless : p'.unread.length < p.unread.length) : GotOutcome env isPartial p (.line l, p')
  | error {p' : ListingParser σ} (hreads : Reads env isPartial p p') (hstuck : p'.Stuck env) :
      GotOutcome env isPartial p (.error, p')
  | none {p' : ListingParser σ} (hreads : Reads env isPartial p p')
      (hend : isPartial = false → p'.unread = []) : GotOutcome env isPartial p (.none, p')

theorem GotOutcome.trans {res : GotLine × ListingParser σ} (h : Reads env isPartial p p')
    (hless : p'.unread.length < p.unread.length) (hres : GotOutcome env isPartial p' res) :
    GotOutcome env isPartial p res := by
  cases hres with
  | line hreads hless' => exact .line (h.trans hreads) (hless'.trans hless)
  | error hreads hstuck => exact .error (h.trans hreads) hstuck
  | none hreads hend => exact .none (h.trans hreads) hend

variable {fuel : Nat}

/-- By induction on the bytes that are left: lines that are empty after the conversion are passed
over. -/
theorem getLine_outcome (h : Reads env isPartial p p) (hfuel : p.unread.length < fuel) :
    GotOutcome env isPartial p (p.getLine env isPartial fuel) := by
  induction fuel generalizing p with
  | zero => exact absurd hfuel (Nat.not_lt_zero _)
  | succ fuel ih =>
    rw [getLine]
    by_cases hdata : p.dataList = []
    · rw [if_pos hdata]
      exact .none h fun _ => by rw [unread, hdata, view_nil]
    · rw [if_neg hdata]
      have hraw := getRawLine_outcome isPartial h.readable
      generalize getRawLine isPartial p.dataList p.currentOffset = raw at hraw ⊢
      cases hraw with
      | none hvalid hlines hend =>
        refine .none ⟨rfl, rfl, hvalid.toReadable, fun _ => hvalid, ?_⟩ hend
        intro t _
        exact congrArg (p.lines.readLines env p.server) (hlines t)
      | tooLong hvalid hlines hlong =>
        refine .error ⟨rfl, rfl, hvalid.toReadable, fun _ => hvalid, ?_⟩ ?_
        · intro t _
          exact congrArg (p.lines.readLines env p.server) (hlines t)
        · intro t
          obtain ⟨bytes, rest, hfirst, hlen⟩ := hlong t
          have hsame := congrArg (p.lines.readLines env p.server) ((hlines t).trans hfirst)
          refine hsame.trans ?_
          rw [LineParser.readLines, if_pos hlen]
      | @line bytes chunks offset hreadable hvalid hshort hless hlines =>
        have hnext : ∀ t, (isPartial = false → t = []) → p.outcome env t =
            (p.lines.readLine env p.server bytes).readLines env p.server
              (rawLines (view chunks offset ++ t)) := by
          intro t ht
          rw [outcome, unread, hlines t ht, LineParser.readLines, if_neg (Nat.not_lt_of_le hshort)]
        have hread := p.lines.readLine_eq env p.server bytes
        dsimp only
        by_cases hempty : stripBom (env.convToLocal bytes p.lines.outside).1 = []
        · -- nothing is left of the line, the loop goes round
          rw [if_pos hempty] at hread ⊢
          have hreads : Reads env isPartial p { p with
              dataList := chunks, currentOffset := offset,
              lines := { p.lines with outside := (env.convToLocal bytes p.lines.outside).2 } } :=
            ⟨rfl, rfl, hreadable, hvalid, fun t ht => by rw [hnext t ht, hread]; rfl⟩
          apply GotOutcome.trans hreads hless
          apply ih ⟨rfl, rfl, hreadable, hvalid, fun _ _ => rfl⟩
          exact Nat.lt_of_lt_of_le hless (Nat.le_of_lt_succ hfuel)
        · rw [if_neg hempty] at hread ⊢
          refine .line ⟨rfl, rfl, hreadable, hvalid, fun t ht => ?_⟩ hless
          rw [hnext t ht, hread]
          rfl

/-- What a loop over the lines gives. -/
structure Parsed (env : ListingEnv σ) (isPartial : Bool) (p : ListingParser σ)
    (res : Bool × ListingParser σ) : Prop where
  reads : Reads env isPartial p res.2
  stuck : res.1 = false → res.2.Stuck env
  done : res.1 = true → isPartial = false → res.2.unread = []

/-- Line after line. -/
theorem parseLoop_parsed (h : Reads env isPartial p p) (hfuel : p.unread.length < fuel) :
    Parsed env isPartial p (p.parseLoop env isPartial fuel) := by
  induction fuel generalizing p with
  | zero => exact absurd hfuel (not_lt_zero _)
  | succ fuel ih =>
    have hline : GotOutcome env isPartial p (p.getLine env isPartial (p.size + 1)) :=
      getLine_outcome h (lt_succ_of_le length_view_le)
    rw [parseLoop]
    generalize p.getLine env isPartial (p.size + 1) = got at hline ⊢
    cases hline with
    | none hreads hend => exact ⟨hreads, by simp, fun _ => hend⟩
    | error hreads hstuck => exact ⟨hreads, fun _ => hstuck, by simp⟩
    | @line l p' hreads hless =>
      have hself := (⟨rfl, rfl, hreads.readable, hreads.valid, fun _ _ => rfl⟩ :
        Reads env isPartial _ { p' with lines := p'.lines.handleLine env p'.server l })
      obtain ⟨hrest, hstuck, hdone⟩ := ih hself (lt_of_lt_of_le hless (le_of_lt_succ hfuel))
      exact ⟨hreads.trans hrest, hstuck, hdone⟩

variable (env isPartial) in
/-- With a known encoding. -/
theorem parseData_parsed (hencoding : p.listingEncoding ≠ .unknown)
    (hvalid : Valid p.dataList p.currentOffset) :
    Parsed env isPartial p (p.parseData env isPartial) := by
  rw [parseData, deduceEncoding, if_pos hencoding]
  exact parseLoop_parsed (Reads.refl hvalid) (lt_succ_of_le length_view_le)

/-! ## Feeding data -/

theorem convert_append (encoding : ListingEncoding) (a b : List UInt8) :
    encoding.convert (a ++ b) = encoding.convert a ++ encoding.convert b := by
  cases encoding <;> simp [convert]

variable {encoding : ListingEncoding} {data : List UInt8}

theorem convert_eq_nil : encoding.convert data = [] ↔ data = [] := by
  cases encoding <;> simp [convert]

/-- Feed chunks with `AddData`. The flag says whether every call succeeded. -/
def feed (env : ListingEnv σ) : ListingParser σ → List (List UInt8) → Bool × ListingParser σ
  | p, [] => (true, p)
  | p, data :: rest =>
    let added := p.addData env data
    let fed := feed env added.2 rest
    (added.1 && fed.1, fed.2)

/-- What feeding `data` to `p` gives: only the data counts, and a failed call is for good. -/
structure Fed (env : ListingEnv σ) (p : ListingParser σ) (data : List UInt8)
    (res : Bool × ListingParser σ) : Prop where
  server : res.2.server = p.server
  encoding : res.2.listingEncoding = p.listingEncoding
  valid : Valid res.2.dataList res.2.currentOffset
  outcome : ∀ t, res.2.outcome env t = p.outcome env (p.listingEncoding.convert data ++ t)
  stuck : res.1 = false → res.2.Stuck env

variable {chunks : List (List UInt8)}

section

variable (env) (hencoding : p.listingEncoding ≠ .unknown)
  (hvalid : Valid p.dataList p.currentOffset)

include hencoding hvalid

/-- A chunk that arrives: its lines are read at once, or when there is enough of it. -/
theorem addData_fed (hdata : data ≠ []) : Fed env p data (p.addData env data) := by
  have hconverted : p.listingEncoding.convert data ≠ [] := mt convert_eq_nil.mp hdata
  have hmore := hvalid.append hconverted
  have hqueued : ∀ t, (p.enqueue data).outcome env t =
      p.outcome env (p.listingEncoding.convert data ++ t) := by
    intro t
    simp only [outcome, unread, enqueue, view_append hvalid, append_assoc]
  rw [addData]
  by_cases hwait : (p.enqueue data).totalData < 512
  · rw [if_pos hwait]
    exact ⟨rfl, rfl, hmore, hqueued, by simp⟩
  · rw [if_neg hwait]
    obtain ⟨hreads, hstuck, -⟩ := parseData_parsed env true (p := p.enqueue data) hencoding hmore
    refine ⟨hreads.server, hreads.encoding, hreads.valid rfl, ?_, hstuck⟩
    intro t
    exact (hreads.outcome t (by simp)).trans (hqueued t)

/-- All chunks, by induction. -/
theorem feed_fed (hchunks : ∀ data ∈ chunks, data ≠ []) :
    Fed env p chunks.flatten (p.feed env chunks) := by
  induction chunks generalizing p with
  | nil =>
    refine ⟨rfl, rfl, hvalid, fun t => ?_, by simp [feed]⟩
    rw [flatten_nil, convert_eq_nil.mpr rfl]
    rfl
  | cons data rest ih =>
    have hadded := addData_fed env hencoding hvalid (hchunks data (by simp))
    have hrest := ih (hadded.encoding ▸ hencoding) hadded.valid
      fun d hd => hchunks d (mem_cons_of_mem data hd)
    refine ⟨hrest.server.trans hadded.server, hrest.encoding.trans hadded.encoding, hrest.valid,
      ?_, ?_⟩
    · intro t
      rw [feed, hrest.outcome, hadded.outcome, hadded.encoding, flatten_cons, convert_append,
        append_assoc]
    · intro hfailed
      rcases Bool.and_eq_false_iff.mp hfailed with hfailed | hfailed
      · intro t
        rw [feed, hrest.outcome]
        exact hadded.stuck hfailed _
      · exact hrest.stuck hfailed

/-- What is left in the end is a last line. -/
theorem parse_listing (path : CServerPath) :
    (p.parse env path).1 = listingOf path (p.outcome env []) := by
  have hparsed := parseData_parsed env false hencoding hvalid
  rw [parse]
  generalize p.parseData env false = res at hparsed ⊢
  obtain ⟨ok, p'⟩ := res
  obtain ⟨hreads, hstuck, hdone⟩ := hparsed
  rw [← hreads.outcome [] fun _ => rfl]
  cases ok with
  | false => rw [hstuck rfl []]; rfl
  | true =>
    rw [outcome, hdone rfl rfl]
    rfl

/-! ## Fragmentation -/

/-- The listing of data that was fed in chunks. -/
theorem parse_fed (path : CServerPath) (hchunks : ∀ data ∈ chunks, data ≠ []) :
    ((p.feed env chunks).2.parse env path).1 =
      listingOf path (p.outcome env (p.listingEncoding.convert chunks.flatten)) := by
  have hfed := feed_fed env hencoding hvalid hchunks
  rw [parse_listing env (hfed.encoding.trans_ne hencoding) hfed.valid, hfed.outcome, append_nil]

end

/-- From a new parser. -/
theorem parse_feed {server : CServer} {outside : σ}
    (hencoding : encoding ≠ .unknown) (path : CServerPath) (hchunks : ∀ data ∈ chunks, data ≠ []) :
    (((new server encoding outside).feed env chunks).2.parse env path).1 =
      listingOf path ((new server encoding outside).outcome env
        (encoding.convert chunks.flatten)) :=
  parse_fed env hencoding valid_nil path hchunks

/-- With a known encoding the listing depends on the bytes and not on the chunks they come in, and
so does a failure that `AddData` has reported. -/
theorem parse_independent_of_chunks (env : ListingEnv σ) (server : CServer)
    (encoding : ListingEncoding) (outside : σ) (path : CServerPath)
    (chunks chunks' : List (List UInt8)) (hencoding : encoding ≠ .unknown)
    (hchunks : ∀ data ∈ chunks, data ≠ []) (hchunks' : ∀ data ∈ chunks', data ≠ [])
    (hsame : chunks.flatten = chunks'.flatten) :
    (((new server encoding outside).feed env chunks).2.parse env path).1 =
        (((new server encoding outside).feed env chunks').2.parse env path).1 ∧
      (((new server encoding outside).feed env chunks).1 = false →
        (((new server encoding outside).feed env chunks').2.parse env path).1.failed = true) := by
  rw [parse_feed hencoding path hchunks, parse_feed hencoding path hchunks', hsame]
  refine ⟨rfl, fun hfailed => ?_⟩
  have hfed := feed_fed env (p := new server encoding outside) hencoding valid_nil hchunks
  have hnone : (new server encoding outside).outcome env
      (encoding.convert chunks'.flatten) = none := by
    rw [← hfed.stuck hfailed [], hfed.outcome, List.append_nil, hsame]
    rfl
  rw [hnone]
  rfl

/-- A server that sends names in ASCII and nothing else. -/
def namesOnly : ListingEnv σ where
  convToLocal := fun bytes outside => (bytes.map fun b => Char.ofNat b.toNat, outside)
  parseAs := fun _ _ line entry outside => (.rejected, line, entry, outside)

theorem parse_independent_of_chunks_names :
    (((new {} .normal ()).feed namesOnly [ascii "a\r", ascii "\nb", ascii "c"]).2.parse namesOnly
        ⟨.unix, none⟩).1.entries.map CDirentry.name = ["a".toList, "bc".toList] ∧
      (((new {} .normal ()).feed namesOnly [ascii "a\r", ascii "\nb", ascii "c"]).2.parse namesOnly
        ⟨.unix, none⟩).1 =
      (((new {} .normal ()).feed namesOnly [ascii "a\r\nbc"]).2.parse namesOnly ⟨.unix, none⟩).1 :=
  ⟨by decide +kernel, (parse_independent_of_chunks namesOnly {} .normal () ⟨.unix, none⟩ _ _
    (by decide) (by decide) (by decide) (by decide)).1⟩

/-! ## Unknown encodings -/

/-- The encoding that `DeduceEncoding` finds. -/
def deduced (data : List UInt8) : ListingEncoding := if appearsEbcdic data then .ebcdic else .normal

theorem deduced_ne (data : List UInt8) : deduced data ≠ .unknown := by
  unfold deduced
  split_ifs <;> decide

/-- The parser as if it had been constructed with an encoding. -/
def decoded (encoding : ListingEncoding) (p : ListingParser σ) : ListingParser σ :=
  { p with listingEncoding := encoding, dataList := p.dataList.map encoding.convert }

/-- The encoding is found out from all that has arrived. -/
theorem deduceEncoding_unknown (h : p.listingEncoding = .unknown) :
    p.deduceEncoding = p.decoded (deduced p.dataList.flatten) := by
  rw [deduceEncoding, if_neg (not_not.mpr h), deduced]
  split_ifs
  · rfl
  · have hdata : p.dataList.map normal.convert = p.dataList := map_id _
    rw [decoded, hdata]

/-- `DeduceEncoding` makes up for what was not known. -/
theorem parseData_decoded (env : ListingEnv σ) (isPartial : Bool)
    (h : p.listingEncoding = .unknown) : p.parseData env isPartial =
      (p.decoded (deduced p.dataList.flatten)).parseData env isPartial := by
  have hknown : (p.decoded (deduced p.dataList.flatten)).deduceEncoding =
      p.decoded (deduced p.dataList.flatten) := if_pos (deduced_ne _)
  rw [parseData, parseData, hknown, deduceEncoding_unknown h]

/-- The encoding that is found while the chunks arrive: from the first 512 bytes or more. -/
def deducedFrom : ListingParser σ → List (List UInt8) → ListingEncoding
  | p, [] => deduced p.dataList.flatten
  | p, data :: rest =>
    if (p.enqueue data).totalData < 512 then deducedFrom (p.enqueue data) rest
    else deduced (p.enqueue data).dataList.flatten

theorem deducedFrom_ne : deducedFrom p chunks ≠ .unknown := by
  induction chunks generalizing p with
  | nil => exact deduced_ne _
  | cons data rest ih =>
    unfold deducedFrom
    split_ifs
    · exact ih
    · exact deduced_ne _

/-- An encoding that is found out while the data arrives is as good as one that is given. -/
theorem parse_feed_unknown (env : ListingEnv σ) (path : CServerPath) (chunks : List (List UInt8))
    (h : p.listingEncoding = .unknown) : (p.feed env chunks).2.parse env path =
      ((p.decoded (deducedFrom p chunks)).feed env chunks).2.parse env path := by
  induction chunks generalizing p with
  | nil => rw [feed, feed, parse, parse, parseData_decoded env false h, deducedFrom]
  | cons data rest ih =>
    have henqueued (encoding : ListingEncoding) :
        (p.decoded encoding).enqueue data = (p.enqueue data).decoded encoding := by
      simp [decoded, enqueue, h, convert]
    unfold deducedFrom
    rw [feed, feed, addData, addData, henqueued]
    by_cases hwait : (p.enqueue data).totalData < 512
    · have hwait' (encoding) : ((p.enqueue data).decoded encoding).totalData < 512 := hwait
      rw [if_pos hwait, if_pos hwait, if_pos (hwait' _)]
      exact ih (p := p.enqueue data) h
    · have hwait' (encoding) : ¬((p.enqueue data).decoded encoding).totalData < 512 := hwait
      rw [if_neg hwait, if_neg hwait, if_neg (hwait' _),
        parseData_decoded env true (p := p.enqueue data) h]

/-! ## Starting again -/

section

variable (env : ListingEnv σ)

/-- Reading a line changes neither the server nor the encoding. -/
theorem getLine_kept (breakAtEnd : Bool) (fuel : Nat) (p : ListingParser σ) :
    (p.getLine env breakAtEnd fuel).2.server = p.server ∧
      (p.getLine env breakAtEnd fuel).2.listingEncoding = p.listingEncoding ∧
      (p.getLine env breakAtEnd fuel).2.totalData = p.totalData := by
  induction fuel generalizing p with
  | zero => exact ⟨rfl, rfl, rfl⟩
  | succ fuel ih =>
    rw [getLine]
    split_ifs
    · exact ⟨rfl, rfl, rfl⟩
    · split
      · exact ⟨rfl, rfl, rfl⟩
      · exact ⟨rfl, rfl, rfl⟩
      · dsimp only
        split_ifs
        · exact ih _
        · exact ⟨rfl, rfl, rfl⟩

theorem parseLoop_kept (isPartial : Bool) (fuel : Nat) (p : ListingParser σ) :
    (p.parseLoop env isPartial fuel).2.server = p.server ∧
      (p.parseLoop env isPartial fuel).2.listingEncoding = p.listingEncoding ∧
      (p.parseLoop env isPartial fuel).2.totalData = p.totalData := by
  induction fuel generalizing p with
  | zero => exact ⟨rfl, rfl, rfl⟩
  | succ fuel ih =>
    have hkept := getLine_kept env isPartial (p.size + 1) p
    rw [parseLoop]
    split
    next hline =>
      rw [hline] at hkept
      exact hkept
    next hline =>
      rw [hline] at hkept
      exact hkept
    next l p' hline =>
      rw [hline] at hkept
      rw [← hkept.1, ← hkept.2.1, ← hkept.2.2]
      exact ih _

/-- From `p` to `p'` the server is the same, an encoding that is known stays, and the number of
bytes received does not fall. -/
structure Kept (p p' : ListingParser σ) : Prop where
  server : p'.server = p.server
  encoding : p.listingEncoding ≠ .unknown → p'.listingEncoding = p.listingEncoding
  total : p.totalData ≤ p'.totalData

theorem Kept.trans (h : Kept p p') (h' : Kept p' p'') : Kept p p'' where
  server := h'.server.trans h.server
  encoding hp := (h'.encoding ((h.encoding hp).trans_ne hp)).trans (h.encoding hp)
  total := h.total.trans h'.total

/-- The encoding is known afterwards. -/
theorem parseData_kept (isPartial : Bool) (p : ListingParser σ) :
    Kept p (p.parseData env isPartial).2 ∧
      (p.parseData env isPartial).2.listingEncoding ≠ .unknown := by
  obtain ⟨hserver, hencoding, htotal⟩ := parseLoop_kept env isPartial (p.deduceEncoding.size + 1)
    p.deduceEncoding
  by_cases hp : p.listingEncoding = .unknown
  · rw [deduceEncoding_unknown hp] at hserver hencoding htotal
    rw [parseData, deduceEncoding_unknown hp]
    exact ⟨⟨hserver, fun hne => absurd hp hne, htotal.ge⟩, hencoding.trans_ne (deduced_ne _)⟩
  · rw [deduceEncoding, if_pos hp] at hserver hencoding htotal
    rw [parseData, deduceEncoding, if_pos hp]
    exact ⟨⟨hserver, fun _ => hencoding, htotal.ge⟩, hencoding.trans_ne hp⟩

theorem addData_kept (data : List UInt8) (p : ListingParser σ) :
    Kept (p.enqueue data) (p.addData env data).2 := by
  rw [addData]
  split_ifs
  · exact ⟨rfl, fun _ => rfl, le_rfl⟩
  · exact (parseData_kept env true _).1

theorem parse_kept (path : CServerPath) (p : ListingParser σ) :
    Kept p (p.parse env path).2 ∧ (p.parse env path).2.listingEncoding ≠ .unknown := by
  have hkept := parseData_kept env false p
  rw [parse]
  split
  all_goals
    rename_i hparsed
    rw [hparsed] at hkept
    exact ⟨⟨hkept.1.server, hkept.1.encoding, hkept.1.total⟩, hkept.2⟩

theorem call_kept (call : ListingCall) (p : ListingParser σ) : Kept p (p.call env call) := by
  cases call with
  | addData data =>
    have hqueued : Kept p (p.enqueue data) := ⟨rfl, fun _ => rfl, Nat.le_add_right _ _⟩
    exact hqueued.trans (addData_kept env data p)
  | parse path => exact (parse_kept env path p).1

/-- By induction on the calls. -/
theorem calls_kept (calls : List ListingCall) (p : ListingParser σ) :
    Kept p (calls.foldl (call env) p) := by
  induction calls generalizing p with
  | nil => exact ⟨rfl, fun _ => rfl, le_rfl⟩
  | cons call calls ih => exact (call_kept env call p).trans (ih _)

/-- A call that is to do anything finds out the encoding or counts some data. -/
theorem call_used {call : ListingCall} (hcall : call ≠ .addData []) (p : ListingParser σ) :
    (p.call env call).listingEncoding ≠ .unknown ∨ 0 < (p.call env call).totalData := by
  cases call with
  | addData data =>
    have hdata : data ≠ [] := by
      rintro rfl
      exact hcall rfl
    have hlength := length_pos_of_ne_nil hdata
    have htotal := (addData_kept env data p).total
    have hqueued : (p.enqueue data).totalData = p.totalData + data.length := rfl
    exact .inr (by show 0 < (p.addData env data).2.totalData; omega)
  | parse path => exact .inl (parse_kept env path p).2

/-- After a call that does something the parser knows its encoding or has counted bytes. -/
theorem calls_used {calls : List ListingCall} (hcalls : ∃ call ∈ calls, call ≠ .addData [])
    (p : ListingParser σ) : (calls.foldl (call env) p).listingEncoding ≠ .unknown ∨
      0 < (calls.foldl (call env) p).totalData := by
  induction calls generalizing p with
  | nil => simp at hcalls
  | cons first calls ih =>
    rw [foldl_cons]
    by_cases hfirst : first = .addData []
    · refine ih ?_ _
      simpa [hfirst] using hcalls
    · have hkept := calls_kept env calls (p.call env first)
      rcases call_used env hfirst p with hknown | hcounted
      · exact .inl ((hkept.encoding hknown).trans_ne hknown)
      · exact .inr (hcounted.trans_le hkept.total)

/-- The calls that do nothing leave nothing behind. -/
theorem reset_unused {calls : List ListingCall} (hcalls : ∀ call ∈ calls, call = .addData [])
    (hp : p.totalData = 0) : (calls.foldl (call env) p).reset = p.reset := by
  induction calls generalizing p with
  | nil => rfl
  | cons first calls ih =>
    obtain rfl := hcalls first (mem_cons_self ..)
    have hqueued : p.call env (.addData []) = p.enqueue [] := by
      rw [call, addData, if_pos (by simp [enqueue, hp])]
    rw [foldl_cons, ih (fun call hcall => hcalls call (mem_cons_of_mem _ hcall)), hqueued]
    · rfl
    · rw [hqueued]
      exact hp

/-- The listing of a parser without data, in terms of the encoding it will have. -/
theorem parse_feed_empty (hdata : p.dataList = []) (hoffset : p.currentOffset = 0)
    (path : CServerPath) (hchunks : ∀ data ∈ chunks, data ≠ []) :
    ((p.feed env chunks).2.parse env path).1 = listingOf path (p.lines.readLines env p.server
      (rawLines ((if p.listingEncoding = .unknown then deducedFrom p chunks
        else p.listingEncoding).convert chunks.flatten))) := by
  have hvalid : Valid p.dataList p.currentOffset := by
    rw [hdata, hoffset]
    exact valid_nil
  split_ifs with hunknown
  · have hdecoded : (p.decoded (deducedFrom p chunks)).dataList = p.dataList := by
      simp [decoded, hdata]
    rw [parse_feed_unknown env path chunks hunknown,
      parse_fed env deducedFrom_ne (by rw [hdecoded]; exact hvalid) path hchunks, outcome, unread,
      hdecoded, hdata, view_nil]
    rfl
  · rw [parse_fed env hunknown hvalid path hchunks, outcome, unread, hdata, view_nil]
    rfl

end

/-! ### Data that a used parser reads otherwise -/

/-- No format takes a line, so each is a name. -/
theorem tryFormats_namesOnly (multiline : Bool) (formats : List ListFormat) (line : CLine)
    (entry : CDirentry) (outside : σ) :
    LineParser.tryFormats namesOnly multiline formats line entry outside =
      (.rejected, line, entry, outside) := by
  induction formats with
  | nil => rfl
  | cons f formats ih => exact ih

theorem readLines_namesOnly (server : CServer) (s : LineParser σ) (lines : List (List UInt8)) :
    s.readLines namesOnly server lines = s.readLines namesOnly {} lines := by
  have hhandle (s : LineParser σ) (line : CLine) :
      s.handleLine namesOnly server line = s.handleLine namesOnly {} line := by
    simp [LineParser.handleLine, LineParser.parseLine, tryFormats_namesOnly]
  induction lines generalizing s with
  | nil => rfl
  | cons bytes lines ih =>
    have hread : s.readLine namesOnly server bytes = s.readLine namesOnly {} bytes := by
      rw [LineParser.readLine_eq, LineParser.readLine_eq, hhandle]
    rw [LineParser.readLines, LineParser.readLines, hread, ih]

/-- One byte less than a parser waits for. -/
def zeros : List UInt8 := replicate 511 0

/-- ` A` and a line feed in EBCDIC; another name in ASCII. -/
def ebcdicName : List UInt8 := [0x40, 0xc1, 0x25]

/-- A parser that has received nothing does not look for the encoding in the zeros alone. -/
theorem deducedFrom_zeros (hdata : p.dataList = []) (hp : p.listingEncoding = .unknown) :
    deducedFrom p [zeros, ebcdicName] = if p.totalData = 0 then .ebcdic else .normal := by
  have hlength : zeros.length = 511 := length_replicate
  have hall : deduced (zeros ++ ebcdicName) = .ebcdic := by decide +kernel
  have hzeros : deduced zeros = .normal := by decide +kernel
  split_ifs with htotal
  · simpa [deducedFrom, enqueue, hdata, hp, htotal, convert, hlength, ebcdicName] using hall
  · have henough : ¬ p.totalData + 511 < 512 := by omega
    simpa [deducedFrom, enqueue, hdata, hp, henough, convert, hlength] using hzeros

/-- Padding in front of a line is no part of it. -/
theorem rawLines_padded {pad : UInt8} (hpad : isPadding pad = true) (count : Nat)
    (s : List UInt8) : rawLines (replicate count pad ++ s) = rawLines s := by
  have hdrop : (replicate count pad).dropWhile isPadding = [] := by
    simp [hpad]
  rw [← rawLines_trim, hdrop, nil_append]

/-- The names that a new line parser reads from a stream. -/
def namesRead (server : CServer) (outside : σ) (stream : List UInt8) : List WString :=
  (listingOf ⟨.unix, none⟩ (LineParser.readLines namesOnly server { outside := outside }
    (rawLines stream))).entries.map CDirentry.name

theorem namesRead_zeros (server : CServer) (outside : σ) :
    namesRead server outside (normal.convert (zeros ++ ebcdicName)) = ["@\xc1%".toList] ∧
      namesRead server outside (ebcdic.convert (zeros ++ ebcdicName)) = ["A".toList] := by
  have hnormal : normal.convert zeros = replicate 511 0 := rfl
  have hebcdic : ebcdic.convert zeros = replicate 511 (asciiChar ' ') := by
    rw [convert, zeros, map_replicate]
    rfl
  have hother : rawLines (normal.convert ebcdicName) = [ebcdicName] := by decide +kernel
  have hname : rawLines (ebcdic.convert ebcdicName) = [ascii "A"] := by decide +kernel
  constructor
  · rw [convert_append, hnormal, namesRead, rawLines_padded (by decide), hother,
      readLines_namesOnly]
    rfl
  · rw [convert_append, hebcdic, namesRead, rawLines_padded (by decide), hname,
      readLines_namesOnly]
    rfl

/-- The letter `a` is a slash in EBCDIC. -/
theorem namesRead_letter (server : CServer) (outside : σ) :
    namesRead server outside (normal.convert (ascii "a")) = ["a".toList] ∧
      namesRead server outside (ebcdic.convert (ascii "a")) = ["/".toList] := by
  have hletter : rawLines (normal.convert (ascii "a")) = [ascii "a"] := by decide +kernel
  have hslash : rawLines (ebcdic.convert (ascii "a")) = [ascii "/"] := by decide +kernel
  constructor
  · rw [namesRead, hletter, readLines_namesOnly]
    rfl
  · rw [namesRead, hslash, readLines_namesOnly]
    rfl

/-- The names that a parser without data reads. -/
theorem parse_names {server : CServer} {outside : σ} (hdata : p.dataList = [])
    (hoffset : p.currentOffset = 0) (hlines : p.lines = { outside := outside })
    (hserver : p.server = server) (hchunks : ∀ data ∈ chunks, data ≠ []) :
    ((p.feed namesOnly chunks).2.parse namesOnly ⟨.unix, none⟩).1.entries.map CDirentry.name =
      namesRead server outside ((if p.listingEncoding = .unknown then deducedFrom p chunks
        else p.listingEncoding).convert chunks.flatten) := by
  rw [parse_feed_empty namesOnly hdata hoffset ⟨.unix, none⟩ hchunks, hlines, hserver]
  rfl

/-- A parser that knows its encoding or has counted some bytes reads some data otherwise than a new
one, which has to find out. -/
theorem exists_parse_ne {server : CServer} {outside : σ} (hdata : p.dataList = [])
    (hoffset : p.currentOffset = 0) (hlines : p.lines = { outside := outside })
    (hserver : p.server = server) (hused : p.listingEncoding ≠ .unknown ∨ 0 < p.totalData) :
    ∃ chunks : List (List UInt8), (∀ data ∈ chunks, data ≠ []) ∧
      ((p.feed namesOnly chunks).2.parse namesOnly ⟨.unix, none⟩).1 ≠
        (((new server .unknown outside).feed namesOnly chunks).2.parse namesOnly
          ⟨.unix, none⟩).1 := by
  have hnew (chunks : List (List UInt8)) (hchunks : ∀ data ∈ chunks, data ≠ []) :
      (((new server .unknown outside).feed namesOnly chunks).2.parse namesOnly
        ⟨.unix, none⟩).1.entries.map CDirentry.name = namesRead server outside
          ((deducedFrom (new server .unknown outside) chunks).convert chunks.flatten) :=
    parse_names rfl rfl rfl rfl hchunks
  have hzeros : ∀ data ∈ [zeros, ebcdicName], data ≠ [] := by decide +kernel
  have hletters : ∀ data ∈ [ascii "a"], data ≠ [] := by decide
  obtain ⟨hnormal, hebcdic⟩ := namesRead_zeros server outside
  obtain ⟨hletter, hslash⟩ := namesRead_letter server outside
  have hread (chunks : List (List UInt8)) (hchunks : ∀ data ∈ chunks, data ≠ []) :=
    parse_names hdata hoffset hlines hserver hchunks
  have hflatten : [zeros, ebcdicName].flatten = zeros ++ ebcdicName := by simp
  by_cases hother : p.listingEncoding = .ebcdic
  · -- an EBCDIC parser reads an ASCII letter as something else
    refine ⟨_, hletters, fun heq => ?_⟩
    have hnames := congrArg (fun l => l.entries.map CDirentry.name) heq
    rw [hread _ hletters, hnew _ hletters, hother, if_neg (by decide)] at hnames
    have hdeduced : deducedFrom (new server .unknown outside) [ascii "a"] = .normal := rfl
    rw [hdeduced] at hnames
    exact absurd (hslash.symm.trans (hnames.trans hletter)) (by decide)
  · -- normal, or found in the zeros
    have hencoding : (if p.listingEncoding = .unknown then deducedFrom p [zeros, ebcdicName]
        else p.listingEncoding) = .normal := by
      cases hp : p.listingEncoding with
      | ebcdic => exact absurd hp hother
      | normal => rfl
      | unknown =>
        have htotal : p.totalData ≠ 0 := by
          have := hused.resolve_left (not_not.mpr hp)
          omega
        rw [if_pos rfl, deducedFrom_zeros hdata hp, if_neg htotal]
    have hdeduced : deducedFrom (new server .unknown outside) [zeros, ebcdicName] = .ebcdic :=
      deducedFrom_zeros rfl rfl
    refine ⟨_, hzeros, fun heq => ?_⟩
    have hnames := congrArg (fun l => l.entries.map CDirentry.name) heq
    rw [hread _ hzeros, hnew _ hzeros, hencoding, hdeduced, hflatten] at hnames
    exact absurd (hnormal.symm.trans (hnames.trans hebcdic)) (by decide)

/-- After `Reset` a parser gives the listings that a new one gives exactly if its encoding was given
to the constructor, or it was not used before. The encoding that was found out stays, and so does
the number of bytes received, which decides how many of them an encoding is found out from. -/
theorem reset_as_new (server : CServer) (encoding : ListingEncoding) (outside : σ)
    (history : List ListingCall) :
    (∀ (env : ListingEnv σ) (path : CServerPath) (chunks : List (List UInt8)),
      (∀ data ∈ chunks, data ≠ []) →
      (((history.foldl (call env) (new server encoding outside)).reset.feed env chunks).2.parse env
          path).1 =
        (((new server encoding
          (history.foldl (call env) (new server encoding outside)).lines.outside).feed env
            chunks).2.parse env path).1) ↔
    encoding ≠ .unknown ∨ ∀ call ∈ history, call = .addData [] := by
  constructor
  · -- a used parser with deduced encoding: some data is read in another way
    intro hsame
    by_contra hused
    rw [not_or, not_not] at hused
    obtain ⟨rfl, hcalls⟩ := hused
    have hkept := calls_kept namesOnly history (new server .unknown outside)
    obtain ⟨chunks, hchunks, hne⟩ :=
      exists_parse_ne (p := (history.foldl (call namesOnly) (new server .unknown outside)).reset)
        rfl rfl rfl hkept.server (calls_used namesOnly (by simpa using hcalls) _)
    exact hne (hsame namesOnly ⟨.unix, none⟩ chunks hchunks)
  · intro hcondition env path chunks hchunks
    by_cases hunused : ∀ call ∈ history, call = .addData []
    · -- nothing was added, so nothing was deduced
      have hreset := reset_unused env (p := new server encoding outside) hunused rfl
      have houtside := congrArg (fun p => p.lines.outside) hreset
      rw [hreset]
      have hkept : (history.foldl (call env) (new server encoding outside)).lines.outside =
        outside := houtside
      rw [hkept]
      rfl
    · -- the encoding was given, and is the same after any calls
      have hencoding := hcondition.resolve_right hunused
      obtain ⟨hserver, hsame, -⟩ := calls_kept env history (new server encoding outside)
      generalize history.foldl (call env) (new server encoding outside) = p at hserver hsame ⊢
      have hreset : p.reset.listingEncoding = encoding := hsame hencoding
      have hlines : p.reset.lines = { outside := p.lines.outside } := rfl
      rw [parse_feed_empty env rfl rfl path hchunks, parse_feed_empty env rfl rfl path hchunks,
        hreset, if_neg hencoding, hlines]
      have hnew : (new server encoding p.lines.outside).listingEncoding = encoding := rfl
      rw [hnew, if_neg hencoding]
      show listingOf path (LineParser.readLines env p.server _ _) = _
      rw [hserver]
      rfl

theorem reset_as_new_names :
    ((([.addData (ascii "a\r\nb"), .parse ⟨.unix, none⟩].foldl (call namesOnly)
      (new {} .normal ())).reset.feed namesOnly [ascii "c\r", ascii "\nd"]).2.parse namesOnly
        ⟨.unix, none⟩).1.entries.map CDirentry.name = ["c".toList, "d".toList] := by
  rw [(reset_as_new {} .normal () _).mpr (.inl (by decide)) namesOnly ⟨.unix, none⟩ _ (by decide)]
  decide +kernel

/-- A parser that has to find out the encoding does so once: after a listing in ASCII and `Reset` it
does not recognise one in EBCDIC, which a new parser does. -/
theorem reset_keeps_encoding :
    ((([.addData (ascii "a\r\n"), .parse ⟨.unix, none⟩].foldl (call namesOnly)
      (new {} .unknown ())).reset.feed namesOnly [[0x40, 0xc1, 0x25]]).2.parse namesOnly
        ⟨.unix, none⟩).1.entries.map CDirentry.name = ["@\xc1%".toList] ∧
      (((new {} .unknown ()).feed namesOnly [[0x40, 0xc1, 0x25]]).2.parse namesOnly
        ⟨.unix, none⟩).1.entries.map CDirentry.name = ["A".toList] := by
  decide +kernel

end ListingParser

end FlintZilla
