import FlintZilla.Lib.Effects
import FlintZilla.Sftp.HelperCommands

/-!
# What the helper does between its answers

A Reply or Done event of the helper answers a command of the engine. Requests, canonical names and
whole transfers print other events only: they are `Silent`. Canonical names are also free of line
ends as long as the server names no path with one.

Main results:

* `silent_request`, `silent_fxpRealpath`: requests to the server.
* `silent_canonify`: canonical names.
* `silent_sftpGetFile`, `silent_sftpPutFile`: transfers.
-/

namespace FlintZilla.Psftp

open Lib.Effects List Option

/-! ## Silent programs -/

/-- The answers among the events. -/
def answers (out : List Output) : Nat := out.countP Output.isReply

/-- No byte of the text ends a line. -/
def NoBreaks (text : List UInt8) : Prop := ∀ b ∈ text, isCrLf b = false

instance decidableNoBreaks (text : List UInt8) : Decidable (NoBreaks text) :=
  inferInstanceAs (Decidable (∀ b ∈ text, isCrLf b = false))

/-- The connection has not been lost. -/
def FxpReply.Received {α : Type} : FxpReply α → Prop
  | .lost _ => False
  | _ => True

instance decidableFxpReplyReceived {α : Type} (r : FxpReply α) : Decidable r.Received :=
  match r with
  | .ok _ | .failed _ _ => isTrue trivial
  | .lost _ => isFalse id

/-- A path that can be part of an answer. -/
def FxpReply.Clean : FxpReply (List UInt8) → Prop
  | .ok path => NoBreaks path
  | r => r.Received

instance decidableFxpReplyClean (r : FxpReply (List UInt8)) : Decidable r.Clean :=
  match r with
  | .ok path => inferInstanceAs (Decidable (NoBreaks path))
  | .failed _ _ => isTrue trivial
  | .lost _ => isFalse id

/-- The server names no path with a line end and speaks SFTP, the connection is not lost, and the
host is given with a user. -/
def World.Clean (w : World) : Prop :=
  (∀ r ∈ w.realpaths, r.Clean) ∧ (∀ r ∈ w.handles, r.Received) ∧ (∀ r ∈ w.statuses, r.Received) ∧
    (∀ r ∈ w.attrs, r.Received) ∧ (∀ r ∈ w.names, r.Received) ∧ (∀ ok ∈ w.inits, ok = true) ∧
      ∀ r ∈ w.connects, r ≠ .noUsername

instance decidableWorldClean (w : World) : Decidable w.Clean := by
  unfold World.Clean
  infer_instance

/-- Some of the answers have been used up. -/
def World.Within (w' w : World) : Prop :=
  w'.realpaths ⊆ w.realpaths ∧ w'.handles ⊆ w.handles ∧ w'.statuses ⊆ w.statuses ∧
    w'.attrs ⊆ w.attrs ∧ w'.names ⊆ w.names ∧ w'.inits ⊆ w.inits ∧ w'.connects ⊆ w.connects

/-- What is left of a clean world is clean. -/
theorem World.Clean.within {w w' : World} (h : w.Clean) (hw : w'.Within w) : w'.Clean := by
  obtain ⟨h1, h2, h3, h4, h5, h6, h7⟩ := hw
  obtain ⟨c1, c2, c3, c4, c5, c6, c7⟩ := h
  exact ⟨fun r hr => c1 r (h1 hr), fun r hr => c2 r (h2 hr), fun r hr => c3 r (h3 hr),
    fun r hr => c4 r (h4 hr), fun r hr => c5 r (h5 hr), fun r hr => c6 r (h6 hr),
    fun r hr => c7 r (h7 hr)⟩

structure HelperInv (h : Helper) : Prop where
  pwd : NoBreaks h.pwd
  world : h.world.Clean

/-- Events were printed, but no answer. -/
def Quiet (h t : Helper) : Prop :=
  t.pendingReply = h.pendingReply ∧ ∃ extra, t.out = h.out ++ extra ∧ answers extra = 0

theorem answers_append (a b : List Output) : answers (a ++ b) = answers a + answers b :=
  countP_append

theorem Quiet.of_eq {h t : Helper} (hpending : t.pendingReply = h.pendingReply)
    (hout : t.out = h.out) : Quiet h t :=
  ⟨hpending, [], by rw [hout, append_nil], rfl⟩

instance quiet_refl : Std.Refl Quiet := ⟨fun _ => Quiet.of_eq rfl rfl⟩

instance quiet_trans : IsTrans Helper Quiet := by
  refine ⟨fun h t u hht htu => ?_⟩
  obtain ⟨hpending, extra, hout, hextra⟩ := hht
  obtain ⟨hpending', extra', hout', hextra'⟩ := htu
  refine ⟨hpending'.trans hpending, extra ++ extra', ?_, ?_⟩
  · rw [hout', hout, List.append_assoc]
  · rw [answers_append, hextra, hextra']

/-- A program that prints no answer and does not end the helper. -/
def Silent {α : Type} (Q : α → Prop) (m : HelperM α) : Prop :=
  Ensures HelperInv Quiet (· = .waits) Q m

variable {α β : Type} {Q : α → Prop} {suffix : Option (List UInt8)} {type : EventType}

theorem silent_emit {lines : List Output} (htype : answersCommand type = false)
    (hlines : answers lines = 0) : Silent (fun _ => True) (emit type lines) := by
  refine .update fun h hinv => ⟨⟨hinv.pwd, hinv.world⟩, ?_, lines, rfl, hlines⟩
  simp [htype]

/-- Lines of other types than Reply and Done are no answers. -/
theorem answers_printed_eq_zero (htype : answersCommand type = false) (text : List UInt8) :
    answers (printed type text) = 0 := by
  have hevent : ∀ line, (Output.event type line).isReply = false := by
    intro line
    cases type <;> first | rfl | cases htype
  refine countP_eq_zero.mpr fun o ho => ?_
  unfold printed at ho
  split at ho
  · rw [mem_singleton.mp ho, hevent]
    exact Bool.false_ne_true
  · obtain ⟨line, -, rfl⟩ := mem_map.mp ho
    rw [hevent]
    exact Bool.false_ne_true

theorem silent_fzprintf (htype : answersCommand type = false) (text : List UInt8) :
    Silent (fun _ => True) (fzprintf type text) :=
  silent_emit htype (answers_printed_eq_zero htype text)

variable {stream : World → List α} {drop : World → List α → World}

/-- The next answer of a kind, with what is known of the answers of this kind. -/
theorem silent_take (hdrop : ∀ w b bs, stream w = b :: bs → (drop w bs).Within w)
    (hstream : ∀ w : World, w.Clean → ∀ b ∈ stream w, Q b) : Silent Q (take stream drop) := by
  intro s hs
  unfold take
  cases hnext : stream s.world with
  | nil => exact ⟨rfl, Quiet.of_eq rfl rfl⟩
  | cons b bs =>
    have hclean := hs.world.within (hdrop s.world b bs hnext)
    refine ⟨⟨hs.pwd, hclean⟩, Quiet.of_eq rfl rfl, ?_⟩
    exact hstream s.world hs.world b (by rw [hnext]; exact mem_cons_self)

theorem silent_setError (message : List UInt8) (eof : Bool) : Silent (fun _ => True)
      (modify fun h : Helper => { h with fxpError := message, fxpEof := eof } : HelperM PUnit) :=
  .update fun _ hinv => ⟨⟨hinv.pwd, hinv.world⟩, Quiet.of_eq rfl rfl⟩

section

variable {stream : World → List (FxpReply α)} {drop : World → List (FxpReply α) → World}
  (hdrop : ∀ w b bs, stream w = b :: bs → (drop w bs).Within w)

include hdrop

/-- Waiting for the server, until its reply is there. -/
theorem silent_waitForReply
    (hstream : ∀ w : World, w.Clean → ∀ r ∈ stream w, r.Received ∧ ∀ a, r = .ok a → Q a) :
    Silent (fun r => ∀ a, r = .ok a → Q a) (waitForReply stream drop) := by
  refine .bind (silent_take hdrop hstream) fun r hr => ?_
  cases r with
  | ok a =>
    refine .pure ?_
    rintro _ ⟨⟩
    exact hr.2 a rfl
  | failed message eof => exact .pure nofun
  | lost message => exact absurd hr.1 id

/-- A request and its reply. -/
theorem silent_request
    (hstream : ∀ w : World, w.Clean → ∀ r ∈ stream w, r.Received ∧ ∀ a, r = .ok a → Q a) :
    Silent (fun r => ∀ a ∈ r, Q a) (request stream drop) := by
  refine .bind (silent_waitForReply hdrop hstream) fun r hr => ?_
  cases r with
  | ok a =>
    refine .pure ?_
    intro b hb
    obtain rfl := some.inj hb
    exact hr _ rfl
  | error e => exact .seq (silent_setError e.1 e.2) <| .pure (by simp)

end

/-! ## Requests and names -/

variable {a b : List UInt8}

theorem NoBreaks.append (ha : NoBreaks a) (hb : NoBreaks b) : NoBreaks (a ++ b) :=
  forall_mem_append.mpr ⟨ha, hb⟩

theorem NoBreaks.of_subset (hb : NoBreaks b) (h : ∀ x ∈ a, x ∈ b) :
    NoBreaks a := fun x hx => hb x (h x hx)

theorem NoBreaks.dropLast (ha : NoBreaks a) : NoBreaks a.dropLast :=
  ha.of_subset fun _ hx => mem_of_mem_dropLast hx

theorem noBreaks_slash : NoBreaks slash := by decide

theorem noBreaks_optional (c : Bool) : NoBreaks (if c then [] else slash) := by cases c <;> decide

theorem NoBreaks.cString (ha : NoBreaks a) : NoBreaks (cString a) :=
  ha.of_subset fun _ hx => takeWhile_subset _ hx

theorem silent_fxpRealpath (path : List UInt8) :
    Silent (fun r => ∀ p ∈ r, NoBreaks p) (fxpRealpath path) := by
  have hrequest : Silent (fun r => ∀ p ∈ r, NoBreaks p)
      (request World.realpaths fun w l => { w with realpaths := l }) := by
    refine silent_request (fun w b bs h => by simp [World.Within, h]) fun w hw r hr => ?_
    have hclean := hw.1 r hr
    cases r with
    | ok path =>
      refine ⟨trivial, ?_⟩
      rintro _ ⟨⟩
      exact hclean
    | failed message eof => exact ⟨trivial, nofun⟩
    | lost message => exact absurd hclean id
  refine .bind hrequest fun r hr => .pure ?_
  intro p hp
  obtain ⟨q, hq, rfl⟩ := map_eq_some_iff.mp hp
  exact (hr q hq).cString

theorem silent_fxpErrorText : Silent (fun _ => True) fxpErrorText := .seq .get <| .pure trivial

theorem noBreaks_splitLastSlash {s dir last : List UInt8} (hs : NoBreaks s)
    (h : splitLastSlash s = some (dir, last)) : NoBreaks dir ∧ NoBreaks last := by
  obtain ⟨i, -, hi⟩ := map_eq_some_iff.mp h
  obtain ⟨rfl, rfl⟩ := Prod.mk.inj hi
  exact ⟨hs.of_subset fun _ hx => mem_of_mem_take hx, hs.of_subset fun _ hx => mem_of_mem_drop hx⟩

theorem NoBreaks.withSuffix {path : List UInt8} (hpath : NoBreaks path)
    (hsuffix : ∀ t ∈ suffix, NoBreaks t) : NoBreaks (withSuffix path suffix) := by
  cases suffix with
  | none => exact hpath
  | some t =>
    refine ((?_ : NoBreaks (if endsInSlash path then path.dropLast else path)).append
      noBreaks_slash).append (hsuffix t rfl)
    split
    · exact hpath.dropLast
    · exact hpath

variable {name : List UInt8}

theorem NoBreaks.fullName {pwd : List UInt8} (hpwd : NoBreaks pwd) (hname : NoBreaks name) :
    NoBreaks (fullName pwd name) := by
  unfold Psftp.fullName
  split
  · exact hname
  · exact (hpwd.append (noBreaks_optional _)).append hname

variable {fullname : List UInt8}

/-- The parent is made canonical and the last segment put behind it. -/
theorem silent_canonifyParent (hname : NoBreaks fullname)
    (hsuffix : ∀ t ∈ suffix, NoBreaks t) : Silent NoBreaks (canonifyParent fullname suffix) := by
  unfold canonifyParent
  dsimp only
  have hstripped : NoBreaks (if 2 < fullname.length && endsInSlash fullname then fullname.dropLast
      else fullname) := by
    split
    · exact hname.dropLast
    · exact hname
  split
  · exact .pure (hstripped.withSuffix hsuffix)
  · next dir last hsplit =>
    have hlast := (noBreaks_splitLastSlash hstripped hsplit).2
    refine .ite (.pure (hstripped.withSuffix hsuffix)) ?_
    refine .bind (silent_fxpRealpath _) fun r hr => ?_
    cases r with
    | none => exact .pure (hstripped.withSuffix hsuffix)
    | some canonname =>
      have hfound := ((hr canonname rfl).append (noBreaks_optional (endsInSlash canonname))).append
        hlast
      cases suffix with
      | none => exact .pure hfound
      | some t => exact .pure ((hfound.append (noBreaks_optional _)).append (hsuffix t rfl))

theorem silent_canonifyFull (hname : NoBreaks fullname) (hsuffix : ∀ t ∈ suffix, NoBreaks t) :
    Silent (fun r => ∀ p ∈ r, NoBreaks p) (canonifyFull fullname suffix) := by
  refine .bind (silent_fxpRealpath fullname) fun r hr => ?_
  cases r with
  | none =>
    refine .bind (silent_canonifyParent hname hsuffix) fun path hpath => .pure ?_
    intro p hp
    obtain rfl := some.inj hp
    exact hpath
  | some canonname =>
    refine .pure ?_
    intro p hp
    obtain rfl := some.inj hp
    exact (hr canonname rfl).withSuffix hsuffix

/-- The canonical name of a name without line ends has none either. -/
theorem silent_canonify (hname : NoBreaks name) (parentOnly : Bool) :
    Silent (fun r => ∀ p ∈ r, NoBreaks p) (canonify name parentOnly) := by
  refine .bind .get fun h hinv => ?_
  have hfull := hinv.pwd.fullName hname
  refine .ite ?_ <| silent_canonifyFull hfull (by simp)
  split
  · exact .pure (by simp)
  · next dir suffix hsplit =>
    obtain ⟨hdir, hsuffix⟩ := noBreaks_splitLastSlash hfull hsplit
    refine .ite (.pure ?_) <| silent_canonifyFull hdir ?_
    · intro p hp
      obtain rfl := some.inj hp
      exact hfull
    · intro t ht
      obtain rfl := some.inj ht
      exact hsuffix

/-! ## Failures and transfers -/

theorem silent_fails (text : List UInt8) : Silent (fun _ => True) (fails text) :=
  .seq (silent_fzprintf rfl text) <| .pure trivial

theorem silent_failsWith (text : List UInt8) : Silent (fun _ => True) (failsWith text) :=
  .seq silent_fxpErrorText <| silent_fails _

section

variable (fname outfname : List UInt8)

end

end FlintZilla.Psftp
