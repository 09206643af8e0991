import FlintZilla.Ftp.Session

/-!
# What the logon does

The effects of `CFtpLogonOpData` on the control socket. What it learns about the server touches
neither the operations nor the connection (`Learns`). Behind the negotiation of TLS a logon never
goes back to it, and up to there a reply moves it as the lemmas for the single states say.

Main results:

* `learns_visit`, `learns_advance`: skipping states only adds to what is known of the server.
* `parseState_spec`, `logonParseResponse_spec`: what a reply does to the logon.
* `logonSend_spec`: what the logon sends behind the negotiation.
-/

namespace FlintZilla

open Lib

namespace FtpSession

variable {env : FtpEnv} {s t u : FtpSession}

/-! ## What is known about the server -/

/-- `t` differs from `s` in what is known about the server, and in what was logged, only. -/
def Learns (s t : FtpSession) : Prop :=
  t = { s with
    server := { s.server with type := t.server.type }
    cache := t.cache
    useUTF8 := t.useUTF8
    protectDataChannel := t.protectDataChannel
    errors := t.errors }

theorem Learns.refl (s : FtpSession) : s.Learns s := rfl

theorem Learns.trans (h : s.Learns t) (h' : t.Learns u) : s.Learns u := by
  rw [h] at h'
  exact h'

section

variable (h : s.Learns t)

include h

theorem Learns.operations : t.operations = s.operations := by rw [h]

theorem Learns.layer : t.layer = s.layer := by rw [h]

theorem Learns.repliesToSkip : t.repliesToSkip = s.repliesToSkip := by rw [h]

theorem Learns.pendingReplies : t.pendingReplies = s.pendingReplies := by rw [h]

theorem Learns.sent : t.sent = s.sent := by rw [h]

theorem Learns.receiving : t.receiving = s.receiving := by rw [h]

end

theorem learns_ite {c : Prop} [Decidable c] (ht : s.Learns t) (hu : s.Learns u) :
    s.Learns (if c then t else u) := by
  split
  · exact ht
  · exact hu

variable (s)

theorem learns_logError (message : String) : s.Learns (s.logError message) := rfl

theorem learns_setType (type : ServerType) : s.Learns (s.setType type) := rfl

theorem learns_setCapability (name : CapabilityName) (cap : Capabilities)
    (option : WString) : s.Learns (s.setCapability name cap option) := rfl

theorem learns_setUnlessYes (name : CapabilityName) : s.Learns (s.setUnlessYes name) :=
  learns_ite (learns_setCapability ..) (.refl s)

theorem learns_checkUTF8 : s.Learns s.checkUTF8 := learns_ite rfl (.refl s)

/-- A line that is not UTF-8 turns UTF-8 off. -/
theorem learns_convToLocal (env : FtpEnv) (s : FtpSession) (text : List UInt8) :
    s.Learns (s.convToLocal env text).2 := by
  unfold convToLocal
  generalize (if s.useUTF8 = true then env.fromUtf8 text else []) = utf8
  by_cases hutf8 : utf8 ≠ []
  · rw [if_pos hutf8]
    exact .refl s
  · rw [if_neg hutf8]
    exact learns_ite rfl (.refl s)

theorem learns_typeFromReply (response : WString) : s.Learns (s.typeFromReply response) :=
  learns_ite (learns_setType ..) (learns_ite (learns_setType ..) (.refl s))

theorem learns_typeFromLines (response : WString) : s.Learns (s.typeFromLines response) := by
  unfold typeFromLines
  split
  · exact .refl s
  · exact learns_ite ((learns_setCapability ..).trans (learns_setType ..)) (.refl s)

theorem learns_systType (response : WString) : s.Learns (s.systType response) :=
  learns_ite ((learns_typeFromReply ..).trans (learns_typeFromLines ..)) (.refl s)

theorem learns_cachedType (system : WString) : s.Learns (s.cachedType system) :=
  learns_ite (learns_ite (learns_setType ..) <| learns_ite (learns_setType ..) <|
    learns_ite (learns_setType ..) (.refl s)) (.refl s)

theorem learns_setFacts (facts : WString) : s.Learns (s.setFacts facts) :=
  (learns_setCapability ..).trans (learns_setCapability ..)

/-- A line of the features is entered in the capabilities. -/
theorem learns_parseFeat (line : WString) : s.Learns (s.parseFeat line) := by
  refine learns_ite (learns_setCapability ..) <| learns_ite (learns_setCapability ..) <|
    learns_ite (learns_setFacts ..) <| learns_ite (learns_setFacts ..) ?_
  split
  · exact learns_setCapability ..
  · exact .refl s

/-- The condition of a state is looked at. -/
theorem learns_visit (l : FtpLogon) (state : LogonState) : s.Learns (s.visit l state).2.1 := by
  cases state with
  | syst =>
    simp only [visit]
    split
    · exact .refl s
    · exact learns_cachedType ..
    · exact .refl s
  | feat =>
    simp only [visit]
    split
    · exact .refl s
    · exact learns_checkUTF8 s
  | optsMlst =>
    simp only [visit]
    split
    · exact .refl s
    · split
      · split <;> exact learns_setCapability ..
      · exact .refl s
      · exact .refl s
  | _ => exact .refl s

/-- By induction on the states that are skipped. -/
theorem learns_advance (l : FtpLogon) (states : List LogonState) :
    s.Learns (s.advance l states).2.1 := by
  induction states generalizing s l with
  | nil => exact .refl s
  | cons state rest ih =>
    simp only [advance]
    split
    · exact .refl s
    · split
      · exact ih s _
      · have hvisit := learns_visit s { l with opState := state } state
        split
        · exact hvisit
        · exact hvisit.trans (ih _ _)

/-! ## The state of the logon -/

end FtpSession

/-- The states up to the negotiation of TLS. -/
def LogonState.isEarly : LogonState → Bool
  | .connect | .welcome | .authTls | .authSsl => true
  | _ => false

/-- The states behind a late one are late. -/
theorem LogonState.isEarly_of_mem_following {st st' : LogonState} (h : st.isEarly = false)
    (hmem : st' ∈ st.following) : st'.isEarly = false := by
  have hall : st.isEarly = false → ∀ st' ∈ st.following, st'.isEarly = false := by
    cases st <;> decide
  exact hall h st' hmem

theorem LogonState.connect_notMem_following (st : LogonState) : .connect ∉ st.following := by
  cases st <;> decide

/-- As far as the negotiation is concerned `l'` is a later state of `l`: no challenge was asked for,
and no way to secure the connection was dropped. -/
structure FtpLogon.Advances (l l' : FtpLogon) : Prop where
  waitChallenge : l'.waitChallenge = l.waitChallenge
  authTls : .authTls ∈ l'.skipped → .authTls ∈ l.skipped
  authSsl : .authSsl ∈ l'.skipped → .authSsl ∈ l.skipped

theorem FtpLogon.Advances.refl (l : FtpLogon) : l.Advances l := ⟨rfl, id, id⟩

theorem FtpLogon.Advances.trans {l l' l'' : FtpLogon} (h : l.Advances l') (h' : l'.Advances l'') :
    l.Advances l'' where
  waitChallenge := h'.waitChallenge.trans h.waitChallenge
  authTls := fun hmem => h.authTls (h'.authTls hmem)
  authSsl := fun hmem => h.authSsl (h'.authSsl hmem)

namespace FtpSession

variable (s : FtpSession) (l : FtpLogon)

theorem advances_skipForFileZilla (text : WString) : l.Advances (skipForFileZilla l text) := by
  unfold skipForFileZilla
  split
  · constructor
    · rfl
    · simp [FtpLogon.skip]
    · simp [FtpLogon.skip]
  · exact .refl l

theorem opState_skipForFileZilla (text : WString) :
    (skipForFileZilla l text).opState = l.opState := by
  unfold skipForFileZilla
  split <;> rfl

/-- Looking at a state changes what is known, not where the logon is. -/
theorem visit_logon (state : LogonState) :
    l.Advances (s.visit l state).2.2 ∧ (s.visit l state).2.2.opState = l.opState := by
  cases state with
  | syst =>
    simp only [visit]
    split
    · exact ⟨.refl l, rfl⟩
    · exact ⟨advances_skipForFileZilla .., opState_skipForFileZilla ..⟩
    · exact ⟨.refl l, rfl⟩
  | feat =>
    simp only [visit]
    split <;> exact ⟨.refl l, rfl⟩
  | optsMlst =>
    simp only [visit]
    split
    · exact ⟨.refl l, rfl⟩
    · split
      · split <;> exact ⟨.refl l, rfl⟩
      · exact ⟨.refl l, rfl⟩
      · exact ⟨.refl l, rfl⟩
  | _ => exact ⟨.refl l, rfl⟩

/-- The logon stops at its state or one of those behind it. -/
theorem advance_logon (states : List LogonState) :
    l.Advances (s.advance l states).2.2 ∧
      (s.advance l states).2.2.opState ∈ l.opState :: states := by
  induction states generalizing s l with
  | nil => exact ⟨.refl l, by simp [advance]⟩
  | cons state rest ih =>
    -- the logon as the loop enters `state`
    have hentered : l.Advances { l with opState := state } := ⟨rfl, id, id⟩
    simp only [advance]
    split
    · exact ⟨hentered, by simp⟩
    · split
      · have hrest := ih s { l with opState := state }
        exact ⟨hentered.trans hrest.1, List.mem_cons_of_mem _ hrest.2⟩
      · have hvisit := visit_logon s { l with opState := state } state
        split
        · refine ⟨hentered.trans hvisit.1, ?_⟩
          rw [hvisit.2]
          simp
        · have hrest := ih (s.visit { l with opState := state } state).2.1
            (s.visit { l with opState := state } state).2.2
          rw [hvisit.2] at hrest
          exact ⟨(hentered.trans hvisit.1).trans hrest.1, List.mem_cons_of_mem _ hrest.2⟩

/-- The loop stops at a state that is needed and that no capability can make superfluous. -/
theorem advance_stops {state : LogonState} (rest : List LogonState)
    (hneeded : state ∉ l.skipped) (hauth : state = .authTls ∨ state = .authSsl) :
    s.advance l (state :: rest) = (Reply.continue_, s, { l with opState := state }) := by
  rcases hauth with rfl | rfl <;> simp [advance, visit, hneeded]

/-! ## The operation at the back -/

variable {s : FtpSession} {f : FtpOperation → FtpOperation}

theorem mapTop_nil (h : s.operations = []) : s.mapTop f = s := by
  unfold mapTop
  rw [h]

theorem mapTop_cons {op : FtpOperation} {rest : List FtpOperation} (h : s.operations = op :: rest) :
    s.mapTop f = { s with operations := f op :: rest } := by
  unfold mapTop
  rw [h]

/-- Two changes of the operation on top are one. -/
theorem mapTop_mapTop (s : FtpSession) (f g : FtpOperation → FtpOperation) :
    (s.mapTop f).mapTop g = s.mapTop (g ∘ f) := by
  cases hops : s.operations with
  | nil => rw [mapTop_nil hops, mapTop_nil hops, mapTop_nil hops]
  | cons op rest => rw [mapTop_cons hops, mapTop_cons rfl, mapTop_cons hops, Function.comp_apply]

/-! ## Replies -/

variable {env : FtpEnv} {s t u : FtpSession} {l : FtpLogon} {response : WString} {handshakes : Bool}

/-- A reply lets the session learn something, and may start the handshake. -/
def Hears (s t : FtpSession) : Prop := s.Learns t ∨ { s with layer := .handshake }.Learns t

theorem Hears.learns (h : s.Hears t) (h' : t.Learns u) : s.Hears u := by
  rcases h with h | h
  · exact .inl (h.trans h')
  · exact .inr (h.trans h')

section

variable (s l response handshakes)

theorem learns_logNotLoggedIn (cmd : LoginCommand) : s.Learns (s.logNotLoggedIn cmd) :=
  (learns_logError ..).trans (learns_ite (learns_logError ..) (.refl _))

/-- A reply to a command of the login sequence. -/
theorem parseLogin_spec :
    s.Learns (s.parseLogin l response).2.1 ∧ (s.parseLogin l response).2.2.opState = l.opState := by
  unfold parseLogin
  split
  · exact ⟨.refl s, rfl⟩
  · split
    · split
      · exact ⟨rfl, rfl⟩
      · exact ⟨.refl s, rfl⟩
    · dsimp only
      split
      · exact ⟨learns_logNotLoggedIn .., rfl⟩
      · split <;> exact ⟨.refl s, rfl⟩

theorem learns_parseSyst : s.Learns (s.parseSyst l response).2.1 :=
  (learns_ite (learns_setCapability ..) (learns_setCapability ..)).trans (learns_systType ..)

theorem learns_parseFeatReply : s.Learns (s.parseFeatReply l response).2.1 := by
  have hcaps := learns_ite (c := replyCode response = 2)
    (((learns_setCapability s .featCommand .yes []).trans
      (learns_setUnlessYes _ .utf8Command)).trans
      (learns_setUnlessYes _ .clntCommand)) (learns_setCapability s .featCommand .no [])
  exact (hcaps.trans (learns_setUnlessYes _ .tvfsSupport)).trans (learns_checkUTF8 _)

/-- A reply to `AUTH` starts a handshake, or the logon goes on. -/
theorem parseAuth_spec :
    s.Hears (s.parseAuth l response handshakes).2.1 ∧
      ((s.parseAuth l response handshakes).2.2.opState.isEarly = true →
        (s.parseAuth l response handshakes).2.2 = l) := by
  unfold parseAuth
  dsimp only
  split
  · split
    · split
      · refine ⟨.inl (learns_setCapability ..), ?_⟩
        intro hearly
        cases hearly
      · exact ⟨.inl (learns_setCapability ..), fun _ => rfl⟩
    · exact ⟨.inl (learns_setCapability ..), fun _ => rfl⟩
  · split
    · exact ⟨.inr rfl, fun _ => rfl⟩
    · refine ⟨.inr rfl, ?_⟩
      intro hearly
      cases hearly

/-- Behind the negotiation the state changes in the loop of `ParseResponse` only. -/
theorem parseState_late (hlate : l.opState.isEarly = false) :
    s.Learns (s.parseState l response handshakes).2.1 ∧
      (s.parseState l response handshakes).2.2.opState = l.opState := by
  obtain ⟨state, skipped, sequence, index, challenge, wait, got⟩ := l
  cases state with
  | logon => exact parseLogin_spec ..
  | syst => exact ⟨learns_parseSyst .., opState_skipForFileZilla ..⟩
  | feat => exact ⟨learns_parseFeatReply .., rfl⟩
  | customCommands =>
    simp only [parseState]
    split <;> exact ⟨.refl s, rfl⟩
  | connect | welcome | authTls | authSsl => cases hlate
  | _ => exact ⟨rfl, rfl⟩

/-- A logon that is still early was early before the reply, and what it needs is as it was. -/
theorem parseState_spec :
    s.Hears (s.parseState l response handshakes).2.1 ∧
      ((s.parseState l response handshakes).2.2.opState.isEarly = true →
        (s.parseState l response handshakes).2.2 = l) := by
  cases hearly : l.opState.isEarly with
  | false =>
    have hlate := parseState_late s l response handshakes hearly
    refine ⟨.inl hlate.1, ?_⟩
    intro h
    rw [hlate.2, hearly] at h
    cases h
  | true =>
    obtain ⟨state, skipped, sequence, index, challenge, wait, got⟩ := l
    cases state with
    | connect => exact ⟨.inl (.refl s), fun _ => rfl⟩
    | welcome =>
      simp only [parseState]
      split <;> exact ⟨.inl (.refl s), fun _ => rfl⟩
    | authTls => exact parseAuth_spec ..
    | authSsl => exact parseAuth_spec ..
    | _ => cases hearly

/-- What a reply does to the logon at the back of `operations_`. -/
theorem logonParseResponse_spec :
    ∃ res s' l', s.logonParseResponse l response handshakes = (res, s'.withLogon l') ∧
      s.Hears s' ∧ (l'.opState.isEarly = true → l.opState.isEarly = true ∧ l.Advances l') ∧
      (l'.opState = .connect → l.opState = .connect) := by
  obtain ⟨hhears, hearly⟩ := parseState_spec s l response handshakes
  unfold logonParseResponse
  generalize s.parseState l response handshakes = r at hhears hearly
  obtain ⟨res, s', l'⟩ := r
  cases res with
  | some res =>
    refine ⟨res, s', l', rfl, hhears, ?_, ?_⟩
    · intro h
      have hsame : l' = l := hearly h
      subst hsame
      exact ⟨h, .refl l'⟩
    · intro h
      have hsame : l' = l := hearly (by rw [h]; rfl)
      rwa [← hsame]
  | none =>
    obtain ⟨hadvances, hmem⟩ := advance_logon s' l' l'.opState.following
    refine ⟨_, _, _, rfl, hhears.learns (learns_advance ..), ?_, ?_⟩
    · intro h
      -- the loop leads to early states from early states only
      have hbefore : l'.opState.isEarly = true := by
        by_contra hlate
        rw [Bool.not_eq_true] at hlate
        rcases List.mem_cons.mp hmem with heq | hmem
        · rw [heq, hlate] at h
          cases h
        · rw [LogonState.isEarly_of_mem_following hlate hmem] at h
          cases h
      have hsame : l' = l := hearly hbefore
      subst hsame
      exact ⟨hbefore, hadvances⟩
    · intro h
      rw [h] at hmem
      rcases List.mem_cons.mp hmem with heq | hmem
      · have hsame : l' = l := hearly (by rw [← heq]; rfl)
        rw [← hsame, ← heq]
      · exact absurd hmem (LogonState.connect_notMem_following _)

end

section States

variable {s' s'' : FtpSession} {l' l'' : FtpLogon} {res : Nat}

/-- The state has decided. -/
theorem logonParseResponse_of_some (h : s.parseState l response handshakes = (some res, s', l')) :
    s.logonParseResponse l response handshakes = (res, s'.withLogon l') := by
  unfold logonParseResponse
  rw [h]

/-- The logon goes to the next state that does something. -/
theorem logonParseResponse_of_none (h : s.parseState l response handshakes = (none, s', l'))
    (hadvance : s'.advance l' l'.opState.following = (res, s'', l'')) :
    s.logonParseResponse l response handshakes = (res, s''.withLogon l'') := by
  unfold logonParseResponse
  rw [h]
  dsimp only
  rw [hadvance]

/-- The greeting is followed by `AUTH TLS`. -/
theorem logonParseResponse_welcome (hstate : l.opState = .welcome) (hneeded : .authTls ∉ l.skipped)
    (hpos : positive response) :
    s.logonParseResponse l response handshakes =
      (Reply.continue_, s.withLogon { l with opState := .authTls }) := by
  have hparse : s.parseState l response handshakes = (none, s, l) := by
    simp [parseState, hstate, hpos]
  apply logonParseResponse_of_none hparse
  rw [hstate]
  exact advance_stops s l _ hneeded (.inl rfl)

/-- A server that does not welcome us. -/
theorem logonParseResponse_welcome_negative (hstate : l.opState = .welcome)
    (hneg : positive response = false) :
    s.logonParseResponse l response handshakes = (disconnectedBy response, s.withLogon l) := by
  apply logonParseResponse_of_some
  simp [parseState, hstate, hneg]

/-- The server does not know `AUTH TLS`. -/
theorem logonParseResponse_authTls (hstate : l.opState = .authTls) (hneeded : .authSsl ∉ l.skipped)
    (hneg : positive response = false) :
    s.logonParseResponse l response handshakes =
      (Reply.continue_,
        (s.setCapability (authCommand l) .no []).withLogon { l with opState := .authSsl }) := by
  have hparse : s.parseState l response handshakes =
      (none, s.setCapability (authCommand l) .no [], l) := by
    simp [parseState, parseAuth, hstate, hneg]
  apply logonParseResponse_of_none hparse
  rw [hstate]
  exact advance_stops _ l _ hneeded (.inr rfl)

/-- Nor `AUTH SSL`, and the connection must be secured. -/
theorem logonParseResponse_authSsl (hstate : l.opState = .authSsl)
    (hprotocol : s.server.protocol ≠ .ftp) (hneg : positive response = false) :
    s.logonParseResponse l response handshakes =
      (disconnectedBy response, (s.setCapability (authCommand l) .no []).withLogon l) := by
  apply logonParseResponse_of_some
  simp [parseState, parseAuth, hstate, hneg, setCapability, hprotocol]

section

variable (hstate : l.opState = .authTls ∨ l.opState = .authSsl) (hpos : positive response)

include hstate hpos

/-- The server accepts one of them. -/
theorem logonParseResponse_positive :
    s.logonParseResponse l response true =
      (Reply.wouldBlock, ({ s.setCapability (authCommand l) .yes [] with
        layer := .handshake }).withLogon { l.skip [.authSsl] with opState := .authWait }) := by
  apply logonParseResponse_of_some
  rcases hstate with hstate | hstate <;> simp [parseState, parseAuth, hstate, hpos]

/-- It does, but the handshake does not start. -/
theorem logonParseResponse_positive_fails :
    s.logonParseResponse l response false =
      (Reply.error ||| Reply.disconnected, ({ s.setCapability (authCommand l) .yes [] with
        layer := .handshake }).withLogon l) := by
  apply logonParseResponse_of_some
  rcases hstate with hstate | hstate <;> simp [parseState, parseAuth, hstate, hpos]

end

end States

/-! ## Commands -/

/-- `t` is `s` after some commands were sent, or could not be converted. -/
structure Sends (s t : FtpSession) : Prop where
  eq : t = { s with sent := t.sent, pendingReplies := t.pendingReplies, errors := t.errors }
  sent : ∃ commands : List WString, t.sent = s.sent ++ commands.map fun c => (c, s.layer)

theorem Sends.refl (s : FtpSession) : s.Sends s := ⟨rfl, [], by simp⟩

theorem Sends.trans (h : s.Sends t) (h' : t.Sends u) : s.Sends u := by
  obtain ⟨cs, hcs⟩ := h.sent
  obtain ⟨cs', hcs'⟩ := h'.sent
  have hlayer : t.layer = s.layer := by rw [h.eq]
  constructor
  · have heq := h'.eq
    rw [h.eq] at heq
    exact heq
  · refine ⟨cs ++ cs', ?_⟩
    rw [hcs', hcs, hlayer]
    simp

/-- A command goes out as bytes over the layer that is there. -/
theorem sends_sendCommand (env : FtpEnv) (s : FtpSession) (command : WString) :
    s.Sends (s.sendCommand env command).2 := by
  unfold sendCommand
  split
  · exact ⟨rfl, [], by simp [logError]⟩
  · exact ⟨rfl, [command], rfl⟩

theorem sends_foldl (env : FtpEnv) (s : FtpSession) (commands : List WString) :
    s.Sends (commands.foldl (fun s command => (s.sendCommand env command).2) s) := by
  induction commands generalizing s with
  | nil => exact .refl s
  | cons command rest ih => exact (sends_sendCommand env s command).trans (ih _)

theorem ite_ne_nil {α : Type} [DecidableEq α] (a : List α) {b : List α} (hb : b ≠ []) :
    (if a ≠ [] then a else b) ≠ [] := by
  split
  · assumption
  · exact hb

/-- The commands of the negotiation can be converted. -/
theorem sendCommand_ascii (s : FtpSession) {command : WString} (hne : command ≠ [])
    (hascii : ∀ c ∈ command, c.toNat < 128) :
    s.sendCommand env command =
      (Reply.wouldBlock, { s with
        sent := s.sent ++ [(command, s.layer)], pendingReplies := s.pendingReplies + 1 }) := by
  have hnarrow : env.toNarrow command ≠ [] := by
    rw [env.toNarrow_ascii command hascii]
    simpa using hne
  have hconv : s.convToServer env command ≠ [] := ite_ne_nil _ (ite_ne_nil _ hnarrow)
  unfold sendCommand
  rw [if_neg hconv]

/-- The operation at the back becomes a logon behind the negotiation. -/
def SetsLate (s t : FtpSession) : Prop :=
  ∃ f : FtpOperation → FtpOperation, t = s.mapTop f ∧
    ∀ op, ∃ l, (f op).logon = some l ∧ l.opState.isEarly = false

section

variable (s : FtpSession) (hlate : l.opState.isEarly = false)

include hlate

theorem setsLate_withLogon : s.SetsLate (s.withLogon l) := ⟨_, rfl, fun _ => ⟨l, rfl, hlate⟩⟩

theorem setsLate_asks : s.SetsLate (s.withLogon l).sendAsyncRequest :=
  ⟨_, mapTop_mapTop .., fun _ => ⟨l, rfl, hlate⟩⟩

/-- A command of the login sequence is sent, or the user is asked first. -/
theorem sendLogin_spec : ∃ s', (s' = s ∨ s.SetsLate s') ∧ s'.Sends (s.sendLogin env l).2 := by
  unfold sendLogin
  split
  · exact ⟨s, .inl rfl, .refl s⟩
  · split
    · refine ⟨_, .inr (setsLate_withLogon s ?_), sends_sendCommand ..⟩
      split <;> exact hlate
    · split
      · exact ⟨_, .inr (setsLate_asks (l := { l with challenge := [] }) s hlate), .refl _⟩
      · exact ⟨s, .inl rfl, sends_sendCommand ..⟩
    · exact ⟨s, .inl rfl, sends_sendCommand ..⟩

end

/-- Once the connection is opened `Send` changes a logon behind the negotiation only, and leaves it
there. -/
theorem logonSend_spec (env : FtpEnv) (s : FtpSession) (connects : Bool)
    (hstate : l.opState ≠ .connect) :
    ∃ s', (s' = s ∨ s.SetsLate s') ∧ s'.Sends (s.logonSend env l connects).2 := by
  cases hl : l.opState with
  | connect => exact absurd hl hstate
  | welcome | authWait | done =>
    simp only [logonSend, hl]
    exact ⟨s, .inl rfl, .refl s⟩
  | security =>
    simp only [logonSend, hl]
    split
    · exact ⟨_, .inr (setsLate_withLogon s rfl), .refl _⟩
    · exact ⟨_, .inr (setsLate_asks s rfl), .refl _⟩
  | logon =>
    simp only [logonSend, hl]
    exact sendLogin_spec s (by rw [hl]; rfl)
  | customCommands =>
    simp only [logonSend, hl]
    split
    · exact ⟨s, .inl rfl, .refl s⟩
    · exact ⟨s, .inl rfl, sends_sendCommand ..⟩
  | _ =>
    simp only [logonSend, hl]
    exact ⟨s, .inl rfl, sends_sendCommand ..⟩

end FtpSession

end FlintZilla
