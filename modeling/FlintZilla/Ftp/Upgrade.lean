import FlintZilla.Ftp.LogonSecurity

/-!
# What is left of the plaintext after the upgrade to TLS

`ParseResponse` installs the TLS layer when `AUTH TLS` or `AUTH SSL` is accepted, but `OnReceive`
goes on with the bytes it has already read, and `receiveBuffer_` is not cleared. What followed the
reply in the same read is still parsed: an incomplete line is put in front of the first reply that
comes over TLS.

Plaintext is forgotten if it is inert: complete lines that are dropped as unexpected replies. Until
the handshake is done the TLS layer reads from the connection itself, so nothing can follow later.

Main results:

* `scan_inert`, `run_inert`: inert plaintext is read and forgotten.
* `upgrade_forgets_inert`: then nothing of it is left when the handshake is done.
* `upgrade_keeps_fragment`: an incomplete line is left.
-/

namespace FlintZilla

open Lib Lib.Search FtpSession List

namespace FtpSession

variable {env : FtpEnv} {s u : FtpSession} {op : FtpOperation} {rest : List FtpOperation}
  {l : FtpLogon} {text : WString} {o : FtpChoice}

/-! ## Rounds of `OnReceive` -/

/-- The conversion does not look at the buffer. -/
theorem convToLocal_buffer (s : FtpSession) (buffer bytes : List UInt8) :
    ({ s with receiveBuffer := buffer }).convToLocal env bytes =
      ((s.convToLocal env bytes).1,
        { (s.convToLocal env bytes).2 with receiveBuffer := buffer }) := by
  unfold convToLocal
  generalize (if s.useUTF8 = true then env.fromUtf8 bytes else []) = utf8
  by_cases hutf8 : utf8 ≠ []
  · simp only [if_pos hutf8]
  · simp only [if_neg hutf8]
    split <;> rfl

theorem scan_empty (hlayer : s.layer ≠ .absent) : ({ s with receiveBuffer := [] }).scan env o =
      { s with receiveBuffer := [], receiving := false } := by
  unfold scan
  rw [if_neg hlayer]
  simp [find, maxReceive]

variable {e : UInt8} {p : List UInt8}

/-- An empty line is dropped. -/
theorem scan_lineEnd (hlayer : s.layer ≠ .absent) (he : isLineEnd e) :
    ({ s with receiveBuffer := e :: p }).scan env o = { s with receiveBuffer := p } := by
  have hfind : find isLineEnd (e :: p) = some 0 := find_append_cons (a := []) (b := p) (by simp) he
  unfold scan
  rw [if_neg hlayer]
  simp only [hfind, drop_succ_cons, drop_zero]

/-- A line is converted and parsed. -/
theorem scan_line (env : FtpEnv) {line : List UInt8} (hlayer : s.layer ≠ .absent) (hne : line ≠ [])
    (hline : ∀ b ∈ line, isLineEnd b = false) (he : isLineEnd e) :
    ({ s with receiveBuffer := line ++ e :: p }).scan env o =
      { (s.convToLocal env line).2 with receiveBuffer := p }.parseLine
        (s.convToLocal env line).1 o := by
  have hfind : find isLineEnd (line ++ e :: p) = some line.length := find_append_cons hline he
  obtain ⟨n, hn⟩ : ∃ n, line.length = n + 1 := Nat.exists_eq_succ_of_ne_zero (by simpa using hne)
  have htake : (line ++ e :: p).take (n + 1) = line := by
    rw [← hn]
    simp
  have hdrop : (line ++ e :: p).drop (n + 2) = p := by
    rw [show n + 2 = line.length + 1 by omega]
    simp
  unfold scan
  rw [if_neg hlayer]
  simp only [hfind, hn, htake, convToLocal_buffer, hdrop]

/-! ## The reply to `AUTH` -/

/-- The line ends a reply. -/
def Completes (s : FtpSession) (text : WString) : Prop :=
  3 < text.length ∧
    if s.multilineResponseCode = [] then (text.drop 3).head? ≠ some '-'
    else text.take 4 = s.multilineResponseCode

/-- The control socket after `AUTH` was accepted. -/
def upgraded (s : FtpSession) (op : FtpOperation) (rest : List FtpOperation) (l : FtpLogon) :
    FtpSession :=
  { s with
    cache := s.cache.set s.server (authCommand l) .yes []
    layer := .handshake
    operations :=
      { op with logon := some { l.skip [.authSsl] with opState := .authWait } } :: rest
    pendingReplies := 0
    multilineResponseCode := []
    multilineResponseLines := if s.multilineResponseCode = [] then s.multilineResponseLines else []
    task := .idle }

/-- Replies that accept are final. -/
theorem isFinal_of_positive (h : positive text) : isFinal text = true := by
  cases text with
  | nil => rfl
  | cons c rest =>
    unfold isFinal
    rw [decide_eq_true_eq]
    intro hc
    cases hc
    simp [positive, replyCode] at h

theorem withLogon_task (l : FtpLogon) (task : FtpTask) (hops : s.operations = op :: rest) :
    { s.withLogon l with task := task } =
      { s with operations := { op with logon := some l } :: rest, task := task } := by
  rw [withLogon_cons hops]

/-- A final reply that was waited for is passed to the operation at the back. -/
theorem parseResponse_passes (hfinal : isFinal text) (hpending : s.pendingReplies ≠ 0)
    (hskip : s.repliesToSkip = 0) :
    s.parseResponse text o =
      ({ s with pendingReplies := s.pendingReplies - 1 }).passReply text o := by
  unfold parseResponse
  rw [if_neg fun h => hpending h.2]
  simp only [hfinal, if_true]
  rw [if_neg (not_not.mpr hskip)]

section

variable (hops : s.operations = op :: rest) (hl : op.logon = some l)

include hops hl

/-- The logon takes no notice of lines while it negotiates. -/
theorem watchLine_auth (hstate : l.opState ≠ .feat ∧ l.opState ≠ .welcome)
    (hwait : l.waitChallenge = false) : s.watchLine text = some s := by
  unfold watchLine
  rw [backLogon_cons hops, hl]
  simp [hwait, hstate]

variable (hstate : l.opState = .authTls ∨ l.opState = .authSsl) (hskip : s.repliesToSkip = 0)
  (hpending : s.pendingReplies = 1) (hpos : positive text) (ho : o.handshakes)

include hstate hskip hpending hpos ho

/-- The reply that accepts installs the layer. -/
theorem parseResponse_upgrades : s.parseResponse text o =
      { s.upgraded op rest l with
        multilineResponseCode := s.multilineResponseCode
        multilineResponseLines := s.multilineResponseLines } := by
  have hparse := logonParseResponse_positive (s := { s with pendingReplies := 0 }) hstate hpos
  have hpass := passReply_logon (s := { s with pendingReplies := 0 }) (o := o) hops hl (ho ▸ hparse)
  rw [parseResponse_passes (isFinal_of_positive hpos) (by simp [hpending]) hskip, hpending]
  refine hpass.trans (withLogon_task _ _ ?_)
  exact hops

/-- The line that completes this reply. -/
theorem parseLine_upgrades (hwait : l.waitChallenge = false) (hcompletes : s.Completes text) :
    s.parseLine text o = s.upgraded op rest l := by
  have hwatch : s.watchLine text = some s := by
    refine watchLine_auth hops hl ?_ hwait
    rcases hstate with h | h <;> simp [h]
  unfold parseLine
  rw [hwatch]
  dsimp only
  unfold assemble
  rw [if_neg (by have := hcompletes.1; omega)]
  obtain ⟨-, hend⟩ := hcompletes
  by_cases hcode : s.multilineResponseCode = []
  · rw [if_pos hcode] at hend
    rw [if_neg (not_not.mpr hcode), if_neg hend,
      parseResponse_upgrades hops hl hstate hskip hpending hpos ho]
    simp [upgraded, hcode]
  · rw [if_neg hcode] at hend
    rw [if_pos hcode, if_pos hend]
    rw [parseResponse_upgrades (s := { s with multilineResponseCode := [] }) hops hl hstate hskip
      hpending hpos ho]
    simp [upgraded, hcode]

end

/-! ## Inert plaintext -/

/-- The line changes nothing when no reply is waited for: UTF-8 stays as it is, and the text is no
reply, or neither a preliminary reply nor the first of several lines. -/
def InertLine (env : FtpEnv) (s : FtpSession) (line : List UInt8) : Prop :=
  (s.convToLocal env line).2.useUTF8 = s.useUTF8 ∧
    ((s.convToLocal env line).1.length ≤ 3 ∨
      isFinal (s.convToLocal env line).1 = true ∧
        ((s.convToLocal env line).1.drop 3).head? ≠ some '-')

instance instDecidableInertLine (env : FtpEnv) (s : FtpSession) (line : List UInt8) :
    Decidable (InertLine env s line) :=
  inferInstanceAs (Decidable (_ ∧ _))

/-- Complete lines, all of them inert. -/
def Inert (env : FtpEnv) (s : FtpSession) (p : List UInt8) : Prop :=
  (p = [] ∨ ∃ e, p.getLast? = some e ∧ isLineEnd e = true) ∧
    ∀ line ∈ fields isLineEnd p, InertLine env s line

/-- The TLS layer is there, and no reply is waited for. -/
structure Upgraded (s : FtpSession) : Prop where
  layer : s.layer = .handshake
  task : s.task = .idle
  receiving : s.receiving = true
  pending : s.pendingReplies = 0
  code : s.multilineResponseCode = []
  logon : ∃ op rest l, s.operations = op :: rest ∧ op.logon = some l ∧ l.opState = .authWait ∧
    l.waitChallenge = false

theorem Upgraded.buffer (h : s.Upgraded) (buffer : List UInt8) :
    Upgraded { s with receiveBuffer := buffer } :=
  { h with }

/-- A line that leaves UTF-8 on leaves everything as it is. -/
theorem convToLocal_eq_self {bytes : List UInt8}
    (h : (s.convToLocal env bytes).2.useUTF8 = s.useUTF8) : (s.convToLocal env bytes).2 = s := by
  unfold convToLocal at h ⊢
  generalize (if s.useUTF8 = true then env.fromUtf8 bytes else []) = utf8 at h ⊢
  by_cases hutf8 : utf8 ≠ []
  · rw [if_pos hutf8]
  · rw [if_neg hutf8] at h ⊢
    split
    · rename_i hswitch
      rw [if_pos hswitch, hswitch.1] at h
      cases h
    · rfl

/-- An inert line is dropped. -/
theorem parseLine_inert (h : s.Upgraded)
    (hinert : text.length ≤ 3 ∨ isFinal text = true ∧ (text.drop 3).head? ≠ some '-') :
    s.parseLine text o = s := by
  obtain ⟨op, rest, l, hops, hl, hstate, hwait⟩ := h.logon
  have hwatch : s.watchLine text = some s := watchLine_auth hops hl (by simp [hstate]) hwait
  unfold parseLine
  rw [hwatch]
  dsimp only
  unfold assemble
  split
  · rfl
  · rename_i hlength
    rcases hinert with hshort | ⟨hfinal, hfirst⟩
    · exact absurd hshort hlength
    · rw [if_neg (not_not.mpr h.code), if_neg hfirst]
      unfold parseResponse
      rw [if_pos ⟨hfinal, h.pending⟩]

theorem not_absent (h : s.Upgraded) : s.layer ≠ .absent := by simp [h.layer]

/-- One round over inert plaintext takes a line or a line end out of the buffer. -/
theorem scan_inert (h : u.Upgraded) (hinert : u.Inert env p) (hne : p ≠ []) :
    ∃ p', p'.length < p.length ∧ u.Inert env p' ∧
      ∀ o, ({ u with receiveBuffer := p }).scan env o = { u with receiveBuffer := p' } := by
  obtain ⟨hlast, hlines⟩ := hinert
  obtain ⟨e₀, he₀, hend₀⟩ := hlast.resolve_left hne
  -- cut the plaintext at its first line end
  have hfind : ∃ i, find isLineEnd p = some i := by
    cases hfind : find isLineEnd p with
    | some i => exact ⟨i, rfl⟩
    | none =>
      rw [find_eq_none] at hfind
      rw [hfind e₀ (mem_of_getLast? he₀)] at hend₀
      cases hend₀
  obtain ⟨i, hi⟩ := hfind
  obtain ⟨line, e, p', rfl, -, he, hline⟩ := find_eq_some hi
  have hlast' : p' = [] ∨ ∃ e, p'.getLast? = some e ∧ isLineEnd e = true := by
    cases p' with
    | nil => exact .inl rfl
    | cons b q =>
      rw [append_cons, getLast?_append_of_ne_nil _ (cons_ne_nil b q)] at he₀
      exact .inr ⟨e₀, he₀, hend₀⟩
  have hlength : p'.length < (line ++ e :: p').length := by
    rw [length_append, length_cons]
    omega
  by_cases hne' : line = []
  · subst hne'
    refine ⟨p', hlength, ⟨hlast', ?_⟩, ?_⟩
    · rw [nil_append, fields_cons_of_pos he] at hlines
      exact hlines
    · intro o
      exact scan_lineEnd (not_absent h) he
  · rw [fields_run_cons hne' hline he] at hlines
    obtain ⟨hutf8, hdropped⟩ := hlines line (by simp)
    refine ⟨p', hlength, ⟨hlast', fun x hx => hlines x (by simp [hx])⟩, ?_⟩
    intro o
    rw [scan_line env (not_absent h) hne' hline he, convToLocal_eq_self hutf8]
    exact parseLine_inert (h.buffer p') hdropped

/-! ## Two runs -/

/-- No call is in progress. -/
def Settled (s : FtpSession) : Prop := s.task = .idle ∧ s.receiving = false

theorem call_scan (env : FtpEnv) (htask : s.task = .idle) (hreceiving : s.receiving)
    (o : FtpChoice) : s.call env o = some (s.scan env o) := by
  unfold call
  rw [htask]
  simp [hreceiving]

/-- However the calls go, inert plaintext leaves nothing behind; by induction on its length. -/
theorem run_inert (h : u.Upgraded) (p : List UInt8) (hinert : u.Inert env p) :
    (∀ (calls : List FtpChoice) t,
        (ftpSessionSystem env).Run { u with receiveBuffer := p } (calls.map .call) t → t.Settled →
          t = { u with receiveBuffer := [], receiving := false }) ∧
      ∃ calls : List FtpChoice, (ftpSessionSystem env).Run { u with receiveBuffer := p }
        (calls.map .call) { u with receiveBuffer := [], receiving := false } := by
  induction hn : p.length using Nat.strong_induction_on generalizing p with
  | _ n ih =>
    have hcall : ∀ o, ({ u with receiveBuffer := p }).step env (.call o) =
        some (({ u with receiveBuffer := p }).scan env o) := fun o =>
      call_scan env (s := { u with receiveBuffer := p }) h.task h.receiving o
    -- an unsettled state is not the last one
    have hfirst : ∀ {calls : List FtpChoice} {t},
        (ftpSessionSystem env).Run { u with receiveBuffer := p } (calls.map .call) t → t.Settled →
          ∃ o calls', (ftpSessionSystem env).Run (({ u with receiveBuffer := p }).scan env o)
            (map .call calls') t := by
      intro calls t hrun hsettled
      cases calls with
      | nil =>
        cases hrun
        have hreceiving : u.receiving = false := hsettled.2
        rw [h.receiving] at hreceiving
        cases hreceiving
      | cons o calls' =>
        cases hrun with
        | cons hstep hrest =>
          have heq : ({ u with receiveBuffer := p }).step env (.call o) = some _ := hstep
          rw [hcall o] at heq
          cases heq
          exact ⟨o, calls', hrest⟩
    by_cases hp : p = []
    · subst hp
      have hscan : ∀ o, ({ u with receiveBuffer := [] }).scan env o =
          { u with receiveBuffer := [], receiving := false } := fun o => scan_empty (not_absent h)
      constructor
      · intro calls t hrun hsettled
        obtain ⟨o, calls', hrest⟩ := hfirst hrun hsettled
        rw [hscan o] at hrest
        cases calls' with
        | nil =>
          cases hrest
          rfl
        | cons o' calls'' =>
          cases hrest with
          | cons hstep _ =>
            -- nothing is in progress any more
            have hnone : call env { u with receiveBuffer := [], receiving := false } o' = some _ :=
              hstep
            unfold call at hnone
            simp [h.task] at hnone
      · refine ⟨[{}], Lts.Run.cons ?_ (Lts.Run.nil _)⟩
        show step env _ _ = some _
        rw [hcall, hscan]
    · obtain ⟨p', hlt, hinert', hscan⟩ := scan_inert h hinert hp
      obtain ⟨hall, calls, hrun⟩ := ih p'.length (by omega) p' hinert' rfl
      constructor
      · intro calls' t hrun' hsettled
        obtain ⟨o, calls'', hrest⟩ := hfirst hrun' hsettled
        rw [hscan o] at hrest
        exact hall calls'' t hrest hsettled
      · refine ⟨{} :: calls, Lts.Run.cons ?_ hrun⟩
        show step env _ _ = some _
        rw [hcall, hscan]

/-- `OnReceive` has come to the line that ends a positive reply to `AUTH TLS` or `AUTH SSL`, and no
other reply is waited for. -/
structure AtAuthReply (env : FtpEnv) (s : FtpSession) (line : List UInt8) : Prop where
  layer : s.layer = .plain
  task : s.task = .idle
  receiving : s.receiving = true
  logon : ∃ l, s.backLogon = some l ∧ (l.opState = .authTls ∨ l.opState = .authSsl)
  pending : s.pendingReplies = 1
  notEmpty : line ≠ []
  isLine : ∀ b ∈ line, isLineEnd b = false
  completes : s.Completes (s.convToLocal env line).1
  positive : FtpSession.positive (s.convToLocal env line).1 = true

variable {v : FtpSession}

/-- The conversion depends on the server and on UTF-8 only. -/
theorem convToLocal_congr (env : FtpEnv) (hserver : u.server = v.server)
    (hutf8 : u.useUTF8 = v.useUTF8) (bytes : List UInt8) :
    (u.convToLocal env bytes).1 = (v.convToLocal env bytes).1 ∧
      (u.convToLocal env bytes).2.useUTF8 = (v.convToLocal env bytes).2.useUTF8 := by
  unfold convToLocal
  rw [hserver, hutf8]
  generalize (if v.useUTF8 = true then env.fromUtf8 bytes else []) = utf8
  by_cases hne : utf8 ≠ []
  · simp only [if_pos hne]
    exact ⟨trivial, hutf8⟩
  · simp only [if_neg hne]
    split
    · simp only [and_self]
    · simp only [hserver, hutf8, and_self]

/-- So does what is inert. -/
theorem Inert.congr (h : v.Inert env p)
    (hserver : u.server = v.server) (hutf8 : u.useUTF8 = v.useUTF8) : u.Inert env p := by
  refine ⟨h.1, ?_⟩
  intro line hline
  obtain ⟨htext, hswitch⟩ := convToLocal_congr env hserver hutf8 line
  have hinert := h.2 line hline
  unfold InertLine at hinert ⊢
  rw [htext, hswitch, hutf8]
  exact hinert

end FtpSession

/-- If only the reply to `AUTH TLS` or `AUTH SSL` is outstanding when it arrives, the connection is
in one and the same state before the handshake, whatever inert plaintext followed the reply in the
same read, and the state is reached; so all that happens later is the same. -/
theorem upgrade_forgets_inert (env : FtpEnv) (s : FtpSession) (line : List UInt8) (e : UInt8)
    (o : FtpChoice) (h : (ftpSessionSystem env).Reach s) (hat : s.AtAuthReply env line)
    (he : FtpSession.isLineEnd e = true) (ho : o.handshakes = true) :
    ∃ t : FtpSession, t.layer = .handshake ∧ t.Settled ∧
      ∀ p, (s.convToLocal env line).2.Inert env p →
        (∀ (calls : List FtpChoice) t',
          (ftpSessionSystem env).Run { s with receiveBuffer := line ++ e :: p }
            ((o :: calls).map .call) t' → t'.Settled → t' = t) ∧
        ∃ calls : List FtpChoice,
          (ftpSessionSystem env).Run { s with receiveBuffer := line ++ e :: p }
            ((o :: calls).map .call) t := by
  have hw := wellFormed_of_reach h
  obtain ⟨l, hback, hstate⟩ := hat.logon
  obtain ⟨op, rest, hops, hl⟩ := backLogon_eq_some hback
  have hsound := hw.sound hops hl
  have hwait : l.waitChallenge = false :=
    hsound.waitChallenge (by rcases hstate with h | h <;> rw [h] <;> rfl)
  have hskip : s.repliesToSkip = 0 := hsound.skips (by rcases hstate with h | h <;> simp [h])
  have hlearns := learns_convToLocal env s line
  have hconverted := hat.completes
  have hpos := hat.positive
  generalize hr : s.convToLocal env line = r at hlearns hconverted hpos
  -- the state that the reply leads to, for an empty buffer
  obtain ⟨u, hu⟩ : ∃ u, u = r.2.upgraded op rest l := ⟨_, rfl⟩
  have hcode : r.2.multilineResponseCode = s.multilineResponseCode := by rw [hlearns]
  have hparse : ∀ p, ({ s with receiveBuffer := line ++ e :: p }).step env (.call o) =
      some { u with receiveBuffer := p } := by
    intro p
    have hscan := scan_line env (s := s) (o := o) (p := p)
      (by simp [hat.layer]) hat.notEmpty hat.isLine he
    rw [hr] at hscan
    have hline := parseLine_upgrades (s := { r.2 with receiveBuffer := p }) (o := o)
      (hlearns.operations.trans hops) hl hstate (hlearns.repliesToSkip.trans hskip)
      (hlearns.pendingReplies.trans hat.pending) hpos ho hwait
      (by unfold Completes at hconverted ⊢; rw [hcode]; exact hconverted)
    have hcall := call_scan env
      (s := { s with receiveBuffer := line ++ e :: p }) hat.task hat.receiving o
    rw [hscan, hline] at hcall
    rw [hu]
    exact hcall
  have hupgraded : u.Upgraded := by
    rw [hu]
    exact ⟨rfl, rfl, hlearns.receiving.trans hat.receiving, rfl, rfl, _, rest, _, rfl, rfl, rfl,
      hwait⟩
  refine ⟨{ u with receiveBuffer := [], receiving := false }, hupgraded.layer,
    ⟨hupgraded.task, rfl⟩, ?_⟩
  intro p hinert
  have hinert' : u.Inert env p := by
    rw [hu]
    exact hinert.congr rfl rfl
  obtain ⟨hall, calls, hrun⟩ := run_inert hupgraded p hinert'
  constructor
  · intro calls' t' hrun' hsettled
    cases hrun' with
    | cons hstep hrest =>
      have heq : ({ s with receiveBuffer := line ++ e :: p }).step env (.call o) = some _ := hstep
      rw [hparse p] at heq
      cases heq
      exact hall calls' t' hrest hsettled
  · exact ⟨calls, Lts.Run.cons (hparse p) hrun⟩

/-- A reply that nobody waits for follows the reply to `AUTH TLS`. -/
theorem upgrade_forgets_unexpected_reply :
    ∃ s t : FtpSession, (ftpSessionSystem .ascii).Reach s ∧
      s.receiveBuffer = ascii "234 ok\r\n226 x\r\n" ∧ s.AtAuthReply .ascii (ascii "234 ok") ∧
      s.Inert .ascii (ascii "\n226 x\r\n") ∧ t.layer = .handshake ∧ t.Settled ∧
      ∃ calls : List FtpChoice, (ftpSessionSystem .ascii).Run s (calls.map .call) t := by
  obtain ⟨s, hrun, hbuffer, hat, hsame, hinert⟩ : ∃ s : FtpSession,
      (ftpSessionSystem .ascii).Run (.toUnknownServer .ftpes)
        (untilAuthTls ++ [.receive (ascii "234 ok\r\n226 x\r\n")]) s ∧
      s.receiveBuffer = ascii "234 ok\r\n226 x\r\n" ∧ s.AtAuthReply .ascii (ascii "234 ok") ∧
      (s.convToLocal .ascii (ascii "234 ok")).2 = s ∧ s.Inert .ascii (ascii "\n226 x\r\n") :=
    ⟨_, Lts.run_ofFun rfl, rfl, ⟨rfl, rfl, rfl, ⟨_, rfl, .inl rfl⟩, rfl, by decide, by decide,
      ⟨by decide, by decide⟩, rfl⟩, rfl, ⟨.inr ⟨10, rfl, rfl⟩, by decide⟩⟩
  have hinit : (ftpSessionSystem .ascii).Reach (.toUnknownServer .ftpes) :=
    Lts.Reach.init ⟨_, _, _, rfl⟩
  have hreach := hinit.run hrun
  obtain ⟨t, hlayer, hsettled, hforgets⟩ := upgrade_forgets_inert .ascii s (ascii "234 ok") 13 {}
    hreach hat rfl rfl
  obtain ⟨_, calls, hcalls⟩ := hforgets (ascii "\n226 x\r\n") (by rw [hsame]; exact hinert)
  have hs : { s with receiveBuffer := ascii "234 ok" ++ 13 :: ascii "\n226 x\r\n" } = s :=
    congrArg (fun buffer => { s with receiveBuffer := buffer }) hbuffer.symm
  rw [hs] at hcalls
  exact ⟨s, t, hreach, hbuffer, hat, hinert, hlayer, hsettled, {} :: calls, hcalls⟩

/-- The events after the reply to `AUTH TLS`: the handshake, and the reply to `USER` over TLS. -/
def afterAuthReply : List FtpSessionEvent :=
  [.call {}, .call {}, .call {}, .onVerifyCert, .asyncReply (.certificate true), .onConnect true,
    .call {}, .call {}, .receive (ascii "331 pw?\r\n"), .call {}, .call {}, .call {}, .call {}]

/-- One byte behind the reply to `AUTH TLS` is read as the first digit of the reply to `USER`, and
the password is not sent. -/
theorem upgrade_keeps_fragment :
    ∃ s t : FtpSession, (ftpSessionSystem .ascii).Run (.toUnknownServer .ftpes)
        (untilAuthTls ++ .receive (ascii "234 ok\r\n") :: afterAuthReply) s ∧
      (ftpSessionSystem .ascii).Run (.toUnknownServer .ftpes)
        (untilAuthTls ++ .receive (ascii "234 ok\r\n5") :: afterAuthReply) t ∧
      s.sent = [("AUTH TLS".toList, .plain), ("USER bob".toList, .tls), ("PASS pw".toList, .tls)] ∧
      t.sent = [("AUTH TLS".toList, .plain), ("USER bob".toList, .tls)] ∧
      s.layer = .tls ∧ t.layer = .absent :=
  ⟨_, _, Lts.run_ofFun rfl, Lts.run_ofFun rfl, rfl, rfl, rfl, rfl⟩

end FlintZilla
