import FlintZilla.Ascii
import FlintZilla.Lib.Lts

/-!
# The certificate store

`cert_store` knows certificates that the user trusts and hosts that the user lets be insecure, each
for the session and for good. A host is not to be in both: a call takes it out of the other table of
the session, and a permanent one out of the other permanent table too. A call for the session leaves
the permanent records alone, so it must not be made for a host with a permanent record of the other
kind. Nor is a record ever replaced, neither that of a certificate nor whether a server supports the
resumption of TLS sessions: what the user says later is lost if the earlier record is in the way.

Main results:

* `certStore_exclusive`: no host is both trusted and insecure, if no call for the session
  contradicts a permanent record.
* `setTrusted_trusts`: when a certificate is trusted after `SetTrusted`, whatever is called later.
* `resumption_lastSet`: when the answer on resumption is what was set last.
-/

namespace FlintZilla

open Lib

/-- `cert_store::t_certData`; the certificate is for a host and a port. -/
structure TrustedCert where
  host : List UInt8 × Nat
  trustSans : Bool
  data : List UInt8
deriving DecidableEq

/-- `cert_store::data`. -/
structure CertData where
  trustedCerts : List TrustedCert := []
  insecureHosts : List (List UInt8 × Nat) := []
deriving DecidableEq

/-- `cert_store::data_`. -/
structure CertStore where
  session : CertData := {}
  persistent : CertData := {}
deriving DecidableEq

inductive CertCall where
  | setTrusted (cert : TrustedCert) (permanent : Bool)
  | setInsecure (host : List UInt8 × Nat) (permanent : Bool)
deriving DecidableEq

namespace CertData

/-- `DoIsTrusted` without other host names. -/
def isTrusted (d : CertData) (cert : TrustedCert) : Bool :=
  !cert.data.isEmpty && d.trustedCerts.any fun c => c.data == cert.data && c.host == cert.host

/-- No certificate of the host is trusted any longer. -/
def distrust (d : CertData) (host : List UInt8 × Nat) : CertData :=
  { d with trustedCerts := d.trustedCerts.filter (·.host ≠ host) }

/-- The host is not insecure any longer. -/
def secure (d : CertData) (host : List UInt8 × Nat) : CertData :=
  { d with insecureHosts := d.insecureHosts.filter (· ≠ host) }

def addTrusted (d : CertData) (cert : TrustedCert) : CertData :=
  { d with trustedCerts := d.trustedCerts ++ [cert] }

def addInsecure (d : CertData) (host : List UInt8 × Nat) : CertData :=
  { d with insecureHosts := d.insecureHosts.insert host }

end CertData

namespace CertStore

/-- `cert_store::SetInsecure`. -/
def setInsecure (s : CertStore) (host : List UInt8 × Nat) (permanent : Bool) : CertStore :=
  let s := { s with session := s.session.distrust host }
  if !permanent then { s with session := s.session.addInsecure host }
  else if host ∈ s.persistent.insecureHosts then s
  else { s with persistent := (s.persistent.distrust host).addInsecure host }

/-- `cert_store::SetTrusted`. -/
def setTrusted (s : CertStore) (cert : TrustedCert) (permanent : Bool) : CertStore :=
  let s := { s with session := s.session.secure cert.host }
  if !permanent then { s with session := s.session.addTrusted cert }
  else if s.persistent.isTrusted cert then s
  else { s with persistent := (s.persistent.secure cert.host).addTrusted cert }

def call (s : CertStore) : CertCall → CertStore
  | .setTrusted cert permanent => s.setTrusted cert permanent
  | .setInsecure host permanent => s.setInsecure host permanent

/-- A certificate of the host is trusted, for the session or for good. -/
def Trusts (s : CertStore) (host : List UInt8 × Nat) : Prop :=
  ∃ cert, (cert ∈ s.session.trustedCerts ∨ cert ∈ s.persistent.trustedCerts) ∧ cert.host = host

/-- The host may be insecure, for the session or for good. -/
def Insecure (s : CertStore) (host : List UInt8 × Nat) : Prop :=
  host ∈ s.session.insecureHosts ∨ host ∈ s.persistent.insecureHosts

/-- A call for the session is not made for a host with a permanent record of the other kind. -/
def KeepsApart (s : CertStore) : CertCall → Prop
  | .setTrusted cert permanent => permanent = true ∨ cert.host ∉ s.persistent.insecureHosts
  | .setInsecure host permanent =>
    permanent = true ∨ ∀ cert ∈ s.persistent.trustedCerts, cert.host ≠ host

instance (s : CertStore) (c : CertCall) : Decidable (s.KeepsApart c) := by
  cases c <;> exact instDecidableOr

variable {s : CertStore} {host : List UInt8 × Nat}

/-- No host is trusted and insecure. -/
def Exclusive (s : CertStore) : Prop := ∀ host, s.Trusts host → ¬s.Insecure host

/-- The host is taken out of the tables of trusted certificates. -/
theorem Exclusive.setInsecure (h : s.Exclusive) (permanent : Bool)
    (hapart : s.KeepsApart (.setInsecure host permanent)) :
    (s.setInsecure host permanent).Exclusive := by
  rintro other ⟨cert, hcert, rfl⟩ hinsecure
  have hbefore := h cert.host
  -- what is trusted was trusted before and is not of this host
  have htrusted : s.Trusts cert.host ∧ cert.host ≠ host := by
    unfold CertStore.setInsecure at hcert
    dsimp only at hcert
    split_ifs at hcert with hsession hknown <;>
      simp only [CertData.distrust, CertData.addInsecure, List.mem_filter, decide_eq_true_eq]
        at hcert
    · rcases hcert with hcert | hcert
      · exact ⟨⟨cert, .inl hcert.1, rfl⟩, hcert.2⟩
      · refine ⟨⟨cert, .inr hcert, rfl⟩, hapart.resolve_left ?_ cert hcert⟩
        simpa using hsession
    · rcases hcert with hcert | hcert
      · exact ⟨⟨cert, .inl hcert.1, rfl⟩, hcert.2⟩
      · refine ⟨⟨cert, .inr hcert, rfl⟩, fun heq => ?_⟩
        exact hbefore ⟨cert, .inr hcert, rfl⟩ (.inr (heq ▸ hknown))
    · exact ⟨⟨cert, hcert.imp And.left And.left, rfl⟩, hcert.elim And.right And.right⟩
  refine hbefore htrusted.1 ?_
  -- and nothing but this host has become insecure
  unfold CertStore.setInsecure at hinsecure
  dsimp only at hinsecure
  split_ifs at hinsecure <;>
    simpa [Insecure, CertData.distrust, CertData.addInsecure, htrusted.2] using hinsecure

/-- The host is taken out of the tables of insecure hosts. -/
theorem Exclusive.setTrusted {cert : TrustedCert} (h : s.Exclusive) (permanent : Bool)
    (hapart : s.KeepsApart (.setTrusted cert permanent)) :
    (s.setTrusted cert permanent).Exclusive := by
  rintro other htrusts hinsecure
  have hinsecure' : s.Insecure other ∧ other ≠ cert.host := by
    unfold CertStore.setTrusted at hinsecure
    dsimp only at hinsecure
    split_ifs at hinsecure with hsession hknown <;>
      simp only [Insecure, CertData.secure, CertData.addTrusted, List.mem_filter,
        decide_eq_true_eq] at hinsecure
    · rcases hinsecure with hinsecure | hinsecure
      · exact ⟨.inl hinsecure.1, hinsecure.2⟩
      · refine ⟨.inr hinsecure, ?_⟩
        rintro rfl
        exact hapart.resolve_left (by simpa using hsession) hinsecure
    · rcases hinsecure with hinsecure | hinsecure
      · exact ⟨.inl hinsecure.1, hinsecure.2⟩
      · refine ⟨.inr hinsecure, ?_⟩
        rintro rfl
        -- the certificate is known, so its host is not insecure
        simp only [CertData.isTrusted, Bool.and_eq_true, List.any_eq_true, beq_iff_eq] at hknown
        obtain ⟨-, known, hmem, -, hhost⟩ := hknown
        exact h cert.host ⟨known, .inr hmem, hhost⟩ (.inr hinsecure)
    · exact ⟨hinsecure.imp And.left And.left, hinsecure.elim And.right And.right⟩
  refine h other ?_ hinsecure'.1
  obtain ⟨c, hc, rfl⟩ := htrusts
  have hne : c ≠ cert := fun heq => hinsecure'.2 (heq ▸ rfl)
  refine ⟨c, ?_, rfl⟩
  unfold CertStore.setTrusted at hc
  dsimp only at hc
  split_ifs at hc <;> simpa [CertData.secure, CertData.addTrusted, hne] using hc

end CertStore

/-- The calls on a store that is empty at first. -/
def certStoreSystem : Lts CertStore CertCall := Lts.ofFun (· = {}) fun s c => some (s.call c)

/-- No host is at the same time trusted and insecure, in every run in which the calls for the
session keep the permanent records apart. -/
theorem certStore_exclusive {s : CertStore}
    (h : (certStoreSystem.restrict CertStore.KeepsApart).Reach s) (host : List UInt8 × Nat) :
    ¬(s.Trusts host ∧ s.Insecure host) := by
  have hinv : s.Exclusive := by
    refine h.invariant CertStore.Exclusive ?_ ?_
    · rintro s rfl host ⟨cert, hcert, -⟩
      simp at hcert
    · rintro s c t ⟨hstep, hapart⟩ hs
      obtain rfl := Option.some.inj hstep
      cases c with
      | setTrusted cert permanent => exact hs.setTrusted permanent hapart
      | setInsecure host permanent => exact hs.setInsecure permanent hapart
  rintro ⟨htrusts, hinsecure⟩
  exact hinv host htrusts hinsecure

/-- A certificate for a host. -/
def hostCert : TrustedCert := ⟨([104], 21), false, [1]⟩

theorem certStore_exclusive_replaced :
    ∃ s, (certStoreSystem.restrict CertStore.KeepsApart).Reach s ∧
      s = ⟨⟨[], []⟩, ⟨[], [hostCert.host]⟩⟩ ∧
        ¬(s.Trusts hostCert.host ∧ s.Insecure hostCert.host) := by
  have hreach : (certStoreSystem.restrict CertStore.KeepsApart).Reach _ :=
    Lts.reach_restrict_ofFun [.setTrusted hostCert true, .setInsecure hostCert.host true] rfl rfl
  exact ⟨_, hreach, rfl, certStore_exclusive hreach hostCert.host⟩

/-- A certificate that is trusted for good stays trusted when its host is made insecure for the
session. -/
theorem certStore_both :
    let s := [.setTrusted hostCert true, .setInsecure hostCert.host false].foldl CertStore.call {}
    s.Trusts hostCert.host ∧ s.Insecure hostCert.host :=
  ⟨⟨hostCert, .inr (by decide), rfl⟩, .inl (by decide)⟩

/-! ## Trust -/

section Trust

variable (dnsname : List UInt8 → Bool)

/-- `DoIsTrusted`; `dnsname` says of a host that it is not an address. -/
def CertData.doIsTrusted (d : CertData) (host : List UInt8 × Nat) (data : List UInt8)
    (allowSans : Bool) : Bool :=
  !data.isEmpty && d.trustedCerts.any fun c => host.2 == c.host.2 && c.data == data &&
    (host == c.host || dnsname host.1 && allowSans && c.trustSans)

/-- `cert_store::IsTrusted` for a host and a port. -/
def CertStore.isTrusted (s : CertStore) (host : List UInt8 × Nat) (data : List UInt8)
    (permanentOnly allowSans : Bool) : Bool :=
  s.persistent.doIsTrusted dnsname host data allowSans ||
    !permanentOnly && s.session.doIsTrusted dnsname host data allowSans

/-- A record that is good for everything the certificate is to be trusted for. -/
def CertData.Holds (d : CertData) (cert : TrustedCert) : Prop :=
  ∃ c ∈ d.trustedCerts, c.host = cert.host ∧ c.data = cert.data ∧
    (cert.trustSans = true → c.trustSans = true)

/-- The data that a call with that permanence is about. -/
def CertStore.data (s : CertStore) (permanent : Bool) : CertData :=
  if permanent then s.persistent else s.session

variable {dnsname} {s : CertStore} {cert : TrustedCert} {permanent : Bool}

/-- Unless a record for less stands in the way, there is one now. -/
theorem CertStore.holds_setTrusted (hsans : permanent = true →
      s.persistent.isTrusted cert = true → s.persistent.Holds cert) :
    ((s.setTrusted cert permanent).data permanent).Holds cert := by
  have hadd : ∀ d : CertData, (d.addTrusted cert).Holds cert :=
    fun d => ⟨cert, List.mem_append_right _ (List.mem_singleton_self _), rfl, rfl, id⟩
  cases permanent with
  | false => exact hadd _
  | true =>
    unfold setTrusted data
    dsimp only
    rw [if_pos rfl, if_neg (by decide)]
    split_ifs with hknown
    · exact hsans rfl hknown
    · exact hadd _

/-- A record goes only when its host is made insecure. -/
theorem CertStore.holds_call (h : (s.data permanent).Holds cert) {c : CertCall}
    (hc : ∀ permanent, c ≠ .setInsecure cert.host permanent) :
    ((s.call c).data permanent).Holds cert := by
  obtain ⟨record, hmem, hhost, hrest⟩ := h
  refine ⟨record, ?_, hhost, hrest⟩
  cases c with
  | setTrusted other permanent' =>
    unfold call setTrusted
    dsimp only
    cases permanent <;> split_ifs <;> simp_all [data, CertData.secure, CertData.addTrusted]
  | setInsecure host permanent' =>
    have hne : record.host ≠ host := by
      rintro rfl
      exact hc permanent' (by rw [hhost])
    unfold call setInsecure
    dsimp only
    cases permanent <;> split_ifs <;> simp_all [data, CertData.distrust, CertData.addInsecure]

/-- By induction on the calls. -/
theorem CertStore.holds_foldl {calls : List CertCall} (h : (s.data permanent).Holds cert)
    (hcalls : ∀ permanent, .setInsecure cert.host permanent ∉ calls) :
    ((calls.foldl CertStore.call s).data permanent).Holds cert := by
  induction calls generalizing s with
  | nil => exact h
  | cons c calls ih =>
    simp only [List.mem_cons, not_or] at hcalls
    exact ih (holds_call h fun p heq => (hcalls p).1 heq.symm) fun p => (hcalls p).2

/-- A record that is good for what is asked for makes the certificate trusted. -/
theorem CertStore.isTrusted_of_holds (hdata : cert.data ≠ []) (h : (s.data permanent).Holds cert)
    {host : List UInt8 × Nat} {allowSans : Bool}
    (hhost : host = cert.host ∨ cert.trustSans = true ∧ host.2 = cert.host.2 ∧
      dnsname host.1 = true ∧ allowSans = true) :
    s.isTrusted dnsname host cert.data permanent allowSans = true := by
  obtain ⟨c, hmem, hc, hdata', hsans'⟩ := h
  have htrusted : (s.data permanent).doIsTrusted dnsname host cert.data allowSans = true := by
    simp only [CertData.doIsTrusted, Bool.and_eq_true, List.any_eq_true]
    refine ⟨by simpa using hdata, c, hmem, ?_⟩
    rcases hhost with rfl | ⟨htrust, hport, hdns, hallow⟩
    · simp [hc, hdata']
    · simp [hc, hdata', hport, hdns, hallow, hsans' htrust]
  unfold CertStore.isTrusted
  cases permanent with
  | false => exact Bool.or_eq_true_iff.mpr (.inr htrusted)
  | true => exact Bool.or_eq_true_iff.mpr (.inl htrusted)

/-- Two calls take all permanent records of a host away: it is trusted with a certificate that is
not known yet, so that it is not insecure when it is made so. -/
theorem CertStore.forget_host (s : CertStore) (host : List UInt8 × Nat) :
    ∃ calls : List CertCall,
      (∀ other permanent, .setInsecure other permanent ∈ calls → other = host) ∧
      ∀ c ∈ (calls.foldl CertStore.call s).persistent.trustedCerts,
        c ∈ s.persistent.trustedCerts ∧ c.host ≠ host := by
  let fresh : TrustedCert := ⟨host, false, 0 :: s.persistent.trustedCerts.flatMap (·.data)⟩
  have hfresh : s.persistent.isTrusted fresh = false := by
    simp only [CertData.isTrusted, Bool.and_eq_false_iff, List.any_eq_false]
    refine .inr fun c hc hsame => ?_
    have hdata : c.data = fresh.data := beq_iff_eq.mp (Bool.and_eq_true_iff.mp hsame).1
    have hlength := (List.sublist_flatten_of_mem (List.mem_map_of_mem (f := (·.data)) hc)).length_le
    rw [hdata, ← List.flatMap_def, List.length_cons] at hlength
    omega
  refine ⟨[.setTrusted fresh true, .setInsecure host true], by simp, ?_⟩
  intro c hc
  simp only [List.foldl_cons, List.foldl_nil, call, setTrusted, setInsecure, Bool.not_true,
    Bool.false_eq_true, if_false, hfresh] at hc
  have hsecure : host ∉ ((s.persistent.secure host).addTrusted fresh).insecureHosts := by
    simp [CertData.secure, CertData.addTrusted]
  rw [if_neg hsecure] at hc
  simp only [CertData.addInsecure, CertData.distrust, CertData.addTrusted, CertData.secure,
    List.mem_filter, List.mem_append, List.mem_singleton, decide_eq_true_eq] at hc
  refine ⟨hc.1.resolve_right ?_, hc.2⟩
  rintro rfl
  exact hc.2 rfl

/-- Calls that make hosts insecure empty the permanent table of their certificates. -/
theorem CertStore.forget_hosts (s : CertStore) (hosts : List (List UInt8 × Nat)) :
    ∃ calls : List CertCall,
      (∀ other permanent, .setInsecure other permanent ∈ calls → other ∈ hosts) ∧
      ∀ c ∈ (calls.foldl CertStore.call s).persistent.trustedCerts,
        c ∈ s.persistent.trustedCerts ∧ c.host ∉ hosts := by
  induction hosts generalizing s with
  | nil => exact ⟨[], by simp, by simp⟩
  | cons host hosts ih =>
    obtain ⟨calls, hcalls, hfirst⟩ := s.forget_host host
    obtain ⟨calls', hcalls', hrest⟩ := ih (calls.foldl CertStore.call s)
    refine ⟨calls ++ calls', ?_, ?_⟩
    · intro other permanent hmem
      rcases List.mem_append.mp hmem with hmem | hmem
      · exact List.mem_cons.mpr (.inl (hcalls other permanent hmem))
      · exact List.mem_cons_of_mem _ (hcalls' other permanent hmem)
    · rw [List.foldl_append]
      intro c hc
      obtain ⟨hmem, hother⟩ := hrest c hc
      obtain ⟨hbefore, hne⟩ := hfirst c hmem
      exact ⟨hbefore, by simp [hne, hother]⟩

/-- A certificate that is trusted stays trusted, for the host names and with the permanence that
were asked for, whatever calls come until its host is made insecure. This holds exactly if the
certificate has data and is not known for good with its own host name only when it is to be trusted
for good with others. -/
theorem setTrusted_trusts (s : CertStore) (cert : TrustedCert) (permanent : Bool)
    (name : List UInt8) (hname : dnsname name = true ∧ name ≠ cert.host.1) :
    ((permanent = false → (s.setTrusted cert permanent).persistent = s.persistent) ∧
      ∀ calls : List CertCall, (∀ permanent, .setInsecure cert.host permanent ∉ calls) →
        ∀ host allowSans, (host = cert.host ∨ cert.trustSans = true ∧ host.2 = cert.host.2 ∧
          dnsname host.1 = true ∧ allowSans = true) →
        (calls.foldl CertStore.call (s.setTrusted cert permanent)).isTrusted dnsname host cert.data
          permanent allowSans = true) ↔
      cert.data ≠ [] ∧ (permanent = true → s.persistent.isTrusted cert = true →
        s.persistent.Holds cert) := by
  constructor
  · rintro ⟨-, htrusted⟩
    refine ⟨?_, ?_⟩
    · rintro hnil
      have hself := htrusted [] (by simp) cert.host false (.inl rfl)
      simp [CertStore.isTrusted, CertData.doIsTrusted, hnil] at hself
    · rintro rfl hknown
      by_contra hless
      have hset : (s.setTrusted cert true).persistent = s.persistent := by
        simp [CertStore.setTrusted, hknown]
      have hsans : cert.trustSans = true := by
        by_contra hno
        simp only [CertData.isTrusted, Bool.and_eq_true, List.any_eq_true, beq_iff_eq] at hknown
        obtain ⟨-, c, hc, hdata, hhost⟩ := hknown
        exact hless ⟨c, hc, hhost, hdata, fun h => absurd h hno⟩
      -- the records of other hosts are taken away, and what is left is good for the host only
      obtain ⟨calls, hcalls, hleft⟩ := (s.setTrusted cert true).forget_hosts
        ((s.persistent.trustedCerts.map (·.host)).filter (· ≠ cert.host))
      have hother := htrusted calls (fun p hp => by simpa using hcalls _ p hp)
        (name, cert.host.2) true (.inr ⟨hsans, rfl, hname.1, rfl⟩)
      simp only [CertStore.isTrusted, Bool.not_true, Bool.false_and, Bool.or_false,
        CertData.doIsTrusted, Bool.and_eq_true, List.any_eq_true, Bool.or_eq_true, beq_iff_eq]
        at hother
      obtain ⟨-, c, hc, ⟨-, hdata⟩, hgood⟩ := hother
      obtain ⟨hmem, hhost⟩ := hleft c hc
      rw [hset] at hmem
      have hsame : c.host = cert.host := by
        by_contra hne
        exact hhost (List.mem_filter.mpr ⟨List.mem_map_of_mem hmem, by simpa using hne⟩)
      rcases hgood with hgood | hgood
      · exact hname.2 (congrArg Prod.fst (hgood.trans hsame))
      · exact hless ⟨c, hmem, hsame, hdata, fun _ => hgood.2⟩
  · rintro ⟨hdata, hsans⟩
    refine ⟨?_, fun calls hcalls host allowSans hhost => ?_⟩
    · rintro rfl
      rfl
    · exact CertStore.isTrusted_of_holds hdata
        (CertStore.holds_foldl (CertStore.holds_setTrusted hsans) hcalls) hhost

/-- Another host name is trusted, whether it was made insecure or not. -/
theorem setTrusted_trusts_other : ([.setInsecure ([105], 21) true].foldl CertStore.call
      (CertStore.setTrusted {} { hostCert with trustSans := true } true)).isTrusted (fun _ => true)
        ([105], 21) hostCert.data true true = true :=
  ((setTrusted_trusts {} { hostCert with trustSans := true } true [105] (by decide)).mpr
    ⟨by decide, fun _ h => absurd h (by decide)⟩).2 _ (by simp [hostCert]) _ _ (.inr (by decide))

/-- A certificate that is trusted for good is then trusted for good with all host names: the second
call does nothing. -/
theorem setTrusted_keeps_record :
    ((CertStore.setTrusted {} hostCert true).setTrusted { hostCert with trustSans := true }
      true).isTrusted (fun _ => true) ([105], 21) hostCert.data true true = false := by
  decide

end Trust

/-! ## Session resumption -/

/-- `ftp_tls_resumption_support_` for good and for the session. -/
structure ResumptionSupport where
  persistent : List UInt8 × Nat → Option Bool := fun _ => none
  session : List UInt8 × Nat → Option Bool := fun _ => none

/-- The arguments of `SetSessionResumptionSupport`. -/
structure ResumptionCall where
  host : List UInt8 × Nat
  secure : Bool
  permanent : Bool

namespace ResumptionSupport

/-- `GetSessionResumptionSupport`. -/
def get (s : ResumptionSupport) (host : List UInt8 × Nat) : Option Bool :=
  (s.persistent host).or (s.session host)

/-- `emplace`, which keeps a value that is there. -/
def emplace (map : List UInt8 × Nat → Option Bool) (c : ResumptionCall) :
    List UInt8 × Nat → Option Bool :=
  Function.update map c.host ((map c.host).or (some c.secure))

/-- `SetSessionResumptionSupport`. -/
def set (s : ResumptionSupport) (c : ResumptionCall) : ResumptionSupport :=
  if !c.permanent then { s with session := emplace s.session c }
  else if s.get c.host = some c.secure then s
  else ⟨emplace s.persistent c, Function.update s.session c.host none⟩

/-- Nothing else is known, or only for the session and the call is for good. -/
def overwrites (s : ResumptionSupport) (c : ResumptionCall) : Bool :=
  (s.get c.host).all (· == c.secure) || c.permanent && (s.persistent c.host).isNone

/-- A call that may overwrite decides what is read for its host. -/
theorem get_set {s : ResumptionSupport} {c : ResumptionCall} (h : s.overwrites c)
    (host : List UInt8 × Nat) :
    (s.set c).get host = if c.host = host then some c.secure else s.get host := by
  by_cases hhost : c.host = host
  · subst hhost
    unfold overwrites get at h
    unfold set get
    cases hp : s.persistent c.host <;> cases hs : s.session c.host <;> split_ifs <;>
      simp_all [emplace]
  · have hne : host ≠ c.host := Ne.symm hhost
    unfold set get emplace
    split_ifs <;> simp [hne]

end ResumptionSupport

def resumptionSystem : Lts ResumptionSupport ResumptionCall :=
  Lts.ofFun (· = {}) fun s c => some (s.set c)

/-- The value of the most recent call for the host and port. -/
def lastSet (calls : List ResumptionCall) (host : List UInt8 × Nat) : Option Bool :=
  (calls.reverse.find? (·.host == host)).map (·.secure)

/-- The most recent call counts, in every run whose calls overwrite nothing of the same kind. -/
theorem resumption_lastSet {s t : ResumptionSupport} {calls : List ResumptionCall}
    (h : (resumptionSystem.restrict fun s c => s.overwrites c).Run s calls t)
    (host : List UInt8 × Nat) : t.get host = (lastSet calls host).or (s.get host) := by
  induction h with
  | nil _ => rfl
  | cons hstep _ ih =>
    obtain rfl := Option.some.inj hstep.1
    rw [ih, ResumptionSupport.get_set hstep.2]
    unfold lastSet
    rw [List.reverse_cons]
    split_ifs with hhost <;> simp [hhost]

/-- A value for good takes the place of one for the session. -/
theorem resumption_lastSet_permanent :
    ∃ s, s.get hostCert.host = some false ∧
      (resumptionSystem.restrict fun s c => s.overwrites c).Run {}
        [⟨hostCert.host, true, false⟩, ⟨hostCert.host, false, true⟩] s := by
  have hrun : (resumptionSystem.restrict fun s c => s.overwrites c).Run {}
      [⟨hostCert.host, true, false⟩, ⟨hostCert.host, false, true⟩] _ := Lts.run_restrict_ofFun rfl
  exact ⟨_, resumption_lastSet hrun hostCert.host, hrun⟩

/-- The second value for the session is not stored. -/
theorem resumption_not_lastSet :
    let calls : List ResumptionCall := [⟨hostCert.host, true, false⟩, ⟨hostCert.host, false, false⟩]
    (calls.foldl ResumptionSupport.set {}).get hostCert.host ≠ lastSet calls hostCert.host := by
  decide

end FlintZilla
