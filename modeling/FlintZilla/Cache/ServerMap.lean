import FlintZilla.Cache.PathCache
import FlintZilla.Ftp.Logon

/-!
# Maps keyed by servers

`CPathCache` and `CServerCapabilities` keep what they know in a `std::map` with `CServer` as its
key. The map finds an entry through `operator<`, which compares the fields in turn but leaves out
the post-login commands that `operator==` compares. So servers are one key of the map if they are
equal up to these commands.

Main results:

* `equivalent_iff`, `equivalent_iff_equals`: which servers are one key.
* `find_modify`, `find_foldl`: what the map gives after a change, and after a sequence of them.
* `equal_servers_share`: two servers see the same entries exactly if they are equal up to the
  commands.
-/

namespace FlintZilla

open List Bool CServer

/-- The numbers that a text is compared by. -/
def textKey (text : WString) : List Nat := text.map Char.toNat

theorem textKey_inj {a b : WString} (h : textKey a = textKey b) : a = b :=
  map_injective_iff.mpr (fun _ _ => Char.toNat_inj.mp) h

/-- If neither of two values is the smaller one in a lexicographic order, they agree in what is
compared first. -/
theorem eq_of_then {α : Type} [Ord α] [Std.OrientedOrd α] [Std.LawfulEqOrd α] {x y : α}
    {o o' : Ordering} (h : (compare x y).then o ≠ .lt) (h' : (compare y x).then o' ≠ .lt) :
    x = y ∧ o ≠ .lt ∧ o' ≠ .lt := by
  have hswap : compare y x = (compare x y).swap := Std.OrientedCmp.eq_swap
  rw [hswap] at h'
  cases hc : compare x y with
  | lt => exact absurd (by rw [hc]; rfl) h
  | gt => exact absurd (by rw [hc]; rfl) h'
  | eq =>
    rw [hc] at h h'
    exact ⟨Std.LawfulEqCmp.compare_eq_iff_eq.mp hc, h, h'⟩

namespace CServer

variable {a b c : CServer}

/-- The names and the values of the extra parameters. A map is compared entry by entry. -/
def parameterTexts (a : CServer) : List (List Nat) :=
  a.extraParameters.flatMap fun p => [textKey p.1.toList, textKey p.2]

/-- The comparisons of `CServer::operator<`. -/
def order (a b : CServer) : Ordering :=
  (compare a.protocol.ctorIdx b.protocol.ctorIdx).then <|
  (compare a.type.ctorIdx b.type.ctorIdx).then <|
  (compare (textKey a.host) (textKey b.host)).then <|
  (compare a.port b.port).then <|
  (compare (textKey a.user) (textKey b.user)).then <|
  (compare a.timezoneOffset b.timezoneOffset).then <|
  (compare a.pasvMode.ctorIdx b.pasvMode.ctorIdx).then <|
  (compare a.encodingType.ctorIdx b.encodingType.ctorIdx).then <|
  (if a.encodingType = .custom then compare (textKey a.customEncoding) (textKey b.customEncoding)
    else .eq).then <|
  (compare a.bypassProxy.toNat b.bypassProxy.toNat).then <|
  compare a.parameterTexts b.parameterTexts

/-- `CServer::operator<`. -/
def less (a b : CServer) : Bool := a.order b == .lt

/-- The servers are the same key of a map. -/
def equivalent (a b : CServer) : Bool := !a.less b && !b.less a

/-- The texts that are compared determine the parameters. -/
theorem parameterTexts_inj (h : a.parameterTexts = b.parameterTexts) :
    a.extraParameters = b.extraParameters := by
  unfold parameterTexts at h
  generalize a.extraParameters = xs at h ⊢
  generalize b.extraParameters = ys at h ⊢
  induction xs generalizing ys with
  | nil =>
    cases ys with
    | nil => rfl
    | cons y ys => cases h
  | cons x xs ih =>
    cases ys with
    | nil => cases h
    | cons y ys =>
      simp only [flatMap_cons, cons_append, cons.injEq] at h
      rw [Prod.ext (String.toList_inj.mp (textKey_inj h.1)) (textKey_inj h.2.1), ih ys h.2.2]

/-- The name of the encoding is compared for custom encodings only. -/
theorem customEncoding_eq {o o' : Ordering} (hencoding : a.encodingType = b.encodingType)
    (h : (if a.encodingType = .custom then
      compare (textKey a.customEncoding) (textKey b.customEncoding) else .eq).then o ≠ .lt)
    (h' : (if b.encodingType = .custom then
      compare (textKey b.customEncoding) (textKey a.customEncoding) else .eq).then o' ≠ .lt) :
    (a.encodingType ≠ .custom ∨ a.customEncoding = b.customEncoding) ∧ o ≠ .lt ∧ o' ≠ .lt := by
  rw [← hencoding] at h'
  by_cases hcustom : a.encodingType = .custom
  · rw [if_pos hcustom] at h h'
    obtain ⟨htext, hrest⟩ := eq_of_then h h'
    exact ⟨.inr (textKey_inj htext), hrest⟩
  · rw [if_neg hcustom] at h h'
    exact ⟨.inl hcustom, h, h'⟩

/-- Servers of which neither is smaller agree in everything but the post-login commands. -/
theorem equals_of_equivalent (h : a.equivalent b)
    (hcommands : a.postLoginCommands = b.postLoginCommands) : a.equals b = true := by
  simp only [equivalent, less, and_eq_true, not_eq_true', beq_eq_false_iff_ne] at h
  obtain ⟨hab, hba⟩ := h
  obtain ⟨hprotocol, hab, hba⟩ := eq_of_then hab hba
  obtain ⟨htype, hab, hba⟩ := eq_of_then hab hba
  obtain ⟨hhost, hab, hba⟩ := eq_of_then hab hba
  obtain ⟨hport, hab, hba⟩ := eq_of_then hab hba
  obtain ⟨huser, hab, hba⟩ := eq_of_then hab hba
  obtain ⟨hoffset, hab, hba⟩ := eq_of_then hab hba
  obtain ⟨hpasv, hab, hba⟩ := eq_of_then hab hba
  obtain ⟨hencoding, hab, hba⟩ := eq_of_then hab hba
  -- the constructors of an enumeration have different numbers
  replace hprotocol := Function.LeftInverse.injective ServerProtocol.ofNat_ctorIdx hprotocol
  replace htype := Function.LeftInverse.injective ServerType.ofNat_ctorIdx htype
  replace hpasv := Function.LeftInverse.injective PasvMode.ofNat_ctorIdx hpasv
  replace hencoding := Function.LeftInverse.injective CharsetEncoding.ofNat_ctorIdx hencoding
  obtain ⟨hcustom, hab, hba⟩ := customEncoding_eq hencoding hab hba
  obtain ⟨hbypass, hab, hba⟩ := eq_of_then hab hba
  have hab : (compare a.parameterTexts b.parameterTexts).then .eq ≠ .lt := by simpa using hab
  have hba : (compare b.parameterTexts a.parameterTexts).then .eq ≠ .lt := by simpa using hba
  obtain ⟨hparameters, -⟩ := eq_of_then hab hba
  have hbypass : a.bypassProxy = b.bypassProxy := by
    cases ha : a.bypassProxy <;> cases hb : b.bypassProxy <;> simp [ha, hb] at hbypass ⊢
  simp only [equals, and_eq_true, or_eq_true, bne_iff_ne, beq_iff_eq]
  exact ⟨⟨⟨⟨⟨⟨⟨⟨⟨⟨⟨hprotocol, htype⟩, textKey_inj hhost⟩, hport⟩, textKey_inj huser⟩, hoffset⟩,
    hpasv⟩, hencoding⟩, hcustom⟩, hcommands⟩, hbypass⟩,
    parameterTexts_inj hparameters⟩

/-- Equal servers are the same key. -/
theorem equivalent_of_equals (h : a.equals b) : a.equivalent b = true := by
  simp only [equals, and_eq_true, or_eq_true, bne_iff_ne, beq_iff_eq] at h
  obtain ⟨⟨⟨⟨⟨⟨⟨⟨⟨⟨⟨h1, h2⟩, h3⟩, h4⟩, h5⟩, h6⟩, h7⟩, h8⟩, h9⟩, -⟩, h11⟩, h12⟩ := h
  have hcustom : a.encodingType = .custom → a.customEncoding = b.customEncoding :=
    fun h => h9.resolve_left (absurd h)
  rw [h8] at hcustom
  by_cases hb : b.encodingType = .custom
  · simp [equivalent, less, order, parameterTexts, h1, h2, h3, h4, h5, h6, h7, h8, h11, h12,
      hcustom hb]
  · simp [equivalent, less, order, parameterTexts, h1, h2, h3, h4, h5, h6, h7, h8, h11, h12, hb]

/-- The servers are equal but for their post-login commands, and these differ. -/
def DifferInCommandsOnly (a b : CServer) : Prop :=
  a.postLoginCommands ≠ b.postLoginCommands ∧
    { a with postLoginCommands := b.postLoginCommands }.equals b = true

/-- Equivalent servers are equal but for the post-login commands. -/
theorem equivalent_iff :
    a.equivalent b = true ↔ { a with postLoginCommands := b.postLoginCommands }.equals b = true :=
  ⟨fun h => equals_of_equivalent (a := { a with postLoginCommands := b.postLoginCommands }) h rfl,
    equivalent_of_equals (a := { a with postLoginCommands := b.postLoginCommands })⟩

/-- Servers of which neither is smaller are equal, or they differ in the commands only. -/
theorem equivalent_iff_equals (h : ¬a.DifferInCommandsOnly b) :
    a.equivalent b = true ↔ a.equals b = true := by
  refine ⟨fun heq => ?_, equivalent_of_equals⟩
  by_cases hcommands : a.postLoginCommands = b.postLoginCommands
  · exact equals_of_equivalent heq hcommands
  · exact absurd ⟨hcommands, equivalent_iff.mp heq⟩ h

theorem DifferInCommandsOnly.not_equals (h : a.DifferInCommandsOnly b) : a.equals b = false := by
  simp [equals, h.1]

theorem equivalent_symm (h : a.equivalent b) : b.equivalent a = true := by
  rw [equivalent, Bool.and_comm]
  exact h

theorem equivalent_trans (h : a.equivalent b) (h' : b.equivalent c) : a.equivalent c = true := by
  rw [equivalent_iff] at h h' ⊢
  simp only [equals] at h h' ⊢
  grind

end CServer

/-! ## Maps -/

/-- A `std::map<CServer, V>`. -/
abbrev ServerMap (V : Type) := List (CServer × V)

namespace ServerMap

variable {V : Type} {m : ServerMap V} {b server : CServer} {empty : V} {f : V → V}

/-- What a map holds for a server; a server that is not in the map has `empty`. -/
def find (m : ServerMap V) (server : CServer) (empty : V) : V :=
  ((m.find? fun entry => entry.1.equivalent server).map Prod.snd).getD empty

/-- Change what the map holds for a server. An entry that exists keeps its key. -/
def modify (server : CServer) (empty : V) (f : V → V) : ServerMap V → ServerMap V
  | [] => [(server, f empty)]
  | entry :: m => if entry.1.equivalent server then (entry.1, f entry.2) :: m
    else entry :: modify server empty f m

/-- The first entry with an equivalent key. -/
theorem find_cons (entry : CServer × V) :
    find (entry :: m) b empty = if entry.1.equivalent b then entry.2 else m.find b empty := by
  by_cases h : entry.1.equivalent b
  · simp [find, h]
  · simp [find, h]

/-- A change for a server is seen by the servers that are the same key, and by no others. -/
theorem find_modify : (m.modify server empty f).find b empty =
    if server.equivalent b then f (m.find b empty) else m.find b empty := by
  induction m with
  | nil =>
    rw [ServerMap.modify, find_cons]
    rfl
  | cons head m ih =>
    unfold ServerMap.modify
    by_cases hs : head.1.equivalent server = true
    · have hb : head.1.equivalent b = server.equivalent b := by
        rw [Bool.eq_iff_iff]
        exact ⟨equivalent_trans (equivalent_symm hs), equivalent_trans hs⟩
      rw [if_pos hs, find_cons, find_cons, hb]
      split_ifs <;> rfl
    · rw [if_neg hs, find_cons, find_cons, ih]
      by_cases hb : head.1.equivalent b = true
      · have hserver : ¬server.equivalent b = true :=
          fun h => hs (equivalent_trans hb (equivalent_symm h))
        rw [if_pos hb, if_neg hserver, if_pos hb]
      · rw [if_neg hb, if_neg hb]

/-- What a map holds for a server comes from the calls for servers equal to it, if no call is for
one that differs from it in the commands only. -/
theorem find_foldl {Call : Type} {of : Call → CServer} {change : Call → V → V} {calls : List Call}
    (hcalls : ∀ call ∈ calls, ¬(of call).DifferInCommandsOnly b) :
    (calls.foldl (fun m call => m.modify (of call) empty (change call)) m).find b empty =
      (calls.filter fun call => (of call).equals b).foldl (fun v call => change call v)
        (m.find b empty) := by
  induction calls generalizing m with
  | nil => rfl
  | cons call calls ih =>
    obtain ⟨hcall, hrest⟩ := forall_mem_cons.mp hcalls
    rw [foldl_cons, ih hrest, find_modify, filter_cons,
      Bool.eq_iff_iff.mpr (equivalent_iff_equals hcall)]
    split_ifs <;> rfl

end ServerMap

/-! ## The path cache and the capabilities -/

/-- A call of `CPathCache::Store`. -/
structure PathStore where
  server : CServer
  target : CServerPath
  source : CServerPath
  subdir : WString

/-- What `Store` does with the entries of the server. -/
def PathStore.change (call : PathStore) (cache : ServerPathCache) : ServerPathCache :=
  cache.store call.target call.source call.subdir

/-- `CPathCache::Store`. -/
def CPathCache.store (cache : ServerMap ServerPathCache) (call : PathStore) :
    ServerMap ServerPathCache :=
  cache.modify call.server [] call.change

/-- `CPathCache::Lookup`. -/
def CPathCache.lookup (cache : ServerMap ServerPathCache) (server : CServer) (source : CServerPath)
    (subdir : WString) : CServerPath :=
  (cache.find server []).lookup source subdir

/-- `CCapabilities::t_cap`. -/
structure CapabilityValue where
  cap : Capabilities := .unknown
  option : WString := []
  number : Int := 0
deriving DecidableEq

/-- A call of `CServerCapabilities::SetCapability`; the value has a text or a number. -/
structure CapabilitySet (Name : Type) where
  server : CServer
  name : Name
  value : CapabilityValue

/-- A path stored for a server. -/
def storedFor (server : CServer) : PathStore :=
  ⟨server, ⟨.unix, some ⟨["t".toList], none⟩⟩, ⟨.unix, some ⟨["s".toList], none⟩⟩, []⟩

/-- What a call stores is found. -/
theorem lookup_storedFor (server : CServer) :
    ((storedFor server).change []).lookup (storedFor server).source [] ≠
      ServerPathCache.lookup [] (storedFor server).source [] :=
  show ((storedFor {}).change []).lookup (storedFor {}).source [] ≠
    ServerPathCache.lookup [] (storedFor {}).source [] by decide

section

variable {Name : Type} [DecidableEq Name]

/-- `CCapabilities::SetCapability`. -/
def CapabilitySet.change (call : CapabilitySet Name) (capabilities : Name → CapabilityValue) :
    Name → CapabilityValue :=
  Function.update capabilities call.name call.value

/-- `CServerCapabilities::SetCapability`. -/
def CServerCapabilities.setCapability (map : ServerMap (Name → CapabilityValue))
    (call : CapabilitySet Name) : ServerMap (Name → CapabilityValue) :=
  map.modify call.server (fun _ => {}) call.change

/-- `CServerCapabilities::GetCapability`, with the option it fills in. -/
def CServerCapabilities.getCapability (map : ServerMap (Name → CapabilityValue)) (server : CServer)
    (name : Name) : CapabilityValue :=
  map.find server (fun _ => {}) name

/-- Servers of which neither is smaller are equal exactly unless they differ in their post-login
commands and in nothing else. And whatever is stored for the servers of a set, both caches answer
for a server as if there had been calls for servers equal to it only, exactly if no server of the
set differs from it in that way. -/
theorem equal_servers_share (name : Name) :
    (∀ a b : CServer, (a.less b = false → b.less a = false → a.equals b = true) ↔
      ¬a.DifferInCommandsOnly b) ∧
    ∀ (servers : Set CServer) (b : CServer),
      ((∀ calls : List PathStore, (∀ call ∈ calls, call.server ∈ servers) →
        CPathCache.lookup (calls.foldl CPathCache.store []) b = ServerPathCache.lookup
          ((calls.filter fun call => call.server.equals b).foldl (fun v call => call.change v)
            [])) ↔ ∀ a ∈ servers, ¬a.DifferInCommandsOnly b) ∧
      ((∀ calls : List (CapabilitySet Name), (∀ call ∈ calls, call.server ∈ servers) →
        CServerCapabilities.getCapability (calls.foldl CServerCapabilities.setCapability []) b =
          (calls.filter fun call => call.server.equals b).foldl (fun v call => call.change v)
            fun _ => {}) ↔ ∀ a ∈ servers, ¬a.DifferInCommandsOnly b) := by
  have hkey {a b : CServer} (h : a.DifferInCommandsOnly b) : a.equivalent b = true :=
    equivalent_iff.mpr h.2
  refine ⟨fun a b => ⟨?_, ?_⟩, fun servers b => ⟨⟨?_, ?_⟩, ⟨?_, ?_⟩⟩⟩
  · intro h hdiffer
    have hless : a.less b = false ∧ b.less a = false := by simpa [equivalent] using hkey hdiffer
    cases (h hless.1 hless.2).symm.trans hdiffer.not_equals
  · intro h hab hba
    exact (equivalent_iff_equals h).mp (by simp [equivalent, hab, hba])
  · -- one path that is stored for the other server is found
    intro h a ha hdiffer
    have hone := congrFun₂ (h [storedFor a] (by simpa [storedFor] using ha)) (storedFor a).source []
    have hother : (storedFor a).server.equals b = false := hdiffer.not_equals
    have hsame : (storedFor a).server.equivalent b = true := hkey hdiffer
    simp only [filter_cons, hother, foldl_cons, foldl_nil, CPathCache.lookup, CPathCache.store,
      ServerMap.modify, ServerMap.find_cons, hsame] at hone
    exact lookup_storedFor a hone
  · intro h calls hcalls
    exact congrArg ServerPathCache.lookup
      (ServerMap.find_foldl fun call hcall => h _ (hcalls call hcall))
  · -- a capability that is set for the other server is found
    intro h a ha hdiffer
    have hone := congrFun (h [⟨a, name, { cap := .yes }⟩] (by simpa using ha)) name
    simp [CServerCapabilities.getCapability, CServerCapabilities.setCapability, ServerMap.modify,
      ServerMap.find_cons, hkey hdiffer, hdiffer.not_equals, CapabilitySet.change] at hone
  · intro h calls hcalls
    exact ServerMap.find_foldl fun call hcall => h _ (hcalls call hcall)

end

/-- Two users of one host. -/
def twoUsers : CServer × CServer :=
  ({ protocol := .ftp, host := "h".toList, user := "a".toList },
    { protocol := .ftp, host := "h".toList, user := "b".toList })

theorem equal_servers_share_users :
    CPathCache.lookup ([storedFor twoUsers.1].foldl CPathCache.store []) twoUsers.2 =
      ServerPathCache.lookup [] :=
  ((equal_servers_share CapabilityName.systCommand).2 {twoUsers.1} twoUsers.2).1.mpr
    (by simp [CServer.DifferInCommandsOnly, twoUsers]) [storedFor twoUsers.1]
    (by simp [storedFor])

/-- Servers that differ in their post-login commands only are one key, so that a lookup for one
returns what was stored for the other. -/
theorem commands_share_key : let a := { twoUsers.1 with postLoginCommands := ["c".toList] }
    let b := twoUsers.1
    a.less b = false ∧ b.less a = false ∧ a.equals b = false ∧
      CPathCache.lookup ([storedFor a].foldl CPathCache.store []) b (storedFor a).source [] =
        (storedFor a).target ∧
      (CServerCapabilities.getCapability
        ([(⟨a, .systCommand, { cap := .yes }⟩ : CapabilitySet CapabilityName)].foldl
          CServerCapabilities.setCapability []) b .systCommand).cap = .yes := by
  decide

end FlintZilla
