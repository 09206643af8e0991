import FlintZilla.Ascii
import FlintZilla.Path.ServerPath

/-!
# Servers

`CServer` of `include/server.h` with the fields that its comparisons read. The number of allowed
connections is not compared and is left out.
-/

namespace FlintZilla

/-- `ServerProtocol`. -/
inductive ServerProtocol where
  | unknown
  | ftp
  | sftp
  | http
  | ftps
  | ftpes
  | https
  | insecureFtp
  | s3
  | storj
  | webdav
  | azureFile
  | azureBlob
  | swift
  | googleCloud
  | googleDrive
  | dropbox
  | onedrive
  | b2
  | box
  | insecureWebdav
  | rackspace
  | storjGrant
deriving DecidableEq

/-- `t_protocolInfo`, the fields that are read here. -/
structure ProtocolInfo where
  protocol : ServerProtocol
  /-- `prefix`. -/
  scheme : String
  parseFromPrefix : Bool
deriving DecidableEq

/-- The table up to its last entry, the one for `UNKNOWN`. -/
def protocolInfos : List ProtocolInfo := [
  ⟨.ftp, "ftp", true⟩,
  ⟨.sftp, "sftp", true⟩,
  ⟨.http, "http", true⟩,
  ⟨.https, "https", true⟩,
  ⟨.ftps, "ftps", true⟩,
  ⟨.ftpes, "ftpes", true⟩,
  ⟨.insecureFtp, "ftp", false⟩,
  ⟨.s3, "s3", true⟩,
  ⟨.storj, "storj", false⟩,
  ⟨.webdav, "webdav", true⟩,
  ⟨.azureFile, "azfile", true⟩,
  ⟨.azureBlob, "azblob", true⟩,
  ⟨.swift, "swift", true⟩,
  ⟨.googleCloud, "google", true⟩,
  ⟨.googleDrive, "gdrive", true⟩,
  ⟨.dropbox, "dropbox", true⟩,
  ⟨.onedrive, "onedrive", true⟩,
  ⟨.b2, "b2", true⟩,
  ⟨.box, "box", true⟩,
  ⟨.insecureWebdav, "webdav", true⟩,
  ⟨.rackspace, "rackspace", true⟩,
  ⟨.storjGrant, "storj", true⟩]

/-- `CServer::GetProtocolFromPrefix` without a hint. -/
def getProtocolFromPrefix (text : WString) : ServerProtocol :=
  let lower := wideStrToLowerAscii text
  match protocolInfos.find? fun info => info.scheme.toList == lower && info.parseFromPrefix with
  | some info => info.protocol
  | none => .unknown

/-- `PasvMode`. -/
inductive PasvMode where
  | default
  | active
  | passive
deriving DecidableEq

/-- `CharsetEncoding`. -/
inductive CharsetEncoding where
  | auto
  | utf8
  | custom
deriving DecidableEq

structure CServer where
  protocol : ServerProtocol := .unknown
  type : ServerType := .default
  host : WString := []
  user : WString := []
  port : Nat := 21
  timezoneOffset : Int := 0
  pasvMode : PasvMode := .default
  bypassProxy : Bool := false
  encodingType : CharsetEncoding := .auto
  customEncoding : WString := []
  postLoginCommands : List WString := []
  /-- The map from names to values, in the order of its keys. -/
  extraParameters : List (String × WString) := []
deriving DecidableEq

/-- `CServer::operator==`. -/
def CServer.equals (a b : CServer) : Bool :=
  a.protocol == b.protocol && a.type == b.type && a.host == b.host && a.port == b.port &&
    a.user == b.user && a.timezoneOffset == b.timezoneOffset && a.pasvMode == b.pasvMode &&
    a.encodingType == b.encodingType &&
    (a.encodingType != .custom || a.customEncoding == b.customEncoding) &&
    a.postLoginCommands == b.postLoginCommands && a.bypassProxy == b.bypassProxy &&
    a.extraParameters == b.extraParameters

theorem CServer.equals_symm {a b : CServer} (h : a.equals b) : b.equals a = true := by
  simp only [CServer.equals, Bool.and_eq_true, Bool.or_eq_true, beq_iff_eq] at h ⊢
  obtain ⟨⟨⟨⟨⟨⟨⟨⟨⟨⟨⟨h1, h2⟩, h3⟩, h4⟩, h5⟩, h6⟩, h7⟩, h8⟩, h9⟩, h10⟩, h11⟩, h12⟩ := h
  rw [h8] at h9
  refine ⟨⟨⟨⟨⟨⟨⟨⟨⟨⟨⟨h1.symm, h2.symm⟩, h3.symm⟩, h4.symm⟩, h5.symm⟩, h6.symm⟩, h7.symm⟩, h8.symm⟩,
    ?_⟩, h10.symm⟩, h11.symm⟩, h12.symm⟩
  rcases h9 with h9 | h9
  · exact .inl h9
  · exact .inr h9.symm

/-! ## Servers with the same content -/

/-- The names in `ExtraServerParameterTraits`; no parameter has the flag `content_transparent`. -/
def extraServerParameterTraits : ServerProtocol → List String
  | .googleCloud => ["login_hint", "oauth_identity"]
  | .swift => ["identpath", "identuser", "keystone_version", "domain"]
  | .rackspace => ["identpath", "identuser"]
  | .s3 => ["ssealgorithm", "ssekmskey", "ssecustomerkey", "stsrolearn", "stsmfaserial", "region",
      "original_profile"]
  | .googleDrive => ["login_hint", "oauth_identity"]
  | .onedrive => ["login_hint", "oauth_identity"]
  | .dropbox => ["oauth_identity", "root_namespace"]
  | .box => ["oauth_identity"]
  | .storj => ["passphrase_hash"]
  | .storjGrant => ["credentials_hash"]
  | _ => []

/-- `CaseSensitivity`. -/
inductive CaseSensitivity where
  | unspecified
  | yes
  | no
deriving DecidableEq

namespace CServer

def getExtraParameter (s : CServer) (name : String) : WString :=
  (s.extraParameters.lookup name).getD []

def sameResource (s other : CServer) : Bool :=
  s.protocol == other.protocol && s.host == other.host && s.port == other.port &&
    s.user == other.user && s.postLoginCommands == other.postLoginCommands &&
    (extraServerParameterTraits s.protocol).all fun name =>
      s.getExtraParameter name == other.getExtraParameter name

def sameContent (s other : CServer) : Bool :=
  s.sameResource other && s.timezoneOffset == other.timezoneOffset &&
    s.encodingType == other.encodingType && s.customEncoding == other.customEncoding

def getCaseSensitivity (s : CServer) : CaseSensitivity :=
  match s.protocol with
  | .b2 => .yes
  | .googleDrive => .yes
  | .box => .no
  | .onedrive => .no
  | _ => .unspecified

theorem sameContent_self (s : CServer) : s.sameContent s = true := by
  simp [sameContent, sameResource]

theorem sameContent_symm {s t : CServer} (h : s.sameContent t) : t.sameContent s = true := by
  simp only [sameContent, sameResource, Bool.and_eq_true, beq_iff_eq, List.all_eq_true] at h ⊢
  obtain ⟨⟨⟨⟨⟨⟨⟨⟨h1, h2⟩, h3⟩, h4⟩, h5⟩, h6⟩, h7⟩, h8⟩, h9⟩ := h
  rw [h1] at h6
  exact ⟨⟨⟨⟨⟨⟨⟨⟨h1.symm, h2.symm⟩, h3.symm⟩, h4.symm⟩, h5.symm⟩, fun n hn => (h6 n hn).symm⟩,
    h7.symm⟩, h8.symm⟩, h9.symm⟩

/-- Servers with the same content are the same for the cache. -/
theorem sameContent_trans {s t u : CServer} (h : s.sameContent t)
    (h' : t.sameContent u) : s.sameContent u = true := by
  simp only [sameContent, sameResource, Bool.and_eq_true, beq_iff_eq, List.all_eq_true] at h h' ⊢
  obtain ⟨⟨⟨⟨⟨⟨⟨⟨h1, h2⟩, h3⟩, h4⟩, h5⟩, h6⟩, h7⟩, h8⟩, h9⟩ := h
  obtain ⟨⟨⟨⟨⟨⟨⟨⟨k1, k2⟩, k3⟩, k4⟩, k5⟩, k6⟩, k7⟩, k8⟩, k9⟩ := h'
  rw [← h1] at k6
  exact ⟨⟨⟨⟨⟨⟨⟨⟨h1.trans k1, h2.trans k2⟩, h3.trans k3⟩, h4.trans k4⟩, h5.trans k5⟩,
    fun n hn => (h6 n hn).trans (k6 n hn)⟩, h7.trans k7⟩, h8.trans k8⟩, h9.trans k9⟩

end CServer

end FlintZilla
