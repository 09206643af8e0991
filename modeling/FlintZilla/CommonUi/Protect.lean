import FlintZilla.Ftp.Logon

/-!
# Protected credentials

`protect` stores a password encrypted with a public key; a password under another key is first
decrypted. `unprotect` undoes it. A password is padded with zeros to 16 bytes, so that the padding
can be told from it as long as it has no zeros itself.

Main results:

* `Plain.protect`: a call encrypts anew with its key, whatever key was used before.
* `protect_unprotect`: the last key restores the password after any number of calls.
-/

namespace FlintZilla

open List

/-- The functions of the library, and what is assumed of them. -/
structure CryptoEnv (Public Private Seed : Type) where
  toUtf8 : WString → List UInt8
  /-- Bytes that are not UTF-8 give an empty text. -/
  fromUtf8 : List UInt8 → WString
  base64Encode : List UInt8 → List UInt8
  base64Decode : List UInt8 → List UInt8
  pubkey : Private → Public
  encrypt : Seed → List UInt8 → Public → List UInt8
  /-- The flag is set for authenticated encryption. -/
  decrypt : List UInt8 → Private → Bool → List UInt8
  toUtf8_nil : toUtf8 [] = []
  toUtf8_noZero : ∀ text, Char.ofNat 0 ∉ text → 0 ∉ toUtf8 text
  fromUtf8_toUtf8 : ∀ text, fromUtf8 (toUtf8 text) = text
  toUtf8_base64 : ∀ data, toUtf8 (fromUtf8 (base64Encode data)) = base64Encode data
  base64Decode_encode : ∀ data, base64Decode (base64Encode data) = data
  encrypt_ne_nil : ∀ seed plain key, encrypt seed plain key ≠ []
  decrypt_encrypt : ∀ seed plain priv, decrypt (encrypt seed plain (pubkey priv)) priv true = plain

/-- `ProtectedCredentials`. -/
structure ProtectedCredentials (Public : Type) extends Credentials where
  encrypted : Option Public

/-- A call of `protect`: the key, what the login manager answers, and the randomness it uses. -/
structure ProtectCall (Public Private Seed : Type) where
  key : Option Public
  getDecryptor : Public → Option Private
  seed : Seed

variable {Public Private Seed : Type} {env : CryptoEnv Public Private Seed}

namespace ProtectedCredentials

variable (env) [DecidableEq Public] (creds : ProtectedCredentials Public)

omit [DecidableEq Public] in
/-- `Credentials::SetPass`. -/
def setPass (pass : WString) : ProtectedCredentials Public :=
  if creds.logonType ≠ .anonymous then { creds with password := pass } else creds

omit [DecidableEq Public] in
/-- The bytes that are encrypted, at least 16. -/
def padded : List UInt8 :=
  env.toUtf8 creds.getPass ++ List.replicate (16 - (env.toUtf8 creds.getPass).length) 0

omit [DecidableEq Public] in
/-- The end of `protect`: the password is encrypted. -/
def encryptPass (key : Public) (seed : Seed) : ProtectedCredentials Public :=
  let encrypted := env.encrypt seed (creds.padded env) key
  if encrypted = [] then { creds with logonType := .ask, password := [], encrypted := none }
  else { creds.setPass (env.fromUtf8 (env.base64Encode encrypted)) with encrypted := some key }

/-- `do_unprotect`. -/
def doUnprotect (key : Option Private) : Option (ProtectedCredentials Public) :=
  match key with
  | none => none
  | some key =>
    if some (env.pubkey key) ≠ creds.encrypted then none
    else
      let cipher := env.base64Decode (env.toUtf8 creds.getPass)
      let plain := env.decrypt cipher key true
      let plain := if plain = [] then env.decrypt cipher key false else plain
      if plain.length < 16 then none
      -- behind the first zero there are only zeros
      else if (plain.dropWhile (· ≠ 0)).any (· ≠ 0) then none
      else
        let pw := plain.takeWhile (· ≠ 0)
        let wpw := env.fromUtf8 pw
        if wpw = [] ∧ pw ≠ [] then none
        else some { creds.setPass wpw with encrypted := none }

/-- `unprotect`. -/
def unprotect (key : Option Private) (onFailureSetToAsk : Bool) :
    Bool × ProtectedCredentials Public :=
  if creds.encrypted.isNone then (true, creds)
  else match creds.doUnprotect env key with
    | some creds => (true, creds)
    | none =>
      (false, if onFailureSetToAsk then
        { creds.setPass [] with logonType := .ask, encrypted := none } else creds)

/-- `protect`. -/
def protect (call : ProtectCall Public Private Seed) : ProtectedCredentials Public :=
  if creds.logonType ≠ .normal ∧ creds.logonType ≠ .account then
    { creds.setPass [] with encrypted := none }
  else match call.key with
    | none => creds
    | some key =>
      match creds.encrypted with
      | none => creds.encryptPass env key call.seed
      | some used =>
        if used = key then creds
        else match call.getDecryptor used with
          | none => creds
          | some priv =>
            let (ok, creds) := creds.unprotect env (some priv) true
            if ok then creds.encryptPass env key call.seed else creds

end ProtectedCredentials

/-! ## The padding -/

/-- The padding is found again behind a text without zeros. -/
theorem unpadded {text : List UInt8} (h : 0 ∉ text) (n : Nat) :
    (text ++ replicate n 0).takeWhile (· ≠ 0) = text ∧
      ((text ++ replicate n 0).dropWhile (· ≠ 0)).any (· ≠ 0) = false := by
  have htext : ∀ b ∈ text, decide (b ≠ 0) = true := by
    intro b hb
    rw [decide_eq_true_eq]
    rintro rfl
    exact h hb
  rw [takeWhile_append_of_pos htext, dropWhile_append_of_pos htext]
  cases n with
  | zero => simp
  | succ n => simp [replicate_succ]

/-! ## Sequences of calls -/

namespace ProtectedCredentials

/-- Credentials with a password that can be protected. -/
structure Plain (creds : ProtectedCredentials Public) : Prop where
  logon : creds.logonType = .normal ∨ creds.logonType = .account
  noZero : Char.ofNat 0 ∉ creds.password
  encrypted : creds.encrypted = none

variable {plain : ProtectedCredentials Public} (h : plain.Plain)

include h

theorem Plain.ne_anonymous : plain.logonType ≠ .anonymous := by
  rcases h.logon with h | h <;> simp [h]

theorem Plain.getPass : plain.getPass = plain.password := if_neg h.ne_anonymous

/-- Encryption never fails, so the password is replaced. -/
theorem Plain.encryptPass_eq (key : Public) (seed : Seed) :
    plain.encryptPass env key seed = { plain with
      password := env.fromUtf8 (env.base64Encode (env.encrypt seed (plain.padded env) key))
      encrypted := some key } := by
  simp only [encryptPass, env.encrypt_ne_nil, if_false, setPass, ne_eq, h.ne_anonymous,
    not_false_eq_true, if_true]

variable [DecidableEq Public]

/-- The private key of the last call restores everything. -/
theorem Plain.unprotect_encryptPass (priv : Private) (seed : Seed) (onFailureSetToAsk : Bool) :
    (plain.encryptPass env (env.pubkey priv) seed).unprotect env (some priv) onFailureSetToAsk =
      (true, plain) := by
  have hzero := env.toUtf8_noZero _ h.noZero
  obtain ⟨htake, hdrop⟩ := unpadded hzero (16 - (env.toUtf8 plain.password).length)
  have hpadded : plain.padded env = env.toUtf8 plain.password ++
      replicate (16 - (env.toUtf8 plain.password).length) 0 := by
    rw [padded, h.getPass]
  have hlength : ¬(plain.padded env).length < 16 := by
    rw [hpadded, length_append, length_replicate]
    omega
  have hne : plain.padded env ≠ [] := fun heq => hlength (by simp [heq])
  have hwide : ¬(plain.password = [] ∧ env.toUtf8 plain.password ≠ []) := by
    rintro ⟨hnil, hsome⟩
    exact hsome (by rw [hnil, env.toUtf8_nil])
  rw [← hpadded] at htake hdrop
  have hundone : (plain.encryptPass env (env.pubkey priv) seed).doUnprotect env (some priv) =
      some plain := by
    rw [h.encryptPass_eq]
    simp only [doUnprotect, Credentials.getPass, h.ne_anonymous, if_false, env.toUtf8_base64,
      env.base64Decode_encode, env.decrypt_encrypt, hne, hlength, hdrop, htake,
      env.fromUtf8_toUtf8, hwide, setPass, ne_eq, not_true_eq_false, not_false_eq_true, if_true,
      Bool.false_eq_true, ← h.encrypted]
  rw [unprotect, hundone, h.encryptPass_eq]
  rfl

variable {creds : ProtectedCredentials Public} {key : Public}

/-- One call on a password that is not encrypted, or is encrypted with a key that is available. -/
theorem Plain.protect
    (hcreds : creds = plain ∨ ∃ used seed, creds = plain.encryptPass env used seed)
    {call : ProtectCall Public Private Seed} (hkey : call.key = some key)
    (havailable : ∀ used, creds.encrypted = some used →
      ∃ priv, call.getDecryptor used = some priv ∧ env.pubkey priv = used) :
    ∃ seed, creds.protect env call = plain.encryptPass env key seed := by
  have hlogon : ¬(creds.logonType ≠ .normal ∧ creds.logonType ≠ .account) := by
    have hsame : creds.logonType = plain.logonType := by
      rcases hcreds with rfl | ⟨used, seed, rfl⟩
      · rfl
      · rw [h.encryptPass_eq]
    rw [hsame]
    exact fun hne => h.logon.elim hne.1 hne.2
  simp only [ProtectedCredentials.protect, hlogon, if_false, hkey]
  rcases hcreds with rfl | ⟨used, seed, rfl⟩
  · rw [h.encrypted]
    exact ⟨call.seed, rfl⟩
  · have hused : (plain.encryptPass env used seed).encrypted = some used := by
      rw [h.encryptPass_eq]
    obtain ⟨priv, hpriv, rfl⟩ := havailable used hused
    simp only [hused, hpriv, h.unprotect_encryptPass]
    split_ifs with hsame
    · exact ⟨seed, by rw [← hsame]⟩
    · exact ⟨call.seed, rfl⟩

/-- Whenever the password is encrypted, the login manager has the private key. -/
def Available (env : CryptoEnv Public Private Seed) :
    ProtectedCredentials Public → List (ProtectCall Public Private Seed) → Prop
  | _, [] => True
  | creds, call :: calls =>
    (∀ used, creds.encrypted = some used →
      ∃ priv, call.getDecryptor used = some priv ∧ env.pubkey priv = used) ∧
    Available env (creds.protect env call) calls

/-- After some calls the password is encrypted with the key of the last one. -/
theorem Plain.foldl_protect
    (hcreds : creds = plain ∨ ∃ used seed, creds = plain.encryptPass env used seed)
    {calls : List (ProtectCall Public Private Seed)} (hkeys : ∀ call ∈ calls, call.key.isSome)
    (havailable : Available env creds calls) {last : ProtectCall Public Private Seed}
    (hlast : calls.getLast? = some last) (hkey : last.key = some key) :
    ∃ seed, calls.foldl (ProtectedCredentials.protect env) creds =
      plain.encryptPass env key seed := by
  induction calls generalizing creds with
  | nil => cases hlast
  | cons call calls ih =>
    obtain ⟨key', hkey'⟩ := Option.isSome_iff_exists.mp (hkeys call mem_cons_self)
    obtain ⟨seed, hstep⟩ := h.protect hcreds hkey' havailable.1
    cases calls with
    | nil =>
      obtain rfl : call = last := by simpa using hlast
      rw [hkey] at hkey'
      cases hkey'
      exact ⟨seed, hstep⟩
    | cons next calls =>
      exact ih (.inr ⟨key', seed, hstep⟩) (fun c hc => hkeys c (mem_cons_of_mem _ hc))
        havailable.2 hlast

end ProtectedCredentials

/-- A password without zeros of a normal or account logon is restored by the private key of the last
call of `protect`, after every sequence of calls with keys, if whenever the password is encrypted
its private key is available. -/
theorem protect_unprotect [DecidableEq Public] (env : CryptoEnv Public Private Seed)
    {plain : ProtectedCredentials Public} (h : plain.Plain)
    {calls : List (ProtectCall Public Private Seed)} (hkeys : ∀ call ∈ calls, call.key.isSome)
    (havailable : plain.Available env calls)
    {last : ProtectCall Public Private Seed} (hlast : calls.getLast? = some last) {priv : Private}
    (hpriv : last.key = some (env.pubkey priv)) (onFailureSetToAsk : Bool) :
    (calls.foldl (ProtectedCredentials.protect env) plain).unprotect env (some priv)
      onFailureSetToAsk = (true, plain) := by
  obtain ⟨seed, hfold⟩ := h.foldl_protect (.inl rfl) hkeys havailable hlast hpriv
  rw [hfold]
  exact h.unprotect_encryptPass priv seed onFailureSetToAsk

/-- Only the null character has a zero in its encoding. -/
theorem zero_notMem_utf8 {c : Char} (h : c ≠ Char.ofNat 0) : 0 ∉ String.utf8EncodeChar c := by
  have hval : c.val.toNat ≠ 0 := fun h0 => h (Char.ext (UInt32.toNat_inj.mp h0))
  unfold String.utf8EncodeChar
  dsimp only
  split_ifs <;>
    simp only [mem_cons, not_mem_nil, or_false, ← UInt8.toNat_inj, UInt8.toNat_ofNat,
      UInt8.toNat_ofNat'] <;>
    omega

theorem utf8_round_trip (text : WString) :
    (((text.flatMap String.utf8EncodeChar).toByteArray.utf8Decode?).map Array.toList).getD [] =
      text := by
  have hdecoded : (text.flatMap String.utf8EncodeChar).toByteArray.utf8Decode? =
      some text.toArray := utf8Decode?_utf8Encode
  rw [hdecoded]
  rfl

/-- A toy cipher that puts the key in front, with UTF-8 as Lean has it. -/
def toyCrypto : CryptoEnv UInt8 UInt8 Unit where
  toUtf8 text := text.flatMap String.utf8EncodeChar
  fromUtf8 bytes := (bytes.toByteArray.utf8Decode?.map Array.toList).getD []
  base64Encode data := (data.map fun b => Char.ofNat b.toNat).flatMap String.utf8EncodeChar
  base64Decode text :=
    ((text.toByteArray.utf8Decode?.map Array.toList).getD []).map fun c => c.toNat.toUInt8
  pubkey := id
  encrypt _ plain key := key :: plain
  decrypt cipher _ _ := cipher.drop 1
  toUtf8_nil := rfl
  toUtf8_noZero text h hmem := by
    obtain ⟨c, hc, hzero⟩ := mem_flatMap.mp hmem
    exact zero_notMem_utf8 (fun heq => h (heq ▸ hc)) hzero
  fromUtf8_toUtf8 := utf8_round_trip
  toUtf8_base64 _ := by rw [utf8_round_trip]
  base64Decode_encode data := by
    rw [utf8_round_trip, List.map_map]
    refine List.map_id'' (fun b => ?_) data
    have hvalid : b.toNat.isValidChar := Or.inl (by have := b.toNat_lt; omega)
    have hnat : (Char.ofNat b.toNat).toNat = b.toNat := by
      rw [Char.ofNat, dif_pos hvalid]
      rfl
    simp [hnat]
  encrypt_ne_nil _ _ _ := List.cons_ne_nil _ _
  decrypt_encrypt _ _ _ := rfl

/-- A password that is encrypted twice, with different keys. -/
theorem protect_unprotect_two :
    let plain : ProtectedCredentials UInt8 := ⟨⟨.normal, "pw".toList, []⟩, none⟩
    ([⟨some 1, some, ()⟩, ⟨some 2, some, ()⟩].foldl (ProtectedCredentials.protect toyCrypto)
      plain).unprotect toyCrypto (some 2) false = (true, plain) := by
  intro plain
  have havailable : plain.Available toyCrypto [⟨some 1, some, ()⟩, ⟨some 2, some, ()⟩] :=
    ⟨fun used _ => ⟨used, rfl, rfl⟩, fun used _ => ⟨used, rfl, rfl⟩, trivial⟩
  exact protect_unprotect toyCrypto ⟨.inl rfl, by decide, rfl⟩ (by simp) havailable rfl rfl false

end FlintZilla
