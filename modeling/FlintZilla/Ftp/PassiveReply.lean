import FlintZilla.Server
import FlintZilla.Lib.Decimal
import FlintZilla.Lib.Search

/-!
# Replies to PASV and EPSV

`CFtpRawTransferOpData::ParsePasvResponse` and `ParseEpsvResponse`. What they ask the options, the
control connection and the libraries is collected in a `TransferEnv`.
-/

namespace FlintZilla

open Lib.Decimal Lib.Search

/-- What a transfer asks the options, the server, the connection and the libraries for. -/
structure TransferEnv where
  /-- `OPTION_ALLOW_TRANSFERMODEFALLBACK`. -/
  allowTransferModeFallback : Bool
  /-- `OPTION_PASVREPLYFALLBACKMODE`. -/
  pasvReplyFallbackMode : Int
  /-- `OPTION_USEPASV`. -/
  usePasv : Bool
  pasvMode : PasvMode
  /-- `proxy_layer_` is set. -/
  proxyLayer : Bool
  /-- The capability `epsv_command` of the server is known to be there. -/
  epsvCommand : Bool
  /-- The control connection is made over IPv6. -/
  ipv6 : Bool
  serverHost : WString
  peerIp : WString
  /-- `fz::is_routable_address`. -/
  isRoutableAddress : WString → Bool
  /-- `fz::to_integral<unsigned int>`, zero for text that is not a number. -/
  toIntegral : WString → Nat
  /-- `ConvToServer` returns something. -/
  converts : WString → Bool

/-- `0*[0-9]{1,3}` at the start of a text, and what follows. The number is the whole run of digits:
no digit may follow it in any place of the pattern. -/
def numberField (text : WString) : Option (WString × WString) :=
  let digits := text.takeWhile isDigit
  if digits = [] then none
  else if (digits.take (digits.length - 3)).all (· == '0') then
    some (digits, text.dropWhile isDigit)
  else none

/-- That many numbers with commas between them. -/
def numberFields : Nat → WString → Option (List WString × WString)
  | 0, text => some ([], text)
  | n + 1, text =>
    match numberField text with
    | none => none
    | some (digits, rest) =>
      if n = 0 then some ([digits], rest)
      else match rest with
        | ',' :: rest => (numberFields n rest).map fun m => (digits :: m.1, m.2)
        | _ => none

/-- `m_pasvReplyRegex` at the start of a text. -/
def pasvMatchAt : WString → Option (List WString)
  | c :: text =>
    if c = ' ' ∨ c = '(' then
      match numberFields 6 text with
      | some (fields, rest) =>
        if rest.head?.all fun c => c == ' ' || c == ')' then some fields else none
      | none => none
    else none
  | [] => none

/-- `std::regex_search` with `m_pasvReplyRegex`: the numbers of the first match. -/
def pasvMatch (text : WString) : Option (List WString) := text.tails.findSome? pasvMatchAt

namespace TransferEnv

/-- `GetPassiveCommand() == L"EPSV"`. -/
def passiveEpsv (env : TransferEnv) : Bool :=
  if env.proxyLayer then env.epsvCommand else env.ipv6

/-- `ParseEpsvResponse`: the host and port, or a failure. -/
def parseEpsvResponse (env : TransferEnv) (response : WString) : Option (WString × Nat) :=
  match findText "(|||".toList response with
  | none => none
  | some pos =>
    let rest := response.drop (pos + 4)
    match findText "|)".toList rest with
    | none => none
    | some length =>
      if length = 0 then none
      else
        let port := env.toIntegral (rest.take length)
        if port = 0 ∨ 65535 < port then none
        else some (if env.proxyLayer then env.serverHost else env.peerIp, port)

/-- `ParsePasvResponse`; `host_` and `port_` are not read after a failure. -/
def parsePasvResponse (env : TransferEnv) (bTriedActive : Bool) (response : WString) :
    Option (WString × Nat) :=
  match pasvMatch response with
  | some [h1, h2, h3, h4, p1, p2] =>
    if 255 < env.toIntegral p2 then none
    else if 255 < env.toIntegral p1 then none
    else
      let port := env.toIntegral p2 + 256 * env.toIntegral p1
      let host := h1 ++ '.' :: h2 ++ '.' :: h3 ++ '.' :: h4
      if env.proxyLayer then some (host, port)
      else if !env.isRoutableAddress host && env.isRoutableAddress env.peerIp then
        if env.pasvReplyFallbackMode ≠ 1 ∨ bTriedActive then some (env.peerIp, port) else none
      else if env.pasvReplyFallbackMode = 2 then some (env.peerIp, port)
      else some (host, port)
  | _ => none

/-- The reply to the passive command that `GetPassiveCommand` names. -/
def parsePassive (env : TransferEnv) (bTriedActive : Bool) (response : WString) :
    Option (WString × Nat) :=
  if env.passiveEpsv then env.parseEpsvResponse response
  else env.parsePasvResponse bTriedActive response

end TransferEnv

end FlintZilla
