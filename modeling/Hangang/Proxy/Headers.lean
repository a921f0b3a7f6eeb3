import Hangang.Framework.CaseFold
import Hangang.Framework.Except
import Hangang.Framework.Fields
import Hangang.Framework.Http
import Hangang.Framework.Utf8

/-! # Header Rules of the Proxy

    The functions of `proxy.rs` that read and rewrite the `Cookie` fields of a request
    on its way from the client to the upstream. -/

open Bytes Http

namespace Proxy

/-! ## Values -/

/-- `HeaderValue::from_bytes`: no control byte but the tab. -/
def headerValue (x : Bytes) : Option Bytes :=
  if x.all fun b => (32 ≤ b && b != 127) || b == 9 then some x else none

/-- `u8::is_ascii_whitespace`. -/
def isWhitespaceByte (b : UInt8) : Bool := b == 32 || b == 9 || b == 10 || b == 12 || b == 13

/-- `<[u8]>::trim_ascii`. -/
def trimAscii (x : Bytes) : Bytes := (x.dropWhile isWhitespaceByte).rdropWhile isWhitespaceByte

/-- `to_string` of a number. -/
def decimal (n : Nat) : Bytes := ascii (Nat.repr n)

/-! ## Ingress -/

/-- `join_cookie_headers`. -/
def joinCookieHeaders (headers : Fields) : Except Unit Fields :=
  match headers.getAll (ascii "cookie") with
  | first :: second :: values =>
    match headerValue ((ascii "; ").intercalate (first :: second :: values)) with
    | some value => .ok (headers.insert (ascii "cookie") value)
    | none => .error ()
  | _ => .ok headers

/-! ## Cookies -/

/-- `is_cookie_token_byte`. -/
def isCookieTokenByte (b : UInt8) : Bool := isTokenByte b

/-- `contains_cookie_name`. -/
def containsCookieName (bytes name : Bytes) : Bool :=
  if name.isEmpty || bytes.length < name.length then false
  else
    (List.range (bytes.length - name.length + 1)).any fun at' =>
      (bytes.drop at').take name.length == name &&
        (at' == 0 || !bytes[at' - 1]?.any isCookieTokenByte) &&
        !bytes[at' + name.length]?.any isCookieTokenByte

/-- The loop of `split_cookie_pairs`, with the pair it is in. -/
def splitCookiePairsFrom (pair : Bytes) (quoted : Bool) : Bytes → Option (List Bytes)
  | [] => if quoted then none else some [pair]
  | b :: rest =>
    if b == 92 && quoted then
      match rest with
      | [] => none
      | escaped :: rest => splitCookiePairsFrom (pair ++ [b, escaped]) quoted rest
    else if b == 34 then splitCookiePairsFrom (pair ++ [b]) (!quoted) rest
    else if b == 59 && !quoted then (splitCookiePairsFrom [] quoted rest).map (pair :: ·)
    else splitCookiePairsFrom (pair ++ [b]) quoted rest

/-- `split_cookie_pairs`. -/
def splitCookiePairs (value : Bytes) : Option (List Bytes) := splitCookiePairsFrom [] false value

/-- The name of a pair. -/
def cookieName (pair : Bytes) : Bytes :=
  (splitOnce 61 pair).elim pair fun parts => trimAscii parts.1

/-- `strip_request_cookies`. -/
def stripRequestCookies (headers : Fields) (names : List Bytes) : Fields :=
  if !headers.containsKey (ascii "cookie") then headers
  else
    match (headers.getAll (ascii "cookie")).mapM splitCookiePairs with
    | none => headers.remove (ascii "cookie")
    | some pairs =>
      let kept := (ascii "; ").intercalate
        ((pairs.flatten.map trimAscii).filter fun pair =>
          !pair.isEmpty && !names.contains (cookieName pair))
      if names.any (containsCookieName kept) || kept.isEmpty then headers.remove (ascii "cookie")
      else
        match headerValue kept with
        | some value => headers.insert (ascii "cookie") value
        | none => headers.remove (ascii "cookie")

end Proxy
