import BlockProgram.Digest.Sha256
import BlockProgram.Json.Printer
import BlockProgram.Json.Record
import BlockProgram.Json.Source
import BlockProgram.Text.Base64

/-! Signed tokens. A token has a header, claims and a signature, each in base 64, with points
between them; the signature is a keyed digest of the first two parts. -/
namespace BlockProgram.Token

/-- What a token claims. Moments are seconds since the start of 1970. -/
structure Claims where
  subject : String := ""
  expiresAt : Option Int := none
  notBefore : Option Int := none
deriving DecidableEq

inductive Fault where
  | malformed
  | unverifiable
  | signature
  | expired
  | notYetValid
deriving DecidableEq

/-- The algorithm of all tokens that are made and accepted. -/
def algorithm : String := "HS256"

/-- Other algorithms that tokens are known to be signed with. -/
def otherAlgorithms : List String :=
  ["HS384", "HS512", "RS256", "RS384", "RS512", "PS256", "PS384", "PS512", "ES256", "ES384",
    "ES512", "EdDSA", "none"]

def segment (bytes : List UInt8) : String := String.ofList (Text.Base64.encode Text.Base64.address bytes)

def segmentBytes? (part : List Char) : Option (List UInt8) :=
  Text.Base64.decode? Text.Base64.address part

def signature (secret text : String) : List UInt8 :=
  Digest.Sha256.keyed (Digest.bytesOf secret) (Digest.bytesOf text)

/-- A token for a subject, made at `now` and accepted for `lifetime` seconds, which are counted in
nanoseconds of 64 bits. -/
def issue (subject secret : String) (now lifetime : Int) : String :=
  let ending := now + (Number.wrap (lifetime * 1000000000)).fdiv 1000000000
  let header := Json.writeObject [("alg", Json.writeString algorithm), ("typ", Json.writeString "JWT")]
  let claims := Json.writeObject ((if subject = "" then [] else [("sub", Json.writeString subject)]) ++
    [("exp", toString ending), ("iat", toString now)])
  let text := segment (Digest.bytesOf header) ++ "." ++ segment (Digest.bytesOf claims)
  text ++ "." ++ segment (signature secret text)

/-- The whole number of seconds in a double. Seconds are counted from the first year in a word of 64
bits: what does not fit comes out as its least value, and a sum that does not fit wraps around. -/
def wholeSeconds (x : Number.Floating) : Int :=
  let n : Int := match x with
    | .finite negative m e =>
      let whole : Nat := if 0 ≤ e then m * Nat.pow 2 e.toNat else m / Nat.pow 2 (-e).toNat
      let exact := 0 ≤ e || m % Nat.pow 2 (-e).toNat = 0
      if negative then (if exact then -(whole : Int) else -(whole : Int) - 1) else whole
    | _ => Number.greatestInteger + 1
  let n := if Number.fitsInteger n then n else Number.leastInteger
  Number.wrap (n + 62135596800) - 62135596800

def isNumberText (s : String) : Bool :=
  match Json.readNumber s.toList with
  | .ok (_, []) => true
  | _ => false

/-- A moment in place of `old`. A number may stand between quotes. -/
def takeMoment : Json → Except Json.Fault (Option Int)
  | .null => .ok none
  | .number s => moment s
  | .string s => if isNumberText s then moment s else .error (.mismatch "a number")
  | _ => .error (.mismatch "a number")
where
  moment (s : String) : Except Json.Fault (Option Int) :=
    match Number.readDouble? s.toList with
    | some x => .ok (some (wholeSeconds x))
    | none => .error (.mismatch "a number")

/-- Whether a value may stand for those a token is meant for: a string, or a list of strings. -/
def isAudience : Json → Bool
  | .null => true
  | .string _ => true
  | .array items _ => items.all fun v => match v with | .string _ => true | _ => false
  | _ => false

def readClaims : Json → Except Json.Fault Claims :=
  Json.takeMembers (fun key v c =>
    match key with
    | "sub" => (Json.takeString c.subject v).map ({ c with subject := · })
    | "exp" => (takeMoment v).map ({ c with expiresAt := · })
    | "nbf" => (takeMoment v).map ({ c with notBefore := · })
    | "iat" => (takeMoment v).map fun _ => c
    | "iss" | "jti" => (Json.takeString "" v).map fun _ => c
    | "aud" => if isAudience v then .ok c else .error (.mismatch "a list of strings")
    | _ => .ok c) {}

def segmentJson? (part : List Char) : Option Json :=
  (segmentBytes? part).bind fun bytes => (Json.read (Text.ofBytes bytes)).toOption

def parts : List Char → List (List Char)
  | [] => [[]]
  | c :: cs =>
    if c = '.' then [] :: parts cs
    else
      match parts cs with
      | p :: ps => (c :: p) :: ps
      | [] => [[c]]

/-- The header in a part of a token: an object, or `null` for an empty one. Its numbers must fit a
double. -/
def header? (part : List Char) : Option (List (String × Json)) :=
  match segmentJson? part with
  | some (.object members) => if Json.membersInRange members then some members else none
  | some .null => some []
  | _ => none

def algorithm? (header : List (String × Json)) : Option String :=
  match header.reverse.find? (fun m => m.1 = "alg") with
  | some (_, .string a) => some a
  | _ => none

def claims? (part : List Char) : Option Claims :=
  (segmentJson? part).bind fun v => (readClaims v).toOption

/-- Whether claims hold at a moment. A token is expired from its last second on. -/
def Claims.check (c : Claims) (now : Int) : Except Fault Claims :=
  if c.expiresAt.any (· ≤ now) then .error .expired
  else if c.notBefore.any (now < ·) then .error .notYetValid
  else .ok c

/-- Checks a token at a moment and gives its claims. The parts are read first, then the algorithm is
looked at, then the signature, then the claims. -/
def check (token secret : String) (now : Int) : Except Fault Claims :=
  match parts token.toList with
  | [first, second, sign] =>
    match header? first, claims? second with
    | some header, some claims =>
      match algorithm? header with
      | none => .error .unverifiable
      | some a =>
        if a ≠ algorithm then .error (if a ∈ otherAlgorithms then .signature else .unverifiable)
        else
          match segmentBytes? sign with
          | none => .error .malformed
          | some bytes =>
            if bytes = signature secret (String.ofList (first ++ '.' :: second)) then
              claims.check now
            else .error .signature
    | _, _ => .error .malformed
  | _ => .error .malformed

end BlockProgram.Token
