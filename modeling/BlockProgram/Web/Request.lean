import BlockProgram.Json.Basic
import BlockProgram.Text.Blank
import BlockProgram.Text.Base64
import BlockProgram.Web.Address

/-! Requests and replies. -/
namespace BlockProgram.Web

/-- A request. The path is what its address stands for; the query is kept as it is written, too. -/
structure Request where
  method : String := "GET"
  path : String
  query : String := ""
  headers : List (String × String) := []
  body : String := ""
deriving DecidableEq

namespace Request

/-- A request to an address. No method means to get something. -/
def ofAddress (method address : String) (headers : List (String × String)) (body : String) : Request :=
  let path := String.ofList (address.toList.takeWhile (· ≠ '?'))
  let query := String.ofList ((address.toList.dropWhile (· ≠ '?')).drop 1)
  { method := if method = "" then "GET" else method
    path := (unescaped? false path).getD path
    query := query
    headers := headers
    body := body }

/-- The value of a header, empty if it is not there. Names are compared without regard to case. -/
def header (r : Request) (name : String) : String :=
  ((r.headers.find? fun h => h.1.toLower = name.toLower).map (·.2)).getD ""

def queryValue (r : Request) (name : String) : String :=
  (((queryPairs r.query).find? (·.1 = name)).map (·.2)).getD ""

/-- The tokens of a header: the words between commas, up to the first that is none. -/
def tokens (value : String) : List String :=
  let isTokenChar (c : Char) : Bool := c.isAlphanum || c ∈ "!#$%&'*+-.^_|~".toList || c.toNat = 0x60
  let isToken (s : String) : Bool := s ≠ "" && s.toList.all isTokenChar
  let isGap (c : Char) : Bool := c = ' ' || c = '\t'
  let trimmed (s : String) : String :=
    String.ofList ((s.toList.dropWhile isGap).reverse.dropWhile isGap).reverse
  ((value.splitOn ",").map trimmed).takeWhile isToken

def hasToken (r : Request) (name token : String) : Bool :=
  (tokens (r.header name)).any (·.toLower = token)

/-- Whether a request asks for a lasting connection in the proper way. -/
def isUpgrade (r : Request) : Bool :=
  r.hasToken "Connection" "upgrade" && r.hasToken "Upgrade" "websocket" &&
    r.hasToken "Sec-WebSocket-Version" "13" &&
    match Text.Base64.decode? Text.Base64.plain (r.header "Sec-WebSocket-Key").toList with
    | some key => key.length = 16
    | none => false

end Request

inductive Body where
  | json (value : Json)
  | text (text : String)
deriving Inhabited

structure Reply where
  status : Nat
  body : Body

namespace Reply

def problem (status : Nat) (message : String) (data : Json) : Reply :=
  ⟨status, .json (.object [("message", .string message), ("data", data)])⟩

def pageNotFound : Reply := ⟨404, .text "404 page not found"⟩

def invalidRequest (reason : String) : Reply := problem 400 "Invalid request" (.string reason)

end Reply

end BlockProgram.Web
