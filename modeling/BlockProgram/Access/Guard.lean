import BlockProgram.Access.Token
import BlockProgram.Web.Request

/-! Who may ask for what. A caller shows a token, in a header or in the address. -/
namespace BlockProgram.Access

inductive Denial where
  | badHeader
  | noToken
  | badToken
deriving DecidableEq

def Denial.message : Denial → String
  | badHeader => "Invalid authorization header format"
  | noToken => "Authorization header required"
  | badToken => "Invalid or expired token"

/-- The token a request shows. The header counts before the address. -/
def shownToken (r : Web.Request) : Except Denial String :=
  let value := r.header "Authorization"
  let token : Except Denial String :=
    if value = "" then .ok (r.queryValue "token")
    else
      match value.splitOn " " with
      | ["Bearer", token] => .ok token
      | _ => .error .badHeader
  match token with
  | .ok "" => .error .noToken
  | other => other

/-- Lets a request pass at a moment, or says why not. Without a secret everybody passes. -/
def check (secret : String) (now : Int) (r : Web.Request) : Except Denial Unit :=
  if secret = "" then .ok ()
  else
    match shownToken r with
    | .error d => .error d
    | .ok token =>
      match Token.check token secret now with
      | .ok _ => .ok ()
      | .error _ => .error .badToken

end BlockProgram.Access
