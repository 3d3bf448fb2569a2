import BlockProgram.Web.Request

/-! Where requests lead. -/
namespace BlockProgram.Web

inductive Route where
  | health
  | generate
  | allWorkspaces
  | createWorkspace
  | workspace (id : String)
  | deleteWorkspace (id : String)
  | generateSaved (id : String)
  | preview (room : String)
  | roomSizes
deriving DecidableEq

namespace Route

def guarded : Route → Bool
  | health => false
  | generate => false
  | _ => true

/-- The route of a path, given by what stands between its strokes. A name at the end may be empty
only if `lenient`. -/
def match? (lenient : Bool) : String → List String → Option Route
  | "GET", ["healthz"] => some health
  | "POST", ["api", "v1", "generate"] => some generate
  | "GET", ["api", "v1", "workspaces"] => some allWorkspaces
  | "POST", ["api", "v1", "workspaces"] => some createWorkspace
  | "GET", ["api", "v1", "workspaces", id] => named id (workspace id)
  | "DELETE", ["api", "v1", "workspaces", id] => named id (deleteWorkspace id)
  | "POST", ["api", "v1", "workspaces", id, "generate"] => some (generateSaved id)
  | "POST", ["api", "v1", "workspaces", id] => if lenient then some (generateSaved id) else none
  | "GET", ["api", "v1", "ws", "preview", room] => named room (preview room)
  | "GET", ["api", "v1", "ws", "stats"] => some roomSizes
  | _, _ => none
where
  named (name : String) (r : Route) : Option Route :=
    if name = "" && !lenient then none else some r

def segments (path : String) : List String :=
  match path.splitOn "/" with
  | "" :: rest => rest
  | _ => []

/-- The path without a stroke at its end, if it has one. -/
def withoutSlash? (path : String) : Option String :=
  match path.toList.reverse with
  | '/' :: c :: rest => some (String.ofList (c :: rest).reverse)
  | _ => none

end Route

/-- Where a request leads: to something, to the same path without a stroke at its end, or
nowhere. -/
inductive Direction where
  | found (route : Route)
  | moved (path : String)
  | nowhere
deriving DecidableEq

def Request.direction (r : Request) : Direction :=
  match Route.match? false r.method (Route.segments r.path) with
  | some route => .found route
  | none =>
    match Route.withoutSlash? r.path with
    | none => .nowhere
    | some path =>
      if (Route.match? true r.method (Route.segments path)).isSome then .moved path else .nowhere

def markupText (s : String) : String :=
  String.join (s.toList.map fun c => match c with
    | '&' => "&amp;"
    | '<' => "&lt;"
    | '>' => "&gt;"
    | '"' => "&#34;"
    | '\'' => "&#39;"
    | c => c.toString)

def Reply.moved (r : Request) (path : String) : Reply :=
  let address := cleanPath (escapedPath path) ++ (if r.query = "" then "" else "?" ++ r.query)
  if r.method = "GET" then
    ⟨301, .text ("<a href=\"" ++ markupText address ++ "\">Moved Permanently</a>.\n\n")⟩
  else ⟨307, .text ""⟩

end BlockProgram.Web
