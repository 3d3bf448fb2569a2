import BlockProgram.Service.Fingerprint
import BlockProgram.Service.ResultText
import BlockProgram.Service.ValueCache
import BlockProgram.Workspace.Check
import BlockProgram.Workspace.Load

/-! Generating programs on request. Results may be kept in a cache and fresh ones announced. Neither
is needed: a cache that fails is passed over, and so is an announcement that does not get
through. -/
namespace BlockProgram

/-- Changes some options as the members of a JSON value say. -/
def Options.override (o : Options) : Json → Except Json.Fault Options :=
  Json.takeMembers (fun key v o =>
    match key with
    | "indent" => (Json.takeString o.indent v).map ({ o with indent := · })
    | "onebasedindex" => (Json.takeBool o.oneBasedIndex v).map ({ o with oneBasedIndex := · })
    | "statementprefix" => (Json.takeString o.statementPrefix v).map ({ o with statementPrefix := · })
    | "statementsuffix" => (Json.takeString o.statementSuffix v).map ({ o with statementSuffix := · })
    | "infinitelooptrap" =>
      (Json.takeString o.infiniteLoopTrap v).map ({ o with infiniteLoopTrap := · })
    | "commentwrap" => (Json.takeInt o.commentWrap v).map ({ o with commentWrap := · })
    | _ => .ok o) o

/-- Whether options may be asked for: comments are at least ten columns wide, zero standing for the
default. -/
def Options.acceptable (o : Options) : Bool := o.commentWrap = 0 || 10 ≤ o.commentWrap

namespace Service

structure Order where
  format : String := ""
  document : List UInt8
  /-- Options in place of those of the service. -/
  options : Option Options := none
  /-- JSON text with options to change. -/
  overrides : String := ""

inductive Refusal where
  | unreadableOptions (fault : Json.Fault)
  | unacceptableOptions
  | document (error : LoadError)
  | invalid (problems : List Problem)
  | failure (failure : Failure)

namespace Refusal

def isInvalidDocument : Refusal → Bool
  | failure _ => false
  | document (.breakdown _) => false
  | _ => true

/-- The wording without what is common to bad requests. -/
def detail : Refusal → String
  | unreadableOptions f => "options: " ++ f.message
  | unacceptableOptions => "options: " ++ ruleMessage "Options.CommentWrap" "CommentWrap" "min"
  | document e => e.message
  | invalid ps => Problem.messages ps
  | failure f => if f.kind = .abort then "generation failed: " ++ f.message else f.message

def message (r : Refusal) : String :=
  if r.isInvalidDocument then "invalid workspace document: " ++ r.detail else r.detail

end Refusal

structure Delivery where
  result : Result
  digest : String
  cached : Bool := false
deriving DecidableEq

structure Announcement where
  digest : String
  format : String
  bytes : Int
  definitions : Int
deriving DecidableEq

/-- What stands behind the service: a cache and a record of announcements tried, each with whether
it got through. Either may be missing. -/
structure Backends where
  cache : Option ValueCache := none
  announced : Option (List (Announcement × Bool)) := none

structure Conditions where
  readFails : Bool := false
  writeFails : Bool := false
  announceFails : Bool := false
deriving DecidableEq

namespace Backends

def lookup (b : Backends) (c : Conditions) (key : String) : Option Result :=
  if c.readFails then none
  else b.cache.bind fun cache => (cache.getWith Result.ofJson key).toOption.join

def keep (b : Backends) (c : Conditions) (key : String) (r : Result) : Backends :=
  if c.writeFails then b
  else
    { b with cache := b.cache.map fun cache => (cache.keep key r.json.compact).toOption.getD cache }

def announce (b : Backends) (c : Conditions) (a : Announcement) : Backends :=
  { b with announced := b.announced.map (· ++ [(a, !c.announceFails)]) }

end Backends

end Service

/-- A service: the blocks it knows and the options it starts from. -/
structure Service where
  vocabulary : Vocabulary := Vocabulary.standard
  defaults : Options := {}

namespace Service

def overridesText? (text : String) : Option String :=
  let t := Text.trim text
  if t = "" || t = "null" then none else some t

/-- The options an order asks for, as they will be used. The defaults are taken as they are;
anything else must be acceptable. -/
def optionsFor (s : Service) (order : Order) : Except Refusal Options :=
  match order.options, overridesText? order.overrides with
  | none, none => .ok s.defaults.completed
  | given, overrides =>
    let base := given.getD s.defaults
    let changed : Except Json.Fault Options := match overrides with
      | none => .ok base
      | some text => Json.read text >>= base.override
    match changed with
    | .error f => .error (.unreadableOptions f)
    | .ok o => if o.acceptable then .ok o.completed else .error .unacceptableOptions

def generator (s : Service) (options : Options) : Generator :=
  { vocabulary := s.vocabulary, options := options }

def loadChecked (format : String) (document : List UInt8) (label : String) (ids : Ids) :
    Except Refusal Workspace × Ids :=
  match Workspace.load format document label ids with
  | (.error e, ids) => (.error (.document e), ids)
  | (.ok w, ids) => (if w.problems.isEmpty then .ok w else .error (.invalid w.problems), ids)

def produce (s : Service) (options : Options) (order : Order) (ids : Ids) :
    Except Refusal Result × Ids :=
  match loadChecked order.format order.document "request" ids with
  | (.error r, ids) => (.error r, ids)
  | (.ok w, ids) =>
    match (s.generator options).generate w with
    | .error f => (.error (.failure f), ids)
    | .ok r => (.ok r, ids)

def cacheKey (digest : String) : String := "gen:" ++ digest

def announcement (order : Order) (digest : String) (r : Result) : Announcement :=
  { digest := digest, format := order.format, bytes := r.code.utf8ByteSize
    definitions := r.definitions.length }

/-- Answers an order: from the cache if the program is there, else with a fresh program, which is
kept and announced. -/
def generate (s : Service) (c : Conditions) (b : Backends) (ids : Ids) (order : Order) :
    Except Refusal Delivery × Backends × Ids :=
  match s.optionsFor order with
  | .error r => (.error r, b, ids)
  | .ok options =>
    let digest := Fingerprint.ofRequest order.format options order.document
    match b.lookup c (cacheKey digest) with
    | some r => (.ok { result := r, digest := digest, cached := true }, b, ids)
    | none =>
      match s.produce options order ids with
      | (.error r, ids) => (.error r, b, ids)
      | (.ok r, ids) =>
        (.ok { result := r, digest := digest },
          (b.keep c (cacheKey digest) r).announce c (announcement order digest r), ids)

end Service

end BlockProgram
