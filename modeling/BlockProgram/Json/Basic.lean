/-! JSON values. Numbers keep their spelling and objects the order of their members, repeated ones
included, because both show in what is made of a document. -/
namespace BlockProgram

/-- A JSON value. An array that is a member of an object also keeps the text it was written with,
since a block field may hold an array and shows it as it was spelled; other arrays have no text. -/
inductive Json where
  | null
  | bool (value : Bool)
  | number (spelling : String)
  | string (value : String)
  | array (items : List Json) (source : String)
  | object (members : List (String × Json))
deriving Inhabited

namespace Json

/-- Why a text cannot be read as JSON, or a value not as what is expected in its place. -/
inductive Fault where
  | endOfText
  | badCharacter (c : Char)
  | tooDeep
  | mismatch (expected : String)
deriving DecidableEq

def Fault.message : Fault → String
  | endOfText => "unexpected end of JSON input"
  | badCharacter c => "invalid character '" ++ c.toString ++ "'"
  | tooDeep => "exceeded max depth"
  | mismatch expected => "json: cannot read the value as " ++ expected

end Json

end BlockProgram
