import BlockProgram.Digest.Blake2b
import BlockProgram.Json.Printer
import BlockProgram.Program.Options

/-! The fingerprint of a request. Requests with the same document, format and options share it, and
what has been generated for one is kept under it for the others. -/
namespace BlockProgram

/-- A hook in the text of options; an empty one is left out. -/
def Options.hookMember (key code : String) : List (String × String) :=
  if code = "" then [] else [(key, Json.writeString code)]

def Options.json (o : Options) : String :=
  Json.writeObject ([("indent", Json.writeString o.indent),
      ("oneBasedIndex", Json.writeBool o.oneBasedIndex)] ++
    hookMember "statementPrefix" o.statementPrefix ++
    hookMember "statementSuffix" o.statementSuffix ++
    hookMember "infiniteLoopTrap" o.infiniteLoopTrap ++
    [("commentWrap", toString o.commentWrap)])

namespace Fingerprint

def format (given : String) : String := if given = "" then "json" else given

/-- What is digested: format, options and document, with zero bytes between them. -/
def preimage (given : String) (options : Options) (document : List UInt8) : List UInt8 :=
  Digest.bytesOf (format given) ++ 0 :: (Digest.bytesOf options.json ++ 0 :: document)

def ofRequest (given : String) (options : Options) (document : List UInt8) : String :=
  Digest.hex (Digest.Blake2b.digest (preimage given options document))

end Fingerprint

end BlockProgram
