/-! What a user may choose about a generated program. -/
namespace BlockProgram

/-- The choices. The three hooks are templates of code in which `%1` stands for the quoted id of a
block; an empty one is not used. -/
structure Options where
  indent : String := "    "
  /-- Whether positions count from one. -/
  oneBasedIndex : Bool := true
  statementPrefix : String := ""
  statementSuffix : String := ""
  /-- Code at the start of every loop body. -/
  infiniteLoopTrap : String := ""
  /-- The greatest width of a comment, with its mark. -/
  commentWrap : Int := 60
deriving DecidableEq

/-- The options that are used when these are asked for: an empty indent and a width without room for
text are replaced. -/
def Options.completed (o : Options) : Options :=
  { o with
    indent := if o.indent = "" then "    " else o.indent
    commentWrap := if o.commentWrap ≤ 3 then 60 else o.commentWrap }

end BlockProgram
