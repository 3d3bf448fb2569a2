/-! Rules that values of records must keep, such as being given at all. -/
namespace BlockProgram

/-- The wording for a field of a record that breaks a rule. `path` leads to the field from the
outermost record. -/
def ruleMessage (path field rule : String) : String :=
  "Key: '" ++ path ++ "' Error:Field validation for '" ++ field ++ "' failed on the '" ++ rule ++
    "' tag"

end BlockProgram
