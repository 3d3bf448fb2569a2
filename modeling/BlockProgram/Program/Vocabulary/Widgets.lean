import BlockProgram.Program.Vocabulary.Procedures

/-! Callbacks of widgets, and calls into the system. -/
namespace BlockProgram.Vocabulary

/-- A name with the path of its module: two underscores separate the parts of a path. -/
def widgetName (name : String) : String := Text.replaceAll name "__" "::"

def hasPath : List Char → Bool
  | ':' :: ':' :: _ => true
  | _ :: cs => hasPath cs
  | [] => false

/-- The name of the function that is called for an event of a widget. -/
def callbackName (widget event : String) : String := "on_" ++ widget ++ "_" ++ event

/-- The function of the callback of a widget with the given identifier: its name and its text. It
shows a label if it gives a value, or else is called when a button is pressed. A callback that
belongs to the system has none. -/
def callbackFunction (s : Scene) (widget : String) : Emit (Option (String × String)) := do
  let o ← Emit.options
  let body ← Emit.statements s "STACK"
  let body := Emit.hook o.infiniteLoopTrap s.data ++
    Emit.indentedHook o.indent o.statementPrefix s.data ++ body
  let value ← Emit.value s "RETURN" .loosest
  let shows := value ≠ ""
  let event := if shows then "show" else "press"
  let type := if shows then "ArgValue" else "()"
  let description :=
    if shows then
      "/// Callback function that will be called to create the formatted text for the label `" ++
        widget ++ "`"
    else
      "/// Callback function that will be called when the button `" ++ widget ++ "` is pressed"
  let result := if shows then value else "()"
  let name := widgetName (callbackName widget event)
  if hasPath name.toList then return none
  let params ← parameterNames s
  let code := description ++ "\n" ++
    "#[infer_type]  //  Infer the missing types\n" ++
    "fn " ++ name ++ "(" ++ Text.join ", " (params.map (· ++ ": _")) ++ ") -> MynewtResult<" ++ type ++
    "> \x7b\n" ++
    o.indent ++ "console::print(\"" ++ name ++ "\\n\");\n" ++
    body ++
    o.indent ++ "Ok(" ++ result ++ ")\n" ++
    "\x7d"
  let code ← Emit.withNeighbours s code
  return some (name, code)

def widgetCallback : Handler := fun s => do
  let widget ← Emit.procedureName (s.field "NAME")
  let function ← callbackFunction s widget
  storeFunction function

/-- A call into the system that gives a value. The callback of a listener is passed by name, and the
id of a device by reference. -/
def widgetCallReturn : Handler := fun s => do
  let name ← Emit.procedureName (s.field "NAME")
  let name := widgetName name
  let args ← arguments s
  let args :=
    if name = "sensor::new_sensor_listener" then
      args.zipIdx.map fun (a, i) => if i = 2 then Text.replaceAll a "\"" "" else a
    else args
  let code := name ++ "(" ++ Text.join ", " args ++ ") ? "
  return .expression (if name = "sensor_network::get_device_id" then "&" ++ code else code)
    .unaryPostfix

def widgetCallNoReturn : Handler := fun s => do
  let name ← Emit.procedureName (s.field "NAME")
  let args ← arguments s
  return .statement (widgetName name ++ "(" ++ Text.join ", " args ++ ") ? ;\n")

def widgetIfReturn : Handler := fun s => do
  let o ← Emit.options
  let condition ← Emit.valueOrElse s "CONDITION" .loosest "false"
  let returned ←
    if s.data.mutation.hasReturnValue then do
      let value ← Emit.valueOrElse s "VALUE" .loosest "null"
      pure (o.indent ++ "return " ++ value ++ ";\n")
    else pure (o.indent ++ "return;\n")
  return .statement ("if " ++ condition ++ " \x7b\n" ++ returned ++ "\x7d\n")

def widgets : Vocabulary := [
  ("widgets_defreturn", ⟨widgetCallback, { ownHooks := true, definesProcedure := true }⟩),
  ("widgets_defnoreturn", ⟨widgetCallback, { ownHooks := true, definesProcedure := true }⟩),
  ("widgets_callreturn", ⟨widgetCallReturn, {}⟩),
  ("widgets_callnoreturn", ⟨widgetCallNoReturn, {}⟩),
  ("widgets_ifreturn", ⟨widgetIfReturn, {}⟩)]

end BlockProgram.Vocabulary
