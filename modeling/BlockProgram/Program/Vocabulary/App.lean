import BlockProgram.Program.Scene

/-! The user interface of an application. -/
namespace BlockProgram.Vocabulary

def appOnStart : Handler := fun s => do
  let indent := (← Emit.options).indent
  let body ← Emit.statements s "STMTS"
  let before := Text.join "\n" [
    "console::print(\"on_start\\n\");",
    "//  Build a new window",
    "let main_window = WindowDesc::new(ui_builder);",
    "//  Create application state",
    "let state = State::default();"]
  let after := Text.join "\n" [
    "//  Launch the window with the application state",
    "AppLauncher::with_window(main_window)",
    indent ++ ".use_simple_logger()",
    indent ++ ".launch(state)",
    indent ++ ".expect(\"launch failed\");",
    "//  Return success to `main()` function",
    "Ok(())"]
  return .statement (Text.join "\n" [
    "/// Will be run upon startup to launch the app",
    "#[infer_type]  //  Infer the missing types",
    "pub fn on_start() -> MynewtResult<()> \x7b",
    Text.prependLines indent before,
    body,
    Text.prependLines indent after,
    "\x7d",
    ""])

/-- The user interface. The widgets plugged into it declare themselves while they are emitted, so
their declarations are gathered afresh for every interface. -/
def appBuilder : Handler := fun s => do
  let panel ← Emit.openPanel
  match ← Emit.items s .loosest Literal.emptyText with
  | none => return .empty
  | some items =>
    let indent := (← Emit.options).indent
    let declared := (← Emit.panel panel).map (·.code)
    let body := Text.join "\n" [
      "console::print(\"Lisp UI builder\\n\"); console::flush();",
      Text.join "\n" declared,
      "",
      "//  Create a column",
      "let mut col = Column::new();",
      Text.join "\n" items,
      "//  Return the column containing the widgets",
      "col"]
    return .expression (Text.join "\n" [
      "/// Build the UI for the window",
      "fn ui_builder() -> impl Widget<State> \x7b  //  `State` is the Application State",
      Text.prependLines indent body,
      "\x7d"]) .loosest

/-- A label: its declaration is registered, and its code puts it into the column. -/
def appLabel : Handler := fun s => do
  let indent := (← Emit.options).indent
  let name := s.field "NAME"
  Emit.addWidget name (Text.join "\n" [
    "//  Create a line of text",
    "let " ++ name ++ "_text = LocalizedString::new(\"hello-counter\")",
    indent ++ ".with_arg(\"count\", on_" ++ name ++ "_show);  //  Call `on_" ++ name ++
      "_show` to get label text",
    "//  Create a label widget " ++ name,
    "let " ++ name ++ " = Label::new(" ++ name ++ "_text);"])
  return .expression (Text.join "\n" [
    "//  Add the label widget to the column, centered with padding",
    "col.add_child(",
    indent ++ "Align::centered(",
    indent ++ indent ++ "Padding::new(5.0, ",
    indent ++ indent ++ indent ++ name,
    indent ++ indent ++ ")",
    indent ++ "),",
    indent ++ "1.0",
    ");"]) .loosest

def appButton : Handler := fun s => do
  let indent := (← Emit.options).indent
  let name := s.field "NAME"
  Emit.addWidget name (Text.join "\n" [
    "//  Create a button widget " ++ name,
    "let " ++ name ++ " = Button::new(\"increment\", on_" ++ name ++ "_press);  //  Call `on_" ++
      name ++ "_press` when pressed"])
  return .expression (Text.join "\n" [
    "//  Add the button widget to the column, with padding",
    "col.add_child(",
    indent ++ "Padding::new(5.0, ",
    indent ++ indent ++ name,
    indent ++ "),",
    indent ++ "1.0",
    ");"]) .loosest

def app : Vocabulary := [
  ("on_start", ⟨appOnStart, {}⟩),
  ("app", ⟨appBuilder, {}⟩),
  ("label", ⟨appLabel, {}⟩),
  ("button", ⟨appButton, {}⟩)]

end BlockProgram.Vocabulary
