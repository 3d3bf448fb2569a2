import BlockProgram.Program.Scene

/-! Pins, messages and time of a device. -/
namespace BlockProgram.Vocabulary

def deviceCoap : Handler := fun s => do
  match ← Emit.items s .loosest Literal.emptyText with
  | none => return .empty
  | some items =>
    let indent := (← Emit.options).indent
    return .expression ("coap!( @json \x7b\n" ++ Text.prependLines indent (Text.join ",\n" items) ++
      "\n\x7d)") .unaryPostfix

def deviceField : Handler := fun s => do
  let value ← Emit.value s "name" .atomic
  return .expression ("\"" ++ s.field "NAME" ++ "\": " ++ value) .loosest

def deviceForever : Handler := fun s => do
  let indent := (← Emit.options).indent
  let body ← Emit.statements s "STMTS"
  let body := if body = "" then "" else Text.prependLines indent (Text.prependLines indent body)
  return .statement ("( loop  \n" ++ body ++ " )\n")

def deviceWait : Handler := fun s =>
  let seconds := Number.parse (s.field "DURATION")
  let milliseconds := seconds.mul Number.binary64 (Number.binary64.ofInt 1000)
  return .statement ("( delay " ++ Number.format milliseconds ++ " )\n")

def deviceTogglePin : Handler := fun s =>
  return .statement ("//  Toggle the GPIO pin\ngpio::toggle(" ++ s.field "PIN" ++ ") ? ;\n")

def deviceReadPin : Handler := fun s =>
  return .expression ("gpio::read(" ++ s.field "PIN" ++ ")") .loosest

def deviceWritePin : Handler := fun s =>
  return .statement ("( pinmode " ++ s.field "PIN" ++ " :output )\n( digitalwrite " ++
    s.field "PIN" ++ " " ++ s.field "VALUE" ++ " )\n")

def device : Vocabulary := [
  ("coap", ⟨deviceCoap, {}⟩),
  ("field", ⟨deviceField, {}⟩),
  ("forever", ⟨deviceForever, {}⟩),
  ("wait", ⟨deviceWait, {}⟩),
  ("digital_toggle_pin", ⟨deviceTogglePin, {}⟩),
  ("digital_read_pin", ⟨deviceReadPin, {}⟩),
  ("digital_write_pin", ⟨deviceWritePin, {}⟩)]

end BlockProgram.Vocabulary
