/-! Tables of characters. Spans of code points are told by their lengths: so many are passed over,
so many belong to a span, so many are passed over again, and so on. -/
namespace BlockProgram.Text

def inSpans : List Nat → Nat → Bool
  | gap :: length :: rest, n => gap ≤ n && (n < gap + length || inSpans rest (n - gap - length))
  | _, _ => false

end BlockProgram.Text
