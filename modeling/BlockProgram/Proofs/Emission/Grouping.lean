import BlockProgram.Proofs.Emission.Expressions

/-! # Emitted expressions group as their blocks

The text of a value reads in one way only, and that is the tree of its blocks, up to the operands
that regroup (`Block.value_reads_as_tree`).
-/
namespace BlockProgram

/-- **The text of a value has exactly one reading, the tree of its blocks.** Whatever expression is
plugged into a socket of a block, the text that is emitted for it splits into tokens, among them no
decrement, and the only tree the grammar has for these tokens is that of the expression. -/
theorem Block.value_reads_as_tree (setting : Setting) (owner : Block) (place : Place) (name : String)
    (outer : Precedence) (e : Expression) (he : owner.operand name = .filled e) (r : Run)
    (hr : r.Good) :
    ∃ text tokens r',
      Emit.value (owner.scene .standard place) name outer setting r = (text, r') ∧ r.Follows r' ∧
      Grammar.scan text.toList = some tokens ∧ Grammar.Token.decrement ∉ tokens ∧
      (∀ t, Grammar.Reads .loosest tokens t ↔ t = e.tree r'.naming) ∧
      Grammar.readText text = some (e.tree r'.naming) := by
  obtain ⟨r', hemit, hfollows, -⟩ := owner.value_eq place outer he hr
  have hreads := e.reads_printAt outer r'.naming
  refine ⟨_, _, r', hemit, hfollows, e.scan_printAt outer r'.naming, hreads.decrement_not_mem,
    fun t => ⟨fun ht => ht.unique hreads, ?_⟩, e.readText_printAt outer r'.naming⟩
  rintro rfl
  exact hreads

def Block.simple (type : String) (fields : List (String × String)) (sockets : List (String × Block)) :
    Block :=
  .mk { id := "", type := type, fields := fields.map fun f => ⟨f.1, f.2, ""⟩ }
    (sockets.map fun s => .mk s.1 .value [s.2] [])

/-- The blocks of `a - (1 - - -2)`, in a statement that prints it. -/
def Block.nestedSigns : Block :=
  simple "text_print" [] [("TEXT", simple "math_arithmetic" [("OP", "MINUS")]
    [("A", simple "variables_get" [("VAR", "a")] []),
      ("B", simple "math_arithmetic" [("OP", "MINUS")]
        [("A", simple "math_number" [("NUM", "1")] []),
          ("B", simple "math_single" [("OP", "NEG")]
            [("NUM", simple "math_number" [("NUM", "-2")] [])])])])]

theorem Block.value_reads_as_tree_nestedSigns : ∃ text tokens r',
      Emit.value (nestedSigns.scene .standard {}) "TEXT" .loosest ({} : Generator).setting
        (({} : Generator).start {}) = (text, r') ∧
      (({} : Generator).start {}).Follows r' ∧
      Grammar.scan text.toList = some tokens ∧ Grammar.Token.decrement ∉ tokens ∧
      (∀ t, Grammar.Reads .loosest tokens t ↔ t = .binary .minus (.name (r'.naming.ofVariable "a").text)
        (.binary .minus Constant.one.tree (.signed .minus (.signed .minus Constant.two.tree)))) ∧
      Grammar.readText text = some (.binary .minus (.name (r'.naming.ofVariable "a").text)
        (.binary .minus Constant.one.tree (.signed .minus (.signed .minus Constant.two.tree)))) :=
  value_reads_as_tree _ nestedSigns {} "TEXT" .loosest
    (.binary .subtract (.reference "a") (.binary .subtract (.number .one)
      (.negate (.number { negative := true, mantissa := 2 ^ 52, exponent := -51 }))))
    rfl _ (Generator.good_start {} (List.Subset.refl _) {})

end BlockProgram
