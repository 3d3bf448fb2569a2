import BlockProgram.Proofs.Emission.Steps

/-! # The text of blocks that stand for an expression

A block that stands for an expression is emitted as the text of that expression
(`Block.gives_fragment`).  The induction follows the sockets: the slots of a scene hold the operands
of the block (`Scene.Holds`), and each handler turns operands into the expression of the block.
-/
namespace BlockProgram

open Vocabulary Option BlockKind Expression

variable {setting : Setting}

namespace Expression

def fragment (e : Expression) (ν : Naming) : Fragment := .expression (e.print ν) e.precedence

def printAt (e : Expression) (outer : Precedence) (ν : Naming) : String :=
  Precedence.enclose (e.print ν) e.precedence outer

theorem print_ne_empty (e : Expression) (ν : Naming) : e.print ν ≠ "" :=
  (e.code ν).opens.ne_empty

theorem printAt_ne_empty (e : Expression) (outer : Precedence) (ν : Naming) : e.printAt outer ν ≠ "" :=
  (opens_enclose (e.code ν).opens e.precedence outer).ne_empty

end Expression

/-- The step emits an expression, with identifiers for its variables. -/
def Emits (setting : Setting) (x : Emit Fragment) (e : Expression) : Prop :=
  Gives setting x e.variables e.fragment

theorem Gives.emits {x : Emit Fragment} {vars : List String} {f : Naming → Fragment} {e : Expression}
    (h : Gives setting x vars f) (hvars : e.variables ⊆ vars) (hf : ∀ ν, f ν = .expression (e.print ν) e.precedence) :
    Emits setting x e :=
  (h.congr hf).mono hvars

/-! ### Values in sockets -/

/-- The slot emits this operand. -/
def Slot.Holds (setting : Setting) (slot : Slot) : Operand → Prop
  | .missing => slot.target = [] ∨ Gives setting slot.code [] fun _ => .empty
  | .filled e => slot.target ≠ [] ∧ Emits setting slot.code e
  | .foreign => True

/-- The sockets of the scene hold these operands. -/
def Scene.Holds (setting : Setting) (s : Scene) (operand : String → Operand) : Prop :=
  ∀ name, match s.slot? name with
    | some slot => slot.Holds setting (operand name)
    | none => operand name = .missing

def Fragment.enclosed (outer : Precedence) : Fragment → String
  | .expression text precedence => Precedence.enclose text precedence outer
  | _ => ""

def Operand.variables : Operand → List String
  | .filled e => e.variables
  | _ => []

/-- The text of the value in a socket, which is empty if nothing is there. -/
def Operand.textAt (outer : Precedence) (ν : Naming) : Operand → String
  | .filled e => e.printAt outer ν
  | _ => ""

namespace Scene

variable {s : Scene} {operand : String → Operand} {name : String} {e : Expression}

theorem Holds.gives_missing (h : s.Holds setting operand) (hname : operand name = .missing)
    (outer : Precedence) : Gives setting (Emit.value s name outer) [] fun _ => "" := by
  have hslot := h name
  unfold Emit.value
  split
  · exact .pure _
  · rename_i slot heq
    rw [heq, hname] at hslot
    split
    · exact .pure _
    · rename_i first rest htarget
      have hcode : Gives setting slot.code [] fun _ => .empty :=
        hslot.resolve_left (by rw [htarget]; exact List.cons_ne_nil _ _)
      exact .bind_const gives_failed (.bind_const hcode (.bind_const gives_failed (.pure _)))

theorem Holds.gives_filled (h : s.Holds setting operand) (hname : operand name = .filled e)
    (outer : Precedence) : Gives setting (Emit.value s name outer) e.variables (e.printAt outer) := by
  have hslot := h name
  unfold Emit.value
  split
  · rename_i heq
    rw [heq, hname] at hslot
    cases hslot
  · rename_i slot heq
    rw [heq, hname] at hslot
    split
    · rename_i htarget
      exact absurd htarget hslot.1
    · refine .bind_const gives_failed (.bind_pure (Fragment.enclosed outer) hslot.2
        fun ν => .bind_const gives_failed ?_)
      exact .congr (.pure _) fun _ => if_neg (e.print_ne_empty ν)

theorem Holds.gives_value (h : s.Holds setting operand) (hname : operand name ≠ .foreign)
    (outer : Precedence) :
    Gives setting (Emit.value s name outer) (operand name).variables fun ν =>
      (operand name).textAt outer ν := by
  cases hoperand : operand name with
  | missing => exact h.gives_missing hoperand outer
  | filled e => exact h.gives_filled hoperand outer
  | foreign => exact absurd hoperand hname

theorem Holds.gives_valueOrElse (h : s.Holds setting operand) {default : Expression}
    (hname : (operand name).orElse? default = some e) (hdefault : default.variables = [])
    {outer : Precedence} {fallback : String} (hfallback : ∀ ν, default.printAt outer ν = fallback) :
    Gives setting (Emit.valueOrElse s name outer fallback) e.variables (e.printAt outer) := by
  unfold Emit.valueOrElse
  cases hoperand : operand name with
  | missing =>
    rw [hoperand] at hname
    cases hname
    rw [hdefault]
    exact .congr (.bind_const (h.gives_missing hoperand outer) (.pure _)) fun ν => (hfallback ν).symm
  | filled e' =>
    rw [hoperand] at hname
    cases hname
    refine .bind_pure id (h.gives_filled hoperand outer) fun ν => ?_
    exact .congr (.pure _) fun _ => if_neg (e.printAt_ne_empty outer ν)
  | foreign =>
    rw [hoperand] at hname
    cases hname

end Scene

/-! ### The text of an expression, piece by piece -/

namespace Expression

variable (ν : Naming)

theorem enclose_code (e : Expression) (outer : Precedence) :
    Precedence.enclose (e.code ν).print (e.code ν).precedence outer = e.printAt outer ν := by
  rw [code_precedence]
  rfl

theorem print_binary (op : Operation) (a b : Expression) :
    (binary op a b).print ν = a.printAt op.left ν ++ op.spelling ++ b.printAt op.right ν := by
  rw [← enclose_code, ← enclose_code]
  rfl

theorem print_divisible (a b : Expression) :
    (divisible a b).print ν = a.printAt .multiplicative ν ++ " % " ++
      b.printAt Precedence.multiplicative.tighter ν ++ " == 0" := by
  rw [← enclose_code, ← enclose_code]
  exact String.append_assoc

theorem print_constrain (v l h : Expression) :
    (constrain v l h).print ν = "Math.min(Math.max(" ++ v.printAt .loosest ν ++ ", " ++
      l.printAt .loosest ν ++ "), " ++ h.printAt .loosest ν ++ ")" := by
  rw [← enclose_code, ← enclose_code, ← enclose_code]
  show "Math.min(" ++ ("Math.max(" ++ _ ++ ", " ++ _ ++ ")") ++ ", " ++ _ ++ ")" = _
  have hopen : "Math.min(Math.max(" = "Math.min(" ++ "Math.max(" := rfl
  have hclose : "), " = ")" ++ ", " := rfl
  rw [hopen, hclose]
  simp only [String.append_assoc]

theorem print_length (a : Expression) : (length a).print ν = a.printAt .unaryPostfix ν ++ ".length" := by
  rw [← enclose_code]
  exact String.append_assoc

theorem property?_eq {field : String} {p : NumberProperty} (h : NumberProperty.ofField? field = some p)
    (a : Expression) :
    property? field (a.printAt .multiplicative ν) = some ((property p a).print ν) := by
  rw [← NumberProperty.field_of_ofField? h, ← enclose_code]
  cases p with
  | even | odd | whole =>
    show _ = some (_ ++ " % " ++ _ ++ " == " ++ _)
    simp only [String.append_assoc]
    rfl
  | positive =>
    show _ = some (_ ++ " > " ++ "0")
    rw [String.append_assoc]
    rfl
  | negative =>
    show _ = some (_ ++ " < " ++ "0")
    rw [String.append_assoc]
    rfl

theorem single?_eq {field : String} {f : MathFunction} (h : MathFunction.ofField? field = some f)
    (a : Expression) : single? field (a.printAt (singleOperand field) ν) =
      some ((function f a).print ν, f.precedence) := by
  rw [← MathFunction.field_of_ofField? h, ← enclose_code]
  cases f with
  | absolute | round | roundUp | roundDown =>
    show _ = some (_ ++ "." ++ _ ++ "()", _)
    simp only [String.append_assoc]
    rfl
  | root | logarithm | exponential | powerOfTen => rfl
  | sine | cosine | tangent =>
    show _ = some (_ ++ (_ ++ " / " ++ "180" ++ " * " ++ "Math.pi") ++ ")", _)
    simp only [String.append_assoc]
    rfl
  | commonLogarithm =>
    show _ = some (_ ++ _ ++ ")" ++ " / " ++ "Math.log(10)", _)
    simp only [String.append_assoc]
    rfl
  | arcsine | arccosine | arctangent =>
    show _ = some (_ ++ _ ++ ")" ++ " / " ++ "Math.pi" ++ " * " ++ "180", _)
    simp only [String.append_assoc]
    rfl

end Expression

/-! ### Handlers -/

theorem Constant.lt_zero (c : Constant) : c.value.lt .zero = c.isNegative := by
  unfold Constant.value Constant.isNegative Number.Floating.lt Number.Floating.compare?
    Number.Floating.zero Number.Floating.sign
  by_cases hm : c.mantissa = 0
  · simp [hm]
  · have hne : (c.mantissa != 0) = true := bne_iff_ne.mpr hm
    rw [hne]
    cases c.negative <;> simp [hm] <;> decide

theorem Operation.arithmetic?_eq {field : String} {op : Operation} (h : Operation.arithmetic? field = some op) :
    Vocabulary.arithmetic? field = some ⟨op.spelling, op.left, op.right⟩ ∧
      op.precedence = op.left ∧ op.spelling ≠ "" := by
  unfold Operation.arithmetic? at h
  split at h <;> cases h <;> exact ⟨rfl, rfl, by decide⟩

theorem Operation.comparison?_eq {field : String} {op : Operation}
    (h : Operation.comparison? field = some op) :
    ∃ symbol, Vocabulary.comparison? field = some symbol ∧ op.spelling = " " ++ symbol ++ " " ∧
      (if symbol = "==" || symbol = "!=" then Precedence.equality else .relational) = op.precedence ∧
      op.left = op.precedence.tighter ∧ op.right = op.precedence.tighter := by
  unfold Operation.comparison? at h
  split at h <;> cases h <;> exact ⟨_, rfl, rfl, rfl, rfl, rfl⟩

theorem printAt_zero {outer : Precedence} (h : 0 ≤ outer.rank) (ν : Naming) : zero.printAt outer ν = "0" :=
  if_neg (show ¬ outer.rank < 0 by omega)

namespace BlockKind

def handler : BlockKind → Handler
  | number => mathNumber
  | reference => variableGet
  | text => textLiteral
  | boolean => logicBoolean
  | null => logicNull
  | arithmetic => mathArithmetic
  | modulo => mathModulo
  | single => mathSingle
  | property => mathNumberProperty
  | constrain => mathConstrain
  | compare => logicCompare
  | operation => logicOperation
  | negate => logicNegate
  | ternary => logicTernary
  | listLength => listsLength
  | textLength => Vocabulary.textLength

theorem get?_standard {type : String} {k : BlockKind} (h : ofType? type = some k) :
    standard.get? type = some ⟨k.handler, {}⟩ := by
  unfold ofType? at h
  split at h <;> cases h <;> rfl

end BlockKind

namespace Scene.Holds

variable {s : Scene} {operand : String → Operand} {e : Expression}

theorem gives_number (he : number.expression? s.data operand = some e) : Emits setting (mathNumber s) e := by
  simp only [expression?, map_eq_some_iff] at he
  obtain ⟨c, hc, rfl⟩ := he
  have hparse : Number.parse (s.field "NUM") = c.value := Constant.parse_of_parse? hc
  unfold mathNumber
  rw [hparse]
  show Gives setting (if c.value.lt .zero then _ else _) _ _
  rw [c.lt_zero]
  have hprecedence : (number c).precedence =
      if c.isNegative then .unaryPrefix else .atomic := rfl
  unfold fragment
  rw [hprecedence]
  split <;> exact .pure _

theorem gives_reference (he : reference.expression? s.data operand = some e) :
    Emits setting (variableGet s) e := by
  cases he
  exact .bind (gives_variableName _) fun _ => .pure _

theorem gives_boolean (he : boolean.expression? s.data operand = some e) :
    Emits setting (logicBoolean s) e := by
  cases he
  refine .emits (.pure _) (by simp) fun ν => ?_
  unfold Scene.field
  by_cases h : s.data.fieldValue "BOOL" = "TRUE" <;> simp [h] <;> exact ⟨rfl, rfl⟩

theorem gives_arithmetic (h : s.Holds setting operand) (he : arithmetic.expression? s.data operand = some e) :
    Emits setting (mathArithmetic s) e := by
  simp only [expression?, bind_eq_bind, bind_eq_some_iff] at he
  obtain ⟨a, ha, b, hb, he⟩ := he
  unfold BlockKind.arithmetic? at he
  unfold mathArithmetic Scene.field
  split at he
  · rename_i hop
    cases he
    rw [hop]
    refine .emits (.bind (h.gives_valueOrElse ha rfl fun _ => rfl) fun _ =>
      .bind (h.gives_valueOrElse hb rfl fun _ => rfl) fun _ =>
      .bind_const (gives_define _ _) (.pure _)) (by simp) fun ν => ?_
    simp only [← enclose_code]
    rfl
  · obtain ⟨op, hop, rfl⟩ := map_eq_some_iff.mp he
    obtain ⟨heq, hprecedence, hspelling⟩ := Operation.arithmetic?_eq hop
    obtain ⟨hleft, hright⟩ := op.operand_nonneg
    rw [heq]
    simp only [if_neg hspelling]
    refine .emits (.bind (h.gives_valueOrElse ha rfl (printAt_zero hleft)) fun _ =>
      .bind (h.gives_valueOrElse hb rfl (printAt_zero hright)) fun _ => .pure _) (by simp) fun ν => ?_
    rw [print_binary, ← hprecedence]
    rfl

theorem gives_modulo (h : s.Holds setting operand) (he : modulo.expression? s.data operand = some e) :
    Emits setting (mathModulo s) e := by
  simp only [expression?, bind_eq_bind, bind_eq_some_iff, pure_def, some.injEq] at he
  obtain ⟨a, ha, b, hb, rfl⟩ := he
  refine .emits (.bind (h.gives_valueOrElse ha rfl fun _ => rfl) fun _ =>
    .bind (h.gives_valueOrElse hb rfl fun _ => rfl) fun _ => .pure _) (by simp) fun ν => ?_
  rw [print_binary]
  rfl

theorem gives_single (h : s.Holds setting operand) (he : single.expression? s.data operand = some e) :
    Emits setting (mathSingle s) e := by
  simp only [expression?, bind_eq_bind, bind_eq_some_iff] at he
  obtain ⟨a, ha, he⟩ := he
  unfold BlockKind.single? at he
  unfold mathSingle Scene.field
  split at he
  · rename_i hop
    cases he
    rw [hop]
    refine .emits (.bind (h.gives_valueOrElse ha rfl fun _ => rfl) fun _ => .pure _) (by simp) fun ν => ?_
    simp only [← enclose_code]
    rfl
  · rename_i hop
    obtain ⟨f, hf, rfl⟩ := map_eq_some_iff.mp he
    rw [if_neg hop]
    have hfallback (ν : Naming) : zero.printAt (singleOperand (s.data.fieldValue "OP")) ν = "0" := by
      refine printAt_zero ?_ ν
      unfold singleOperand
      split
      · decide
      · split <;> decide
    let code (text : String) : Fragment :=
      (single? (s.data.fieldValue "OP") text).elim .empty fun c => .expression c.1 c.2
    refine .bind_const (gives_define _ _)
      (.congr (.bind_pure code (h.gives_valueOrElse ha rfl hfallback) fun ν => ?_) fun ν => ?_)
    · dsimp only [code]
      rw [single?_eq _ hf]
      exact .pure _
    · dsimp only [code]
      rw [single?_eq _ hf]
      rfl

theorem gives_filled_bind {α : Type} (h : s.Holds setting operand) {name : String}
    (hname : operand name = .filled e) {outer : Precedence} {g : String → Emit α}
    {f : String → Naming → α} {missing : Emit α} {vars : List String}
    (hg : ∀ text, Gives setting (g text) vars (f text)) :
    Gives setting (Emit.value s name outer >>= fun text => if text = "" then missing else g text)
      (e.variables ++ vars) fun ν => f (e.printAt outer ν) ν := by
  refine .bind_image f (h.gives_filled hname outer) fun ν => ?_
  rw [if_neg (e.printAt_ne_empty outer ν)]
  exact hg _

theorem gives_property (h : s.Holds setting operand) (he : property.expression? s.data operand = some e) :
    Emits setting (mathNumberProperty s) e := by
  unfold expression? at he
  unfold mathNumberProperty Scene.field
  dsimp only at he
  split at he
  · rename_i hnumber
    cases he
    exact .bind_const (h.gives_missing hnumber _) (.pure _)
  · rename_i a hnumber
    unfold BlockKind.property? at he
    split at he
    · rename_i hprime
      cases he
      rw [hprime]
      refine .emits (h.gives_filled_bind hnumber fun _ => .bind_const (gives_define _ _)
        (.bind (gives_addHelper _ _) fun _ => .pure _)) (by simp) fun ν => ?_
      simp only [← enclose_code]
      rfl
    · split at he
      · rename_i hdivisible
        rw [hdivisible]
        split at he
        · rename_i hdivisor
          cases he
          refine .emits (h.gives_filled_bind hnumber fun _ =>
            .bind_const (h.gives_missing hdivisor _) (.pure _)) (by simp) fun ν => rfl
        · rename_i b hdivisor
          cases he
          refine .emits (h.gives_filled_bind hnumber fun _ =>
            h.gives_filled_bind hdivisor fun _ => .pure _) (by simp) fun ν => ?_
          rw [print_divisible]
          rfl
        · cases he
      · obtain ⟨p, hp, rfl⟩ := map_eq_some_iff.mp he
        let code (text : String) : Fragment :=
          (property? (s.data.fieldValue "PROPERTY") text).elim .empty
            fun code => .expression code .equality
        refine .emits (.bind_pure code (h.gives_filled hnumber _) fun ν => ?_) (by simp) fun ν => ?_
        · rw [if_neg (a.printAt_ne_empty _ ν)]
          dsimp only [code]
          split
          · contradiction
          · contradiction
          · rw [property?_eq _ hp]
            exact .pure _
        · dsimp only [code]
          rw [property?_eq _ hp]
          rfl
  · cases he

theorem gives_constrain (h : s.Holds setting operand) (he : constrain.expression? s.data operand = some e) :
    Emits setting (mathConstrain s) e := by
  simp only [expression?, bind_eq_bind, bind_eq_some_iff, pure_def, some.injEq] at he
  obtain ⟨v, hv, l, hl, u, hu, rfl⟩ := he
  refine .emits (.bind_const (gives_define _ _) (.bind (h.gives_valueOrElse hv rfl fun _ => rfl) fun _ =>
    .bind (h.gives_valueOrElse hl rfl fun _ => rfl) fun _ =>
    .bind (h.gives_valueOrElse hu rfl fun _ => rfl) fun _ => .pure _)) (by simp) fun ν => ?_
  rw [print_constrain]
  rfl

theorem gives_compare (h : s.Holds setting operand) (he : compare.expression? s.data operand = some e) :
    Emits setting (logicCompare s) e := by
  simp only [expression?, bind_eq_bind, bind_eq_some_iff, map_eq_some_iff] at he
  obtain ⟨a, ha, b, hb, op, hop, rfl⟩ := he
  obtain ⟨symbol, hsymbol, hspelling, hprecedence, hleft, hright⟩ := Operation.comparison?_eq hop
  have hnonneg := op.operand_nonneg
  unfold logicCompare Scene.field
  rw [hsymbol]
  dsimp only
  rw [hprecedence]
  refine .emits (.bind (h.gives_valueOrElse ha rfl (printAt_zero (hleft ▸ hnonneg.1))) fun _ =>
    .bind (h.gives_valueOrElse hb rfl (printAt_zero (hleft ▸ hnonneg.1))) fun _ => .pure _)
    (by simp) fun ν => ?_
  rw [print_binary, hspelling, hleft, hright]
  simp only [String.append_assoc]
  rfl

/-- Texts of two operands with literals for those that are missing, as `logicOperation` fills them
in. -/
def completed (isAnd : Bool) (a b : String) : String × String :=
  let neutral := if isAnd then "true" else "false"
  if a = "" && b = "" then ("false", "false")
  else (if a = "" then neutral else a, if b = "" then neutral else b)

/-- The code of a conjunction or a disjunction of two such texts. -/
def joined (isAnd : Bool) (symbol : String) (p : Precedence) (a b : String) : Fragment :=
  let (a, b) := completed isAnd a b
  .expression (a ++ " " ++ symbol ++ " " ++ b) p

theorem printAt_boolean (b : Bool) {outer : Precedence} (h : 0 ≤ outer.rank) (ν : Naming) :
    (boolean b).printAt outer ν = if b then "true" else "false" := by
  have hbare : (boolean b).printAt outer ν = (boolean b).print ν :=
    if_neg (show ¬ outer.rank < 0 by omega)
  rw [hbare]
  cases b <;> rfl

theorem operation?_eq_some {isAnd : Bool} {a b : Operand} (he : operation? isAnd a b = some e) :
    a ≠ .foreign ∧ b ≠ .foreign ∧ ∃ x y, e = .binary (operation?.op isAnd) x y ∧
      e.variables ⊆ a.variables ++ b.variables ∧ ∀ (p : Precedence) (ν : Naming), 0 ≤ p.rank →
        completed isAnd (a.textAt p ν) (b.textAt p ν) = (x.printAt p ν, y.printAt p ν) := by
  have hne (e : Expression) (p : Precedence) (ν : Naming) : (e.printAt p ν = "") = False :=
    eq_false (e.printAt_ne_empty p ν)
  cases a <;> cases b <;> cases he
  all_goals
    refine ⟨nofun, nofun, _, _, rfl, by simp [Expression.variables, Operand.variables], fun p ν hp => ?_⟩
    simp [completed, Operand.textAt, hne, printAt_boolean _ hp]

theorem gives_operation (h : s.Holds setting operand) (he : operation.expression? s.data operand = some e) :
    Emits setting (logicOperation s) e := by
  obtain ⟨hA, hB, x, y, rfl, hvars, htexts⟩ := operation?_eq_some he
  have hcode (isAnd : Bool) (symbol : String) (p : Precedence) :
      Gives setting (Emit.value s "A" p >>= fun a => Emit.value s "B" p >>= fun b =>
        pure (joined isAnd symbol p a b)) ((operand "A").variables ++ (operand "B").variables) fun ν =>
          joined isAnd symbol p ((operand "A").textAt p ν) ((operand "B").textAt p ν) :=
    .mono (.bind (h.gives_value hA _) fun _ => .bind (h.gives_value hB _) fun _ => .pure _) (by simp)
  unfold logicOperation Scene.field
  by_cases hop : s.data.fieldValue "OP" = "AND"
  · simp only [hop, decide_true] at htexts ⊢
    refine (hcode true "&&" .logicalAnd).emits hvars fun ν => ?_
    unfold joined
    rw [htexts _ ν (by decide), print_binary]
    simp only [String.append_assoc]
    rfl
  · simp only [hop, decide_false, if_false] at htexts ⊢
    refine (hcode false "||" .logicalOr).emits hvars fun ν => ?_
    unfold joined
    rw [htexts _ ν (by decide), print_binary]
    simp only [String.append_assoc]
    rfl

theorem gives_negate (h : s.Holds setting operand) (he : negate.expression? s.data operand = some e) :
    Emits setting (logicNegate s) e := by
  simp only [expression?, bind_eq_bind, bind_eq_some_iff, pure_def, some.injEq] at he
  obtain ⟨a, ha, rfl⟩ := he
  refine .emits (.bind (h.gives_valueOrElse ha rfl fun _ => rfl) fun _ => .pure _) (by simp) fun ν => ?_
  simp only [← enclose_code]
  rfl

theorem gives_ternary (h : s.Holds setting operand) (he : ternary.expression? s.data operand = some e) :
    Emits setting (logicTernary s) e := by
  simp only [expression?, bind_eq_bind, bind_eq_some_iff, pure_def, some.injEq] at he
  obtain ⟨c, hc, y, hy, n, hn, rfl⟩ := he
  refine .emits (.bind (h.gives_valueOrElse hc rfl fun _ => rfl) fun _ =>
    .bind (h.gives_valueOrElse hy rfl fun _ => rfl) fun _ =>
    .bind (h.gives_valueOrElse hn rfl fun _ => rfl) fun _ => .pure _) (by simp) fun ν => ?_
  simp only [← enclose_code]
  rfl

/-- Lengths of lists and of texts differ in what counts for a missing one. -/
theorem gives_length (h : s.Holds setting operand) {default : Expression} {fallback : String}
    (hdefault : default.variables = []) (hfallback : ∀ ν, default.printAt .unaryPostfix ν = fallback)
    (he : (((operand "VALUE").orElse? default).bind fun a => some (.length a)) = some e) :
    Emits setting (do
      let value ← Emit.valueOrElse s "VALUE" .unaryPostfix fallback
      return .expression (value ++ ".length") .unaryPostfix) e := by
  obtain ⟨a, ha, he⟩ := bind_eq_some_iff.mp he
  obtain rfl := some.inj he
  refine .emits (.bind (h.gives_valueOrElse ha hdefault hfallback) fun _ => .pure _) (by simp) fun ν => ?_
  rw [print_length]
  rfl

/-- Every handler turns its operands into the expression of the block. -/
theorem gives_handler (h : s.Holds setting operand) {k : BlockKind}
    (he : k.expression? s.data operand = some e) : Emits setting (k.handler s) e := by
  cases k with
  | number => exact gives_number he
  | reference => exact gives_reference he
  | text => cases he; exact .pure _
  | boolean => exact gives_boolean he
  | null => cases he; exact .pure _
  | arithmetic => exact h.gives_arithmetic he
  | modulo => exact h.gives_modulo he
  | single => exact h.gives_single he
  | property => exact h.gives_property he
  | constrain => exact h.gives_constrain he
  | compare => exact h.gives_compare he
  | operation => exact h.gives_operation he
  | negate => exact h.gives_negate he
  | ternary => exact h.gives_ternary he
  | listLength | textLength => exact h.gives_length rfl (fun _ => rfl) he

end Scene.Holds

/-! ### Blocks -/

theorem gives_dispatch_disabled {s : Scene} (h : s.data.disabled = true) (v : Vocabulary) :
    Gives setting (Emit.dispatch v s) [] fun _ => .empty := by
  unfold Emit.dispatch
  refine .bind_const gives_failed ?_
  rw [h]
  exact .pure _

theorem Block.gives_empty (place : Place) :
    ∀ b : Block, b.data.disabled = true → Gives setting (b.emit .standard place) [] fun _ => .empty
  | .mk d ss, h => gives_dispatch_disabled (s := ⟨.mk d ss, place, _⟩) h _

theorem Block.commentLines_of_isSilent {b : Block} (h : b.isSilent) (o : Options) (flags : HandlerFlags)
    (place : Place) : Emit.commentLines o flags place b = "" := by
  obtain ⟨hown, hnested⟩ := Bool.and_eq_true_iff.mp h
  unfold Emit.commentLines
  rw [if_pos (of_decide_eq_true hown), String.empty_append]
  split
  · rfl
  · generalize b.sockets = ss at hnested
    induction ss with
    | nil => rfl
    | cons s ss ih =>
      obtain ⟨hs, hss⟩ := Bool.and_eq_true_iff.mp hnested
      rw [List.map_cons, String.join_cons, ih hss, String.append_empty]
      by_cases hkind : s.kind = .value <;> simp_all

/-- A plugged value, or one without comments, is emitted as its handler says. -/
theorem gives_dispatch {s : Scene} {v : Vocabulary} {handler : BlockHandler} {e : Expression}
    (hplain : s.place.plugged ∨ s.block.isSilent) (hget : v.get? s.data.type = some handler)
    (henabled : s.data.disabled = false) (h : Emits setting (handler.emit s) e) :
    Emits setting (Emit.dispatch v s) e := by
  unfold Emit.dispatch
  refine .bind_const gives_failed ?_
  rw [henabled, hget]
  have hcomment (o : Options) (flags : HandlerFlags) : Emit.commentLines o flags s.place s.block = "" :=
    hplain.elim (fun h => if_pos h) fun h => Block.commentLines_of_isSilent h o flags _
  refine .bind_const (gives_modify fun _ => ⟨rfl, rfl, rfl⟩) (.bind_pure id h
    fun ν => .bind_const gives_failed (.bind_const gives_options ?_))
  rw [Emit.dressed, hcomment, String.empty_append]
  exact .pure _

theorem Slot.holds_ofBlock {slot : Slot} {kind : SocketKind} {b : Block} (htarget : slot.target ≠ [])
    (hdisabled : b.data.disabled = true → Gives setting slot.code [] fun _ => .empty)
    (henabled : kind = .value ∨ b.isSilent → b.data.disabled = false → ∀ e, b.expression? = some e →
      Emits setting slot.code e) : slot.Holds setting (.ofBlock kind b b.expression?) := by
  cases hd : b.data.disabled with
  | true =>
    have hmissing : Operand.ofBlock kind b b.expression? = .missing := by
      unfold Operand.ofBlock
      rw [hd]
      split <;> rfl
    rw [hmissing]
    exact .inr (hdisabled hd)
  | false =>
    unfold Operand.ofBlock
    rw [hd]
    split
    · rename_i e he
      by_cases hkind : kind = .value ∨ b.isSilent
      · simp only [hkind, if_true, Bool.false_eq_true, if_false]
        exact ⟨htarget, henabled hkind hd e he⟩
      · simp only [hkind, Bool.false_eq_true, if_false]
        trivial
    · trivial

/-- Slots hold the operands under their names. -/
def SlotsHold (setting : Setting) (slots : List Slot) (operands : List (String × Operand)) : Prop :=
  List.Forall₂ (fun slot p => slot.name = p.1 ∧ slot.Holds setting p.2) slots operands

theorem SlotsHold.holds {s : Scene} {operands : List (String × Operand)}
    (h : SlotsHold setting s.slots operands) : s.Holds setting (Operand.named operands) := by
  intro name
  unfold Scene.slot? Operand.named
  generalize s.slots = slots at h
  induction h with
  | nil => rfl
  | cons hslot _ ih =>
    rw [List.find?_cons, List.find?_cons, hslot.1]
    rename_i p _ _ _
    cases decide (p.1 = name) with
    | true => exact hslot.2
    | false => exact ih

mutual

/-- **A plugged block, or one without comments, is emitted as the text of its expression.** -/
theorem Block.gives_fragment (place : Place) : ∀ b : Block, place.plugged ∨ b.isSilent →
    b.data.disabled = false → ∀ e, b.expression? = some e → Emits setting (b.emit .standard place) e
  | .mk d ss, hplain, hd, _, he => by
    obtain ⟨k, hk, he⟩ := bind_eq_some_iff.mp he
    have hslots := Socket.slotsHold place d ss
    exact gives_dispatch hplain (get?_standard hk) hd
      (SlotsHold.holds (s := ⟨.mk d ss, place, _⟩) hslots |>.gives_handler he)

theorem Socket.slotsHold (place : Place) (owner : BlockData) : ∀ ss : List Socket,
      SlotsHold setting (Socket.listSlots .standard place owner ss) (Socket.operands ss)
  | [] => .nil
  | s :: ss => .cons (Socket.slot_holds place owner s) (Socket.slotsHold place owner ss)

theorem Socket.slot_holds (place : Place) (owner : BlockData) :
    ∀ s : Socket, (s.slot .standard place owner).name = s.name ∧ (s.slot .standard place owner).Holds setting s.operand
  | .mk name kind [] shadow => ⟨rfl, Stack.slot_holds place owner _ kind shadow rfl rfl⟩
  | .mk name kind (b :: bs) _ => by
    refine ⟨rfl, Slot.holds_ofBlock (List.cons_ne_nil b bs) (Block.gives_empty _ b) fun hkind hd => ?_⟩
    exact Block.gives_fragment _ b (hkind.imp_left decide_eq_true) hd

/-- The first block of a stack counts for the stack. -/
theorem Stack.slot_holds (place : Place) (owner : BlockData) (slot : Slot) (kind : SocketKind) :
    ∀ bs : List Block, slot.target = bs →
      slot.code = Stack.emitFirst .standard (place.inside owner (kind = .value)) bs →
      slot.Holds setting (Stack.operand kind bs)
  | [], htarget, _ => .inl htarget
  | b :: bs, htarget, hcode => by
    refine Slot.holds_ofBlock (by rw [htarget]; exact List.cons_ne_nil b bs) ?_ fun hkind hd => ?_
    · rw [hcode]
      exact Block.gives_empty _ b
    · rw [hcode]
      exact Block.gives_fragment _ b (hkind.imp_left decide_eq_true) hd

end

theorem Block.holds_scene (place : Place) (b : Block) : (b.scene .standard place).Holds setting b.operand :=
  SlotsHold.holds (Socket.slotsHold place b.data b.sockets)

/-- The text of a value in a socket, with the run it leads to. -/
theorem Block.value_eq (owner : Block) (place : Place) {name : String} (outer : Precedence)
    {e : Expression} (he : owner.operand name = .filled e) {r : Run} (hr : r.Good) :
    ∃ r', Emit.value (owner.scene .standard place) name outer setting r =
        (e.printAt outer r'.naming, r') ∧ r.Follows r' ∧ ∀ v ∈ e.variables, r'.Settled v := by
  obtain ⟨text, r', hemit, hfollows, hlater⟩ := (owner.holds_scene place).gives_filled he outer r hr
  obtain ⟨rfl, hsettled⟩ := hlater r' hfollows.good.follows
  exact ⟨r', hemit, hfollows, hsettled⟩

theorem Expression.scan_printAt (e : Expression) (outer : Precedence) (ν : Naming) :
    Grammar.scan (e.printAt outer ν).toList = some (encloseTokens (e.code ν).tokens (e.code ν).precedence outer) := by
  rw [← enclose_code]
  exact (e.code ν).scan_enclose outer

theorem Expression.reads_printAt (e : Expression) (outer : Precedence) (ν : Naming) :
    Grammar.Reads .loosest (encloseTokens (e.code ν).tokens (e.code ν).precedence outer) (e.tree ν) := by
  rw [← code_tree]
  exact (e.code ν).reads_enclose outer

theorem Expression.readText_printAt (e : Expression) (outer : Precedence) (ν : Naming) :
    Grammar.readText (e.printAt outer ν) = some (e.tree ν) := by
  unfold Grammar.readText
  rw [e.scan_printAt, bind_some, (e.reads_printAt outer ν).read_eq]

end BlockProgram
