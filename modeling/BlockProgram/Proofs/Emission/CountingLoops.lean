import BlockProgram.Proofs.Emission.Indexing
import BlockProgram.Proofs.Execution.Counting

/-! # The code of counting loops
-/
namespace BlockProgram

open Grammar (Tree Operator)
open Vocabulary List Number Preparation

/-! ### Bounds that may be repeated -/

/-- Words and numbers. -/
inductive Code.IsAtom : Code → Prop
  | name (w : Word) : IsAtom (.name w)
  | number (c : Constant) : IsAtom (.number c)
  | negative (c : Constant) : IsAtom (.minus (.number c))

namespace Code.IsAtom

variable {a : Code}

theorem eval_congr (h : a.IsAtom) {E E' : Environment} (hE : ∀ w : Word, a = .name w → E.ofName w.text = E'.ofName w.text) :
    a.tree.eval E = a.tree.eval E' := by
  cases h with
  | name w =>
    show Outcome.ok (E.name w.text) = .ok (E'.name w.text)
    unfold Environment.name
    rw [hE w rfl]
  | number c => exact (c.eval_tree E).trans (c.eval_tree E').symm
  | negative c =>
    show Grammar.Sign.minus.apply (c.tree.eval E) = Grammar.Sign.minus.apply (c.tree.eval E')
    rw [c.eval_tree E, c.eval_tree E']

theorem enclose_eq (h : a.IsAtom) {outer : Precedence} (houter : 2 ≤ outer.rank) :
    Precedence.enclose a.print a.precedence outer = a.print := by
  have hrank : a.precedence.rank ≤ 2 := by
    cases h with
    | number c =>
      simp only [precedence]
      split <;> decide
    | name | negative => simp [precedence, Precedence.atomic, Precedence.unaryPrefix]
  exact if_neg (by omega)

end Code.IsAtom

theorem Code.isAtom_of_isRepeatable {a : Code} (h : isRepeatable a.print = true) : a.IsAtom := by
  unfold isRepeatable at h
  by_cases hliteral : isLiteral a.print = true
  · obtain ⟨c, rfl | ⟨rfl, -⟩⟩ := exists_constant_of_isLiteral hliteral
    · exact .number c
    · exact .negative c
  · have hword : ∀ c ∈ a.print.toList, Text.isWordChar c = true := by
      simp only [hliteral, Bool.or_false, Literal.isWord, Bool.and_eq_true, all_eq_true] at h
      exact h.2
    rcases a.exists_mark with ⟨c, rfl⟩ | ⟨w, rfl⟩ | ⟨b, w, rfl⟩ | ⟨b, rfl⟩ | ⟨op, b, c, rfl⟩ | ⟨c, hmark, hc⟩
    · exact .number c
    · exact .name w
    · exact absurd (hword '.' (by simp [print])) (by decide)
    · exact absurd (hword '-' (by simp [print, withMinus])) (by decide)
    · refine absurd (hword ' ' ?_) (by decide)
      cases op <;> simp [print, Operation.spelling]
    · have := hword c hc
      simp only [marks, mem_cons, not_mem_nil, or_false] at hmark
      rcases hmark with rfl | rfl | rfl | rfl | rfl <;> exact absurd this (by decide)

/-! ### Tests and changes -/

section

variable {E : Environment} {w : Word}

theorem Word.eq_of_text {w' : Word} (h : w.text = w'.text) : w = w' := by
  cases w
  cases w'
  cases h
  rfl

/-- The value of an atom other than `w` does not depend on what `w` stands for. -/
theorem Code.IsAtom.eval_congr_of_ne {a : Code} (h : a.IsAtom) (hne : a ≠ .name w) {E' : Environment}
    (hE : ∀ u, u ≠ w.text → E'.ofName u = E.ofName u) : a.tree.eval E' = a.tree.eval E :=
  h.eval_congr fun _ hu => hE _ fun heq => hne (hu.trans (congrArg Code.name (Word.eq_of_text heq)))

theorem Word.eval_name (hw : w.text ∉ reservedWords) : (Code.name w).tree.eval E = .ok (E.ofName w.text) := by
  have hne (u : String) (hu : u ∈ reservedWords) : w.text ≠ u := fun heq => hw (heq ▸ hu)
  show Outcome.ok (E.name w.text) = _
  unfold Environment.name
  rw [if_neg (hne _ (by decide)), if_neg (hne _ (by decide)), if_neg (hne _ (by decide))]

theorem Word.valueOf_text (hw : w.text ∉ reservedWords) : E.valueOf w.text = .ok (E.ofName w.text) :=
  (E.valueOf_print (.name w)).trans (eval_name hw)

theorem Word.valueOf_minus (hw : w.text ∉ reservedWords) {q : ℚ} (hq : E.ofName w.text = .number q) :
    E.valueOf ("-" ++ w.text) = .ok (.number (-q)) := by
  have hprint : (Code.minus (.name w)).print = "-" ++ w.text := by
    obtain ⟨c, cs, hcs, hc, -⟩ := NameTable.isIdentifier_iff.mp w.isIdentifier
    refine congrArg ("-" ++ ·) (if_neg ?_)
    rw [show Precedence.enclose (Code.name w).print _ _ = w.text from rfl, hcs]
    rintro ⟨⟩
    exact absurd hc (by decide)
  rw [← hprint, E.valueOf_print]
  show Grammar.Sign.minus.apply ((Code.name w).tree.eval E) = _
  rw [eval_name hw, hq]
  rfl

variable {a b : Code} (ha : a.IsAtom) (hb : b.IsAtom) {x y : ℚ} (hx : a.tree.eval E = .ok (.number x))
  (hy : b.tree.eval E = .ok (.number y))

include ha hb in
theorem Code.IsAtom.print_binary (op : Operation) : (Code.binary op a b).print = a.print ++ op.spelling ++ b.print := by
  show Precedence.enclose _ _ op.left ++ _ ++ Precedence.enclose _ _ op.right = _
  rw [ha.enclose_eq (by cases op <;> decide), hb.enclose_eq (by cases op <;> decide)]

include hx hy in
theorem Code.eval_binary {op : Operation} (hop : op.regroups = false) :
    (Code.binary op a b).tree.eval E = op.operator.apply (.ok (.number x)) (.ok (.number y)) := by
  have htree : (Code.binary op a b).tree = .binary op.operator a.tree b.tree := by
    cases op <;> first | rfl | cases hop
  rw [htree]
  unfold Tree.eval
  rw [hx, hy]

section

include ha hb hx hy

theorem Code.IsAtom.valueOf_binary {op : Operation} (hop : op.regroups = false) {sign : String}
    (hsign : op.spelling = sign) : E.valueOf (a.print ++ sign ++ b.print) =
      op.operator.apply (.ok (.number x)) (.ok (.number y)) := by
  rw [← hsign, ← ha.print_binary hb, E.valueOf_print, eval_binary hx hy hop]

theorem Code.IsAtom.valueOf_greater : E.valueOf (a.print ++ " > " ++ b.print) = .ok (.boolean (y < x)) :=
  ha.valueOf_binary hb hx hy (rfl : Operation.greater.regroups = false) rfl

theorem Code.IsAtom.valueOf_fixed (up : Bool) : E.valueOf (a.print ++ (if up then " <= " else " >= ") ++ b.print) =
      .ok (.boolean (if up then x ≤ y else y ≤ x)) := by
  cases up with
  | true => exact ha.valueOf_binary hb hx hy (rfl : Operation.lessEqual.regroups = false) rfl
  | false => exact ha.valueOf_binary hb hx hy (rfl : Operation.greaterEqual.regroups = false) rfl

theorem Code.IsAtom.valueOf_bySign {w : Word} (hw : w.text ∉ reservedWords) {d : ℚ}
    (hd : E.ofName w.text = .number d) :
    E.valueOf (w.text ++ " >= 0 ? " ++ a.print ++ " <= " ++ b.print ++ " : " ++ a.print ++ " >= " ++ b.print) =
      .ok (.boolean (if 0 ≤ d then x ≤ y else y ≤ x)) := by
  have hname : (Code.name w).tree.eval E = .ok (.number d) := (Word.eval_name hw).trans (by rw [hd])
  have hzero : (Code.number .zero).tree.eval E = .ok (.number 0) := by
    rw [← Constant.toRat_zero]
    exact Constant.zero.eval_tree E
  have hprint : (Code.conditional (.binary .greaterEqual (.name w) (.number .zero)) (.binary .lessEqual a b)
      (.binary .greaterEqual a b)).print =
      w.text ++ " >= 0 ? " ++ a.print ++ " <= " ++ b.print ++ " : " ++ a.print ++ " >= " ++ b.print := by
    show (Code.binary .greaterEqual (.name w) (.number .zero)).print ++ " ? " ++ (Code.binary .lessEqual a b).print ++
      " : " ++ (Code.binary .greaterEqual a b).print = _
    rw [ha.print_binary hb, ha.print_binary hb, (IsAtom.name w).print_binary (.number .zero)]
    simp only [String.append_assoc]
    rfl
  rw [← hprint, E.valueOf_print]
  show Outcome.select ((Code.binary .greaterEqual (.name w) (.number .zero)).tree.eval E)
    ((Code.binary .lessEqual a b).tree.eval E) ((Code.binary .greaterEqual a b).tree.eval E) = _
  rw [eval_binary hname hzero rfl, eval_binary hx hy rfl, eval_binary hx hy rfl]
  show (if decide (d ≥ 0) = true then Outcome.ok (Value.boolean (decide (x ≤ y)))
    else .ok (.boolean (decide (x ≥ y)))) = _
  by_cases h : 0 ≤ d <;> simp [h]

end

end

/-! ### Counting -/

/-- What is added from round to round on the way from `a` to `z`. -/
def direction (a z s : ℚ) : ℚ := if a ≤ z then |s| else -|s|

/-- The numbers from `a` on towards `z`, `s` apart from each other, up to the first one behind
`z`. -/
def count (a z s : ℚ) (leaves : Nat → Bool) : Nat → Option ℚ :=
  counted (fun x => if a ≤ z then x ≤ z else z ≤ x) a (direction a z s) leaves

theorem Constant.abs_toRat (c : Constant) : c.magnitude.toRat = |c.value.toRat| := by
  have hnonneg : (0 : ℚ) ≤ c.mantissa * 2 ^ c.exponent := by positivity
  unfold magnitude value Floating.toRat
  cases c.negative <;> simp [abs_of_nonneg hnonneg]

theorem Constant.valueOf_magnitude (c : Constant) (E : Environment) :
    E.valueOf (format c.magnitude) = .ok (.number |c.value.toRat|) := by
  rw [← c.abs_toRat]
  exact (E.valueOf_print (.number ⟨false, c.mantissa, c.exponent, c.canonical⟩)).trans (Constant.eval_tree _ E)

/-- The loop whose direction and step are fixed while the code is written. -/
def staticLoop (v first last step : String) : CountingLoop where
  preparations := []
  counter := v
  first := first
  limit := last
  test := .fixed ((parse first).le (parse last))
  change :=
    if (parse step).abs.same (binary64.ofInt 1) then
      .one ((parse first).le (parse last))
    else .amount ((parse first).le (parse last)) (format (parse step).abs)

theorem print_staticLoop (v first last step indent body : String) :
    (staticLoop v first last step).print indent body = staticHeader v first last step ++ body ++ "\x7d\n" := by
  unfold CountingLoop.print CountingLoop.condition staticLoop staticHeader
  dsimp only
  generalize (parse first).le (parse last) = up
  generalize (parse step).abs.same (binary64.ofInt 1) = isOne
  cases up <;> cases isOne <;> simp [printAll, Change.print, String.append_assoc]

variable {E : Environment} {rounds : Rounds}

/-- **Fixed loops count.** -/
theorem assigned_staticLoop {v : Word} (hv : v.text ∉ reservedWords) {A Z S : Code}
    (hA : isLiteral A.print = true) (hZ : isLiteral Z.print = true)
    (hS : isLiteral S.print = true) {a z s : ℚ} (ha : A.tree.eval E = .ok (.number a))
    (hz : Z.tree.eval E = .ok (.number z)) (hs : S.tree.eval E = .ok (.number s))
    (hspares : rounds.Spares [v.text]) (n : Nat) : (staticLoop v.text A.print Z.print S.print).assigned rounds E n =
      .ok ((count a z s rounds.leaves n).map .number) := by
  obtain ⟨cA, hparseA, hA'⟩ := Code.parse_of_isLiteral hA
  obtain ⟨cZ, hparseZ, hZ'⟩ := Code.parse_of_isLiteral hZ
  obtain ⟨cS, hparseS, hS'⟩ := Code.parse_of_isLiteral hS
  obtain rfl : cA.value.toRat = a := by simpa [ha] using (hA' E).symm
  obtain rfl : cZ.value.toRat = z := by simpa [hz] using (hZ' E).symm
  obtain rfl : cS.value.toRat = s := by simpa [hs] using (hS' E).symm
  have hup : (parse A.print).le (parse Z.print) = decide (cA.value.toRat ≤ cZ.value.toRat) := by
    rw [hparseA, hparseZ]
    exact Floating.le_finite ..
  have hatom : Z.IsAtom := Code.isAtom_of_isRepeatable (by simp [isRepeatable, hZ])
  have hcounter {E : Environment} {x : ℚ} (hx : E.ofName v.text = .number x) :
      (Code.name v).tree.eval E = .ok (.number x) := (Word.eval_name hv).trans (by rw [hx])
  refine CountingLoop.assigned_eq (fun _ => True) ⟨E, rfl, ?_, trivial⟩ (fun _ _ _ => trivial) (fun _ _ _ => trivial)
    (fun n E => hspares n E _ mem_cons_self) (fun E x _ hx => ?_) (fun E x _ hx => ?_) n
  · exact (E.valueOf_print A).trans ha
  · have htest := (Code.IsAtom.name v).valueOf_fixed hatom (hcounter hx) (hZ' E)
      ((parse A.print).le (parse Z.print))
    refine htest.trans ?_
    rw [hup]
    simp
  · have hvalue : E.valueOf v.text = .ok (.number x) := (E.valueOf_print (.name v)).trans (hcounter hx)
    have hsize : (parse S.print).abs = cS.magnitude := by rw [hparseS]; rfl
    have hone : cS.magnitude.same (binary64.ofInt 1) = decide (|cS.value.toRat| = 1) := by
      rw [← cS.abs_toRat, ← Constant.toRat_one]
      exact Floating.same_finite ..
    unfold staticLoop
    rw [hup, hsize, hone]
    unfold direction
    have hvalue' (up : Bool) (q : ℚ) : (Change.operator up).apply (.ok (.number x)) (.ok (.number q)) =
        .ok (.number (x + if up then q else -q)) := by
      cases up
      · exact congrArg (Outcome.ok ∘ Value.number) (sub_eq_add_neg x q)
      · rfl
    by_cases h1 : |cS.value.toRat| = 1
    · simp [h1, Change.value, hvalue, hvalue']
    · simp [h1, Change.value, hvalue, hvalue', cS.valueOf_magnitude]

/-! ### Bounds that are held -/

/-- The word has been handed out. -/
def Run.Taken (r : Run) (w : String) : Prop := ∃ c, (c, w) ∈ r.names.taken

variable {r : Run} {x : String}

theorem Run.IsEntry.taken {r' : Run} (hr : r.Good) (h : r.Follows r') {e : NameEntry}
    (he : r.IsEntry x e) : r.Taken (r'.naming.ofVariable x).text := by
  rw [(h.isEntry he).text_ofVariable h.good]
  exact ⟨_, hr.names.entries_taken e he.1⟩

/-- A name that is made up has not been handed out before, and has been from there on. -/
theorem exists_freshVariable (setting : Setting) (hr : r.Good) (seed : String) :
    ∃ (w : Word) (r' : Run), Emit.freshVariable seed setting r = (w.text, r') ∧ r.Follows r' ∧
      w.text ∉ reservedWords ∧ ¬ r.Taken w.text ∧ r'.Taken w.text ∧ ∀ u, r.Taken u → r'.Taken u := by
  have hfree := NameTable.isTaken_eq_false_iff.mp (NameTable.isTaken_freeName r.names seed .userVariable true)
  refine ⟨⟨_, NameTable.isIdentifier_freeName r.names seed .userVariable true⟩, _, rfl,
    ⟨hr.toOrderly.extends_distinct seed .userVariable, hr.running⟩, fun hmem => hfree.1 (hr.reserved hmem), ?_, ?_, ?_⟩
  · rintro ⟨c, hc⟩
    cases (hfree.2 _ hc rfl).1
  · exact ⟨.userVariable, mem_append_right _ mem_cons_self⟩
  · exact fun u ⟨c, hc⟩ => ⟨c, mem_append_left _ hc⟩

/-- The environments agree but for names that are made up later. -/
def Environment.Agree (r : Run) (E E' : Environment) : Prop :=
  E'.lengthOf = E.lengthOf ∧ ∀ w, r.Taken w → E'.ofName w = E.ofName w

/-- The code has the same value whatever the names stand for that are made up later. -/
def Code.Depends (r : Run) (a : Code) : Prop := ∀ E E', Environment.Agree r E E' → a.tree.eval E' = a.tree.eval E

/-- Behind the statements the atom has the value that the code had in front of them. The atom is the
code itself, or a name that is made up. -/
structure IsHeld (r r' : Run) (a : Code) (ps : List Preparation) (b : Code) : Prop where
  isAtom : b.IsAtom
  taken : ∀ w : Word, b = .name w → r'.Taken w.text
  later : ∀ w, r.Taken w → r'.Taken w
  eq_iff : ∀ w : Word, r.Taken w.text → (b = .name w ↔ a = .name w)
  runAll : ∀ E q, a.tree.eval E = .ok (.number q) → ∃ E', runAll E ps = .ok E' ∧
    b.tree.eval E' = .ok (.number q) ∧ E.Agree r E'

theorem exists_onceEvaluated (setting : Setting) (hr : r.Good) (seed text indent : String) :
    ∃ ps held r', onceEvaluated seed text setting r = ((printAll indent ps, held), r') ∧ r.Follows r' ∧
      ∀ a : Code, a.print = text → (∀ w : Word, a = .name w → r.Taken w.text) →
        ∃ b : Code, b.print = held ∧ IsHeld r r' a ps b := by
  unfold onceEvaluated
  split
  · rename_i hrepeatable
    refine ⟨[], text, r, rfl, hr.follows, ?_⟩
    rintro a rfl ha
    exact ⟨a, rfl, Code.isAtom_of_isRepeatable hrepeatable, ha, fun _ => id, fun _ _ => Iff.rfl,
      fun E q hq => ⟨E, rfl, hq, rfl, fun _ _ => rfl⟩⟩
  · rename_i hrepeatable
    obtain ⟨w, r', hfresh, hfollows, hreserved, hnew, hold, hlater⟩ := exists_freshVariable setting hr seed
    refine ⟨[.declare false w.text text], w.text, r', ?_, hfollows, ?_⟩
    · rw [bind_apply, hfresh]
      show ((_, _), _) = _
      simp [printAll, print, String.append_assoc]
    · rintro a rfl ha
      refine ⟨.name w, rfl, .name w, ?_, hlater, fun u hu => ⟨?_, ?_⟩, fun E q hq => ?_⟩
      · rintro _ ⟨⟩
        exact hold
      · rintro ⟨⟩
        exact absurd hu hnew
      · rintro rfl
        exact absurd (by simp [isRepeatable, Code.print, isWord_of_isIdentifier u.isIdentifier]) hrepeatable
      · refine ⟨E.set w.text (.number q), ?_, ?_, rfl, fun u hu => ?_⟩
        · simp [runAll, run, E.valueOf_print, hq, Outcome.bind]
        · rw [Word.eval_name hreserved, E.ofName_set]
        · exact E.ofName_set_of_ne (by rintro rfl; exact hnew hu) _

/-- The statements that give a name the step, with the sign of the way from `start` to `limit`. -/
def signedStep (inc start limit step : String) : List Preparation :=
  [if isLiteral step then .declare true inc (format (parse step).abs) else .magnitude inc step,
    .turn (start ++ " > " ++ limit) inc]

/-- The loop whose direction and step are found before the first round. -/
def dynamicLoop (v inc : String) (ps : List Preparation) (start limit step : String) : CountingLoop where
  preparations := ps ++ signedStep inc start limit step
  counter := v
  first := start
  limit := limit
  test := .bySign inc
  change := .amount true inc

theorem print_dynamicLoop (v inc : String) (ps : List Preparation) (start limit step indent body : String) :
    (dynamicLoop v inc ps start limit step).print indent body =
      printAll indent ps ++ "num " ++ inc ++ " = " ++
        (if isLiteral step then format (parse step).abs ++ ";\n"
          else "(" ++ step ++ ").abs();\n") ++
        "if (" ++ start ++ " > " ++ limit ++ ") \x7b\n" ++ indent ++ inc ++ " = -" ++ inc ++ ";\n" ++ "\x7d\n" ++
        "for (" ++ v ++ " = " ++ start ++ "; " ++ inc ++ " >= 0 ? " ++ v ++ " <= " ++ limit ++ " : " ++
        v ++ " >= " ++ limit ++ "; " ++ v ++ " += " ++ inc ++ ") \x7b\n" ++ body ++ "\x7d\n" := by
  unfold CountingLoop.print dynamicLoop CountingLoop.condition signedStep
  rw [printAll_append]
  split <;> simp only [printAll, print, Change.print, if_true, String.append_assoc,
    String.append_empty]

/-- The step is found with its sign, and nothing else changes. -/
theorem exists_runAll_signedStep {inc : Word} (hinc : inc.text ∉ reservedWords) {A Z S : Code} (hA : A.IsAtom)
    (hZ : Z.IsAtom) (hA' : A ≠ .name inc) (hZ' : Z ≠ .name inc) {a z s : ℚ}
    (ha : A.tree.eval E = .ok (.number a)) (hz : Z.tree.eval E = .ok (.number z))
    (hs : S.tree.eval E = .ok (.number s)) :
    ∃ E', runAll E (signedStep inc.text A.print Z.print S.print) = .ok E' ∧
      E'.ofName inc.text = .number (direction a z s) ∧ ∀ w, w ≠ inc.text → E'.ofName w = E.ofName w := by
  have hkept {B : Code} (hB : B.IsAtom) (hne : B ≠ .name inc) (v : Value) :
      B.tree.eval (E.set inc.text v) = B.tree.eval E :=
    hB.eval_congr_of_ne hne fun u hu => E.ofName_set_of_ne hu v
  have hsize : (if isLiteral S.print then .declare true inc.text (format (parse S.print).abs)
      else .magnitude inc.text S.print : Preparation).run E = .ok (E.set inc.text (.number |s|)) := by
    split
    · rename_i hliteral
      obtain ⟨c, hparse, hc⟩ := Code.parse_of_isLiteral hliteral
      obtain rfl : c.value.toRat = s := by simpa [hs] using (hc E).symm
      show (E.valueOf (format (parse S.print).abs)).bind _ = _
      rw [hparse, show c.value.abs = c.magnitude from rfl, c.valueOf_magnitude]
      rfl
    · show (E.valueOf S.print).toNumber.bind _ = _
      rw [E.valueOf_print, hs]
      rfl
  have hcondition : (E.set inc.text (.number |s|)).valueOf (A.print ++ " > " ++ Z.print) = .ok (.boolean (z < a)) :=
    hA.valueOf_greater hZ ((hkept hA hA' _).trans ha) ((hkept hZ hZ' _).trans hz)
  have hturn : (turn (A.print ++ " > " ++ Z.print) inc.text).run (E.set inc.text (.number |s|)) =
      .ok (E.set inc.text (.number (direction a z s))) := by
    show ((E.set inc.text (.number |s|)).valueOf (A.print ++ " > " ++ Z.print)).toBoolean.bind _ = _
    rw [hcondition]
    show (if decide (z < a) = true then _ else _) = _
    unfold direction
    by_cases h : a ≤ z
    · rw [if_neg (by simpa using h), if_pos h]
    · rw [if_pos (by simpa using h), if_neg h, Word.valueOf_minus hinc (E.ofName_set ..)]
      simp [Environment.set, Outcome.bind]
  refine ⟨E.set inc.text (.number (direction a z s)), ?_, E.ofName_set .., fun w hw => E.ofName_set_of_ne hw _⟩
  unfold signedStep runAll
  rw [hsize]
  show ((turn (A.print ++ " > " ++ Z.print) inc.text).run (E.set inc.text (.number |s|))).bind _ = _
  rw [hturn]
  rfl

/-- **Loops that find their direction count**, in the direction of the sign of the step. They stop
behind the limit, unless the limit is the counter itself. -/
theorem assigned_dynamicLoop {r₁ r₂ : Run} {v inc : Word} (hv : v.text ∉ reservedWords)
    (hv' : r.Taken v.text) (hinc : inc.text ∉ reservedWords) (hinc' : ¬ r₂.Taken inc.text) {A Z S A' Z' : Code}
    {ps qs : List Preparation} (hA : IsHeld r r₁ A ps A') (hZ : IsHeld r₁ r₂ Z qs Z') (hZdepends : Z.Depends r)
    (hSdepends : S.Depends r) {a z s : ℚ} (ha : A.tree.eval E = .ok (.number a))
    (hz : Z.tree.eval E = .ok (.number z)) (hs : S.tree.eval E = .ok (.number s))
    (hspares : rounds.Spares [v.text, Z'.print, inc.text]) (within : ℚ → Bool)
    (hwithin : (Z' ≠ .name v ∧ within = fun x => if 0 ≤ direction a z s then decide (x ≤ z) else decide (z ≤ x)) ∨
      Z' = .name v ∧ within = fun _ => true) (n : Nat) :
    (dynamicLoop v.text inc.text (ps ++ qs) A'.print Z'.print S.print).assigned rounds E n =
      .ok ((counted within a (direction a z s) rounds.leaves n).map .number) := by
  have hfresh {w : String} (hw : r₂.Taken w) : w ≠ inc.text := by
    rintro rfl
    exact hinc' hw
  -- one bound is held after the other, and none of the values found before changes
  obtain ⟨E₁, hrun₁, hA₁, hagree₁⟩ := hA.runAll E a ha
  obtain ⟨E₂, hrun₂, hZ₂, hagree₂⟩ := hZ.runAll E₁ z ((hZdepends E E₁ hagree₁).trans hz)
  have hA₂ : A'.tree.eval E₂ = .ok (.number a) :=
    (hA.isAtom.eval_congr fun w hw => hagree₂.2 _ (hA.taken w hw)).trans hA₁
  have hS₂ : S.tree.eval E₂ = .ok (.number s) :=
    (hSdepends E E₂ ⟨hagree₂.1.trans hagree₁.1, fun w hw => (hagree₂.2 w (hA.later w hw)).trans (hagree₁.2 w hw)⟩).trans hs
  have hA' : A' ≠ .name inc := fun heq => hfresh (hZ.later _ (hA.taken inc heq)) rfl
  have hZ' : Z' ≠ .name inc := fun heq => hfresh (hZ.taken inc heq) rfl
  obtain ⟨E₃, hrun₃, hinc₃, hkept₃⟩ := exists_runAll_signedStep hinc hA.isAtom hZ.isAtom hA' hZ' hA₂ hZ₂ hS₂
  have hvinc : v.text ≠ inc.text := hfresh (hZ.later _ (hA.later _ hv'))
  refine CountingLoop.assigned_eq
    (fun E => E.ofName inc.text = .number (direction a z s) ∧ (Z' ≠ .name v → Z'.tree.eval E = .ok (.number z)))
    ⟨E₃, ?_, ?_, hinc₃, fun _ => (hZ.isAtom.eval_congr_of_ne hZ' hkept₃).trans hZ₂⟩ ?_ ?_
    (fun n E => hspares n E _ mem_cons_self) ?_ ?_ n
  · show runAll E (ps ++ qs ++ _) = _
    rw [append_assoc, runAll_append hrun₁, runAll_append hrun₂, hrun₃]
  · exact (E₃.valueOf_print A').trans ((hA.isAtom.eval_congr_of_ne hA' hkept₃).trans hA₂)
  · rintro E u ⟨hd, hlimit⟩
    exact ⟨(E.ofName_set_of_ne hvinc.symm u).trans hd,
      fun hne => (hZ.isAtom.eval_congr_of_ne hne fun _ hw => E.ofName_set_of_ne hw u).trans (hlimit hne)⟩
  · rintro n E ⟨hd, hlimit⟩
    refine ⟨(hspares n E _ (by simp)).trans hd, fun hne => (hZ.isAtom.eval_congr fun w hw => ?_).trans (hlimit hne)⟩
    exact hspares n E _ (by simp [hw, Code.print])
  · rintro E x ⟨hd, hlimit⟩ hx
    have hcounter : (Code.name v).tree.eval E = .ok (.number x) := (Word.eval_name hv).trans (congrArg _ hx)
    rcases hwithin with ⟨hne, rfl⟩ | ⟨rfl, rfl⟩
    · exact (Code.IsAtom.name v).valueOf_bySign hZ.isAtom hcounter (hlimit hne) hinc hd
    · refine ((Code.IsAtom.name v).valueOf_bySign (.name v) hcounter hcounter hinc hd).trans ?_
      simp
  · rintro E x ⟨hd, -⟩ hx
    show Operator.plus.apply (E.valueOf v.text) (E.valueOf inc.text) = _
    rw [Word.valueOf_text hv, Word.valueOf_text hinc, hd, show E.ofName v.text = .number x from hx]
    rfl

/-! ### The code of a block -/

structure Bounds where
  first : Expression
  last : Expression
  step : Expression

namespace Bounds

/-- The bounds are written as plain numbers. -/
def IsPlain (e : Bounds) (ν : Naming) : Prop :=
  isLiteral (e.first.print ν) = true ∧ isLiteral (e.last.print ν) = true ∧
    isLiteral (e.step.print ν) = true

def HasValues (e : Bounds) (V : Valuation) (a z s : ℚ) : Prop :=
  e.first.eval V = .ok (.number a) ∧ e.last.eval V = .ok (.number z) ∧ e.step.eval V = .ok (.number s)

end Bounds

/-- The block counts between these bounds, an empty socket replaced by the literal that counts for
it. Its body can be had, and no bound has a product with a remainder among the factors of its right
operand. -/
structure Block.CountsBetween (setting : Setting) (b : Block) (place : Place) (e : Bounds) : Prop where
  type : b.type = "controls_for"
  first : (b.operand "FROM").orElse? (.number .zero) = some e.first
  last : (b.operand "TO").orElse? (.number .zero) = some e.last
  step : (b.operand "BY").orElse? (.number .one) = some e.step
  body : Succeeds setting (Emit.statements (b.stage place) "DO")
  factors : ∀ x ∈ [e.first, e.last, e.step], x.multipliesRemainder = false

/-- The code of the block is this loop, in a run that goes on with `r'`. -/
def Block.Writes (setting : Setting) (b : Block) (place : Place) (r : Run) (l : CountingLoop) (r' : Run) : Prop :=
  ∃ h body, Vocabulary.standard.get? b.type = some h ∧
    h.emit (b.stage place) setting r = (.statement (l.print setting.options.indent body), r') ∧
    r'.failure = none

def Block.IsOwnLimit (b : Block) (e : Bounds) (r : Run) : Prop :=
  ∃ y, e.last = .reference y ∧ r.variableKey y = r.variableKey (b.data.fieldValue "VAR")

theorem Expression.printAt_assignment (e : Expression) (ν : Naming) : e.printAt .assignment ν = e.print ν := by
  have := (e.code ν).rank_le
  rw [e.code_precedence] at this
  exact if_neg (by simp only [Precedence.assignment]; omega)

variable {e : Expression}

theorem Expression.depends_code {r' : Run} (hr : r.Good) (h : r.Follows r')
    (hvars : ∀ x ∈ e.variables, r.Settled x) (hfactors : e.multipliesRemainder = false) :
    (e.code r'.naming).Depends r := by
  intro E E' hagree
  rw [e.code_tree, eval_tree hfactors, eval_tree hfactors]
  refine eval_congr (fun x hx => ?_) (funext fun a => congrFun hagree.1 _)
  obtain ⟨entry, hentry⟩ := hvars x hx
  show E'.name _ = E.name _
  unfold Environment.name
  rw [hagree.2 _ (hentry.taken hr h)]

/-- Variables share an identifier exactly if they are one variable. -/
theorem Run.Settled.text_eq_iff (hr : r.Good) {y : String} (hx : r.Settled x) (hy : r.Settled y) :
    (r.naming.ofVariable x).text = (r.naming.ofVariable y).text ↔ r.variableKey x = r.variableKey y := by
  obtain ⟨d, hd⟩ := hx
  obtain ⟨e, he⟩ := hy
  rw [hd.text_ofVariable hr, he.text_ofVariable hr]
  constructor
  · intro h
    obtain rfl := hr.names.eq_of_word hd.1 he.1 (hd.2.1.trans he.2.1.symm) h
    exact hd.2.2.symm.trans he.2.2
  · intro h
    exact congrArg _ (hr.names.eq_of_name hd.1 he.1 (hd.2.1.trans he.2.1.symm) (hd.2.2.trans (h.trans he.2.2.symm)))

theorem Run.Settled.not_reserved (hr : r.Good) (hx : r.Settled x) : (r.naming.ofVariable x).text ∉ reservedWords := by
  obtain ⟨e, he⟩ := hx
  rw [he.text_ofVariable hr]
  exact fun hmem => (hr.names.text_free he.1).2 (hr.reserved hmem)

variable {q : ℚ} {V : Valuation}

/-- A number that is written as a name is a variable. -/
theorem Expression.exists_reference (he : e.eval V = .ok (.number q)) {ν : Naming}
    {w : Word} (hw : e.code ν = .name w) : ∃ y, e = .reference y ∧ ν.ofVariable y = w := by
  cases e with
  | reference y => exact ⟨y, rfl, Code.name.inj hw⟩
  | boolean | null => cases he
  | function f a => cases f <;> cases hw
  | property p a => cases p <;> cases hw
  | _ => cases hw

/-- A bound is written like a variable exactly if it is the variable. -/
theorem Expression.code_eq_name_iff (e : Expression) (he : e.eval V = .ok (.number q)) {r' : Run}
    (h : r.Follows r') (hr' : r'.Good) (hvars : ∀ y ∈ e.variables, r'.Settled y) (hx : r'.Settled x) :
    e.code r'.naming = .name (r'.naming.ofVariable x) ↔ ∃ y, e = .reference y ∧ r.variableKey y = r.variableKey x := by
  have hkey (y : String) : r'.variableKey y = r.variableKey y := congrArg Text.lower (h.resolve y .userVariable)
  constructor
  · intro hcode
    obtain ⟨y, rfl, hy⟩ := e.exists_reference he hcode
    refine ⟨y, rfl, ?_⟩
    rw [← hkey, ← hkey]
    exact ((hvars y mem_cons_self).text_eq_iff hr' hx).mp (congrArg Word.text hy)
  · rintro ⟨y, rfl, hy⟩
    rw [← hkey, ← hkey] at hy
    exact congrArg Code.name (Word.eq_of_text (((hvars y mem_cons_self).text_eq_iff hr' hx).mpr hy))

theorem Block.CountsBetween.writes {setting : Setting} {b : Block} {place : Place} {e : Bounds}
    (hb : b.CountsBetween setting place e) (hr : r.Good) :
    ∃ l r', b.Writes setting place r l r' ∧ ∀ E a z s, e.HasValues (E.valuation r'.naming) a z s →
      ∀ rounds, rounds.Spares l.names → ∀ n,
      (e.IsPlain r'.naming → l.assigned rounds E n = .ok ((count a z s rounds.leaves n).map .number)) ∧
      (¬ e.IsPlain r'.naming → ¬ b.IsOwnLimit e r → l.assigned rounds E n =
        .ok ((counted (fun x => if 0 ≤ direction a z s then x ≤ z else z ≤ x) a (direction a z s)
          rounds.leaves n).map .number)) ∧
      (¬ e.IsPlain r'.naming → b.IsOwnLimit e r → l.assigned rounds E n =
        .ok ((counted (fun _ => true) a (direction a z s) rounds.leaves n).map .number)) := by
  obtain ⟨htype, hfirst, hlast, hstep, hbody, hfactors⟩ := hb
  have hholds : (b.stage place).Holds setting b.operand := b.holds_scene place
  have hzero (ν : Naming) : (Expression.number .zero).printAt .assignment ν = "0" := rfl
  have hone (ν : Naming) : (Expression.number .one).printAt .assignment ν = "1" := rfl
  obtain ⟨v, r₁, hv, hf₁, hlater₁⟩ :=
    (gives_variableName ((b.stage place).field "VAR") : Gives setting _ _ _) r hr
  obtain ⟨first, r₂, ha, hf₂, hlater₂⟩ := hholds.gives_valueOrElse hfirst rfl hzero r₁ hf₁.good
  obtain ⟨last, r₃, hz, hf₃, hlater₃⟩ := hholds.gives_valueOrElse hlast rfl hzero r₂ hf₂.good
  obtain ⟨step, r₄, hs, hf₄, hlater₄⟩ := hholds.gives_valueOrElse hstep rfl hone r₃ hf₃.good
  have hacts : Acts setting (Emit.statements (b.stage place) "DO") := inferInstance
  have hf₅ : r₄.Follows (Emit.statements (b.stage place) "DO" setting r₄).2 :=
    ⟨hacts.extends_run hf₄.good.toOrderly, hbody r₄ hf₄.good⟩
  obtain ⟨out, hemit⟩ : ∃ out, controlsFor (b.stage place) setting r = out := ⟨_, rfl⟩
  have hout := hemit
  have hhandler : Vocabulary.standard.get? b.type = some ⟨controlsFor, {}⟩ := htype ▸ rfl
  unfold controlsFor at hout
  rw [bind_apply, hv] at hout
  dsimp only at hout
  rw [bind_apply, ha, bind_apply, hz, bind_apply, hs, bind_apply] at hout
  generalize Emit.statements (b.stage place) "DO" setting r₄ = emitted at hf₅ hout
  obtain ⟨statements, r₅⟩ := emitted
  rw [bind_apply] at hout
  have hstate : (Emit.loopBody (b.stage place) statements setting r₅).2 = r₅ := by
    unfold Emit.loopBody
    rw [bind_apply]
    split <;> rfl
  rw [hstate] at hout
  generalize (Emit.loopBody (b.stage place) statements setting r₅).1 = body at hout
  have hlater (r'' : Run) (h : r₅.Follows r'') :
      (v = (r''.naming.ofVariable (b.data.fieldValue "VAR")).text ∧ r''.Settled (b.data.fieldValue "VAR")) ∧
      (first = e.first.print r''.naming ∧ ∀ x ∈ e.first.variables, r''.Settled x) ∧
      (last = e.last.print r''.naming ∧ ∀ x ∈ e.last.variables, r''.Settled x) ∧
      (step = e.step.print r''.naming ∧ ∀ x ∈ e.step.variables, r''.Settled x) := by
    have h₄ := hf₅.trans h
    simp only [← Expression.printAt_assignment]
    obtain ⟨hv, hsettled⟩ := hlater₁ r'' (hf₂.trans (hf₃.trans (hf₄.trans h₄)))
    exact ⟨⟨hv, hsettled _ mem_cons_self⟩, hlater₂ r'' (hf₃.trans (hf₄.trans h₄)), hlater₃ r'' (hf₄.trans h₄),
      hlater₄ r'' h₄⟩
  have hr₅ := hf₅.good
  obtain ⟨⟨hv₅, hsettled⟩, ⟨ha₅, hsettled₁⟩, ⟨hz₅, hsettled₂⟩, ⟨hs₅, hsettled₃⟩⟩ := hlater r₅ hr₅.follows
  have hvalue {x : Expression} (hx : x ∈ [e.first, e.last, e.step]) {E : Environment} {ν : Naming} {q : ℚ}
      (hq : x.eval (E.valuation ν) = .ok (.number q)) : (x.code ν).tree.eval E = .ok (.number q) := by
    rw [x.code_tree, Expression.eval_tree (hfactors x hx), hq]
  by_cases hplain : (isLiteral first && isLiteral last && isLiteral step) = true
  · rw [if_pos hplain, ← print_staticLoop v first last step setting.options.indent body] at hout
    simp only [Bool.and_eq_true] at hplain
    refine ⟨staticLoop v first last step, r₅, ⟨_, body, hhandler, hemit.trans hout.symm, hr₅.running⟩, ?_⟩
    intro E a z s ⟨ha, hz, hs⟩ rounds hspares n
    rw [ha₅, hz₅, hs₅] at hplain
    obtain ⟨⟨hplain₁, hplain₂⟩, hplain₃⟩ := hplain
    refine ⟨fun _ => ?_, fun h => absurd ⟨hplain₁, hplain₂, hplain₃⟩ h, fun h => absurd ⟨hplain₁, hplain₂, hplain₃⟩ h⟩
    rw [hv₅] at hspares ⊢
    rw [ha₅, hz₅, hs₅]
    exact assigned_staticLoop (hsettled.not_reserved hr₅) hplain₁ hplain₂ hplain₃ (hvalue (by simp) ha) (hvalue (by simp) hz)
      (hvalue (by simp) hs) (fun n E w hw => hspares n E w (mem_singleton.mp hw ▸ mem_cons_self)) n
  · rw [if_neg hplain, bind_apply] at hout
    obtain ⟨ps, held₁, r₆, honce₁, hf₆, hheld₁⟩ :=
      exists_onceEvaluated setting hr₅ (v ++ "_start") first setting.options.indent
    obtain ⟨qs, held₂, r₇, honce₂, hf₇, hheld₂⟩ :=
      exists_onceEvaluated setting hf₆.good (v ++ "_end") last setting.options.indent
    obtain ⟨inc, r₈, hfresh, hf₈, hreserved, hnew, -⟩ := exists_freshVariable setting hf₇.good (v ++ "_inc")
    rw [bind_apply, show Emit.options setting r₅ = (setting.options, r₅) from rfl] at hout
    rw [honce₁, bind_apply, honce₂, bind_apply, hfresh] at hout
    have hf : r₅.Follows r₈ := hf₆.trans (hf₇.trans hf₈)
    have hfollows : r.Follows r₈ := hf₁.trans (hf₂.trans (hf₃.trans (hf₄.trans (hf₅.trans hf))))
    obtain ⟨⟨hv₈, hsettled₈⟩, ⟨ha₈, -⟩, ⟨hz₈, -⟩, ⟨hs₈, -⟩⟩ := hlater r₈ hf
    have hname {x : Expression} (hx : ∀ y ∈ x.variables, r₅.Settled y) {V : Valuation} {q : ℚ}
        (hq : x.eval V = .ok (.number q)) (w : Word) (hw : x.code r₈.naming = .name w) : r₅.Taken w.text := by
      obtain ⟨y, rfl, rfl⟩ := x.exists_reference hq hw
      obtain ⟨entry, hentry⟩ := hx y mem_cons_self
      exact hentry.taken hr₅ hf
    have hprint : (dynamicLoop v inc.text (ps ++ qs) held₁ held₂ step).print setting.options.indent body = _ :=
      print_dynamicLoop ..
    refine ⟨dynamicLoop v inc.text (ps ++ qs) held₁ held₂ step, r₈,
      ⟨_, body, hhandler, hemit.trans (hout.symm.trans ?_), hf₈.running⟩, ?_⟩
    · rw [hprint, printAll_append]
      rfl
    · intro E a z s ⟨ha, hz, hs⟩ rounds hspares n
      obtain ⟨A', rfl, hA⟩ := hheld₁ (e.first.code r₈.naming) ha₈.symm (hname hsettled₁ ha)
      obtain ⟨Z', rfl, hZ⟩ := hheld₂ (e.last.code r₈.naming) hz₈.symm fun w hw => hA.later _ (hname hsettled₂ hz w hw)
      have hvtaken : r₅.Taken (r₈.naming.ofVariable (b.data.fieldValue "VAR")).text := by
        obtain ⟨entry, hentry⟩ := hsettled
        exact hentry.taken hr₅ hf
      have hlimit : Z' = .name (r₈.naming.ofVariable (b.data.fieldValue "VAR")) ↔ b.IsOwnLimit e r :=
        (hZ.eq_iff _ (hA.later _ hvtaken)).trans
          (e.last.code_eq_name_iff hz hfollows hf₈.good (fun y hy => (hsettled₂ y hy).imp fun _ => hf.isEntry) hsettled₈)
      have hassigned := assigned_dynamicLoop (hsettled₈.not_reserved hf₈.good) hvtaken hreserved hnew hA hZ
        (e.last.depends_code hr₅ hf hsettled₂ (hfactors _ (by simp))) (e.step.depends_code hr₅ hf hsettled₃ (hfactors _ (by simp)))
        (hvalue (by simp) ha) (hvalue (by simp) hz) (hvalue (by simp) hs) (hv₈ ▸ hspares)
      rw [hv₈, hs₈]
      refine ⟨fun h => absurd ?_ hplain, fun _ hown => hassigned _ (.inl ⟨mt hlimit.mp hown, rfl⟩) n,
        fun _ hown => hassigned _ (.inr ⟨hlimit.mpr hown, rfl⟩) n⟩
      rw [ha₈, hz₈, hs₈, h.1, h.2.1, h.2.2]
      rfl

/-! ### Both forms -/

theorem direction_nonneg_iff {a z s : ℚ} (h : s ≠ 0 ∨ a ≤ z) : 0 ≤ direction a z s ↔ a ≤ z := by
  unfold direction
  split
  · simpa
  · rename_i hlt
    have hpos := abs_pos.mpr (h.resolve_right hlt)
    exact iff_of_false (by linarith) hlt

/-- Without a limit the counting goes on for ever. -/
theorem counted_endless (a d : ℚ) {leaves : Nat → Bool} (h : ∀ n, leaves n = false) (n : Nat) :
    counted (fun _ => true) a d leaves n = some (a + n * d) := by
  induction n with
  | zero => simp [counted]
  | succ n ih =>
    simp [counted, ih, h]
    ring

/-- **Both forms of a counting loop give their counters the same numbers**: those from the first
bound on towards the second. There are two exceptions. A step of zero downwards is taken upwards by
the loop that finds its direction, so that it stops where the fixed loop goes on. And a limit that
is the counter itself is not held, so that the loop never reaches it. -/
theorem Block.counting_loops_agree (setting : Setting) (b b' : Block) (place place' : Place) (e e' : Bounds)
    (hb : b.CountsBetween setting place e) (hb' : b'.CountsBetween setting place' e') (r r' : Run) (hr : r.Good)
    (hr' : r'.Good) :
    ∃ l l' r₁ r₁', b.Writes setting place r l r₁ ∧ b'.Writes setting place' r' l' r₁' ∧
      (e.IsPlain r₁.naming → ¬ e'.IsPlain r₁'.naming → ∀ E E' a z s, e.HasValues (E.valuation r₁.naming) a z s →
        e'.HasValues (E'.valuation r₁'.naming) a z s → ∀ rounds rounds', rounds.Spares l.names →
        rounds'.Spares l'.names → rounds.leaves = rounds'.leaves →
        (∀ n, l.assigned rounds E n = .ok ((count a z s rounds.leaves n).map .number)) ∧
        (¬ b'.IsOwnLimit e' r' → s ≠ 0 ∨ a ≤ z → ∀ n, l'.assigned rounds' E' n = l.assigned rounds E n) ∧
        (¬ b'.IsOwnLimit e' r' → s = 0 → z < a → rounds.leaves 0 = false →
          l.assigned rounds E 1 = .ok (some (.number a)) ∧ l'.assigned rounds' E' 1 = .ok none) ∧
        (b'.IsOwnLimit e' r' → (∀ n, rounds.leaves n = false) → ∀ n : Nat,
          l'.assigned rounds' E' n = .ok (some (.number (a + n * direction a z s))))) := by
  obtain ⟨l, r₁, hwrites, hassigned⟩ := hb.writes hr
  obtain ⟨l', r₁', hwrites', hassigned'⟩ := hb'.writes hr'
  refine ⟨l, l', r₁, r₁', hwrites, hwrites', ?_⟩
  intro hplain hplain' E E' a z s hvalues hvalues' rounds rounds' hspares hspares' hleaves
  have hfixed (n : Nat) := (hassigned E a z s hvalues rounds hspares n).1 hplain
  have hfound (n : Nat) := (hassigned' E' a z s hvalues' rounds' hspares' n).2.1 hplain'
  have hendless (n : Nat) := (hassigned' E' a z s hvalues' rounds' hspares' n).2.2 hplain'
  rw [← hleaves] at hfound hendless
  refine ⟨hfixed, fun hown hstep n => ?_, fun hown hs hlt hstays => ?_, fun hown hstays n => ?_⟩
  · rw [hfound n hown, hfixed n]
    unfold count
    simp only [direction_nonneg_iff hstep]
  · subst hs
    rw [hfixed 1, hfound 1 hown]
    simp [count, counted, direction, hlt.not_ge, hlt.le, hstays]
  · rw [hendless n hown, counted_endless a _ hstays]
    rfl

/-- A loop from one down to zero in steps of zero. -/
def Block.stayingLoop (first : Block) : Block :=
  simple "controls_for" [("VAR", "i")] [("FROM", first), ("BY", simple "math_number" [("NUM", "0")] [])]

def Block.oneNumber : Block := simple "math_number" [("NUM", "1")] []

def Block.oneSum : Block := simple "math_arithmetic" [("OP", "ADD")] [("B", oneNumber)]

/-- With a number in front the loop stays at one, and with a sum it ends behind the first round. -/
theorem Block.counting_loops_agree_stayingLoop :
    ∃ l l' r₁ r₁', (stayingLoop oneNumber).Writes ({} : Generator).setting {} (({} : Generator).start {}) l r₁ ∧
      (stayingLoop oneSum).Writes ({} : Generator).setting {} (({} : Generator).start {}) l' r₁' ∧
      ∀ E E' rounds rounds', rounds.Spares l.names → rounds'.Spares l'.names → rounds.leaves = rounds'.leaves →
        rounds.leaves 0 = false →
        l.assigned rounds E 1 = .ok (some (.number 1)) ∧ l'.assigned rounds' E' 1 = .ok none := by
  have hgood := Generator.good_start {} (List.Subset.refl _) {}
  obtain ⟨l, l', r₁, r₁', hwrites, hwrites', h⟩ := counting_loops_agree ({} : Generator).setting (stayingLoop oneNumber)
    (stayingLoop oneSum) {} {} ⟨.number .one, .number .zero, .number .zero⟩
    ⟨.binary .add (.number .zero) (.number .one), .number .zero, .number .zero⟩
    ⟨rfl, rfl, rfl, rfl, fun r hr => hr.running, by decide⟩ ⟨rfl, rfl, rfl, rfl, fun r hr => hr.running, by decide⟩
    _ _ hgood hgood
  refine ⟨l, l', r₁, r₁', hwrites, hwrites', fun E E' rounds rounds' hspares hspares' hleaves hstays => ?_⟩
  have hplain : isLiteral (format Constant.one.value) = true ∧
      isLiteral (format Constant.zero.value) = true := by decide
  have hone (V : Valuation) : (Expression.number .one).eval V = .ok (.number 1) :=
    congrArg (Outcome.ok ∘ Value.number) Constant.toRat_one
  have hzero (V : Valuation) : (Expression.number .zero).eval V = .ok (.number 0) :=
    congrArg (Outcome.ok ∘ Value.number) Constant.toRat_zero
  have hsum (V : Valuation) : (Expression.binary .add (.number .zero) (.number .one)).eval V = .ok (.number 1) :=
    Outcome.combine_eq_number.mpr ⟨0, 1, hzero V, hone V, by norm_num⟩
  refine (h ⟨hplain.1, hplain.2, hplain.2⟩ (fun hsum => ?_) E E' 1 0 0 ⟨hone _, hzero _, hzero _⟩
    ⟨hsum _, hzero _, hzero _⟩ rounds rounds' hspares hspares' hleaves).2.2.1 ?_ rfl (by norm_num) hstays
  · exact absurd hsum.1 (by rw [Bool.not_eq_true]; exact Code.not_isLiteral_binary ..)
  · rintro ⟨y, hy, -⟩
    cases hy

end BlockProgram
