import BlockProgram.Proofs.Value.Plain

/-! # Counting loops

What the text of a counting loop does.  Statements in front of it hold its bounds (`Preparation`);
its header gives the counter a first value, tests it before every round and changes it behind every
round (`CountingLoop`).  Texts are read and evaluated like all others (`Environment.valueOf`).  What
the rounds themselves do is left open (`Rounds`), but for the names they spare.

`CountingLoop.assigned` is the sequence of values that the counter is given.  If the test and the
change are those of numbers, it is a sequence of numbers (`CountingLoop.assigned_eq`).
-/
namespace BlockProgram

open Grammar (Operator)

namespace Environment

def valueOf (E : Environment) (text : String) : Outcome Value :=
  match Grammar.readText text with
  | some t => t.eval E
  | none => .mistyped

def set (E : Environment) (w : String) (v : Value) : Environment :=
  { E with ofName := Function.update E.ofName w v }

@[simp] theorem ofName_set (E : Environment) (w : String) (v : Value) : (E.set w v).ofName w = v :=
  Function.update_self ..

@[simp] theorem ofName_set_of_ne (E : Environment) {w w' : String} (h : w' ≠ w) (v : Value) :
    (E.set w v).ofName w' = E.ofName w' :=
  Function.update_of_ne h ..

theorem valueOf_print (E : Environment) (a : Code) : E.valueOf a.print = a.tree.eval E := by
  have hbare : Precedence.enclose a.print a.precedence .loosest = a.print :=
    if_neg (by have := a.rank_le; simp only [Precedence.loosest]; omega)
  have hread : Grammar.readText a.print = some a.tree := by
    unfold Grammar.readText
    rw [← hbare, a.scan_enclose, Option.bind_some, (a.reads_enclose .loosest).read_eq]
  unfold valueOf
  rw [hread]

end Environment

/-! ### Loops -/

/-- A statement in front of a loop: it declares a name, with the value of a text or its absolute
value, or changes the sign of a name under a condition. -/
inductive Preparation where
  | declare (isNumber : Bool) (name text : String)
  | magnitude (name text : String)
  | turn (condition name : String)

/-- When another round follows: while the counter has not passed the limit, upwards or downwards, or
in the direction of the sign of a name. -/
inductive Test where
  | fixed (up : Bool)
  | bySign (name : String)

/-- What is added to the counter or taken away: one, or the value of a text. -/
inductive Change where
  | one (up : Bool)
  | amount (up : Bool) (text : String)

structure CountingLoop where
  preparations : List Preparation
  counter : String
  first : String
  limit : String
  test : Test
  change : Change

/-- What the rounds of a loop do: the effect of each, and which of them leaves the loop. -/
structure Rounds where
  effect : Nat → Environment → Environment
  leaves : Nat → Bool

/-- No round assigns one of these names. -/
def Rounds.Spares (rounds : Rounds) (names : List String) : Prop :=
  ∀ n E, ∀ w ∈ names, (rounds.effect n E).ofName w = E.ofName w

namespace Preparation

def print (indent : String) : Preparation → String
  | declare isNumber name text => (if isNumber then "num " else "var ") ++ name ++ " = " ++ text ++ ";\n"
  | magnitude name text => "num " ++ name ++ " = " ++ "(" ++ text ++ ").abs();\n"
  | turn condition name =>
    "if (" ++ condition ++ ") \x7b\n" ++ indent ++ name ++ " = -" ++ name ++ ";\n" ++ "\x7d\n"

def printAll (indent : String) : List Preparation → String
  | [] => ""
  | p :: ps => p.print indent ++ printAll indent ps

def run (E : Environment) : Preparation → Outcome Environment
  | declare _ name text => (E.valueOf text).bind fun v => .ok (E.set name v)
  | magnitude name text => (E.valueOf text).toNumber.bind fun q => .ok (E.set name (.number |q|))
  | turn condition name => (E.valueOf condition).toBoolean.bind fun b =>
    if b then (E.valueOf ("-" ++ name)).bind fun v => .ok (E.set name v) else .ok E

def runAll (E : Environment) : List Preparation → Outcome Environment
  | [] => .ok E
  | p :: ps => (p.run E).bind fun E => runAll E ps

theorem printAll_append (indent : String) (ps qs : List Preparation) :
    printAll indent (ps ++ qs) = printAll indent ps ++ printAll indent qs := by
  induction ps with
  | nil => exact (String.empty_append).symm
  | cons p ps ih => simp [printAll, ih, String.append_assoc]

theorem runAll_append {E E' : Environment} {ps : List Preparation} (h : runAll E ps = .ok E')
    (qs : List Preparation) : runAll E (ps ++ qs) = runAll E' qs := by
  induction ps generalizing E with
  | nil => cases h; rfl
  | cons p ps ih =>
    unfold runAll at h
    show (p.run E).bind (fun E => runAll E (ps ++ qs)) = _
    cases hp : p.run E with
    | ok E₁ =>
      rw [hp] at h
      exact ih h
    | undefined | mistyped =>
      rw [hp] at h
      cases h

end Preparation

def Change.operator (up : Bool) : Operator := if up then .plus else .minus

def Change.print : Change → String
  | one up => if up then "++" else "--"
  | amount up text => (if up then " += " else " -= ") ++ text

def Change.value (E : Environment) (counter : String) : Change → Outcome Value
  | one up => (operator up).apply (E.valueOf counter) (.ok (.number 1))
  | amount up text => (operator up).apply (E.valueOf counter) (E.valueOf text)

namespace CountingLoop

def condition (l : CountingLoop) : String :=
  match l.test with
  | .fixed up => l.counter ++ (if up then " <= " else " >= ") ++ l.limit
  | .bySign name =>
    name ++ " >= 0 ? " ++ l.counter ++ " <= " ++ l.limit ++ " : " ++ l.counter ++ " >= " ++ l.limit

def print (l : CountingLoop) (indent body : String) : String :=
  Preparation.printAll indent l.preparations ++
    ("for (" ++ l.counter ++ " = " ++ l.first ++ "; " ++ l.condition ++ "; " ++ l.counter ++
      l.change.print ++ ") \x7b\n" ++ body ++ "\x7d\n")

/-- The names a round must not assign: the counter, the limit and the amount of change. -/
def names (l : CountingLoop) : List String :=
  l.counter :: l.limit ::
    match l.change with
    | .one _ => []
    | .amount _ text => [text]

def assign (l : CountingLoop) (E : Environment) (x : Outcome Value) : Outcome (Option Environment) :=
  x.bind fun v => .ok (some (E.set l.counter v))

/-- The environment behind assignment number `n` of the counter; there is none if the loop has ended
before. -/
def reach (l : CountingLoop) (rounds : Rounds) (E : Environment) : Nat → Outcome (Option Environment)
  | 0 => (Preparation.runAll E l.preparations).bind fun E => l.assign E (E.valueOf l.first)
  | n + 1 => (l.reach rounds E n).bind fun
    | none => .ok none
    | some E => (E.valueOf l.condition).toBoolean.bind fun goesOn =>
      if goesOn && !rounds.leaves n then
        l.assign (rounds.effect n E) (l.change.value (rounds.effect n E) l.counter)
      else .ok none

/-- The value that assignment number `n` gives the counter, if there are that many. -/
def assigned (l : CountingLoop) (rounds : Rounds) (E : Environment) (n : Nat) : Outcome (Option Value) :=
  (l.reach rounds E n).bind fun E => .ok (E.map (·.ofName l.counter))

end CountingLoop

/-! ### Counting -/

/-- The numbers that are counted from `first` on in steps of `step`, as long as each is `within` the
limits and no round leaves. -/
def counted (within : ℚ → Bool) (first step : ℚ) (leaves : Nat → Bool) : Nat → Option ℚ
  | 0 => some first
  | n + 1 => (counted within first step leaves n).bind fun x =>
    if within x && !leaves n then some (x + step) else none

/-- **A loop counts** if it starts with the first number, and if in an environment as its statements
leave it the test is that of the limits and the change is that of the step. -/
theorem CountingLoop.assigned_eq {l : CountingLoop} {rounds : Rounds} {E : Environment} {within : ℚ → Bool}
    {first step : ℚ} (I : Environment → Prop) (hstart : ∃ E₀, Preparation.runAll E l.preparations = .ok E₀ ∧
      E₀.valueOf l.first = .ok (.number first) ∧ I E₀)
    (hassign : ∀ E v, I E → I (E.set l.counter v)) (hround : ∀ n E, I E → I (rounds.effect n E))
    (hspares : ∀ n E, (rounds.effect n E).ofName l.counter = E.ofName l.counter)
    (htest : ∀ E x, I E → E.ofName l.counter = .number x → E.valueOf l.condition = .ok (.boolean (within x)))
    (hchange : ∀ E x, I E → E.ofName l.counter = .number x →
      l.change.value E l.counter = .ok (.number (x + step))) (n : Nat) :
    l.assigned rounds E n = .ok ((counted within first step rounds.leaves n).map .number) := by
  -- the environment is as the statements left it, with the number that is due for the counter
  have hreach (n : Nat) : ∃ E?, l.reach rounds E n = .ok E? ∧ (∀ E', E? = some E' → I E') ∧
      E?.map (·.ofName l.counter) = (counted within first step rounds.leaves n).map .number := by
    induction n with
    | zero =>
      obtain ⟨E₀, hrun, hfirst, hI⟩ := hstart
      refine ⟨some (E₀.set l.counter (.number first)), ?_, ?_, ?_⟩
      · unfold reach
        rw [hrun]
        show l.assign E₀ (E₀.valueOf l.first) = _
        rw [hfirst]
        rfl
      · rintro _ ⟨⟩
        exact hassign _ _ hI
      · simp [counted]
    | succ n ih =>
      obtain ⟨E?, hreach, hI, hvalue⟩ := ih
      unfold reach counted
      rw [hreach]
      cases E? with
      | none =>
        have hcounted : counted within first step rounds.leaves n = none := by simpa using hvalue.symm
        exact ⟨none, rfl, by simp, by rw [hcounted]; rfl⟩
      | some E' =>
        obtain ⟨x, hx, hcounter⟩ : ∃ x, counted within first step rounds.leaves n = some x ∧
            .number x = E'.ofName l.counter := by simpa using hvalue.symm
        have hI' := hI E' rfl
        rw [hx]
        dsimp only [Outcome.bind, Option.bind_some]
        rw [htest E' x hI' hcounter.symm]
        dsimp only [Outcome.toBoolean, Outcome.bind]
        split
        · have hkept := (hspares n E').trans hcounter.symm
          refine ⟨some ((rounds.effect n E').set l.counter (.number (x + step))), ?_, ?_, ?_⟩
          · rw [hchange _ x (hround n E' hI') hkept]
            rfl
          · rintro _ ⟨⟩
            exact hassign _ _ (hround n E' hI')
          · simp
        · exact ⟨none, rfl, by simp, rfl⟩
  obtain ⟨E?, hE, -, hvalue⟩ := hreach n
  unfold assigned
  rw [hE, ← hvalue]
  rfl

end BlockProgram
