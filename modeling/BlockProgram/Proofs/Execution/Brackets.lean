import BlockProgram.Program.Vocabulary.Loops

/-! # Programs that call hooks

Programs of the target language, as far as conditionals, loops and jumps go.  What is computed in
between is not looked at: conditions may turn out one way or the other, and loops may be left or
entered once more whenever their condition is evaluated.  What is seen of an execution are the calls
that hooks have put there.  It may be stopped at any point, so that executions which never end are
covered by all that can be seen of them.

A program realizes a stack of blocks (`Realizes`) if it has the control structure of the blocks,
each with its hooks around it.  Then in all of its executions the calls come in pairs
(`Realizes.brackets`): a call in front of a block is followed by the call behind the same block
before any other call is made.
-/
namespace BlockProgram

open List

/-! ### Programs -/

/-- Where a hook is called: in front of a block or behind it. -/
inductive HookSide where
  | before
  | behind
deriving DecidableEq

/-- Templates for the hooks of statements. They end with a newline. -/
structure HookTemplates where
  before : String
  behind : String
  before_ends : before.toList.getLast? = some '\n'
  behind_ends : behind.toList.getLast? = some '\n'

instance : Inhabited HookTemplates := ⟨⟨"\n", "\n", rfl, rfl⟩⟩

namespace HookTemplates

def on (t : HookTemplates) : HookSide → String
  | .before => t.before
  | .behind => t.behind

theorem on_ne_empty (t : HookTemplates) (side : HookSide) : t.on side ≠ "" := by
  intro hempty
  have hends : (t.on side).toList.getLast? = some '\n' := by
    cases side with
    | before => exact t.before_ends
    | behind => exact t.behind_ends
  rw [hempty] at hends
  cases hends

end HookTemplates

/-- Where a jump goes: behind its loop, or to the next round. -/
inductive Jump where
  | leave
  | next
deriving DecidableEq

/-- A program with calls of hooks in it. -/
inductive Program where
  | skip
  | seq (first second : Program)
  /-- Code that runs through without calling a hook. -/
  | work (text : String)
  | call (side : HookSide) (block : BlockData)
  | block (id : String) (code : Program)
  | indented (code : Program)
  /-- A test with what is done if it holds, and the tests behind it. -/
  | test (lead condition : String) (yes no : Program)
  /-- What is done if no test holds. -/
  | otherwise (code : Program)
  /-- A loop with the text in front of its body. -/
  | loop (header : String) (body : Program)
  | jump (way : Jump)

namespace Program

def text (indent : String) (t : HookTemplates) : Program → String
  | skip => ""
  | seq p q => p.text indent t ++ q.text indent t
  | work code => code
  | call side b => Emit.hook (t.on side) b
  | block _ p => p.text indent t
  | indented p => if p.text indent t = "" then "" else Text.prependLines indent (p.text indent t)
  | test lead condition p q =>
    lead ++ "if (" ++ condition ++ ") \x7b\n" ++ p.text indent t ++ "\x7d" ++ q.text indent t
  | otherwise p => " else \x7b\n" ++ p.text indent t ++ "\x7d\n"
  | loop header p => header ++ p.text indent t ++ "\x7d\n"
  | jump .leave => "break;\n"
  | jump .next => "continue;\n"

end Program

/-! ### Executions -/

/-- A call of a hook, as it is seen. -/
structure HookCall where
  side : HookSide
  id : String
deriving DecidableEq

/-- How an execution comes to its end, or is stopped while it is in the code of some blocks. -/
inductive Ending where
  | done
  | jumped (way : Jump)
  | stopped (within : List String)

namespace Ending

def underWay : Ending → List String
  | stopped within => within
  | _ => []

def ofBlock (id : String) : Ending → Ending
  | stopped within => stopped (id :: within)
  | o => o

end Ending

/-- The program has an execution with these calls and this ending. -/
inductive Program.Runs : Program → List HookCall → Ending → Prop
  | stopped (p : Program) : Runs p [] (.stopped [])
  | skip : Runs .skip [] .done
  | seq {p q : Program} {es es' : List HookCall} {o : Ending} (hp : Runs p es .done) (hq : Runs q es' o) :
      Runs (.seq p q) (es ++ es') o
  | ended {p q : Program} {es : List HookCall} {o : Ending} (hp : Runs p es o) (ho : o ≠ .done) :
      Runs (.seq p q) es o
  | work {code : String} : Runs (.work code) [] .done
  | call {side : HookSide} {b : BlockData} : Runs (.call side b) [⟨side, b.id⟩] .done
  | block {id : String} {p : Program} {es : List HookCall} {o : Ending} (hp : Runs p es o) :
      Runs (.block id p) es (o.ofBlock id)
  | indented {p : Program} {es : List HookCall} {o : Ending} (hp : Runs p es o) : Runs (.indented p) es o
  | yes {lead condition : String} {p q : Program} {es : List HookCall} {o : Ending} (hp : Runs p es o) :
      Runs (.test lead condition p q) es o
  | no {lead condition : String} {p q : Program} {es : List HookCall} {o : Ending} (hq : Runs q es o) :
      Runs (.test lead condition p q) es o
  | otherwise {p : Program} {es : List HookCall} {o : Ending} (hp : Runs p es o) : Runs (.otherwise p) es o
  /-- The condition of a loop does not hold any more. -/
  | finished {header : String} {p : Program} : Runs (.loop header p) [] .done
  /-- A round of a loop, and what comes after it. -/
  | round {header : String} {p : Program} {es es' : List HookCall} {o o' : Ending} (hp : Runs p es o)
      (ho : o = .done ∨ o = .jumped .next) (hagain : Runs (.loop header p) es' o') :
      Runs (.loop header p) (es ++ es') o'
  | left {header : String} {p : Program} {es : List HookCall} (hp : Runs p es (.jumped .leave)) :
      Runs (.loop header p) es .done
  | underWay {header : String} {p : Program} {es : List HookCall} {within : List String}
      (hp : Runs p es (.stopped within)) : Runs (.loop header p) es (.stopped within)
  | jump {way : Jump} : Runs (.jump way) [] (.jumped way)

/-! ### Calls in pairs -/

/-- The calls lead from one state to another, where the state is the block whose code has been
announced by a call in front of it and not yet been followed by the call behind it. -/
inductive Paired : Option String → List HookCall → Option String → Prop
  | nil (s : Option String) : Paired s [] s
  | before {id : String} {es : List HookCall} {s : Option String} (h : Paired (some id) es s) :
      Paired none (⟨.before, id⟩ :: es) s
  | behind {id : String} {es : List HookCall} {s : Option String} (h : Paired none es s) :
      Paired (some id) (⟨.behind, id⟩ :: es) s

theorem Paired.append {s m e : Option String} {es es' : List HookCall} (h : Paired s es m) (h' : Paired m es' e) :
    Paired s (es ++ es') e := by
  induction h with
  | nil s => exact h'
  | before _ ih => exact .before (ih h')
  | behind _ ih => exact .behind (ih h')

/-- The calls for one block, in order. -/
def HookCall.sidesOf (id : String) (es : List HookCall) : List HookSide := (es.filter (·.id = id)).map (·.side)

/-- The sides alternate, starting with the given one. -/
def HookSide.Alternate : HookSide → List HookSide → Prop
  | _, [] => True
  | .before, side :: sides => side = .before ∧ Alternate .behind sides
  | .behind, side :: sides => side = .behind ∧ Alternate .before sides

/-- Calls in pairs alternate for each block, and are as many on both sides unless the last pair is
not complete. -/
theorem Paired.alternate_sidesOf {s e : Option String} {es : List HookCall} (h : Paired s es e) (id : String) :
    HookSide.Alternate (if s = some id then .behind else .before) (HookCall.sidesOf id es) ∧
    (HookCall.sidesOf id es).count .before + (if s = some id then 1 else 0) =
      (HookCall.sidesOf id es).count .behind + (if e = some id then 1 else 0) := by
  induction h with
  | nil s => exact ⟨trivial, rfl⟩
  | @before other es e h ih | @behind other es e h ih =>
    by_cases hid : other = id
    · subst hid
      simp only [HookCall.sidesOf, reduceCtorEq, if_true, if_false] at ih
      simp only [HookCall.sidesOf, filter_cons, decide_true, if_true, map_cons, count_cons]
      refine ⟨⟨rfl, ih.1⟩, ?_⟩
      simp only [reduceCtorEq, beq_iff_eq, if_true, if_false]
      omega
    · simp only [HookCall.sidesOf, Option.some.injEq, hid, if_false] at ih ⊢
      simp only [filter_cons, hid]
      simpa using ih

/-- How the calls of an execution may end.  If the program is done, then in the state `finish`; with
a jump, in the state `loop`, where the loop that is left has been announced; and if the execution
was stopped, then nothing has been announced but a block that is under way or `pending`. -/
def Ending.Ends (finish loop : Option String) (pending : List String) : Ending → Option String → Prop
  | .done, e => e = finish
  | .jumped _, e => e = loop ∧ loop ≠ none
  | .stopped within, e => ∀ id, e = some id → id ∈ within ∨ id ∈ pending

theorem Ending.Ends.mono {finish finish' loop e : Option String} {pending pending' : List String} {o : Ending}
    (h : o.Ends finish loop pending e) (hfinish : o = .done → finish = finish') (hpending : pending ⊆ pending') :
    o.Ends finish' loop pending' e := by
  cases o with
  | done => exact h.trans (hfinish rfl)
  | jumped way => exact h
  | stopped within => exact fun id hid => (h id hid).imp_right fun h => hpending h

/-- From the state `start`, the calls of all executions of the program come in pairs. -/
def Program.Brackets (p : Program) (start finish loop : Option String) (pending : List String) : Prop :=
  ∀ es o, p.Runs es o → ∃ e, Paired start es e ∧ o.Ends finish loop pending e

namespace Program.Brackets

variable {p q : Program} {start middle finish loop : Option String} {pending pending' : List String}

theorem mono (h : p.Brackets start finish loop pending) (hpending : pending ⊆ pending') :
    p.Brackets start finish loop pending' := by
  intro es o hrun
  obtain ⟨e, hpaired, hends⟩ := h es o hrun
  exact ⟨e, hpaired, hends.mono (fun _ => rfl) hpending⟩

theorem at_start (hstart : ∀ id, start = some id → id ∈ pending) :
    ∃ e, Paired start [] e ∧ (Ending.stopped []).Ends finish loop pending e :=
  ⟨start, .nil start, fun id hid => .inr (hstart id hid)⟩

theorem skip : Program.skip.Brackets none none loop pending := by
  intro es o hrun
  cases hrun with
  | stopped => exact at_start nofun
  | skip => exact ⟨none, .nil none, rfl⟩

theorem work {code : String} (hstart : ∀ id, start = some id → id ∈ pending) :
    (Program.work code).Brackets start start loop pending := by
  intro es o hrun
  cases hrun with
  | stopped => exact at_start hstart
  | work => exact ⟨start, .nil start, rfl⟩

theorem call_before {b : BlockData} : (Program.call .before b).Brackets none (some b.id) loop pending := by
  intro es o hrun
  cases hrun with
  | stopped => exact at_start nofun
  | call => exact ⟨some b.id, .before (.nil _), rfl⟩

theorem call_behind {b : BlockData} (hb : b.id ∈ pending) :
    (Program.call .behind b).Brackets (some b.id) none loop pending := by
  intro es o hrun
  cases hrun with
  | stopped =>
    refine at_start fun id hid => ?_
    rw [← Option.some.inj hid]
    exact hb
  | call => exact ⟨none, .behind (.nil _), rfl⟩

theorem seq (hp : p.Brackets start middle loop pending) (hq : q.Brackets middle finish loop pending) :
    (Program.seq p q).Brackets start finish loop pending := by
  intro es o hrun
  cases hrun with
  | stopped => exact hp _ _ (.stopped p)
  | seq hrunp hrunq =>
    obtain ⟨m, hpaired, rfl⟩ := hp _ _ hrunp
    obtain ⟨e, hpaired', hends⟩ := hq _ _ hrunq
    exact ⟨e, hpaired.append hpaired', hends⟩
  | ended hrunp ho =>
    obtain ⟨e, hpaired, hends⟩ := hp _ _ hrunp
    exact ⟨e, hpaired, hends.mono (fun hdone => absurd hdone ho) (Subset.refl _)⟩

theorem block {id : String} (hp : p.Brackets none finish loop (id :: pending)) :
    (Program.block id p).Brackets none finish loop pending := by
  intro es o hrun
  cases hrun with
  | stopped => exact at_start nofun
  | @block _ _ _ o hrunp =>
    obtain ⟨e, hpaired, hends⟩ := hp _ _ hrunp
    refine ⟨e, hpaired, ?_⟩
    cases o with
    | done | jumped => exact hends
    | stopped within =>
      intro x hx
      rcases hends x hx with hwithin | hpending
      · exact .inl (mem_cons_of_mem id hwithin)
      · rcases mem_cons.mp hpending with rfl | hpending
        · exact .inl mem_cons_self
        · exact .inr hpending

theorem indented (hp : p.Brackets start finish loop pending) :
    (Program.indented p).Brackets start finish loop pending := by
  intro es o hrun
  cases hrun with
  | stopped => exact hp _ _ (.stopped p)
  | indented hrunp => exact hp _ _ hrunp

theorem test {lead condition : String} (hp : p.Brackets start finish loop pending)
    (hq : q.Brackets start finish loop pending) :
    (Program.test lead condition p q).Brackets start finish loop pending := by
  intro es o hrun
  cases hrun with
  | stopped => exact hp _ _ (.stopped p)
  | yes hrunp => exact hp _ _ hrunp
  | no hrunq => exact hq _ _ hrunq

theorem otherwise (hp : p.Brackets start finish loop pending) :
    (Program.otherwise p).Brackets start finish loop pending := by
  intro es o hrun
  cases hrun with
  | stopped => exact hp _ _ (.stopped p)
  | otherwise hrunp => exact hp _ _ hrunp

/-- In front of every round, and behind the last one, the loop has been announced; and so it has at
every jump. -/
theorem ofLoop {header id : String} (hid : id ∈ pending) (hp : p.Brackets (some id) (some id) (some id) pending) :
    (Program.loop header p).Brackets (some id) (some id) loop pending := by
  have hstart : ∀ x, some id = some x → x ∈ pending := fun x hx => Option.some.inj hx ▸ hid
  intro es o hrun
  generalize hprogram : Program.loop header p = whole at hrun
  induction hrun with
  | stopped => exact at_start hstart
  | finished => exact ⟨some id, .nil _, rfl⟩
  | @round header' p' es es' o o' hrunp ho _ _ ih =>
    obtain ⟨rfl, rfl⟩ := Program.loop.inj hprogram
    obtain ⟨m, hpaired, hends⟩ := hp _ _ hrunp
    have hm : m = some id := by
      rcases ho with rfl | rfl
      · exact hends
      · exact hends.1
    subst hm
    obtain ⟨e, hpaired', hends'⟩ := ih rfl
    exact ⟨e, hpaired.append hpaired', hends'⟩
  | left hrunp =>
    obtain ⟨rfl, rfl⟩ := Program.loop.inj hprogram
    obtain ⟨e, hpaired, hends⟩ := hp _ _ hrunp
    exact ⟨e, hpaired, hends.1⟩
  | underWay hrunp =>
    obtain ⟨rfl, rfl⟩ := Program.loop.inj hprogram
    exact hp _ _ hrunp
  | skip | seq | ended | work | call | block | indented | yes | no | otherwise | jump => cases hprogram

theorem jump {way : Jump} {id : String} (hid : id ∈ pending) :
    (Program.jump way).Brackets (some id) finish (some id) pending := by
  intro es o hrun
  cases hrun with
  | stopped => exact at_start fun x hx => Option.some.inj hx ▸ hid
  | jump => exact ⟨some id, .nil _, rfl, Option.some_ne_none id⟩

end Program.Brackets

/-! ### The program of a stack of blocks -/

/-- Statements that run straight through. -/
def straightTypes : List String := ["variables_set", "math_change", "text_append", "text_print"]

def conditionalTypes : List String := ["controls_if", "controls_ifelse"]

/-- What a program can be the program of: a stack, a block, or the arms of a conditional from some
number on. -/
inductive Part where
  | stack (blocks : Stack)
  | block (b : Block)
  | arms (b : Block) (n : Nat)

/-- What every branch of a conditional starts with. -/
def Program.branch (b : BlockData) (body : Program) : Program :=
  .seq (.indented (.call .behind b)) (.indented body)

def Program.rounds (b : BlockData) (trap : String) (body : Program) : Program :=
  .seq (.seq (.indented (.call .behind b)) (.seq (.work trap) (.indented body))) (.indented (.call .before b))

/-- The program has the control structure of the part, with hooks around every block.  A conditional
calls the hook behind it at the start of each branch, so it always has an else.  A loop calls it at
the start of each round and once more in the end, and the hook in front of it before each of these.
A jump calls both of its own, and then the hook in front of the loop it belongs to, which is the
innermost one around the part. -/
inductive Realizes : Option BlockData → Part → Program → Prop
  | nil {around : Option BlockData} : Realizes around (.stack []) .skip
  | cons {around : Option BlockData} {b : Block} {bs : Stack} {p q : Program} (hp : Realizes around (.block b) p)
      (hq : Realizes around (.stack bs) q) : Realizes around (.stack (b :: bs)) (.seq p q)
  | disabled {around : Option BlockData} {b : Block} (hdisabled : b.data.disabled = true) :
      Realizes around (.block b) .skip
  | straight {around : Option BlockData} {b : Block} (htype : b.type ∈ straightTypes) (comments code : String) :
      Realizes around (.block b) (.block b.id (.seq (.work comments)
        (.seq (.seq (.call .before b.data) (.work code)) (.call .behind b.data))))
  | conditional {around : Option BlockData} {b : Block} {p : Program} (htype : b.type ∈ conditionalTypes)
      (comments : String) (hp : Realizes around (.arms b 0) p) :
      Realizes around (.block b) (.block b.id (.seq (.work comments) (.seq (.call .before b.data) p)))
  | arm {around : Option BlockData} {b : Block} {n : Nat} {p q : Program} (lead condition : String)
      (hp : Realizes around (.stack (b.target ("DO" ++ toString n))) p) (hq : Realizes around (.arms b (n + 1)) q) :
      Realizes around (.arms b n) (.test lead condition (.branch b.data p) q)
  | otherwise {around : Option BlockData} {b : Block} {n : Nat} {p : Program}
      (hp : Realizes around (.stack (b.target "ELSE")) p) :
      Realizes around (.arms b n) (.otherwise (.branch b.data p))
  | loop {around : Option BlockData} {b : Block} {p : Program} (htype : b.type ∈ Vocabulary.loopKinds)
      (comments header trap : String) (hp : Realizes (some b.data) (.stack (b.target "DO")) p) :
      Realizes around (.block b) (.block b.id (.seq (.work comments) (.seq (.seq (.call .before b.data)
        (.loop header (.rounds b.data trap p))) (.call .behind b.data))))
  | jump {loop : BlockData} {b : Block} (htype : b.type = "controls_flow_statements") (comments : String) (way : Jump) :
      Realizes (some loop) (.block b) (.block b.id (.seq (.work comments)
        (.seq (.seq (.seq (.call .before b.data) (.call .behind b.data)) (.call .before loop)) (.jump way))))

/-- What has been announced when the part is reached. -/
def Part.start : Part → Option String
  | arms b _ => some b.id
  | _ => none

/-- **The calls of a program that realizes blocks come in pairs.** -/
theorem Realizes.brackets {around : Option BlockData} {part : Part} {p : Program} (h : Realizes around part p) :
    p.Brackets part.start none (around.map (·.id)) (part.start.toList ++ (around.map (·.id)).toList) := by
  induction h with
  | nil => exact .skip
  | cons _ _ ihp ihq => exact .seq ihp ihq
  | disabled _ => exact .skip
  | @straight around b _ comments code =>
    have hcode : (Program.seq (.call .before b.data) (.work code)).Brackets none (some b.id) (around.map (·.id))
        (b.id :: (around.map (·.id)).toList) :=
      .seq .call_before (.work fun _ hid => Option.some.inj hid ▸ mem_cons_self)
    exact .block (.seq (.work nofun) (.seq hcode (.call_behind mem_cons_self)))
  | conditional _ comments _ ih =>
    exact .block (.seq (.work nofun) (.seq .call_before ih))
  | arm lead condition _ _ ihp ihq =>
    exact .test (.seq (.indented (.call_behind mem_cons_self)) (.indented (ihp.mono (subset_cons_self ..)))) ihq
  | otherwise _ ih =>
    exact .otherwise (.seq (.indented (.call_behind mem_cons_self)) (.indented (ih.mono (subset_cons_self ..))))
  | @loop around b p _ comments header trap _ ih =>
    have hrounds : (Program.rounds b.data trap p).Brackets (some b.id) (some b.id) (some b.id)
        (b.id :: (around.map (·.id)).toList) := by
      have hbody := ih.mono (show _ ⊆ b.id :: (around.map (·.id)).toList by simp [Part.start, Block.id])
      exact .seq (.seq (.indented (.call_behind mem_cons_self)) (.seq (.work nofun) (.indented hbody)))
        (.indented .call_before)
    exact .block (.seq (.work nofun) (.seq (.seq .call_before (.ofLoop mem_cons_self hrounds))
      (.call_behind mem_cons_self)))
  | @jump loop b _ comments way =>
    have hown : (Program.seq (.seq (.call .before b.data) (.call .behind b.data)) (.call .before loop)).Brackets none
        (some loop.id) (some loop.id) (b.id :: [loop.id]) :=
      .seq (.seq .call_before (.call_behind mem_cons_self)) .call_before
    exact .block (.seq (.work nofun) (.seq hown (.jump (mem_cons_of_mem _ mem_cons_self))))

end BlockProgram
