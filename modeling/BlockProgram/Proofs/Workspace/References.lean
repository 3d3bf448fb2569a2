import BlockProgram.Workspace.Load
import Mathlib.Data.List.Nodup

/-! # References to variables by name

A field of a JSON document may refer to a variable by its name and type instead of its id.  Such a
variable is looked up among those that are listed so far, and it is listed at the end if it is not
there.  So the list of variables grows while a document is loaded (`LoadRun`), but what has been
found in it once is found again in every longer list (`Resolves.mono`).  In the end each reference
has got the id of a variable with its name and type, and the variables that have come up are those
that were referred to and not declared, in the order in which they came up
(`Workspace.load_resolves`).
-/
namespace BlockProgram

open List Loading

/-! ### Fields in the order of loading -/

abbrev Entries := List (String × Json)

def Json.fieldMembers : Json → Entries
  | .object members => members
  | _ => []

mutual

/-- The fields in the record of a block and of all that is connected to it: its own, those of its
inputs and statements, and of what follows it. -/
def BlockDoc.entries : BlockDoc → Entries
  | .mk e inputs statements next =>
    e.fields.fieldMembers ++ (inputs.entries ++ (statements.entries ++ nextEntries next))

def nextEntries : Option ConnectionDoc → Entries
  | none => []
  | some c => c.blockEntries

def ConnectionDoc.blockEntries : ConnectionDoc → Entries
  | .mk block _ => optionalEntries block

def optionalEntries : Option BlockDoc → Entries
  | none => []
  | some d => d.entries

/-- Those of a block come before those of its shadow. -/
def ConnectionDoc.entries : ConnectionDoc → Entries
  | .mk block shadow => optionalEntries block ++ optionalEntries shadow

def SocketsDoc.entries : SocketsDoc → Entries
  | .members sockets => socketEntries sockets
  | .notObject _ => []

def socketEntries : List SocketDoc → Entries
  | [] => []
  | s :: rest => s.entries ++ socketEntries rest

def SocketDoc.entries : SocketDoc → Entries
  | .connected _ c => c.entries
  | _ => []

end

def Document.entries (d : Document) : Entries := d.blocks.items.flatMap optionalEntries

mutual

/-- The fields of a block and of all that is plugged into it, shadows included. -/
def Block.allFields : Block → List Field
  | .mk data sockets => data.fields ++ Socket.listAllFields sockets

def Socket.listAllFields : List Socket → List Field
  | [] => []
  | s :: rest => s.allFields ++ Socket.listAllFields rest

def Socket.allFields : Socket → List Field
  | .mk _ _ plugged shadow => Stack.allFields plugged ++ Stack.allFields shadow

def Stack.allFields : List Block → List Field
  | [] => []
  | b :: rest => b.allFields ++ Stack.allFields rest

end

theorem Socket.listAllFields_append (ss ss' : List Socket) :
    listAllFields (ss ++ ss') = listAllFields ss ++ listAllFields ss' := by
  induction ss with
  | nil => rfl
  | cons s rest ih => rw [cons_append, listAllFields, listAllFields, ih, append_assoc]

def Workspace.allFields (w : Workspace) : List Field := w.tops.flatMap Stack.allFields

/-! ### References -/

def Variable.signature (v : Variable) : String × String := (v.name, v.type)

/-- The name and type of the variable that a field refers to without an id. -/
def Json.named? : Json → Option (String × String)
  | .object members =>
    match VariableRef.ofJson (.object members) with
    | .ok r => if r.id = "" then some (r.name, r.type) else none
    | .error _ => none
  | _ => none

/-- The references by name among some fields. -/
def references (entries : Entries) : List (String × String) := entries.filterMap (·.2.named?)

/-- The field was loaded where the given one stands, and has found the variable that is referred
to. -/
def Resolves (vars : List Variable) (e : String × Json) (f : Field) : Prop :=
  f.name = e.1 ∧ ∀ r, e.2.named? = some r → ∃ v, vars.find? (·.signature = r) = some v ∧ f.variableId = v.id

variable {f : Field}

theorem Resolves.mono {vars vars' : List Variable} {e : String × Json} (h : Resolves vars e f)
    (hvars : vars <+: vars') : Resolves vars' e f :=
  ⟨h.1, fun r hr => (h.2 r hr).imp fun _ hv => ⟨hvars.find?_eq_some hv.1, hv.2⟩⟩

/-! ### Variables while a document is loaded -/

/-- How the state changes while the given references are met: ids are drawn, and variables are
looked up. -/
inductive LoadRun : LoadState → List (String × String) → LoadState → Prop
  | refl (s) : LoadRun s [] s
  | draw {s refs s'} (h : LoadRun s refs s') : LoadRun s refs (drawId s').2
  | look {s refs s'} (h : LoadRun s refs s') (r : String × String) :
      LoadRun s (refs ++ [r]) (variableNamed r.1 r.2 s').2

def Ids.drawnTo (ids ids' : Ids) : List String :=
  (List.range' (ids.drawn + 1) (ids'.drawn - ids.drawn)).map Ids.nth

/-- Lists what is not yet listed. -/
def listOnce (known : List (String × String)) (r : String × String) : List (String × String) :=
  if r ∈ known then known else known ++ [r]

theorem foldl_listOnce (refs known : List (String × String)) :
    refs.foldl listOnce known = known ++ (refs.filter (· ∉ known)).eraseDups := by
  induction refs generalizing known with
  | nil => simp
  | cons r rest ih =>
    rw [foldl_cons, ih, listOnce]
    by_cases hr : r ∈ known
    · simp [hr]
    · have hrest : rest.filter (· ∉ known ++ [r]) = (rest.filter (· ∉ known)).filter (fun b => !b == r) := by
        rw [filter_filter]
        exact filter_congr fun b _ => by simp [not_or, and_comm, Bool.beq_eq_decide_eq]
      rw [if_neg hr, hrest, filter_cons_of_pos (by simpa using hr), eraseDups_cons, append_assoc,
        singleton_append]

/-- One look at the variables: either the variable is there, or it is listed at the end under a
fresh id. -/
theorem variableNamed_cases (r : String × String) (s : LoadState) :
    (∃ v, s.vars.find? (·.signature = r) = some v ∧ variableNamed r.1 r.2 s = (.ok v.id, s)) ∨
    s.vars.find? (·.signature = r) = none ∧ variableNamed r.1 r.2 s =
      (.ok s.ids.draw.1, ⟨s.vars ++ [⟨s.ids.draw.1, r.1, r.2⟩], s.ids.draw.2⟩) := by
  have hsame : (fun v : Variable => v.name = r.1 && v.type = r.2) = fun v => decide (v.signature = r) := by
    funext v
    simp [Variable.signature, Prod.ext_iff]
  unfold variableNamed
  rw [hsame]
  cases s.vars.find? (·.signature = r) with
  | some v => exact .inl ⟨v, rfl, rfl⟩
  | none => exact .inr ⟨rfl, rfl⟩

namespace LoadRun

variable {s s' s'' : LoadState} {refs refs' : List (String × String)}

theorem trans (h : LoadRun s refs s') (h' : LoadRun s' refs' s'') : LoadRun s (refs ++ refs') s'' := by
  induction h' with
  | refl => rwa [append_nil]
  | draw _ ih => exact ih.draw
  | look _ r ih => exact append_assoc refs _ _ ▸ ih.look r

theorem vars_prefix (h : LoadRun s refs s') : s.vars <+: s'.vars := by
  induction h with
  | refl => exact prefix_rfl
  | draw _ ih => exact ih
  | @look _ s' _ r ih =>
    rcases variableNamed_cases r s' with ⟨v, -, heq⟩ | ⟨-, heq⟩
    · exact heq ▸ ih
    · exact heq ▸ ih.trans (prefix_append _ _)

/-- What is not yet listed is listed, at the end. -/
theorem signatures_eq (h : LoadRun s refs s') :
    s'.vars.map (·.signature) = refs.foldl listOnce (s.vars.map (·.signature)) := by
  induction h with
  | refl => rfl
  | draw _ ih => exact ih
  | @look _ s' _ r ih =>
    rw [foldl_append, ← ih, foldl_cons, foldl_nil, listOnce]
    rcases variableNamed_cases r s' with ⟨v, hv, heq⟩ | ⟨hv, heq⟩
    · rw [heq, if_pos]
      exact mem_map.mpr ⟨v, mem_of_find?_eq_some hv, by simpa using List.find?_some hv⟩
    · rw [heq, if_neg]
      · simp [Variable.signature]
      · rintro hr
        obtain ⟨v, hmem, rfl⟩ := mem_map.mp hr
        simpa using List.find?_eq_none.mp hv v hmem

/-- The ids of the variables are those that were there before, and drawn ones. -/
theorem ids_sublist (h : LoadRun s refs s') : s.ids.drawn ≤ s'.ids.drawn ∧
    (s'.vars.map (·.id)).Sublist (s.vars.map (·.id) ++ s.ids.drawnTo s'.ids) := by
  have hdraw {ids ids' : Ids} (h : ids.drawn ≤ ids'.drawn) :
      ids.drawnTo ids'.draw.2 = ids.drawnTo ids' ++ [ids'.draw.1] := by
    have hlength : ids'.drawn + 1 - ids.drawn = ids'.drawn - ids.drawn + 1 := by omega
    have hlast : ids.drawn + 1 + (ids'.drawn - ids.drawn) = ids'.drawn + 1 := by omega
    simp only [Ids.drawnTo, Ids.draw, hlength, List.range'_concat, Nat.one_mul, hlast, map_append, map_cons,
      map_nil]
  induction h with
  | refl => simp
  | draw _ ih =>
    refine ⟨Nat.le_succ_of_le ih.1, ih.2.trans ?_⟩
    rw [drawId, hdraw ih.1, ← append_assoc]
    exact sublist_append_left _ _
  | @look _ s' _ r ih =>
    rcases variableNamed_cases r s' with ⟨v, hv, heq⟩ | ⟨hv, heq⟩
    · exact heq ▸ ih
    · rw [heq]
      refine ⟨Nat.le_succ_of_le ih.1, ?_⟩
      rw [hdraw ih.1, ← append_assoc, map_append]
      exact ih.2.append (List.Sublist.refl _)

end LoadRun

/-! ### Steps of loading -/

/-- The step reads the given fields, in order, and gives a result with the property `Q` for the
fields it has loaded. -/
def Takes {α : Type} (m : Loading α) (entries : Entries) (Q : α → List Field → Prop) : Prop :=
  ∀ s a s', m s = (.ok a, s') → LoadRun s (references entries) s' ∧
    ∃ fields, List.Forall₂ (Resolves s'.vars) entries fields ∧ Q a fields

namespace Takes

variable {α β : Type} {m : Loading α} {entries entries' : Entries} {Q : α → List Field → Prop}

theorem done {a : α} (h : Q a []) : Takes (.done a) [] Q := by
  rintro s _ _ ⟨⟩
  exact ⟨.refl s, [], .nil, h⟩

theorem fail (f : LoadFault) : Takes (.fail f) entries Q := by
  rintro s a s' ⟨⟩

variable {k : α → Loading β} {R : β → List Field → Prop}

theorem andThen (hm : Takes m entries Q)
    (hk : ∀ a fields, Q a fields → Takes (k a) entries' fun b fields' => R b (fields ++ fields')) :
    Takes (m.andThen k) (entries ++ entries') R := by
  intro s b s'' hrun
  unfold Loading.andThen at hrun
  split at hrun
  · cases hrun
  case h_2 a s' heq =>
    obtain ⟨hfirst, fields, hfields, hQ⟩ := hm s a s' heq
    obtain ⟨hsecond, fields', hfields', hR⟩ := hk a fields hQ s' b s'' hrun
    refine ⟨?_, fields ++ fields', rel_append ?_ hfields', hR⟩
    · rw [references, filterMap_append]
      exact hfirst.trans hsecond
    · exact hfields.imp fun e f h => h.mono hsecond.vars_prefix

theorem done_with {g : α → β} (hm : Takes m entries Q)
    (hg : ∀ a fields, Q a fields → R (g a) fields) : Takes (m.andThen fun a => .done (g a)) entries R := by
  rw [← append_nil entries]
  refine hm.andThen fun a fields hQ => done ?_
  rw [append_nil]
  exact hg a fields hQ

theorem after (hm : Takes m [] Q) (hk : ∀ a, Q a [] → Takes (k a) entries R) : Takes (m.andThen k) entries R := by
  have hm' : Takes m [] fun a fields => fields = [] ∧ Q a [] := by
    intro s a s' hrun
    obtain ⟨hrun, fields, hfields, hQ⟩ := hm s a s' hrun
    obtain rfl := List.forall₂_nil_left_iff.mp hfields
    exact ⟨hrun, [], .nil, rfl, hQ⟩
  exact hm'.andThen fun a _ h => h.1 ▸ hk a h.2

theorem inBlock (hm : Takes m entries Q) (id type : String) : Takes (inBlock id type m) entries Q := by
  intro s a s' hrun
  unfold Loading.inBlock at hrun
  split at hrun
  · cases hrun
  case h_2 heq =>
    cases hrun
    exact hm s a s' heq

theorem ofExcept {ε : Type} (wrap : ε → LoadFault) (r : Except ε α) :
    Takes (ofExcept wrap r) [] fun a _ => r = .ok a := by
  cases r with
  | ok a => exact done rfl
  | error f => exact fail _

theorem idOr (id : String) : Takes (idOr id) [] fun _ _ => True := by
  unfold Loading.idOr
  split
  · rintro s _ _ ⟨⟩
    exact ⟨(LoadRun.refl s).draw, [], .nil, trivial⟩
  · exact done trivial

end Takes

/-- The fields that are loaded are those of the result. -/
abbrev Gathers {α : Type} (m : Loading α) (entries : Entries) (fieldsOf : α → List Field) : Prop :=
  Takes m entries fun a fields => fields = fieldsOf a

variable {name : String} {v : Json}

/-- A field that refers to no variable by name. -/
theorem takes_plain (hname : f.name = name) (hv : v.named? = none) : Gathers (.done f) [(name, v)] ([·]) := by
  rintro s _ _ ⟨⟩
  refine ⟨by simpa [references, hv] using LoadRun.refl s, [f], .cons ⟨hname, fun r hr => ?_⟩ .nil, rfl⟩
  rw [hv] at hr
  cases hr

/-- A field that refers to a variable by name. -/
theorem takes_named {r : String × String} (hv : v.named? = some r) :
    Gathers ((variableNamed r.1 r.2).andThen fun id => .done ⟨name, "", id⟩) [(name, v)] ([·]) := by
  intro s f s' hrun
  have hlook := (LoadRun.refl s).look r
  have hreferences : references [(name, v)] = [] ++ [r] := by simp [references, hv]
  rw [hreferences]
  unfold andThen at hrun
  rcases variableNamed_cases r s with ⟨x, hx, heq⟩ | ⟨hx, heq⟩
  all_goals
    rw [heq] at hrun hlook
    cases hrun
    refine ⟨hlook, [_], .cons ⟨rfl, fun r' hr' => ?_⟩ .nil, rfl⟩
    obtain rfl := Option.some.inj (hv.symm.trans hr')
  · exact ⟨x, hx, rfl⟩
  · refine ⟨⟨s.ids.draw.1, r.1, r.2⟩, ?_, rfl⟩
    rw [List.find?_append, hx]
    simp [Variable.signature]

theorem takes_loadField (name : String) (v : Json) : Gathers (loadField name v) [(name, v)] ([·]) := by
  cases v with
  | object members =>
    refine (Takes.ofExcept _ _).after fun r hr => ?_
    by_cases hid : r.id = ""
    · have hnamed : (Json.object members).named? = some (r.name, r.type) := by simp [Json.named?, hr, hid]
      rw [if_neg (not_not_intro hid)]
      exact takes_named hnamed
    · rw [if_pos hid]
      exact takes_plain rfl (by simp [Json.named?, hr, hid])
  | _ => exact takes_plain rfl rfl

theorem takes_loadFieldList (members : Entries) :
    Gathers (loadFieldList members) members id := by
  induction members with
  | nil => exact .done rfl
  | cons m rest ih =>
    refine (takes_loadField m.1 m.2).andThen fun f loaded hf => ih.done_with fun fields loaded' hfields => ?_
    rw [hf, hfields]
    rfl

theorem takes_loadFields (v : Json) : Gathers (loadFields v) v.fieldMembers id := by
  cases v with
  | null => exact .done rfl
  | object members => exact takes_loadFieldList members
  | _ => exact .fail _

/-! ### Blocks -/

-- The recursion is that of the loaders.
mutual

theorem takes_load : ∀ d : BlockDoc, Gathers d.load d.entries Stack.allFields
  | .mk e inputs statements next => by
    unfold BlockDoc.load BlockDoc.entries
    refine (Takes.idOr e.id).after fun id _ => ?_
    refine ((takes_loadFields e.fields).inBlock id e.type).andThen fun own _ hown => ?_
    refine ((Takes.ofExcept _ _).inBlock id e.type).after fun mutation _ => ?_
    refine ((takes_sockets defaultSocketKind inputs).inBlock id e.type).andThen fun values _ hvalues => ?_
    refine ((takes_sockets (fun _ => .statement) statements).inBlock id e.type).andThen fun bodies _ hbodies => ?_
    refine (takes_loadNext next).done_with fun following _ hfollowing => ?_
    rw [hown, hvalues, hbodies, hfollowing]
    simp only [Stack.allFields, Block.allFields, Socket.listAllFields_append, append_assoc, id_eq]

theorem takes_loadNext : ∀ c : Option ConnectionDoc, Gathers (loadNext c) (nextEntries c) Stack.allFields
  | none => .done rfl
  | some c => takes_loadBlock c

theorem takes_loadBlock : ∀ c : ConnectionDoc, Gathers c.loadBlock c.blockEntries Stack.allFields
  | .mk block _ => takes_loadOptional block

theorem takes_loadOptional : ∀ d : Option BlockDoc, Gathers (loadOptional d) (optionalEntries d) Stack.allFields
  | none => .done rfl
  | some d => takes_load d

theorem takes_loadBoth : ∀ c : ConnectionDoc,
    Gathers c.loadBoth c.entries fun p => Stack.allFields p.1 ++ Stack.allFields p.2
  | .mk block shadow => by
    refine (takes_loadOptional block).andThen fun plugged _ hplugged => ?_
    refine (takes_loadOptional shadow).done_with fun shadowed _ hshadowed => ?_
    rw [hplugged, hshadowed]

theorem takes_sockets (kind : String → SocketKind) : ∀ ss : SocketsDoc,
    Gathers (ss.load kind) ss.entries Socket.listAllFields
  | .members sockets => takes_loadSockets kind sockets
  | .notObject v => .fail (notObjectFault v)

theorem takes_loadSockets (kind : String → SocketKind) : ∀ ss : List SocketDoc,
    Gathers (loadSockets kind ss) (socketEntries ss) Socket.listAllFields
  | [] => .done rfl
  | s :: rest => by
    refine (takes_socket kind s).andThen fun socket _ hsocket => ?_
    refine (takes_loadSockets kind rest).done_with fun sockets _ hsockets => ?_
    rw [hsocket, hsockets]
    rfl

theorem takes_socket (kind : String → SocketKind) : ∀ s : SocketDoc, Gathers (s.load kind) s.entries Socket.allFields
  | .connected _ c => (takes_loadBoth c).done_with fun _ _ h => h
  | .null name => .fail (.nullSocket name)
  | .faulty name f => .fail (.socket name f)

end

theorem takes_loadTops (i : Nat) (ds : List (Option BlockDoc)) :
    Gathers (loadTops i ds) (ds.flatMap optionalEntries) (·.flatMap Stack.allFields) := by
  induction ds generalizing i with
  | nil => exact .done rfl
  | cons d rest ih =>
    cases d with
    | none => exact .fail (.nullTop i)
    | some d =>
      refine (takes_load d).andThen fun stack _ hstack => (ih (i + 1)).done_with fun tops _ htops => ?_
      rw [hstack, htops]
      rfl

/-! ### Documents -/

def Document.ofText? (text : String) : Option Document :=
  match Json.readFirst text with
  | .ok (value, _) => (Document.ofJson value).toOption
  | .error _ => none

/-- The references by name in a document have found their variables in the workspace that is loaded
from it. -/
structure Document.Resolved (d : Document) (w : Workspace) : Prop where
  /-- A reference has the id of a variable with its name and type. -/
  listed : List.Forall₂ (fun e f => f.name = e.1 ∧ ∀ r, e.2.named? = some r →
    ∃ v ∈ w.vars, v.signature = r ∧ f.variableId = v.id) d.entries w.allFields
  /-- Two references have the same id exactly if they have the same name and type. -/
  same_id_iff : ∀ p ∈ d.entries.zip w.allFields, ∀ q ∈ d.entries.zip w.allFields, ∀ r r',
    p.1.2.named? = some r → q.1.2.named? = some r' → (p.2.variableId = q.2.variableId ↔ r = r')
  /-- Declared variables keep their place, and those that are referred to and not declared come behind them, once each, in
  the order of their first references. -/
  vars_eq : ∃ added, w.vars = d.vars.items ++ added ∧ added.map (·.signature) =
    ((references d.entries).filter (· ∉ d.vars.items.map (·.signature))).eraseDups

theorem Document.resolved_of_load {d : Document} {ids ids' : Ids} {w : Workspace} (hload : d.load ids = (.ok w, ids'))
    (hids : (d.vars.items.map (·.id) ++ ids.drawnTo ids').Nodup) : d.Resolved w := by
  unfold Document.load at hload
  split at hload
  · cases hload
  case h_2 tops s heq =>
    cases hload
    obtain ⟨hrun, fields, hfields, rfl⟩ := takes_loadTops 0 _ _ _ _ heq
    have hnodup : (s.vars.map (·.id)).Nodup := hrun.ids_sublist.2.nodup hids
    have hfound {v : Variable} {r} (hv : s.vars.find? (·.signature = r) = some v) : v ∈ s.vars ∧ v.signature = r :=
      ⟨mem_of_find?_eq_some hv, by simpa using List.find?_some hv⟩
    refine ⟨hfields.imp ?_, fun p hp q hq r r' hr hr' => ?_, ?_⟩
    · rintro e f ⟨hname, h⟩
      refine ⟨hname, fun r hr => ?_⟩
      obtain ⟨v, hv, hid⟩ := h r hr
      exact ⟨v, (hfound hv).1, (hfound hv).2, hid⟩
    · have hresolves {p} (hp : p ∈ d.entries.zip (tops.flatMap Stack.allFields)) : Resolves s.vars p.1 p.2 :=
        (List.forall₂_iff_zip.mp hfields).2 hp
      obtain ⟨v, hv, hid⟩ := (hresolves hp).2 r hr
      obtain ⟨v', hv', hid'⟩ := (hresolves hq).2 r' hr'
      rw [hid, hid']
      constructor
      · intro hsame
        rw [← (hfound hv).2, ← (hfound hv').2, inj_on_of_nodup_map hnodup (hfound hv).1 (hfound hv').1 hsame]
      · rintro rfl
        rw [Option.some.inj (hv.symm.trans hv')]
    · obtain ⟨added, hadded⟩ := hrun.vars_prefix
      have hsignatures := hrun.signatures_eq
      rw [foldl_listOnce, ← hadded, map_append] at hsignatures
      exact ⟨added, hadded.symm, append_cancel_left hsignatures⟩

/-- **References by name find their variables.**  If a JSON document loads, and its declared
variables have distinct ids from which those that are drawn differ, then each field that refers to a
variable by name and type gets the id of one, the same if and only if name and type are the same;
and the variables that are added are those that are referred to and not declared, once each, in the
order in which loading comes to them. -/
theorem Workspace.load_resolves {bytes : List UInt8} {name : String} {ids ids' : Ids} {w : Workspace}
    (hload : Workspace.load "json" bytes name ids = (.ok w, ids')) :
    ∃ d, Document.ofText? (Text.ofBytes bytes) = some d ∧
      ((d.vars.items.map (·.id) ++ ids.drawnTo ids').Nodup → d.Resolved w) := by
  rw [Workspace.load, if_pos (by decide)] at hload
  have htext : Workspace.ofJsonText (Text.ofBytes bytes) ids = (.ok w, ids') := by
    split at hload
    · cases hload
      assumption
    · cases hload
  unfold Workspace.ofJsonText at htext
  unfold Document.ofText?
  split at htext
  · cases htext
  · case h_2 value rest hvalue =>
    split at htext
    · cases htext
    · case h_2 d hd =>
      exact ⟨d, by simp only [hvalue, hd]; rfl, Document.resolved_of_load htext⟩

/-- A document with a declared variable, and references to it and, twice, to another one. -/
def Document.twoReferences : List UInt8 :=
  ("\x7b\"variables\":[\x7b\"id\":\"v\",\"name\":\"x\"\x7d]," ++
    "\"blocks\":\x7b\"blocks\":[\x7b\"fields\":\x7b\"A\":\x7b\"name\":\"y\"\x7d,\"B\":\x7b\"name\":\"x\"\x7d," ++
    "\"C\":\x7b\"name\":\"y\"\x7d\x7d\x7d]\x7d\x7d").toUTF8.toList

theorem Workspace.load_resolves_twoReferences : ∃ w ids' d,
    Workspace.load "json" Document.twoReferences "" {} = (.ok w, ids') ∧
      Document.ofText? (Text.ofBytes Document.twoReferences) = some d ∧ d.Resolved w := by
  have hloads : (Workspace.load "json" Document.twoReferences "" {}).1.toOption.isSome ∧
      (Document.ofText? (Text.ofBytes Document.twoReferences)).all fun d => (d.vars.items.map (·.id) ++
        Ids.drawnTo {} (Workspace.load "json" Document.twoReferences "" {}).2).Nodup := by decide +kernel
  rcases hload : Workspace.load "json" Document.twoReferences "" {} with ⟨w | w, ids'⟩
  · rw [hload] at hloads
    cases hloads.1
  · obtain ⟨d, hd, hresolved⟩ := load_resolves hload
    rw [hload, hd] at hloads
    exact ⟨w, ids', d, rfl, hd, hresolved (of_decide_eq_true hloads.2)⟩

end BlockProgram
