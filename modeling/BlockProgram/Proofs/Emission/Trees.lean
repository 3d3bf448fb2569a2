import BlockProgram.Program.Generate

/-! # What is plugged into a block

A handler reaches the blocks below its own through slots.  A slot is found by the name of its
socket, and emits the stack that counts there (`Block.slot?_scene`, `Socket.slot_eq`).  So a
statement about all blocks goes by induction along the sockets (`Block.induct`), and needs no other
access to the way scenes are built.

The data of all blocks of a tree may be changed without touching its shape (`Block.mapData`).
-/
namespace BlockProgram

open List Socket

/-! ### Induction -/

section

/-- What holds of a block if it holds of all that is plugged into it. -/
abbrev Block.Inherits (P : Block → Prop) : Prop := ∀ b : Block, (∀ s ∈ b.sockets, ∀ b' ∈ s.target, P b') → P b

variable {P : Block → Prop}

mutual

/-- **Induction along blocks.** -/
theorem Block.induct (h : ∀ b : Block, (∀ s ∈ b.sockets, ∀ b' ∈ s.target, P b') → P b) : ∀ b : Block, P b
  | .mk d ss => h (.mk d ss) (Socket.listInduct h ss)

theorem Socket.listInduct (h : Block.Inherits P) : ∀ ss : List Socket, ∀ s ∈ ss, ∀ b' ∈ s.target, P b'
  | [] => nofun
  | s :: ss => forall_mem_cons.mpr ⟨Socket.induct h s, Socket.listInduct h ss⟩

theorem Socket.induct (h : Block.Inherits P) : ∀ s : Socket, ∀ b' ∈ s.target, P b'
  | .mk _ _ [] shadow => Stack.induct h shadow
  | .mk _ _ (b :: bs) _ => forall_mem_cons.mpr ⟨Block.induct h b, Stack.induct h bs⟩

theorem Stack.induct (h : Block.Inherits P) : ∀ bs : List Block, ∀ b' ∈ bs, P b'
  | [] => nofun
  | b :: bs => forall_mem_cons.mpr ⟨Block.induct h b, Stack.induct h bs⟩

end

end

/-! ### Slots -/

theorem Block.emit_eq (v : Vocabulary) (place : Place) (b : Block) :
    b.emit v place = Emit.dispatch v (b.scene v place) := by
  cases b
  rfl

theorem Socket.slot_eq (v : Vocabulary) (place : Place) (owner : BlockData) (s : Socket) : s.slot v place owner =
      { name := s.name, kind := s.kind, target := s.target
        code := Stack.emitFirst v (place.inside owner (s.kind = .value)) s.target
        chain := Stack.emit v (place.inside owner (s.kind = .value)) s.target } := by
  obtain ⟨name, kind, plugged, shadow⟩ := s
  cases plugged with
  | nil => rfl
  | cons b bs =>
    rfl

theorem Socket.listSlots_eq_map (v : Vocabulary) (place : Place) (owner : BlockData) (ss : List Socket) :
    listSlots v place owner ss = ss.map (·.slot v place owner) := by
  induction ss with
  | nil => rfl
  | cons s ss ih => unfold listSlots; rw [ih, map_cons]

theorem Block.slot?_scene (v : Vocabulary) (place : Place) (b : Block) (name : String) :
    (b.scene v place).slot? name = (b.socket? name).map (·.slot v place b.data) := by
  unfold Scene.slot? Block.scene Block.socket?
  have hname : ∀ s : Socket, (s.slot v place b.data).name = s.name := fun s => by rw [slot_eq]
  rw [listSlots_eq_map, List.find?_map]
  simp only [Function.comp_def, hname]

/-! ### Descendants -/

theorem Stack.descendants_eq_flatMap (bs : Stack) : Stack.descendants bs = bs.flatMap Block.descendants := by
  induction bs with
  | nil => rfl
  | cons b bs ih => unfold Stack.descendants; rw [ih, flatMap_cons]

theorem Socket.descendants_eq (s : Socket) : s.descendants = Stack.descendants s.target := by
  obtain ⟨name, kind, plugged, shadow⟩ := s
  cases plugged with
  | nil => rfl
  | cons b bs =>
    unfold descendants target
    rw [Stack.descendants]

theorem Socket.listDescendants_eq_flatMap (ss : List Socket) :
    listDescendants ss = ss.flatMap fun s => Stack.descendants s.target := by
  induction ss with
  | nil => rfl
  | cons s ss ih => unfold listDescendants; rw [ih, flatMap_cons, descendants_eq]

theorem Block.descendants_eq (b : Block) :
    b.descendants = b :: b.sockets.flatMap fun s => Stack.descendants s.target := by
  obtain ⟨d, ss⟩ := b
  unfold Block.descendants
  rw [listDescendants_eq_flatMap]
  rfl

theorem Block.mem_descendants_self (b : Block) : b ∈ b.descendants := by
  rw [Block.descendants_eq]
  exact mem_cons_self

theorem Block.descendants_subset {b b' : Block} {s : Socket} (hs : s ∈ b.sockets) (hb' : b' ∈ s.target) :
    b'.descendants ⊆ b.descendants := by
  intro c hc
  rw [Block.descendants_eq b]
  refine mem_cons_of_mem _ (mem_flatMap.mpr ⟨s, hs, ?_⟩)
  rw [Stack.descendants_eq_flatMap]
  exact mem_flatMap.mpr ⟨b', hb', hc⟩

/-! ### Other data in the same tree -/

mutual

/-- Changes the data of a block and of all below it. -/
def Block.mapData (f : BlockData → BlockData) : Block → Block
  | .mk d ss => .mk (f d) (Socket.listMapData f ss)

def Socket.listMapData (f : BlockData → BlockData) : List Socket → List Socket
  | [] => []
  | s :: ss => s.mapData f :: Socket.listMapData f ss

def Socket.mapData (f : BlockData → BlockData) : Socket → Socket
  | .mk name kind plugged shadow => .mk name kind (Stack.mapData f plugged) (Stack.mapData f shadow)

def Stack.mapData (f : BlockData → BlockData) : List Block → List Block
  | [] => []
  | b :: bs => b.mapData f :: Stack.mapData f bs

end

section

variable (f : BlockData → BlockData)

theorem Stack.mapData_eq (bs : Stack) : Stack.mapData f bs = List.map (Block.mapData f) bs := by
  induction bs with
  | nil => rfl
  | cons b bs ih => unfold Stack.mapData; rw [ih, map_cons]

theorem Socket.listMapData_eq (ss : List Socket) : listMapData f ss = ss.map (mapData f) := by
  induction ss with
  | nil => rfl
  | cons s ss ih => unfold listMapData; rw [ih, map_cons]

@[simp] theorem Block.data_mapData (b : Block) : (b.mapData f).data = f b.data := by
  obtain ⟨d, ss⟩ := b
  rfl

@[simp] theorem Block.sockets_mapData (b : Block) : (b.mapData f).sockets = b.sockets.map (Socket.mapData f) := by
  obtain ⟨d, ss⟩ := b
  exact listMapData_eq f ss

@[simp] theorem Socket.name_mapData (s : Socket) : (s.mapData f).name = s.name := by
  obtain ⟨name, kind, plugged, shadow⟩ := s
  rfl

@[simp] theorem Socket.kind_mapData (s : Socket) : (s.mapData f).kind = s.kind := by
  obtain ⟨name, kind, plugged, shadow⟩ := s
  rfl

@[simp] theorem Socket.target_mapData (s : Socket) : (s.mapData f).target = List.map (Block.mapData f) s.target := by
  obtain ⟨name, kind, plugged, shadow⟩ := s
  unfold mapData
  rw [Stack.mapData_eq, Stack.mapData_eq]
  cases plugged with
  | nil | cons => rfl

theorem Block.socket?_mapData (b : Block) (name : String) :
    (b.mapData f).socket? name = (b.socket? name).map (Socket.mapData f) := by
  unfold Block.socket?
  rw [Block.sockets_mapData, List.find?_map]
  simp only [Function.comp_def, name_mapData]

variable {f}

mutual

theorem Block.mapData_eq_self (hf : ∀ d, f d = d) : ∀ b : Block, b.mapData f = b
  | .mk d ss => by
    unfold Block.mapData
    rw [hf, Socket.listMapData_eq_self hf ss]

theorem Socket.listMapData_eq_self (hf : ∀ d, f d = d) : ∀ ss : List Socket, listMapData f ss = ss
  | [] => by rfl
  | s :: ss => by
    unfold listMapData
    rw [Socket.mapData_eq_self hf s, Socket.listMapData_eq_self hf ss]

theorem Socket.mapData_eq_self (hf : ∀ d, f d = d) : ∀ s : Socket, s.mapData f = s
  | .mk name kind plugged shadow => by
    unfold mapData
    rw [Stack.mapData_eq_self hf plugged, Stack.mapData_eq_self hf shadow]

theorem Stack.mapData_eq_self (hf : ∀ d, f d = d) : ∀ bs : List Block, Stack.mapData f bs = bs
  | [] => by rfl
  | b :: bs => by
    unfold Stack.mapData
    rw [Block.mapData_eq_self hf b, Stack.mapData_eq_self hf bs]

end

end

end BlockProgram
