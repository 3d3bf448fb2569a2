/-! Values kept under keys. A key holds one value, the last one put there. -/
namespace BlockProgram

/-- Values under keys, the latest first. -/
structure Shelf (α : Type) where
  entries : List (String × α) := []

namespace Shelf
variable {α : Type}

def get? (s : Shelf α) (key : String) : Option α := (s.entries.find? (·.1 = key)).map (·.2)

def remove (s : Shelf α) (key : String) : Shelf α := ⟨s.entries.filter (·.1 ≠ key)⟩

def put (s : Shelf α) (key : String) (value : α) : Shelf α :=
  ⟨(key, value) :: (s.remove key).entries⟩

def size (s : Shelf α) : Nat := s.entries.length

@[simp] theorem get?_put_self (s : Shelf α) (key : String) (value : α) : (s.put key value).get? key = some value := by
  simp [get?, put]

theorem get?_remove (s : Shelf α) (key other : String) :
    (s.remove key).get? other = if other = key then none else s.get? other := by
  obtain ⟨entries⟩ := s
  induction entries with
  | nil => simp [remove, get?]
  | cons e rest ih =>
    simp only [remove, get?] at ih ⊢
    by_cases hk : e.1 = key <;> by_cases ho : e.1 = other <;> grind

theorem get?_put (s : Shelf α) (key other : String) (value : α) :
    (s.put key value).get? other = if other = key then some value else s.get? other := by
  by_cases h : other = key
  · subst h; simp
  · have h' : ¬ key = other := fun e => h e.symm
    have : (s.put key value).get? other = (s.remove key).get? other := by
      simp [put, get?, h']
    rw [this, get?_remove]
    simp [h]

end Shelf

end BlockProgram
