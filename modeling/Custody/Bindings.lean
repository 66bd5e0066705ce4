/-! Names and what they stand for. The latest binding of a name is the one in force. -/
namespace Custody

abbrev Bindings (α : Type) := List (String × α)

namespace Bindings

def find? (b : Bindings α) (name : String) : Option α :=
  b.lookup name

def remove (b : Bindings α) (name : String) : Bindings α :=
  b.filter (·.1 != name)

def bind (b : Bindings α) (name : String) (value : α) : Bindings α :=
  (name, value) :: b.remove name

theorem find?_cons (entry : String × α) (rest : Bindings α) (name : String) :
    find? (entry :: rest) name = if name = entry.1 then some entry.2 else rest.find? name := by
  unfold find?
  rw [List.lookup_cons]
  by_cases h : name = entry.1
  · simp [h]
  · simp [h, beq_false_of_ne h]

theorem find?_bind_self (b : Bindings α) (name : String) (value : α) :
    (b.bind name value).find? name = some value := by
  simp [bind, find?_cons]

theorem find?_remove_self (b : Bindings α) (name : String) : (b.remove name).find? name = none := by
  simp only [find?, remove, List.lookup_eq_none_iff, List.mem_filter]
  exact fun entry h => bne_comm.trans h.2

theorem find?_remove_of_ne (b : Bindings α) {name other : String} (h : other ≠ name) :
    (b.remove name).find? other = b.find? other := by
  induction b with
  | nil => rfl
  | cons entry rest ih =>
    unfold remove at ih ⊢
    by_cases hkey : entry.1 = name
    · have hne : other ≠ entry.1 := hkey ▸ h
      simpa [hkey, find?_cons, hne, h] using ih
    · simp [hkey, find?_cons, ih]

theorem find?_bind_of_ne (b : Bindings α) {name other : String} (value : α) (h : other ≠ name) :
    (b.bind name value).find? other = b.find? other := by
  simpa [bind, find?_cons, h] using find?_remove_of_ne b h

end Bindings
end Custody
