import ArithCheck.Fault

/-!
# Registries

A registry keeps things under numbers that never change, and knows some of them by name. When a
name is given again it stands for the new thing from then on; the earlier one stays where it is,
for those that refer to it by its number.
-/

namespace ArithCheck.Session

structure Registry (α : Type) where
  items : Array α
  /-- The names with the numbers that they stand for. The first entry for a name counts. -/
  names : List (String × Nat)

namespace Registry

variable {α : Type}

def empty : Registry α := ⟨#[], []⟩

/-- Adds a thing without a name, and gives its number. -/
def add (r : Registry α) (a : α) : Nat × Registry α :=
  (r.items.size, { r with items := r.items.push a })

/-- Adds a thing under a name. -/
def insert (r : Registry α) (name : String) (a : α) : Registry α :=
  { items := r.items.push a, names := (name, r.items.size) :: r.names }

/-- What a number stands for. -/
def get? (r : Registry α) (id : Nat) : Option α := r.items[id]?

/-- The number that a name stands for. -/
def id? (r : Registry α) (name : String) : Option Nat :=
  (r.names.find? (·.1 = name)).map (·.2)

/-- What a name stands for, with its number. -/
def find? (r : Registry α) (name : String) : Option (Nat × α) := do
  let id ← r.id? name
  return (id, ← r.get? id)

/-- Puts a thing in the place of another. -/
def set (r : Registry α) (id : Nat) (a : α) : Registry α :=
  { r with items := r.items.setIfInBounds id a }

theorem get?_size (r : Registry α) : r.get? r.items.size = none := by
  simp [get?]

theorem find?_insert_self (r : Registry α) (name : String) (a : α) :
    (r.insert name a).find? name = some (r.items.size, a) := by
  simp [find?, insert, id?, get?]

theorem get?_insert_of_lt (r : Registry α) (name : String) (a : α) {id : Nat}
    (h : id < r.items.size) : (r.insert name a).get? id = r.get? id := by
  simp [get?, insert, Array.getElem?_push, Nat.ne_of_lt h]

theorem get?_insert_of_some (r : Registry α) (name : String) (b : α) {id : Nat} {a : α}
    (h : r.get? id = some a) : (r.insert name b).get? id = some a := by
  have hlt : id < r.items.size := (Array.getElem?_eq_some_iff.mp h).1
  rw [get?_insert_of_lt r name b hlt, h]

/-- What is in a registry after an insertion. -/
theorem get?_insert_cases {r : Registry α} {name : String} {a b : α} {id : Nat}
    (h : (r.insert name b).get? id = some a) : r.get? id = some a ∨ a = b := by
  simp only [get?, insert, Array.getElem?_push] at h
  split at h
  · exact .inr (Option.some.inj h).symm
  · exact .inl h

theorem get?_set_self {r : Registry α} {id : Nat} {a : α} (b : α) (h : r.get? id = some a) :
    (r.set id b).get? id = some b := by
  have hlt : id < r.items.size := (Array.getElem?_eq_some_iff.mp h).1
  simp [get?, set, hlt]

theorem get?_set_ne (r : Registry α) {id id' : Nat} (b : α) (h : id' ≠ id) :
    (r.set id' b).get? id = r.get? id := by
  simp [get?, set, h]

/-- What is in a registry after one thing is put in the place of another. -/
theorem get?_set_cases {r : Registry α} {a b : α} {id id' : Nat}
    (h : (r.set id' b).get? id = some a) : r.get? id = some a ∨ id = id' ∧ a = b := by
  by_cases hid : id' = id
  · subst hid
    right
    have hlt : id' < r.items.size := by
      simpa [set] using (Array.getElem?_eq_some_iff.mp h).1
    simp [get?, set, hlt] at h
    exact ⟨rfl, h.symm⟩
  · exact .inl (by rwa [get?_set_ne r b hid] at h)

/-- Putting in a thing that looks the same changes nothing for those who only look. -/
theorem map_get?_set {β : Type} {r : Registry α} {id' : Nat} {a b : α} {look : α → β}
    (h : r.get? id' = some a) (hlook : look b = look a) (id : Nat) :
    ((r.set id' b).get? id).map look = (r.get? id).map look := by
  by_cases hid : id' = id
  · subst hid
    rw [get?_set_self b h, h, Option.map_some, Option.map_some, hlook]
  · rw [get?_set_ne r b hid]

theorem id?_insert (r : Registry α) (name name' : String) (a : α) :
    (r.insert name a).id? name' = if name = name' then some r.items.size else r.id? name' := by
  simp only [id?, insert, List.find?_cons]
  by_cases h : name = name' <;> simp [h]

theorem find?_eq_some_iff {r : Registry α} {name : String} {id : Nat} {a : α} :
    r.find? name = some (id, a) ↔ r.id? name = some id ∧ r.get? id = some a := by
  have hfind : r.find? name = (r.id? name).bind fun id => (r.get? id).map (id, ·) := by
    cases h : r.id? name with
    | none => simp [find?, h]
    | some id' => cases h' : r.get? id' <;> simp [find?, h, h']
  rw [hfind, Option.bind_eq_some_iff]
  constructor
  · rintro ⟨id', hid, hget⟩
    obtain ⟨b, hget, hpair⟩ := Option.map_eq_some_iff.mp hget
    cases hpair
    exact ⟨hid, hget⟩
  · rintro ⟨hid, hget⟩
    exact ⟨id, hid, by rw [hget]; rfl⟩

end Registry

end ArithCheck.Session
