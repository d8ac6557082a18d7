/-!
# Bindings

A finite map from names, as an association list.  Two maps are the same for every purpose here
if they answer every `find?` alike; the order of entries is never shown.
-/

namespace Lox

abbrev Bindings (α : Type) := List (String × α)

namespace Bindings

variable {α : Type}

def find? (name : String) : Bindings α → Option α
  | [] => none
  | (other, value) :: rest => if other = name then some value else find? name rest

/-- Bind a name, in place of an earlier binding of it. -/
def insert (name : String) (value : α) : Bindings α → Bindings α
  | [] => [(name, value)]
  | (other, previous) :: rest =>
    if other = name then (name, value) :: rest else (other, previous) :: insert name value rest

def has (name : String) (bindings : Bindings α) : Bool :=
  (find? name bindings).isSome

@[simp] theorem find?_nil (name : String) : find? name ([] : Bindings α) = none := rfl

@[simp] theorem find?_insert_self (name : String) (value : α) (bindings : Bindings α) :
    find? name (insert name value bindings) = some value := by
  induction bindings with
  | nil => simp [insert, find?]
  | cons entry rest ih =>
    obtain ⟨other, previous⟩ := entry
    by_cases same : other = name <;> simp [insert, find?, same, ih]

theorem find?_insert_of_ne {name other : String} (different : other ≠ name) (value : α)
    (bindings : Bindings α) : find? other (insert name value bindings) = find? other bindings := by
  induction bindings with
  | nil => simp [insert, find?, Ne.symm different]
  | cons entry rest ih =>
    obtain ⟨head, previous⟩ := entry
    by_cases same : head = name
    · subst same
      simp [insert, find?, Ne.symm different]
    · simp [insert, find?, same, ih]

/-- Binding a name changes what is found under that name alone. -/
theorem find?_insert (name other : String) (value : α) (bindings : Bindings α) :
    find? other (insert name value bindings) =
      if other = name then some value else find? other bindings := by
  by_cases same : other = name
  · simp [same]
  · simp [same, find?_insert_of_ne same]

end Bindings

end Lox
