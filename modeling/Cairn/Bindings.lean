/-!
# Cairn — names with values

A finite map from names, in the order in which the names were first bound.
Binding a name again keeps its place.
-/

namespace Cairn

/-- Names, each bound to a value once. -/
structure Bindings (α : Type) where
  entries : List (String × α)
deriving DecidableEq, Repr

namespace Bindings

variable {α : Type}

/-- No names at all. -/
def empty : Bindings α :=
  ⟨[]⟩

/-- The value in a list of entries. -/
def lookup (name : String) : List (String × α) → Option α
  | [] => none
  | (key, value) :: rest => if key = name then some value else lookup name rest

/-- The entries with one bound anew. -/
def update (name : String) (value : α) : List (String × α) → List (String × α)
  | [] => [(name, value)]
  | (key, old) :: rest =>
    if key = name then (key, value) :: rest else (key, old) :: update name value rest

/-- The value of a name. -/
def find? (b : Bindings α) (name : String) : Option α :=
  lookup name b.entries

/-- Binds a name, in place of what it was bound to. -/
def insert (b : Bindings α) (name : String) (value : α) : Bindings α :=
  ⟨update name value b.entries⟩

/-- How many names are bound. -/
def size (b : Bindings α) : Nat :=
  b.entries.length

/-- The entries ordered by name, character by character. -/
def sorted (b : Bindings α) : List (String × α) :=
  b.entries.mergeSort fun x y => !decide (y.1 < x.1)

theorem lookup_update (name other : String) (value : α) (entries : List (String × α)) :
    lookup other (update name value entries) =
      if name = other then some value else lookup other entries := by
  induction entries with
  | nil => simp [lookup, update]
  | cons entry rest ih =>
    obtain ⟨key, old⟩ := entry
    by_cases hk : key = name
    · subst hk
      by_cases ho : key = other <;> simp [lookup, update, ho]
    · by_cases ho : key = other
      · subst ho
        have hn : ¬ name = key := fun h => hk h.symm
        simp [lookup, update, hk, hn]
      · simp [lookup, update, hk, ho, ih]

@[simp] theorem find?_empty (name : String) : (empty : Bindings α).find? name = none := rfl

theorem find?_insert (b : Bindings α) (name other : String) (value : α) :
    (b.insert name value).find? other = if name = other then some value else b.find? other :=
  lookup_update name other value b.entries

end Bindings

end Cairn
