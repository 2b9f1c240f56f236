/-!
# Dictionaries

A dictionary is a list of entries in ascending order of their names, each name once. Names are
compared by code point, which is also the order of their bytes.
-/
namespace TypedFlow

/-- Entries by name. In a dictionary they are in ascending order; elsewhere names may repeat. -/
abbrev Entries (α : Type) := List (String × α)

namespace Entries
variable {α : Type}

def get? (entries : Entries α) (name : String) : Option α :=
  (entries.find? (·.1 == name)).map (·.2)

def has (entries : Entries α) (name : String) : Bool := entries.any (·.1 == name)

/-- Puts an entry at its place, over the one of that name if there is one. -/
def insert (name : String) (value : α) : Entries α → Entries α
  | [] => [(name, value)]
  | (other, v) :: rest =>
    if name < other then (name, value) :: (other, v) :: rest
    else if name = other then (name, value) :: rest
    else (other, v) :: insert name value rest

/-- Puts a value under the first entry with a name, if there is one. -/
def replace (name : String) (value : α) : Entries α → Entries α
  | [] => []
  | (other, v) :: rest =>
    if other == name then (other, value) :: rest else (other, v) :: replace name value rest

/-- The dictionary of some entries; of two with one name the later counts. -/
def ofList (entries : List (String × α)) : Entries α :=
  entries.foldl (fun all (name, value) => all.insert name value) []

theorem get?_nil (name : String) : get? ([] : Entries α) name = none := rfl

theorem get?_cons (entry : String × α) (entries : Entries α) (name : String) :
    get? (entry :: entries) name = if entry.1 = name then some entry.2 else get? entries name := by
  by_cases h : entry.1 = name <;> simp [get?, h]

theorem has_eq_isSome (entries : Entries α) (name : String) :
    has entries name = (get? entries name).isSome := by
  induction entries with
  | nil => rfl
  | cons entry entries ih =>
    rw [get?_cons]
    by_cases h : entry.1 = name
    · simp [has, h]
    · rw [if_neg h, ← ih]
      simp [has, beq_eq_false_iff_ne.2 h]

theorem get?_insert (entries : Entries α) (name : String) (value : α) (other : String) :
    get? (insert name value entries) other =
      if name = other then some value else get? entries other := by
  induction entries with
  | nil => rw [insert, get?_cons]
  | cons entry entries ih =>
    obtain ⟨key, v⟩ := entry
    unfold insert
    split
    · rw [get?_cons]
    · split
      · rename_i h
        subst h
        rw [get?_cons, get?_cons]
        by_cases h : name = other <;> simp [h]
      · rename_i h
        rw [get?_cons, ih, get?_cons]
        by_cases hk : key = other
        · subst hk
          simp [h]
        · simp [hk]

end Entries
end TypedFlow
