import Mathlib.Data.String.Basic
import TypedFlow.Dictionary

/-!
# Names of dictionaries

A lookup finds an entry of the list, and every entry where no name repeats. Inserting keeps the
names in ascending order, so that those of a dictionary never repeat.
-/
namespace TypedFlow.Entries
variable {α : Type} {entries : Entries α} {name : String} {value : α}

def names (entries : Entries α) : List String := entries.map (·.1)

@[simp] theorem names_nil : names ([] : Entries α) = [] := rfl

@[simp] theorem names_cons (entry : String × α) (entries : Entries α) :
    names (entry :: entries) = entry.1 :: names entries := rfl

theorem names_eq_of_forall₂ {β : Type} {others : Entries β}
    (h : List.Forall₂ (fun entry other => entry.1 = other.1) entries others) :
    names entries = names others := by
  induction h with
  | nil => rfl
  | cons hfirst _ ih => rw [names_cons, names_cons, hfirst, ih]

theorem mem_of_get? (h : get? entries name = some value) : (name, value) ∈ entries := by
  induction entries with
  | nil => cases h
  | cons entry entries ih =>
    rw [get?_cons] at h
    by_cases hname : entry.1 = name
    · rw [if_pos hname] at h
      obtain rfl := Option.some.inj h
      simp [← hname]
    · rw [if_neg hname] at h
      simp [ih h]

theorem get?_isSome_iff : (get? entries name).isSome = true ↔ name ∈ names entries := by
  induction entries with
  | nil => simp [get?_nil]
  | cons entry entries ih =>
    rw [get?_cons, names_cons, List.mem_cons, @eq_comm _ name]
    by_cases hname : entry.1 = name
    · simp [hname]
    · simp [hname, ih]

theorem get?_eq_none_iff : get? entries name = none ↔ name ∉ names entries := by
  rw [← get?_isSome_iff]
  simp

theorem get?_of_mem (hd : (names entries).Nodup) (h : (name, value) ∈ entries) :
    get? entries name = some value := by
  induction entries with
  | nil => cases h
  | cons entry entries ih =>
    rw [names_cons, List.nodup_cons] at hd
    rw [get?_cons]
    rcases List.mem_cons.1 h with rfl | h
    · simp
    · have hname : entry.1 ≠ name := by
        intro heq
        exact hd.1 (heq ▸ List.mem_map_of_mem h)
      rw [if_neg hname]
      exact ih hd.2 h

/-- The names are in ascending order, hence distinct. -/
def Ascending (entries : Entries α) : Prop := (names entries).Pairwise (· < ·)

theorem Ascending.nodup (h : Ascending entries) : (names entries).Nodup := by
  apply List.Pairwise.imp _ h
  intro a b hlt
  exact hlt.ne

theorem mem_names_insert {other : String} (h : other ∈ names (insert name value entries)) :
    other = name ∨ other ∈ names entries := by
  rw [← get?_isSome_iff, get?_insert] at h
  by_cases hname : name = other
  · exact .inl hname.symm
  · rw [if_neg hname, get?_isSome_iff] at h
    exact .inr h

theorem ascending_insert (h : Ascending entries) : Ascending (insert name value entries) := by
  induction entries with
  | nil => exact List.pairwise_singleton _ _
  | cons entry entries ih =>
    obtain ⟨other, v⟩ := entry
    obtain ⟨hfirst, hrest⟩ := List.pairwise_cons.1 h
    simp only [insert]
    by_cases hlt : name < other
    · rw [if_pos hlt]
      refine List.pairwise_cons.2 ⟨fun key hkey => ?_, h⟩
      rcases List.mem_cons.1 hkey with rfl | hkey
      · exact hlt
      · exact hlt.trans (hfirst key hkey)
    · rw [if_neg hlt]
      by_cases heq : name = other
      · rw [if_pos heq]
        exact List.pairwise_cons.2 ⟨heq ▸ hfirst, hrest⟩
      · rw [if_neg heq]
        refine List.pairwise_cons.2 ⟨fun key hkey => ?_, ih hrest⟩
        rcases mem_names_insert hkey with rfl | hkey
        · exact lt_of_le_of_ne (not_lt.1 hlt) (Ne.symm heq)
        · exact hfirst key hkey

/-- Inserting one entry after the other, with values that may depend on the entry. -/
def insertAll (value : String × α → α) (rest : List (String × α)) (all : Entries α) : Entries α :=
  rest.foldl (fun all entry => all.insert entry.1 (value entry)) all

theorem ascending_insertAll (value : String × α → α) {rest : List (String × α)} {all : Entries α}
    (h : Ascending all) : Ascending (insertAll value rest all) := by
  induction rest generalizing all with
  | nil => exact h
  | cons entry rest ih => exact ih (ascending_insert h)

theorem get?_insertAll (value : String × α → α) {rest : List (String × α)} {all : Entries α}
    (hd : (names rest).Nodup) (name : String) :
    get? (insertAll value rest all) name =
      ((get? rest name).map fun v => value (name, v)).or (get? all name) := by
  induction rest generalizing all with
  | nil => rfl
  | cons entry rest ih =>
    obtain ⟨other, v⟩ := entry
    rw [names_cons, List.nodup_cons] at hd
    have hrest := @ih (insert other (value (other, v)) all) hd.2
    rw [get?_insert] at hrest
    rw [get?_cons]
    refine hrest.trans ?_
    by_cases hname : other = name
    · subst hname
      rw [get?_eq_none_iff.2 hd.1]
      simp
    · simp only [if_neg hname]

/-- What is inserted or was there has a value afterwards, also where names repeat. -/
theorem isSome_get?_insertAll (value : String × α → α) {rest : List (String × α)}
    {all : Entries α} (name : String) : (get? (insertAll value rest all) name).isSome =
      true ↔ name ∈ names rest ∨ (get? all name).isSome = true := by
  induction rest generalizing all with
  | nil => simp [insertAll]
  | cons entry rest ih =>
    have hrest := @ih (insert entry.1 (value entry) all)
    refine hrest.trans ?_
    rw [get?_insert, names_cons, List.mem_cons]
    by_cases hname : entry.1 = name
    · simp [hname]
    · simp [hname, Ne.symm hname]

theorem isSome_get?_ofList {entries : List (String × α)} {name : String} :
    (get? (ofList entries) name).isSome = true ↔ name ∈ names entries := by
  refine (isSome_get?_insertAll (·.2) name).trans ?_
  simp [get?_nil]

theorem ascending_ofList (entries : List (String × α)) : Ascending (ofList entries) :=
  ascending_insertAll (·.2) List.Pairwise.nil

theorem ofList_ne_nil {entries : List (String × α)} (h : entries ≠ []) : ofList entries ≠ [] := by
  rcases List.eq_nil_or_concat entries with hnil | ⟨first, last, rfl⟩
  · exact absurd hnil h
  · have hlast : get? (ofList (first ++ [last])) last.1 = some last.2 := by
      simp only [ofList]
      rw [List.foldl_append, List.foldl_cons, List.foldl_nil, get?_insert, if_pos rfl]
    intro hnil
    rw [List.concat_eq_append] at hnil
    rw [hnil] at hlast
    cases hlast

theorem mem_insert {entry : String × α} (h : entry ∈ insert name value entries) :
    entry = (name, value) ∨ entry ∈ entries := by
  induction entries with
  | nil => exact .inl (List.mem_singleton.1 h)
  | cons first entries ih =>
    obtain ⟨other, v⟩ := first
    simp only [insert] at h
    split at h
    · exact List.mem_cons.1 h
    · split at h
      · exact (List.mem_cons.1 h).imp_right (List.mem_cons_of_mem _)
      · rcases List.mem_cons.1 h with rfl | h
        · simp
        · exact (ih h).imp_right (List.mem_cons_of_mem _)

theorem mem_insertAll (value : String × α → α) {rest : List (String × α)} {all : Entries α}
    {entry : String × α} (h : entry ∈ insertAll value rest all) :
    (∃ e ∈ rest, entry = (e.1, value e)) ∨ entry ∈ all := by
  induction rest generalizing all with
  | nil => exact .inr h
  | cons first rest ih =>
    rcases ih h with ⟨e, he, heq⟩ | h
    · exact .inl ⟨e, List.mem_cons_of_mem _ he, heq⟩
    · rcases mem_insert h with heq | h
      · exact .inl ⟨first, List.mem_cons_self, heq⟩
      · exact .inr h

theorem mem_of_mem_ofList {entries : List (String × α)} {entry : String × α}
    (h : entry ∈ ofList entries) : entry ∈ entries := by
  rcases mem_insertAll (·.2) h with ⟨e, he, rfl⟩ | h
  · exact he
  · cases h

section MapEntries
variable {β : Type} (f : String → α → Option β)

/-- Every entry is changed or dropped under its name. -/
def mapEntries (entries : Entries α) : Entries β :=
  entries.filterMap fun entry => (f entry.1 entry.2).map (entry.1, ·)

theorem mapEntries_cons (entry : String × α) (entries : Entries α) :
    mapEntries f (entry :: entries) = match f entry.1 entry.2 with
      | none => mapEntries f entries
      | some b => (entry.1, b) :: mapEntries f entries := by
  simp only [mapEntries]
  rw [List.filterMap_cons]
  cases f entry.1 entry.2 with
  | none => rfl
  | some b => rfl

theorem mem_names_mapEntries (h : name ∈ names (mapEntries f entries)) : name ∈ names entries := by
  simp only [names, mapEntries, List.mem_map, List.mem_filterMap, Option.map_eq_some_iff] at h ⊢
  obtain ⟨_, ⟨entry, hentry, b, -, rfl⟩, rfl⟩ := h
  exact ⟨entry, hentry, rfl⟩

theorem ascending_mapEntries (h : Ascending entries) : Ascending (mapEntries f entries) := by
  induction entries with
  | nil => exact List.Pairwise.nil
  | cons entry entries ih =>
    obtain ⟨hfirst, hrest⟩ := List.pairwise_cons.1 h
    rw [mapEntries_cons]
    cases f entry.1 entry.2 with
    | none => exact ih hrest
    | some b =>
      exact List.pairwise_cons.2 ⟨fun key hkey => hfirst key (mem_names_mapEntries f hkey), ih hrest⟩

theorem get?_mapEntries (hd : (names entries).Nodup) (name : String) :
    get? (mapEntries f entries) name = (get? entries name).bind (f name) := by
  induction entries with
  | nil => rfl
  | cons entry entries ih =>
    rw [names_cons, List.nodup_cons] at hd
    have hrest := ih hd.2
    rw [mapEntries_cons, get?_cons]
    by_cases hname : entry.1 = name
    · subst hname
      rw [if_pos rfl, Option.bind_some]
      cases f entry.1 entry.2 with
      | none => exact get?_eq_none_iff.2 fun h => hd.1 (mem_names_mapEntries f h)
      | some b => simp [get?_cons]
    · rw [if_neg hname, ← hrest]
      cases f entry.1 entry.2 with
      | none => rfl
      | some b => simp [get?_cons, hname]

end MapEntries

end TypedFlow.Entries
