import UntypedLambda.Term.Substitution

set_option autoImplicit false

/-! The definitions that a session knows by name. -/

namespace UntypedLambda

/-- Named definitions, in the order of their names. -/
structure Context where
  entries : List (String × Term)

namespace Context

def empty : Context :=
  ⟨[]⟩

def insertEntry (name : String) (t : Term) : List (String × Term) → List (String × Term)
  | [] => [(name, t)]
  | (key, old) :: entries =>
      if name = key then
        (name, t) :: entries
      else if name < key then
        (name, t) :: (key, old) :: entries
      else
        (key, old) :: insertEntry name t entries

def define (context : Context) (name : String) (t : Term) : Context :=
  ⟨insertEntry name t context.entries⟩

def find? (context : Context) (name : String) : Option Term :=
  context.entries.lookup name

/-- A copy of the definition with new binders, fit to become part of another term. -/
def lookup? (context : Context) (name : String) (supply : Nat) : Option (Term × Nat) :=
  (context.find? name).map fun t => t.freshCopy supply

def contains (context : Context) (name : String) : Bool :=
  (context.find? name).isSome

def size (context : Context) : Nat :=
  context.entries.length

/-- A new definition is the one that its name stands for, and no other name is touched. -/
theorem find?_define (context : Context) (name other : String) (t : Term) :
    (context.define name t).find? other = if other = name then some t else context.find? other := by
  obtain ⟨entries⟩ := context
  simp only [define, find?]
  induction entries with
  | nil =>
      by_cases same : other = name
      · simp [insertEntry, same]
      · have skip : (other == name) = false := by simp [same]
        simp [insertEntry, List.lookup_cons, skip, same]
  | cons entry entries ih =>
      obtain ⟨key, old⟩ := entry
      by_cases same : other = name
      · subst same
        simp only [insertEntry]
        split
        · simp
        · rename_i different
          have skip : (other == key) = false := by simp [different]
          split
          · simp
          · simpa [List.lookup_cons, skip] using ih
      · have skip : (other == name) = false := by simp [same]
        simp only [insertEntry]
        split
        · rename_i atKey
          subst atKey
          simp [List.lookup_cons, skip]
        · split
          · simp [List.lookup_cons, skip]
          · by_cases atKey : other = key
            · simp [atKey]
            · have skipKey : (other == key) = false := by simp [atKey]
              simpa [List.lookup_cons, skipKey, same] using ih

end Context

end UntypedLambda
