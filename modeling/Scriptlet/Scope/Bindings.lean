import Scriptlet.Value

namespace Scriptlet

/-- Names in the order in which they were first bound, each once. -/
structure Bindings where
  entries : List (String × Value)

namespace Bindings

def empty : Bindings := ⟨[]⟩

def getEntry? (name : String) : List (String × Value) → Option Value
  | [] => none
  | (n, v) :: rest => if n = name then some v else getEntry? name rest

def get? (b : Bindings) (name : String) : Option Value := getEntry? name b.entries

def setEntry (name : String) (v : Value) : List (String × Value) → List (String × Value)
  | [] => [(name, v)]
  | (n, w) :: rest => if n = name then (n, v) :: rest else (n, w) :: setEntry name v rest

/-- Binds a name, in place of its binding so far if it has one. -/
def set (b : Bindings) (name : String) (v : Value) : Bindings := ⟨setEntry name v b.entries⟩

def size (b : Bindings) : Nat := b.entries.length

def names (b : Bindings) : List String := b.entries.map Prod.fst

@[simp] theorem get?_empty (name : String) : empty.get? name = none := rfl

theorem get?_set (b : Bindings) (name other : String) (v : Value) :
    (b.set name v).get? other = if name = other then some v else b.get? other := by
  obtain ⟨entries⟩ := b
  simp only [set, get?]
  induction entries with
  | nil => rfl
  | cons e es ih =>
    obtain ⟨n, w⟩ := e
    by_cases hn : n = name
    · subst hn
      by_cases h : n = other <;> simp [setEntry, getEntry?, h]
    · by_cases h : n = other
      · subst h
        simp [setEntry, getEntry?, hn, Ne.symm hn]
      · simp [setEntry, getEntry?, hn, h, ih]

end Bindings

end Scriptlet
