/-!
Labels of blocks. A label is an identity; its name is kept apart, in a table, so that renaming a
label is seen by the block that carries it and by every jump to that block at once.
-/

namespace Wabbit

/-- The identity of a block. Two labels may bear the same name and still be different. -/
structure Label where
  id : Nat
  deriving DecidableEq, Repr

/-- The current names of all labels made so far, by their identities. -/
structure Labels where
  names : Array String := #[]
  deriving DecidableEq, Repr

/-- The name of the block that receives the arguments of a function. -/
def Label.entryName : String := "entry"

namespace Labels

def nameOf (labels : Labels) (label : Label) : String :=
  labels.names[label.id]?.getD ""

/-- Makes a label that differs from all labels made before. -/
def make (labels : Labels) (name : String) : Label × Labels :=
  (⟨labels.names.size⟩, ⟨labels.names.push name⟩)

def rename (labels : Labels) (label : Label) (name : String) : Labels :=
  ⟨labels.names.setIfInBounds label.id name⟩

/-- A new label bears its name, and every label made before keeps its own. -/
theorem nameOf_make (labels : Labels) (name : String) (label : Label)
    (made : label.id < labels.names.size) :
    (labels.make name).2.nameOf (labels.make name).1 = name ∧
      (labels.make name).2.nameOf label = labels.nameOf label := by
  have other : label.id ≠ labels.names.size := Nat.ne_of_lt made
  simp [make, nameOf, Array.getElem?_push, other]

/-- Renaming a label changes its name only. -/
theorem nameOf_rename (labels : Labels) (label other : Label) (name : String)
    (made : label.id < labels.names.size) :
    (labels.rename label name).nameOf other =
      if other = label then name else labels.nameOf other := by
  by_cases same : other = label
  · subst same
    simp [rename, nameOf, made]
  · have distinct : label.id ≠ other.id := fun ids => same (by cases other; cases label; simp_all)
    simp [rename, nameOf, same, distinct]

end Labels

/-- A source of numbered names for labels: the stem followed by 0, 1, 2, … -/
structure LabelSupply where
  stem : String := "L"
  next : Nat := 0
  deriving DecidableEq, Repr

namespace LabelSupply

/-- The next name, and the supply without it. -/
def take (supply : LabelSupply) : String × LabelSupply :=
  (supply.stem ++ toString supply.next, { supply with next := supply.next + 1 })

/-- Makes a new label that bears the next name. -/
def fresh (supply : LabelSupply) (labels : Labels) : Label × LabelSupply × Labels :=
  let (name, supply) := supply.take
  let (label, labels) := labels.make name
  (label, supply, labels)

end LabelSupply

end Wabbit
