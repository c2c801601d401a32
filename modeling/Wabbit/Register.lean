/-!
Virtual registers of the generated code.
-/

namespace Wabbit

/-- A place that is assigned exactly once. -/
inductive Register where
  /-- The n-th intermediate result of the program. -/
  | numbered (n : Nat)
  /-- The incoming value of a parameter. -/
  | argument (parameter : String)
  /-- A register under a name of its own. -/
  | named (name : String)
  deriving DecidableEq, Repr

namespace Register

/-- The name of the register. The leading dot of the first two keeps them apart from variables,
whose names never start with one. -/
def name : Register → String
  | numbered n => ".r" ++ toString n
  | argument parameter => ".arg_" ++ parameter
  | named name => name

def text (r : Register) : String := "%" ++ r.name

end Register

end Wabbit
