/-!
Byte ranges of a source text, and messages that point to them.
-/

namespace Wabbit

/-- The bytes of a text from `start` up to, and without, `stop`. -/
structure Span where
  start : Nat := 0
  stop : Nat := 0
  deriving DecidableEq, Repr

namespace Span

def single (start : Nat) : Span := ⟨start, start + 1⟩

/-- The empty range at a place, for instance at the end of the text. -/
def marker (place : Nat) : Span := ⟨place, place⟩

/-- The smallest range that contains both. -/
def union (a b : Span) : Span := ⟨min a.start b.start, max a.stop b.stop⟩

/-- The number of bytes, zero if the range ends before it starts. -/
def length (s : Span) : Nat := s.stop - s.start

end Span

/-- A message, advice on it, and remarks on parts of the source text. -/
structure Diagnostic where
  message : String
  help : Option String := none
  labels : List (String × Span) := []
  deriving DecidableEq, Repr

end Wabbit
