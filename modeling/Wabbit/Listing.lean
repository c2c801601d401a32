/-!
The common layout of program listings: four spaces for every level, and bodies in braces with each
statement on lines of its own.
-/

namespace Wabbit.Listing

/-- The blanks in front of a line. -/
def indent (depth : Nat) : String := String.ofList (List.replicate (4 * depth) ' ')

/-- Lines in braces; the lines bring their own blanks. -/
def body (depth : Nat) (lines : List String) : String :=
  "\x7b" ++ String.join (lines.map ("\n" ++ ·)) ++ "\n" ++ indent depth ++ "\x7d"

def branch (depth : Nat) (condition : String) (ifTrue ifFalse : List String) : String :=
  let rest := if ifFalse.isEmpty then "" else " else " ++ body depth ifFalse
  "if " ++ condition ++ " " ++ body depth ifTrue ++ rest

def loop (depth : Nat) (condition : String) (lines : List String) : String :=
  "while " ++ condition ++ " " ++ body depth lines

/-- A function with its parameters, each with the name of its kind. -/
def function (depth : Nat) (name : String) (parameters : List (String × String)) (result : String)
    (lines : List String) : String :=
  let parameters := ", ".intercalate (parameters.map fun (name, kind) => name ++ " " ++ kind)
  "func " ++ name ++ "(" ++ parameters ++ ") " ++ result ++ " " ++ body depth lines

/-- A program: every statement is followed by the end of the line. -/
def program (statements : List String) : String := String.join (statements.map (· ++ "\n"))

end Wabbit.Listing
