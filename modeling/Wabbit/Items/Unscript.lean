import Wabbit.Items

/-!
From a list of statements to a program in items: the loose statements move into a function of their
own, which every program has and which stands last.
-/

namespace Wabbit

open Ast

/-- The name of the function that holds the loose statements. -/
def Items.entryPoint : String := "main"

variable {negation : Prop}

/-- The item that a statement of the top level is, if it is one. -/
def Item.ofStmt? : Stmt Symbol False negation → Option (Item (Stmt Symbol False negation))
  | .declare symbol => if symbol.isGlobal then some (.global symbol) else none
  | .function name parameters body =>
    if name.isGlobal then some (.function ⟨name, parameters, body⟩) else none
  | _ => none

/-- Moves every statement that is no item into the main function. -/
def Items.ofScript (script : Script Symbol False negation) :
    Items (Stmt Symbol False negation) :=
  let loose := script.filter fun s => (Item.ofStmt? s).isNone
  script.filterMap Item.ofStmt? ++ [.function ⟨.global entryPoint .integer, [], loose⟩]

end Wabbit
