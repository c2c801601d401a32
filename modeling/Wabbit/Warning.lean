import Wabbit.Text.Quoted

/-!
Remarks that do not stop the compiler.
-/

namespace Wabbit

/-- What the author of a program may want to know. -/
inductive Warning where
  /-- A name is used that no declaration in scope introduces. -/
  | undeclared (name : String)
  /-- A file is there already and will be replaced. -/
  | overwritten (path : String)
  deriving DecidableEq, Repr

namespace Warning

def message : Warning → String
  | undeclared _ => "undeclared variable, treating it as global"
  | overwritten path => Text.quoted path ++ " already exists and will be overridden"

def name? : Warning → Option String
  | undeclared name => some name
  | overwritten _ => none

end Warning

end Wabbit
