import Wabbit.Tac.Basic

/-!
LLVM assembly, and listings of three address code, which show the same instructions.
-/

namespace Wabbit

/-- The bits of a number as 16 digits in base 16. -/
def Binary64.hex (x : Binary64) : String :=
  let digits := (Nat.toDigits 16 x.bits.toNat).map Char.toUpper
  "0x" ++ String.ofList (List.replicate (16 - digits.length) '0' ++ digits)

/-- A number as an LLVM constant, which has to be exact: whole numbers below 10^15 in decimal, all
others by their bits. -/
def Binary64.llvm (x : Binary64) : String :=
  if x.isFinite ∧ x.units % one = 0 ∧ x.units / one < Nat.pow 10 15 then
    (if x.isNegative then "-" else "") ++ toString (x.units / one) ++ ".0"
  else x.hex

namespace Tac

def Operand.text : Operand → String
  | int value => toString value.toInt
  | float value => value.llvm
  | register r => r.text

def Address.text : Address → String
  | slot name => "%" ++ name
  | global name => "@" ++ name

/-- The name of an operator on values of a kind. -/
def mnemonic : Operator → Kind → String
  | .arithmetic .add, .integer => "add"
  | .arithmetic .sub, .integer => "sub"
  | .arithmetic .mul, .integer => "mul"
  | .arithmetic .div, .integer => "sdiv"
  | .arithmetic .add, .float => "fadd"
  | .arithmetic .sub, .float => "fsub"
  | .arithmetic .mul, .float => "fmul"
  | .arithmetic .div, .float => "fdiv"
  | .compare .less, .integer => "icmp slt"
  | .compare .lessEq, .integer => "icmp sle"
  | .compare .greater, .integer => "icmp sgt"
  | .compare .greaterEq, .integer => "icmp sge"
  | .compare .equal, .integer => "icmp eq"
  | .compare .notEqual, .integer => "icmp ne"
  | .compare .less, .float => "fcmp olt"
  | .compare .lessEq, .float => "fcmp ole"
  | .compare .greater, .float => "fcmp ogt"
  | .compare .greaterEq, .float => "fcmp oge"
  | .compare .equal, .float => "fcmp oeq"
  | .compare .notEqual, .float => "fcmp one"

/-- The name of a conversion, and the types it leads from and to. -/
def Conversion.signature : Conversion → String × String × String
  | flagToInt => ("zext", "i1", "i32")
  | flagToFloat => ("uitofp", "i1", "double")
  | intToFloat => ("sitofp", "i32", "double")
  | floatToInt => ("fptosi", "double", "i32")

def Instr.text (labels : Labels) : Instr → String
  | binary result op kind left right =>
    result.text ++ " = " ++ mnemonic op kind ++ " " ++ kind.llvm ++ " " ++ left.text ++ ", "
      ++ right.text
  | convert result conversion value =>
    let (name, source, target) := conversion.signature
    result.text ++ " = " ++ name ++ " " ++ source ++ " " ++ value.text ++ " to " ++ target
  | alloca name kind => "%" ++ name ++ " = alloca " ++ kind.llvm
  | load result kind address =>
    result.text ++ " = load " ++ kind.llvm ++ ", " ++ kind.llvm ++ "* " ++ address.text
  | store kind value address =>
    "store " ++ kind.llvm ++ " " ++ value.text ++ ", " ++ kind.llvm ++ "* " ++ address.text
  | print kind value =>
    let prototype := Prototype.print kind
    "call " ++ prototype.result.llvm ++ " (" ++ kind.llvm ++ ") @" ++ prototype.name ++ "("
      ++ kind.llvm ++ " " ++ value.text ++ ")"
  | ret kind value => "ret " ++ kind.llvm ++ " " ++ value.text
  | jump label => "br label %" ++ labels.nameOf label
  | branch condition ifTrue ifFalse =>
    "br i1 " ++ condition.text ++ ", label %" ++ labels.nameOf ifTrue ++ ", label %"
      ++ labels.nameOf ifFalse
  | call result function kind arguments =>
    let types := ", ".intercalate (arguments.map fun a => a.1.llvm)
    let operands := ", ".intercalate (arguments.map fun a => a.1.llvm ++ " " ++ a.2.text)
    result.text ++ " = call " ++ kind.llvm ++ " (" ++ types ++ ") @" ++ function ++ "(" ++ operands
      ++ ")"

/-- A block in a listing: its label and below it its instructions. -/
def Block.line (labels : Labels) (depth : Nat) (block : Block) : String :=
  let instr (i : Instr) := "\n" ++ Listing.indent (depth + 1) ++ i.text labels
  labels.nameOf block.label ++ ":" ++ String.join (block.instrs.map instr)

def blockLines (labels : Labels) (depth : Nat) (blocks : List Block) : List String :=
  blocks.map fun block => Listing.indent depth ++ block.line labels depth

def Block.assembly (labels : Labels) (block : Block) : String :=
  labels.nameOf block.label ++ ":\n"
    ++ String.join (block.instrs.map fun i => "    " ++ i.text labels ++ "\n")

def functionAssembly (labels : Labels) (f : FunDef Block) : String :=
  let parameters := ", ".intercalate (f.parameters.map fun p => p.kind.llvm ++ " %" ++ p.text)
  "define " ++ f.name.kind.llvm ++ " @" ++ f.name.text ++ "(" ++ parameters ++ ") \x7b\n"
    ++ String.join (f.body.map (Block.assembly labels)) ++ "\x7d\n"

/-- The items of a program in assembly. A blank line stands in front of every function, and in
front of a global variable that follows a function or comes first. -/
def itemsAssembly (labels : Labels) (afterFunction : Bool) : Items Block → String
  | [] => ""
  | .global symbol :: rest =>
    (if afterFunction then "\n" else "") ++ "@" ++ symbol.text ++ " = global " ++ symbol.kind.llvm
      ++ " " ++ symbol.kind.llvmZero ++ "\n" ++ itemsAssembly labels false rest
  | .function f :: rest =>
    "\n" ++ functionAssembly labels f ++ itemsAssembly labels true rest

end Tac

def Items.assembly (labels : Labels) (program : Items Tac.Block) : String :=
  String.join (Prototype.all.map fun p => p.declaration ++ "\n")
    ++ Tac.itemsAssembly labels true program

end Wabbit
