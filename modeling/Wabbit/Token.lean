import Wabbit.Decimal.Layout

/-!
The tokens of the language.
-/

namespace Wabbit

/-- A word, number or sign of the source text. -/
inductive Token where
  | int (value : Int64)
  | float (value : Binary64)
  | ident (name : String)
  | kwInt
  | kwFloat
  | kwVar
  | kwFunc
  | kwIf
  | kwElse
  | kwWhile
  | kwPrint
  | kwReturn
  | assign
  | equal
  | notEqual
  | less
  | lessEq
  | greater
  | greaterEq
  | plus
  | minus
  | star
  | slash
  | parenOpen
  | parenClose
  | curlyOpen
  | curlyClose
  | comma
  | semicolon
  deriving DecidableEq, Repr

namespace Token

/-- The words that are not names. -/
def keywords : List (String × Token) :=
  [("int", kwInt), ("float", kwFloat), ("var", kwVar), ("func", kwFunc), ("if", kwIf),
    ("else", kwElse), ("while", kwWhile), ("print", kwPrint), ("return", kwReturn)]

/-- The signs; one that starts with another sign stands before it. -/
def signs : List (String × Token) :=
  [("==", equal), ("!=", notEqual), ("<=", lessEq), (">=", greaterEq), ("=", assign), ("<", less),
    (">", greater), ("+", plus), ("-", minus), ("*", star), ("/", slash), ("(", parenOpen),
    (")", parenClose), ("\x7b", curlyOpen), ("\x7d", curlyClose), (",", comma), (";", semicolon)]

def ofWord (word : String) : Token := (keywords.lookup word).getD (ident word)

/-- The text of a token in messages. -/
def text : Token → String
  | int value => toString value.toInt
  | float value => value.text
  | ident name => name
  | kwInt => "int"
  | kwFloat => "float"
  | kwVar => "var"
  | kwFunc => "func"
  | kwIf => "if"
  | kwElse => "else"
  | kwWhile => "while"
  | kwPrint => "print"
  | kwReturn => "return"
  | assign => "="
  | equal => "=="
  | notEqual => "!="
  | less => "<"
  | lessEq => "<="
  | greater => ">"
  | greaterEq => ">="
  | plus => "+"
  | minus => "-"
  | star => "*"
  | slash => "/"
  | parenOpen => "("
  | parenClose => ")"
  | curlyOpen => "\x7b"
  | curlyClose => "\x7d"
  | comma => ","
  | semicolon => ";"

end Token

end Wabbit
