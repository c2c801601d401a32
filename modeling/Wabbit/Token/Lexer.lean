import Wabbit.Text.Classes
import Wabbit.Token
import Wabbit.Parsing.Parser

/-!
Cutting source text into tokens. Between tokens stand white space and comments, which start with two
slashes and end with the line.
-/

namespace Wabbit.Token

open Parsing

/-- The characters of a text, each with the bytes it takes up, from the byte `start` on. -/
def located (start : Nat) : List Char → List (Char × Span)
  | [] => []
  | c :: rest => (c, ⟨start, start + c.utf8Size⟩) :: located (start + c.utf8Size) rest

namespace Lexer

def natOfDigits (digits : List Char) : Nat :=
  digits.foldl (fun n c => 10 * n + (c.toNat - '0'.toNat)) 0

def digit : Parser Char Char := .satisfy Char.isDigit

/-- Zero, or digits that do not start with zero. -/
def whole : Parser Char (List Char) :=
  .either (.seq List.cons (.satisfy (fun c => c.isDigit ∧ c ≠ '0')) (.many digit))
    ((Parser.just '0').map (fun _ => ['0']))

/-- Digits, a point and perhaps more digits. -/
def float : Parser Char Token :=
  let digits : Parser Char _ := .both (.skipRight whole (.just '.')) (.optional (.manyOnce digit))
  digits.map fun (front, back) =>
    let back := back.getD []
    .float (.ofRatio false (natOfDigits (front ++ back)) (Nat.pow 10 back.length))

/-- Digits that stand for a number of at most 32 bits with its sign. -/
def integer : Parser Char Token :=
  whole.refine fun digits =>
    let value := natOfDigits digits
    if value < 1 <<< 31 then .ok (.int (Int64.ofNat value)) else .error .integerTooLarge

def startsWord (c : Char) : Bool := c.isAlpha ∨ c = '_'

def continuesWord (c : Char) : Bool := c.isAlphanum ∨ c = '_'

/-- A keyword or a name. -/
def word : Parser Char Token :=
  (Parser.seq List.cons (.satisfy startsWord) (.many (.satisfy continuesWord))).map fun chars =>
    ofWord (String.ofList chars)

def sign : Parser Char Token :=
  .choice (signs.map fun (text, token) => (Parser.exactly text.toList).map fun _ => token)

def token : Parser Char Token := .either (.either (.either float integer) word) sign

/-- A comment and the white space around it. -/
def comment : Parser Char Unit :=
  .padded Text.isBlank
    (.skipRight (.exactly ['/', '/']) (.many (.satisfy (fun c => c ≠ '\n'))))

/-- Something with comments and white space around it. -/
def spaced {α : Type} (p : Parser Char α) : Parser Char α :=
  .padded Text.isBlank (.between (.many comment) (.many comment) p)

def tokens : Parser Char (List (Token × Span)) :=
  .skipRight (spaced (.many (spaced (token.map Prod.mk).spanned))) .finished

end Lexer

end Wabbit.Token
