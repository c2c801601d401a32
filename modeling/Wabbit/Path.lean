/-!
File paths with `/` between their parts.
-/

namespace Wabbit.Path

/-- Drops slashes, and parts that are a single dot, from the end of a path; the path is given from
its end to its beginning. -/
def trimEnd : List Char → List Char
  | '/' :: rest => trimEnd rest
  | '.' :: '/' :: rest => trimEnd rest
  | path => path

/-- The part of a file name in front of its last dot. A dot at the very beginning does not count. -/
def stem (name : List Char) : List Char :=
  let front := (name.reverse.dropWhile (· ≠ '.')).drop 1
  if front.isEmpty then name else front.reverse

/-- Replaces the extension of the file name, or adds one. A path that names no file is left alone;
otherwise all that follows the stem of the name is cut off. The old extension goes first, so a path
that ends in a name such as `..x` comes to end in two dots, which name no file, and stays so. -/
def withExtension (path extension : String) : String :=
  let trimmed := trimEnd path.toList.reverse
  let name := (trimmed.takeWhile (· ≠ '/')).reverse
  let directory := (trimmed.dropWhile (· ≠ '/')).reverse
  if name = [] ∨ name = ['.'] ∨ name = ['.', '.'] then path
  else if stem name = ['.'] ∧ trimmed = path.toList.reverse then
    String.ofList (directory ++ ['.', '.'])
  else String.ofList (directory ++ stem name) ++ "." ++ extension

end Wabbit.Path
