/-!
Paths as texts.
-/

namespace NovelScript.Path

def components (path : String) : List String :=
  split [] path.toList
where
  split (name : List Char) : List Char → List String
    | [] => [String.ofList name.reverse]
    | c :: rest =>
      if c = '/' then String.ofList name.reverse :: split [] rest else split (c :: name) rest

/-- Drops slashes and full stops that name nothing from the end of a path in reverse. -/
def trimEnd : List Char → List Char
  | '/' :: rest => trimEnd rest
  | '.' :: '/' :: rest => trimEnd ('/' :: rest)
  | path => path

/-- A last name in reverse, without its extension. A name that only starts with a full stop has
none. -/
def stem (name : List Char) : List Char :=
  match name.dropWhile (· ≠ '.') with
  | _ :: c :: before => c :: before
  | _ => name

/-- Sets the extension of the last name. A path that does not end in a name stays as it is. Two
full stops and an extension lose it for good, if nothing follows them: what is left is the name of
the directory above, which takes no extension. -/
def withExtension (path extension : String) : String :=
  let whole := path.toList.reverse
  let trimmed := trimEnd whole
  let name := trimmed.takeWhile (· ≠ '/')
  let before := String.ofList (trimmed.dropWhile (· ≠ '/')).reverse
  if name = [] ∨ name = ['.'] ∨ name = ['.', '.'] then path
  else if trimmed = whole ∧ name.dropWhile (· ≠ '.') = ['.', '.'] then before ++ ".."
  else before ++ String.ofList (stem name).reverse ++ "." ++ extension

end NovelScript.Path
