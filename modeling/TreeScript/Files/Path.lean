import TreeScript.Text.Lines

/-!
# Paths

A path is a text with slashes. It is absolute if it starts with one. Paths can be joined, and
simplified without a look at what they lead to.
-/

namespace TreeScript.Path

/-- Whether a path starts at the root. -/
def isAbsolute (path : String) : Bool := path.startsWith "/"

/-- The names of a path. -/
def names (path : String) : List String := Text.split '/' path

/-- A path after another one, unless it is absolute itself. -/
def join (base path : String) : String :=
  if isAbsolute path then path
  else if base == "" || base.endsWith "/" then base ++ path
  else base ++ "/" ++ path

/-- The slashes at the start of a path that count: two if there are exactly two, else at most one.
-/
def rootText (path : String) : String :=
  if path.startsWith "//" && !path.startsWith "///" then "//"
  else if path.startsWith "/" then "/" else ""

/-- The names of a path in which a name and the step back after it are left out. -/
def simplify (absolute : Bool) (names : List String) : List String :=
  let simplified := names.foldl (fun (acc : List String) name =>
    if name == "" || name == "." then acc
    else if name == ".." then
      match acc with
      | [] => if absolute then [] else [name]
      | last :: rest => if last == ".." then name :: acc else rest
    else name :: acc) []
  simplified.reverse

/-- The shortest spelling of a path, by its text alone. -/
def normalize (path : String) : String :=
  if path == "" then "."
  else
    let start := rootText path
    let text := start ++ "/".intercalate (simplify (start != "") (names path))
    if text == "" then "." else text

/-- A path up to its last slash, and what is after it. -/
def split (path : String) : String × String :=
  let reversed := path.toList.reverse
  let tail := (reversed.takeWhile (· != '/')).reverse
  let head := (reversed.dropWhile (· != '/')).reverse
  let bare := Text.dropTrailing '/' (String.ofList head)
  (if bare == "" then String.ofList head else bare, String.ofList tail)

/-- The part of a path before its last name. -/
def folder (path : String) : String := (split path).1

/-- A path in which a tilde at the start is the home directory. The home of another user is not
known. -/
def expandHome (home path : String) : String :=
  if path.startsWith "~" then
    let name := path.toList.takeWhile (· != '/')
    if name == ['~'] then
      let expanded := Text.dropTrailing '/' home ++ String.ofList (path.toList.drop 1)
      if expanded == "" then "/" else expanded
    else path
  else path

/-! ## Tidy paths

A tidy path has no empty names and no names for the place itself. -/

/-- The names that a tidy path keeps. -/
def tidyNames (path : String) : List String := (names path).filter fun n => n != "" && n != "."

/-- The tidy spelling of a path. -/
def tidy (path : String) : String :=
  let text := rootText path ++ "/".intercalate (tidyNames path)
  if text == "" then "." else text

/-- The tidy path without its last name. -/
def parent (path : String) : String :=
  let text := rootText path ++ "/".intercalate (tidyNames path).dropLast
  if text == "" then "." else text

/-- The ending of the last name of a path, from its last dot on. A name that starts or ends with its
only dot has none. -/
def suffix (path : String) : String :=
  let name := ((tidyNames path).getLast?.getD "").toList
  let reversed := name.reverse
  let ending := reversed.takeWhile (· != '.')
  if ending.isEmpty || name.length ≤ ending.length + 1 then ""
  else String.ofList ('.' :: ending.reverse)

end TreeScript.Path
