/-!
# Paths

A path is read as the list of its components. Empty components and single dots mean nothing, so
`/a/`, `//a` and `/./a` are one path.
-/

namespace TagGraph.Path

/-- The parts of a text between slashes, over its characters. -/
def splitSlashes : List Char → List (List Char)
  | [] => [[]]
  | c :: cs =>
    match splitSlashes cs with
    | part :: rest => if c = '/' then [] :: part :: rest else (c :: part) :: rest
    | [] => [[c]]

/-- The parts of a path that are not empty. -/
def parts (path : String) : List String :=
  ((splitSlashes path.toList).map String.ofList).filter (· ≠ "")

/-- The components of a path. -/
def components (path : String) : List String :=
  (parts path).filter (· ≠ ".")

/-- Whether the last part of a path is a single dot. -/
def endsWithDot (path : String) : Bool :=
  (parts path).getLast? == some "."

/-- Whether a path starts at the root. -/
def isAbsolute (path : String) : Bool :=
  path.toList.head? == some '/'

/-- The path of components from the root. -/
def render (components : List String) : String :=
  "/" ++ "/".intercalate components

end TagGraph.Path
