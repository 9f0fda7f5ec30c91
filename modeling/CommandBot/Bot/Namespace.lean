/-
  From the path of a source file to the module that it holds. The path counts from its last
  directory `src`; the files that stand for their own directory, and whatever is below `src/bin`,
  belong to the module around them.
-/

namespace CommandBot.Namespace

/-- The names on a path, without the places that are no names. -/
def names (path : String) : List String :=
  ((path.toList.splitOnP (· == '/')).map String.ofList).filter fun s =>
    s != "" && s != "." && s != ".."

/-- A file name without the ending of a source file. -/
def stem (name : String) : String :=
  match name.toList.reverse with
  | 's' :: 'r' :: '.' :: rest => String.ofList rest.reverse
  | _ => name

/-- Whether a file stands for the directory that it is in. -/
def isRoot (stem : String) : Bool := stem == "lib" || stem == "main" || stem == "mod"

/-- What follows the last `src`; without one, the last name. -/
def belowSource (ns : List String) : List String :=
  if ns.contains "src" then (ns.reverse.takeWhile (· != "src")).reverse
  else (ns.getLast?.map fun n => [n]).getD []

/-- The modules that a file's names below `src` stand for. -/
def segments (below : List String) : List String :=
  if below.head? = some "bin" then []
  else
    let stems := below.map stem
    match stems.getLast? with
    | some last => if isRoot last then stems.dropLast else stems
    | none => []

/-- The module that a source file holds. -/
def ofPath (path : String) : String := "::".intercalate (segments (belowSource (names path)))

end CommandBot.Namespace
