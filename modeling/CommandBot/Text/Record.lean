/-
  Values for a reader: records with the names of their fields, lists, and values that may be
  missing.
-/

namespace CommandBot.Text

/-- A record with the names of its fields. -/
def record (name : String) (fields : List (String × String)) : String :=
  name ++ " \x7b " ++ ", ".intercalate (fields.map fun f => f.1 ++ ": " ++ f.2) ++ " \x7d"

/-- Values between brackets. -/
def bracketed (values : List String) : String := "[" ++ ", ".intercalate values ++ "]"

/-- A value that may be missing. -/
def optional : Option String → String
  | some s => "Some(" ++ s ++ ")"
  | none => "None"

def truth (b : Bool) : String := if b then "true" else "false"

/-- A name with a capital. -/
def capitalized (s : String) : String :=
  match s.toList with
  | c :: cs => String.ofList (c.toUpper :: cs)
  | [] => s

end CommandBot.Text
