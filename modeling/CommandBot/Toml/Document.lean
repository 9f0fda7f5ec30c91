import CommandBot.Text.Blank
import CommandBot.Toml.Number

/-
  TOML documents. A document is a list of statements: keys with values, and headers that open the
  table to which the following keys belong. No name gets a value twice, and a table that is written
  out in one place is not added to from another; `Entry` keeps what that takes.
-/

namespace CommandBot.Toml

/-- How a table came about. -/
inductive Making where
  /-- by a header of its own -/
  | header
  /-- by the header of a table in it -/
  | implied
  /-- by a key with dots -/
  | dotted
deriving DecidableEq

/-- What stands behind a name while a document is read. -/
inductive Entry where
  | value (d : Datum)
  | table (making : Making) (entries : List (String × Entry))
  /-- a list of tables with headers of their own, the latest first -/
  | tables (latestFirst : List (List (String × Entry)))

abbrev Entries := List (String × Entry)

namespace Entries

/-- The entries with another entry for a name. -/
def set (es : Entries) (name : String) (e : Entry) : Entries :=
  (name, e) :: es.filter fun f => f.1 != name

/-- Changes the table at the end of a path, given what to put where nothing stands and which tables
may be entered on the way. -/
def descend (making : Making) (mayEnter : Making → Bool) (change : Making → Entries → Option Entries) :
    List String → Making → Entries → Option Entries
  | [], m, es => change m es
  | name :: rest, _, es =>
    match es.lookup name with
    | none => do
      let inner ← descend making mayEnter change rest making []
      return es.set name (.table making inner)
    | some (.table m inner) =>
      if mayEnter m then do
        let inner ← descend making mayEnter change rest m inner
        return es.set name (.table m inner)
      else none
    | some (.tables (latest :: earlier)) => do
      let latest ← descend making mayEnter change rest .header latest
      return es.set name (.tables (latest :: earlier))
    | some _ => none

/-- Gives a value to the last name of a path. -/
def assign (path : List String) (name : String) (d : Datum) (es : Entries) : Option Entries :=
  descend .dotted (· != .header)
    (fun m es =>
      if (es.lookup name).isSome ∨ (path ≠ [] ∧ m ≠ .dotted) then none
      else some (es.set name (.value d)))
    path .header es

/-- Opens the table with this path. -/
def openTable (path : List String) (name : String) (es : Entries) : Option Entries :=
  descend .implied (fun _ => true)
    (fun _ es =>
      match es.lookup name with
      | none => some (es.set name (.table .header []))
      | some (.table .implied inner) => some (es.set name (.table .header inner))
      | some _ => none)
    path .header es

/-- Opens one more table in the list with this path. -/
def openNext (path : List String) (name : String) (es : Entries) : Option Entries :=
  descend .implied (fun _ => true)
    (fun _ es =>
      match es.lookup name with
      | none => some (es.set name (.tables [[]]))
      | some (.tables ts) => some (es.set name (.tables ([] :: ts)))
      | some _ => none)
    path .header es

/-- Gives a value to a name in the table with this path. -/
def assignIn (table : List String) (path : List String) (name : String) (d : Datum)
    (es : Entries) : Option Entries :=
  descend .implied (fun _ => true) (fun _ es => es.assign path name d) table .header es

end Entries

mutual

/-- The data behind a name. -/
def Entry.datum : Entry → Datum
  | .value d => d
  | .table _ es => .table (Entries.data es)
  | .tables ts => .list (Entries.lists ts).reverse

/-- The data behind all names. -/
def Entries.data : List (String × Entry) → List (String × Datum)
  | [] => []
  | (name, e) :: rest => (name, e.datum) :: Entries.data rest

/-- The data of some tables. -/
def Entries.lists : List (List (String × Entry)) → List Datum
  | [] => []
  | es :: rest => .table (Entries.data es) :: Entries.lists rest

end

/-! ## Values -/

/-- The items of a list up to its end, at most so many. -/
def items (value : Scan Datum) : Nat → Scan (List Datum)
  | 0 => failure
  | n + 1 => do
    skipLines
    if (← Scan.peek) = some ']' then
      Scan.char ']'
      return []
    else
      let d ← value
      skipLines
      if (← Scan.peek) = some ',' then
        Scan.char ','
        return d :: (← items value n)
      else
        Scan.char ']'
        return [d]

/-- A key, and the value that it gets. -/
def assignment (value : Scan Datum) : Scan (List String × Datum) := do
  let k ← key
  skipSpaces
  Scan.char '='
  skipSpaces
  return (k, ← value)

/-- The entries of a table in one line up to its end, at most so many. -/
def fields (value : Scan Datum) : Nat → Entries → Scan Entries
  | 0, _ => failure
  | n + 1, es => do
    skipSpaces
    let (k, d) ← assignment value
    match es.assign k.dropLast (k.getLast?.getD "") d with
    | none => failure
    | some es =>
      skipSpaces
      if (← Scan.peek) = some ',' then
        Scan.char ','
        fields value n es
      else
        Scan.char '}'
        return es

/-- A list of values that may stand on several lines. -/
def list (value : Scan Datum) : Scan Datum := do
  Scan.char '['
  let cs ← get
  return .list (← items value (cs.length + 1))

/-- A table in one line. -/
def inlineTable (value : Scan Datum) : Scan Datum := do
  Scan.char '{'
  skipSpaces
  if (← Scan.peek) = some '}' then
    Scan.char '}'
    return .table []
  else
    let cs ← get
    return .table (Entries.data (← fields value (cs.length + 1) []))

/-- A value that holds no others. -/
def scalar : Scan Datum :=
  (.text <$> string) <|> (do Scan.exactly "true"; return .truth true) <|>
    (do Scan.exactly "false"; return .truth false) <|> number

/-- A value with others in it at most so deep. -/
def value : Nat → Scan Datum
  | 0 => scalar
  | n + 1 => list (value n) <|> inlineTable (value n) <|> scalar

/-! ## Documents -/

/-- What has been read of a document: all entries, and the table that new ones go to. -/
structure Draft where
  table : List String := []
  entries : Entries := []

namespace Draft

/-- A header between brackets, and what it opens. -/
def header (opening closing : String)
    (open_ : List String → String → Entries → Option Entries) (d : Draft) : Scan Draft := do
  Scan.exactly opening
  skipSpaces
  let k ← key
  skipSpaces
  Scan.exactly closing
  match open_ k.dropLast (k.getLast?.getD "") d.entries with
  | some es => return ⟨k, es⟩
  | none => failure

/-- A key with its value. -/
def assignmentTo (d : Draft) : Scan Draft := do
  let (k, v) ← assignment (value (nestingLimit - 1))
  match d.entries.assignIn d.table k.dropLast (k.getLast?.getD "") v with
  | some es => return { d with entries := es }
  | none => failure

/-- One line of a document, with whatever it has behind its first line. -/
def statement (d : Draft) : Scan Draft := do
  skipSpaces
  let d ← match ← get with
    | '[' :: '[' :: _ => header "[[" "]]" Entries.openNext d
    | '[' :: _ => header "[" "]" Entries.openTable d
    | [] => return d
    | c :: _ => if c == '#' || c == '\n' || c == '\r' then return d else assignmentTo d
  return d

/-- The statements up to the end of the document, at most so many. -/
def statements : Nat → Draft → Scan Draft
  | 0, _ => failure
  | n + 1, d => do
    let d ← statement d
    lineEnd
    if (← get).isEmpty then return d else statements n d

end Draft

/-- The names and data of a document. -/
def parse? (s : String) : Option (List (String × Datum)) :=
  let cs := Text.withoutMark s.toList
  (Scan.all? (Draft.statements (cs.length + 1) {}) cs).map fun d => Entries.data d.entries

end CommandBot.Toml
