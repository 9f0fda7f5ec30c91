import CommandBot.Number.Binary64
import CommandBot.Text.Quoted

/-
  Data as files and variables give them: plain values, lists, and tables from names to data.
-/

namespace CommandBot

/-- A piece of data. -/
inductive Datum where
  | truth (b : Bool)
  | unsigned (n : Nat)
  | signed (i : Int)
  | float (x : Binary64)
  | character (c : Char)
  | text (s : String)
  | list (items : List Datum)
  /-- names with their data, each name once -/
  | table (entries : List (String × Datum))

end CommandBot
