import CommandBot.Text.Quoted
import CommandBot.Token.Basic

/-
  Pieces of generated code: words, operators, paths, groups and literals that the generator makes.
-/

namespace CommandBot.Template

open TokenTree

/-- A mark that stands alone. -/
def sign (c : Char) : List TokenTree := operator [c]

def words (ws : List String) : List TokenTree := ws.map made

def comma : List TokenTree := sign ','

def dot : List TokenTree := sign '.'

def arrow : List TokenTree := operator ['-', '>']

def fatArrow : List TokenTree := operator ['=', '>']

def pathMark : List TokenTree := operator [':', ':']

/-- A path from the root of all modules. -/
def rootPath (names : List String) : List TokenTree := names.flatMap fun n => pathMark ++ [made n]

/-- A path in the library that generated code runs on. -/
def library (names : List String) : List TokenTree := rootPath ("magicord" :: names)

def parens (content : List TokenTree) : List TokenTree := [grouped .parenthesis content]

def brackets (content : List TokenTree) : List TokenTree := [grouped .bracket content]

def braces (content : List TokenTree) : List TokenTree := [grouped .brace content]

/-- Something in angle brackets. -/
def angles (content : List TokenTree) : List TokenTree := sign '<' ++ content ++ sign '>'

/-- The literal that denotes a text. -/
def textLiteral (s : String) : List TokenTree := [.literal (Text.literal s) .generated]

/-- An attribute with this content. -/
def attributed (content : List TokenTree) : List TokenTree := sign '#' ++ brackets content

/-- The documentation of a generated member; its text has no quotes. -/
def doc (text : String) : List TokenTree :=
  attributed ([made "doc"] ++ sign '=' ++ [.literal ("r\"" ++ text ++ "\"") .generated])

/-- The call of a method. -/
def call (name : String) (args : List TokenTree) : List TokenTree :=
  dot ++ [made name] ++ parens args

/-- The receiver of a method that only looks. -/
def receiver : List TokenTree := sign '&' ++ [made "self"]

end CommandBot.Template
