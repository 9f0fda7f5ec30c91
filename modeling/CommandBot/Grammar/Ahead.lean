import CommandBot.Grammar.Basic

/-
  What a grammar looks for in the tokens ahead: words, names, operators, literals and groups, also
  behind the next one or two tokens. An operator is ahead when its signs are, joined, whatever
  follows them; a lifetime counts as one token.
-/

namespace CommandBot.Grammar

/-- Words that cannot name anything unless marked raw. -/
def keywords : List String :=
  ["_", "abstract", "as", "async", "await", "become", "box", "break", "const", "continue", "crate",
   "do", "dyn", "else", "enum", "extern", "false", "final", "fn", "for", "if", "impl", "in", "let",
   "loop", "macro", "match", "mod", "move", "mut", "override", "priv", "pub", "ref", "return",
   "Self", "self", "static", "struct", "super", "trait", "true", "try", "type", "typeof", "unsafe",
   "unsized", "use", "virtual", "where", "while", "yield"]

/-- Whether a token is this word. -/
def isWord (s : String) : TokenTree → Bool
  | .word w => w.text == s
  | _ => false

/-- Whether a token is one of these words. -/
def isOneOf (ss : List String) : TokenTree → Bool
  | .word w => ss.contains w.text
  | _ => false

def isAnyWord : TokenTree → Bool
  | .word _ => true
  | _ => false

/-- Whether a token may name something. -/
def isName : TokenTree → Bool
  | .word w => !keywords.contains w.text
  | _ => false

def isGroup (d : Delimiter) : TokenTree → Bool
  | .group e _ _ => d = e
  | _ => false

def isAnyGroup : TokenTree → Bool
  | .group _ _ _ => true
  | _ => false

/-- Whether a token is a literal; `true` and `false` are. -/
def isLiteral : TokenTree → Bool
  | .literal _ _ => true
  | t => isOneOf ["true", "false"] t

/-- Whether a token is a literal that begins with a digit. -/
def isNumber : TokenTree → Bool
  | .literal text _ => (text.toList.head?.map Char.isDigit).getD false
  | _ => false

/-- Whether a token is a literal for a text: one in quotes, or a raw one. -/
def isText : TokenTree → Bool
  | .literal text _ => text.toList.head? = some '"' || text.toList.head? = some 'r'
  | _ => false

/-- Whether the signs of an operator are ahead. -/
def marks : List Char → Ahead
  | [], _ => true
  | [c], .mark d _ _ :: _ => c = d
  | c :: cs, .mark d .joint _ :: rest => c = d && marks cs rest
  | _, _ => false

def operatorAhead (s : String) : Ahead := marks s.toList

def first (test : TokenTree → Bool) : Ahead
  | t :: _ => test t
  | [] => false

def wordAhead (s : String) : Ahead := first (isWord s)

def nameAhead : Ahead := first isName

def groupAhead (d : Delimiter) : Ahead := first (isGroup d)

def lifetimeAhead : Ahead
  | .mark '\'' .joint _ :: .word _ :: _ => true
  | _ => false

/-- Whether a literal is ahead, the sign of a number included. -/
def literalAhead : Ahead
  | .mark '-' _ _ :: t :: _ => isNumber t
  | t :: _ => isLiteral t
  | [] => false

def atEnd : Ahead := List.isEmpty

/-- What follows the next token. -/
def behind : List TokenTree → List TokenTree
  | .mark '\'' .joint _ :: .word _ :: rest => rest
  | _ :: rest => rest
  | [] => []

/-- A test of what follows the next token. -/
def second (test : Ahead) : Ahead := fun ts => test (behind ts)

/-- A test of what follows the next two tokens. -/
def third (test : Ahead) : Ahead := fun ts => test (behind (behind ts))

def both (a b : Ahead) : Ahead := fun ts => a ts && b ts

def either (a b : Ahead) : Ahead := fun ts => a ts || b ts

def anyOf (tests : List Ahead) : Ahead := fun ts => tests.any fun t => t ts

def never (a : Ahead) : Ahead := fun ts => !a ts

variable {R : Type}

/-- This word. -/
def word (s : String) : Grammar R := token (isWord s)

/-- A name. -/
def name : Grammar R := token isName

/-- Any word, keywords included. -/
def anyWord : Grammar R := token isAnyWord

/-- This operator. -/
def op (s : String) : Grammar R := .operator s.toList

/-- A group as it was written. -/
def anyGroup : Grammar R := token isAnyGroup

/-- A literal, with the sign of a number. -/
def literal : Grammar R :=
  .seq (optional (operatorAhead "-") (op "-")) (token isLiteral)

/-- This word, if it is ahead. -/
def maybeWord (s : String) : Grammar R := optional (wordAhead s) (word s)

/-- This operator, if it is ahead. -/
def maybe (s : String) : Grammar R := optional (operatorAhead s) (op s)

/-- Items that fill the rest, with commas between them and perhaps one at the end. -/
def listed (item : Grammar R) : Grammar R :=
  .whileAhead (never atEnd) (.seq item (.ifAhead atEnd .nothing (op ",")))

theorem second_def (test : Ahead) (t : TokenTree) (rest : List TokenTree)
    (h : lifetimeAhead (t :: rest) = false) : second test (t :: rest) = test rest := by
  unfold second behind
  split
  · simp_all [lifetimeAhead]
  · rename_i heq; cases heq; rfl
  · simp_all

end CommandBot.Grammar
