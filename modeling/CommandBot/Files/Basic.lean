import CommandBot.Text.Path

/-
  A tree of files below one root, with a working directory in it. `get?` is the view: what stands at
  each place. A path is followed step by step, and each step needs a directory to start from; a path
  from the root begins there, any other one at the working directory. `get?_put` says that a change
  at one place leaves all others alone.
-/

namespace CommandBot

/-- Why something cannot be done with a file. -/
inductive FileFault where
  | notFound
  | notDirectory
  | isDirectory
  | alreadyThere
  | nameTooLong
  | notText
deriving DecidableEq, Repr

def FileFault.message : FileFault → String
  | .notFound => "No such file or directory (os error 2)"
  | .notDirectory => "Not a directory (os error 20)"
  | .isDirectory => "Is a directory (os error 21)"
  | .alreadyThere => "File exists (os error 17)"
  | .nameTooLong => "File name too long (os error 36)"
  | .notText => "stream did not contain valid UTF-8"

/-- What can stand at a place. -/
inductive Node where
  | directory
  | text (content : String)
  /-- a file whose bytes are no text -/
  | bytes (content : List UInt8)
deriving DecidableEq, Repr

/-- A file with these bytes. -/
def Node.ofBytes (data : List UInt8) : Node :=
  match String.fromUTF8? ⟨data.toArray⟩ with
  | some content => .text content
  | none => .bytes data

/-- The names on the way from the root. -/
abbrev Place := List String

/-- Files and directories, and the place of the working directory among them. -/
structure Files where
  entries : List (Place × Node) := []
  /-- where a path begins that does not begin at the root -/
  start : Place := []
deriving DecidableEq, Repr

namespace Files

/-- What stands at a place. The working directory is always there, with all that it is in. -/
def get? (fs : Files) (p : Place) : Option Node :=
  if p <+: fs.start then some .directory else fs.entries.lookup p

/-- The files with something else at a place. -/
def put (fs : Files) (p : Place) (n : Node) : Files :=
  { fs with entries := (p, n) :: fs.entries.filter fun e => e.1 != p }

/-- The path of the working directory. -/
def workingDirectory (fs : Files) : String := Path.ofSteps (.root :: fs.start.map .name)

/-- The longest name, in bytes. -/
def nameLimit : Nat := 255

/-- Follows steps from a place. All that it comes from has to be a directory; what it comes to need
not be there. -/
def follow (fs : Files) : Place → List Step → Except FileFault Place
  | here, [] => .ok here
  | here, s :: rest =>
    match fs.get? here, s with
    | none, _ => .error .notFound
    | some .directory, .root => fs.follow [] rest
    | some .directory, .here => fs.follow here rest
    -- above the root is the root
    | some .directory, .up => fs.follow here.dropLast rest
    | some .directory, .name n =>
      if nameLimit < n.utf8ByteSize then .error .nameTooLong else fs.follow (here ++ [n]) rest
    | some _, _ => .error .notDirectory

/-- Where steps lead from the working directory. -/
def resolve (fs : Files) (way : List Step) : Except FileFault Place := fs.follow fs.start way

/-- Where a path leads. -/
def locate (fs : Files) (path : String) : Except FileFault Place :=
  if path.isEmpty then .error .notFound else fs.resolve (Path.route path)

/-- The text of the file at a place. -/
def readAt (fs : Files) (p : Place) : Except FileFault String :=
  match fs.get? p with
  | none => .error .notFound
  | some .directory => .error .isDirectory
  | some (.bytes _) => .error .notText
  | some (.text content) => .ok content

/-- The files with a file at a place, in place of an earlier one. -/
def writeAt (fs : Files) (p : Place) (n : Node) : Except FileFault Files :=
  if fs.get? p = some .directory then .error .isDirectory else .ok (fs.put p n)

/-- The files with a new directory at a place. -/
def makeAt (fs : Files) (p : Place) : Except FileFault Files :=
  match fs.get? p with
  | none => .ok (fs.put p .directory)
  | some _ => .error .alreadyThere

def read (fs : Files) (path : String) : Except FileFault String := do
  fs.readAt (← fs.locate path)

def write (fs : Files) (path : String) (n : Node) : Except FileFault Files := do
  fs.writeAt (← fs.locate path) n

/-- Whether there is anything at a path. -/
def exists_ (fs : Files) (path : String) : Bool :=
  match fs.locate path with
  | .ok p => (fs.get? p).isSome
  | .error _ => false

/-- Whether there is a file at a path. -/
def isFile (fs : Files) (path : String) : Bool :=
  match fs.locate path with
  | .ok p => (fs.get? p).any (· != .directory)
  | .error _ => false

/-- Whether there is a file with exactly this text at a path. -/
def holds (fs : Files) (path text : String) : Bool :=
  match fs.read path with
  | .ok content => content == text
  | .error _ => false

/-- Whether there is a directory at the end of some steps. -/
def isDirectory (fs : Files) (way : List Step) : Bool :=
  match fs.resolve way with
  | .ok p => fs.get? p = some .directory
  | .error _ => false

/-- Makes a directory at the end of some steps. One that is there already will do. -/
def make (fs : Files) (way : List Step) : Except FileFault Files :=
  match (fs.resolve way).bind fs.makeAt with
  | .ok fs' => .ok fs'
  | .error e => if fs.isDirectory way then .ok fs else .error e

/-- Makes a directory, and those above it that are missing; the steps come last step first. After a
fault, those above that could be made stay. -/
def makeUpward (fs : Files) : List Step → Except FileFault Unit × Files
  | [] => (.ok (), fs)
  | s :: above =>
    match fs.make (s :: above).reverse with
    | .ok fs' => (.ok (), fs')
    | .error .notFound =>
      match fs.makeUpward above with
      | (.ok _, fs') =>
        match fs'.make (s :: above).reverse with
        | .ok fs'' => (.ok (), fs'')
        | .error e => (.error e, fs')
      | (.error e, fs') => (.error e, fs')
    | .error e => (.error e, fs)

/-- Makes a directory, and those above it that are missing. -/
def makeAll (fs : Files) (way : List Step) : Except FileFault Unit × Files :=
  fs.makeUpward way.reverse

/-- Writes a file into a directory that is made if it is missing. -/
def save (fs : Files) (path : String) (n : Node) : Except FileFault Unit × Files :=
  match fs.makeAll ((Path.parent? path).getD []) with
  | (.error e, fs') => (.error e, fs')
  | (.ok _, fs') =>
    match fs'.write path n with
    | .ok fs'' => (.ok (), fs'')
    | .error e => (.error e, fs')

/-- What a file holds with a text behind it; a new file holds just that text. -/
def Node.extended (n : Option Node) (text : String) : Node :=
  match n with
  | some (.bytes bs) => .bytes (bs ++ text.toUTF8.toList)
  | some (.text content) => .text (content ++ text)
  | _ => .text text

/-- Puts a text behind what a file holds. Where there is no file one is made, if that can be. -/
def append (fs : Files) (path text : String) : Files :=
  (fs.save path (Node.extended ((fs.locate path).toOption.bind fs.get?) text)).2

/-- Removes what is at a path, with all below it. -/
def remove (fs : Files) (path : String) : Except FileFault Files := do
  let p ← fs.locate path
  match fs.get? p with
  | none => .error .notFound
  | some _ => .ok { fs with entries := fs.entries.filter fun e => !p.isPrefixOf e.1 }

/-- All that was put below a path, with the ways from there. -/
def below (fs : Files) (path : String) : List (Place × Node) :=
  match fs.locate path with
  | .ok p => (fs.entries.filter fun e => p.isPrefixOf e.1 && e.1 != p).map fun e =>
      (e.1.drop p.length, e.2)
  | .error _ => []

theorem get?_above_start {fs : Files} {p : Place} (h : p <+: fs.start) :
    fs.get? p = some .directory := if_pos h

theorem get?_start (fs : Files) : fs.get? fs.start = some .directory :=
  get?_above_start (List.prefix_refl _)

theorem get?_put_self (fs : Files) {p : Place} (h : fs.get? p ≠ some .directory) (n : Node) :
    (fs.put p n).get? p = some n := by
  have hp : ¬ p <+: fs.start := fun hp => h (get?_above_start hp)
  simp [get?, put, hp]

theorem lookup_filter_ne {p q : Place} (h : q ≠ p) (es : List (Place × Node)) :
    (es.filter fun e => e.1 != p).lookup q = es.lookup q := by
  induction es with
  | nil => rfl
  | cons e es ih =>
    obtain ⟨k, v⟩ := e
    by_cases hk : k = p
    · have hq : (q == k) = false := by simp [hk, h]
      have hp : (k != p) = false := by simp [hk]
      simp only [List.filter_cons, hp, Bool.false_eq_true, if_false, List.lookup_cons, hq, ih]
    · have hp : (k != p) = true := by simp [hk]
      simp only [List.filter_cons, hp, List.lookup_cons, ih, if_true]

theorem get?_put_of_ne (fs : Files) {p q : Place} (h : q ≠ p) (n : Node) :
    (fs.put p n).get? q = fs.get? q := by
  have hqp : (q == p) = false := by simp [h]
  simp only [get?, put, List.lookup_cons, hqp, lookup_filter_ne h]

end Files

end CommandBot
