import EnvModules.Toml.Quoted
import EnvModules.Toml.Scalar
import EnvModules.Toml.Table

/-!
Reading TOML documents. A document that breaks any rule of the language has no reading.
-/

namespace EnvModules.Toml

/-- Takes characters from the front, or fails. -/
abbrev Reader := StateT (List Char) Option

namespace Reader

def skipBlank : Reader Unit := modify (·.dropWhile isLineBlank)

/-- Takes one given character. -/
def char (c : Char) : Reader Unit := do
  match ← get with
  | d :: rest => if d = c then set rest else failure
  | [] => failure

/-- Takes what a function on the remaining characters takes. -/
def ofRead (f : List Char → Read) : Reader String := do
  let (text, rest) ← f (← get)
  set rest
  return String.ofList text

/-- Goes on after blanks, line ends and comments. -/
def afterGaps (inComment : Bool) : List Char → Option (List Char)
  | [] => some []
  | '\r' :: '\n' :: cs => afterGaps false cs
  | '\n' :: cs => afterGaps false cs
  | c :: cs =>
    if inComment then if isControl c then none else afterGaps true cs
    else if isLineBlank c then afterGaps false cs
    else if c = '#' then afterGaps true cs
    else some (c :: cs)

def skipGaps : Reader Unit := do
  set (← afterGaps false (← get))

/-- Goes on after the rest of a line, which may only hold blanks and a comment. -/
def afterLine (inComment : Bool) : List Char → Option (List Char)
  | [] => some []
  | '\r' :: '\n' :: cs => some cs
  | '\n' :: cs => some cs
  | c :: cs =>
    if inComment then if isControl c then none else afterLine true cs
    else if isLineBlank c then afterLine false cs
    else if c = '#' then afterLine true cs
    else none

def endLine : Reader Unit := do
  set (← afterLine false (← get))

def isBareKey (c : Char) : Bool := c.isAlphanum || c == '_' || c == '-'

/-- One part of a key: a bare word, or a string on one line. -/
def keyPart : Reader String := do
  match ← get with
  | '"' :: rest =>
    set rest
    ofRead basic
  | '\x27' :: rest =>
    set rest
    ofRead literal
  | cs =>
    let word := cs.takeWhile isBareKey
    if word.isEmpty then failure
    set (cs.dropWhile isBareKey)
    return String.ofList word

/-- How deep arrays and tables in braces may stand in each other, and how many parts a key may have. -/
def depthLimit : Nat := 80

/-- The parts of a key, with dots between them. The first argument bounds their number. -/
def keyParts : Nat → Reader (List String)
  | 0 => failure
  | bound + 1 => do
    skipBlank
    let part ← keyPart
    skipBlank
    match ← get with
    | '.' :: rest =>
      set rest
      return part :: (← keyParts bound)
    | _ => return [part]

def keyPath : Reader (List String) := keyParts depthLimit

/-- The characters that end a value without quotes and brackets. -/
def endsScalar (c : Char) : Bool :=
  ['=', ',', '[', ']', '\x7b', '\x7d', '#', '\r', '\n'].contains c

def isQuote (c : Char) : Bool := c == '"' || c == '\x27'

/-- A value without quotes and brackets, and what follows it. It goes on after blanks unless a quoted text
follows them, and does not end in blanks. -/
def scalarText (afterBlank : Bool) : List Char → List Char × List Char
  | [] => ([], [])
  | c :: cs =>
    if endsScalar c || (afterBlank && isQuote c) then ([], c :: cs)
    else
      let (text, rest) := scalarText (isLineBlank c) cs
      if isLineBlank c && text.isEmpty then ([], c :: cs) else (c :: text, rest)

def scalar : Reader Value := do
  let (word, rest) := scalarText false (← get)
  set rest
  let text := String.ofList word
  if text = "true" then return .boolean true
  if text = "false" then return .boolean false
  if isNumber word then return .number text
  if isMoment word then return .moment text
  failure

mutual

/-- A value. The first argument bounds the steps, as it does in the two readers below, and the second
says how much deeper values may stand in each other. -/
def value : Nat → Nat → Reader Value
  | 0, _ => failure
  | bound + 1, depth => do
    match ← get, depth with
    | '[' :: _, 0 | '\x7b' :: _, 0 => failure
    | '[' :: rest, depth + 1 =>
      set rest
      return .array (← elements bound depth)
    | '\x7b' :: rest, depth + 1 =>
      set rest
      return .table (membersToValue (← members bound depth []))
    | '"' :: _, _ | '\x27' :: _, _ => return .string (← ofRead string?)
    | _, _ => scalar

/-- The elements of an array up to its closing bracket. A comma may follow the last. -/
def elements : Nat → Nat → Reader (List Value)
  | 0, _ => failure
  | bound + 1, depth => do
    skipGaps
    match ← get with
    | ']' :: rest =>
      set rest
      return []
    | _ =>
      let v ← value bound depth
      skipGaps
      match ← get with
      | ',' :: rest =>
        set rest
        return v :: (← elements bound depth)
      | _ =>
        char ']'
        return [v]

/-- The members of a table in braces up to the closing one. A comma may follow the last, and only the
parts of a key have to stand on one line. -/
def members : Nat → Nat → Members → Reader Members
  | 0, _, _ => failure
  | bound + 1, depth, before => do
    skipGaps
    match ← get with
    | '\x7d' :: rest =>
      set rest
      return before
    | _ =>
      let path ← keyPath
      skipGaps
      char '='
      skipGaps
      let v ← value bound depth
      let after ← before.assign v path
      skipGaps
      match ← get with
      | ',' :: rest =>
        set rest
        members bound depth after
      | _ =>
        char '\x7d'
        return after

end

/-- A document that is read in part. -/
structure Document where
  root : Members
  /-- The path of the header that the next lines belong to. -/
  header : List String

namespace Document

/-- Begins a table at a path, by what is done about the last key in the table before it. -/
def withHeader (d : Document) (change : String → Members → Option Members) (path : List String) :
    Option Document :=
  match path.reverse with
  | [] => none
  | key :: above => (d.root.update (change key) above.reverse).map fun root => ⟨root, path⟩

end Document

/-- One line of a document, or the several lines of one value. The first argument bounds the steps. -/
def expression (bound : Nat) (d : Document) : Reader Document := do
  skipBlank
  match ← get with
  | '[' :: '[' :: rest =>
    set rest
    let path ← keyPath
    char ']'
    char ']'
    endLine
    d.withHeader Members.openElement path
  | '[' :: rest =>
    set rest
    let path ← keyPath
    char ']'
    endLine
    d.withHeader Members.openTable path
  | c :: _ =>
    if c = '#' ∨ c = '\n' ∨ c = '\r' then
      endLine
      return d
    else
      let path ← keyPath
      char '='
      skipBlank
      let v ← value bound depthLimit
      endLine
      let root ← d.root.update (Members.assign v path) d.header
      return { d with root }
  | [] => return d

/-- The lines of a document. The first argument bounds their number. -/
def document : Nat → Document → Reader Document
  | 0, _ => failure
  | bound + 1, d => do
    let d ← expression bound d
    if (← get).isEmpty then return d else document bound d

end Reader

/-- The members of a document. A byte order mark may precede it. Every step takes a character at least,
so the number of characters bounds the steps. -/
def read (source : String) : Option (List (String × Value)) :=
  let cs := match source.toList with
    | '\uFEFF' :: rest => rest
    | cs => cs
  ((Reader.document (2 * cs.length + 2) ⟨[], []⟩).run cs).map fun (d, _) => membersToValue d.root

end EnvModules.Toml
