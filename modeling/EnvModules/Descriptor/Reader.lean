import EnvModules.Descriptor.Line

/-!
Reading a descriptor. Every line is a statement, or opens, continues or closes a choice. The choices
that are still open form a stack, so one pass over the lines builds the statements.
-/

namespace EnvModules

open Text

def isIdentifierChar (c : Char) : Bool := c.isAlphanum || c == '_'

/-- An ASCII letter or an underscore, followed by ASCII letters, digits and underscores. -/
def isIdentifier (s : String) : Bool :=
  match s.toList with
  | [] => false
  | c :: cs => (c.isAlpha || c == '_') && cs.all isIdentifierChar

/-- What can follow the stem of a package in the name of a variable. -/
def isEnding (s : String) : Bool := !s.isEmpty && s.toList.all isIdentifierChar

namespace Condition

def ofWords : List String → Except LineFault Condition
  | [] => .error .missingCondition
  | head :: rest =>
    let keyword := head.toLower
    if keyword = "not" ∨ keyword = "!" then (ofWords rest).map Condition.not
    else if keyword = "defined" then
      match rest with
      | [name] => .ok (.defined name)
      | _ => .error (.takesOneArgument head)
    else if keyword = "equal" then
      match rest with
      | [left, right] => .ok (.equal left right)
      | _ => .error .takesTwoArguments
    else if keyword = "loaded" then
      match rest with
      | [name] => .ok (.loaded name)
      | _ => .error (.takesOneArgument head)
    else if keyword = "mode" then
      match rest with
      | [word] =>
        match Mode.parse? word with
        | some parsed => .ok (.mode parsed)
        | none => .error (.unknownMode word)
      | _ => .error (.takesOneArgument head)
    else .error (.unknownCondition keyword)

end Condition

namespace Statement

def location? (keyword : String) : Option Location :=
  if keyword = "setbin" then some .bin
  else if keyword = "setlib" then some .lib
  else if keyword = "setman" then some .man
  else if keyword = "setinclude" then some .headers
  else if keyword = "setpython" then some .python
  else none

/-- A statement that takes a list of modules, of which there has to be one. -/
def ofModules? (keyword : String) : Option (List String → Statement) :=
  if keyword = "prereq" then some require
  else if keyword = "conflict" then some conflict
  else if keyword = "load" then some load
  else none

/-- Reads a statement from its keyword, in lower case, and its arguments. -/
def ofWords (keyword : String) (arguments : List String) : Except LineFault Statement :=
  if keyword = "setvar" then
    match arguments with
    | [value, name] => if isIdentifier name then .ok (setVariable value name) else .error (.badVariable name)
    | _ => .error (.expects keyword "<value> <name>")
  else if keyword = "setpkgvar" then
    match arguments with
    | [value, ending] =>
      if isEnding ending then .ok (setPackageVariable value ending) else .error (.badEnding ending)
    | _ => .error (.expects keyword "<value> <suffix>")
  else if keyword = "setpath" then
    match arguments with
    | [value, name] => if isIdentifier name then .ok (prependPath value name) else .error (.badVariable name)
    | _ => .error (.expects keyword "<value> <name>")
  else if keyword = "setall" then
    match arguments with
    | [root] => .ok (installTree root)
    | _ => .error (.expects keyword "a single root directory")
  else if keyword = "swap" then
    match arguments with
    | [old, new] => .ok (swap old new)
    | _ => .error (.expects keyword "<old> <new>")
  else if keyword = "whatis" then
    if arguments.isEmpty then .error (.expects keyword "a description")
    else .ok (describe (" ".intercalate arguments))
  else if keyword = "setversionmatch" then
    match arguments with
    | [word] =>
      match Policy.parse? word with
      | some policy => .ok (matchVersions policy)
      | none => .error (.unknownPolicy word)
    | _ => .error (.expects keyword "one of equal, atleast, atmost")
  else
    match location? keyword, ofModules? keyword with
    | some location, _ =>
      match arguments with
      | [directory] => .ok (install location directory)
      | _ => .error (.expects keyword "a single directory")
    | none, some ofNames =>
      if arguments.isEmpty then .error (.expects keyword "at least one module")
      else .ok (ofNames arguments)
    | none, none => .error (.unknownStatement keyword)

end Statement

/-- What a line does to the choices around it. -/
inductive Clause where
  | statement (statement : Statement)
  | opening (test : Condition)
  | alternative (test : Condition)
  | otherwise
  | closing
  deriving Repr

namespace Clause

/-- Whether a keyword makes sense only inside a choice. -/
def continuesChoice (keyword : String) : Bool :=
  keyword == "elif" || keyword == "else" || keyword == "end" || keyword == "endif"

/-- Reads a line by itself. Words after the one that closes a choice are ignored. -/
def ofLine (line : Line) : Except LineFault Clause :=
  let keyword := line.head.toLower
  if keyword = "if" then (Condition.ofWords line.arguments).map opening
  else if keyword = "elif" then (Condition.ofWords line.arguments).map alternative
  else if keyword = "else" then
    if line.arguments.isEmpty then .ok otherwise else .error .elseWithArguments
  else if keyword = "end" ∨ keyword = "endif" then .ok closing
  else (Statement.ofWords keyword line.arguments).map statement

end Clause

/-- The part of a choice that is being read. -/
inductive Part where
  | branch (test : Condition)
  | otherwise (line : Nat)
  deriving Repr

/-- A choice that is not closed yet. What was read last comes first. -/
structure OpenChoice where
  /-- The line that opened it. -/
  line : Nat
  /-- The statements before it. -/
  before : List Statement
  /-- The branches that are complete. -/
  branches : List (Condition × List Statement)
  part : Part
  deriving Repr

/-- How far a descriptor is read: the statements of the innermost block, the last one first, and the
choices around it from the inside out. -/
structure Progress where
  current : List Statement
  stack : List OpenChoice
  deriving Repr

namespace Progress

def initial : Progress := ⟨[], []⟩

/-- Takes one clause. The fault of a part that follows the last one is with that last one's line. A clause that
continues a choice is a fault where none is open, though not one that a text can have: `step` refuses such a line by
its first word. -/
def take (p : Progress) (line : Nat) : Clause → Except TextFault Progress
  | .statement s => .ok { p with current := s :: p.current }
  | .opening test => .ok ⟨[], ⟨line, p.current, [], .branch test⟩ :: p.stack⟩
  | .alternative test => nextPart p line (.branch test)
  | .otherwise => nextPart p line (.otherwise line)
  | .closing =>
    match p.stack with
    | [] => .error (.line 0 (.unmatched "end"))
    | choice :: outer =>
      let closed := match choice.part with
        | .branch test =>
          Statement.choose ((test, p.current.reverse) :: choice.branches).reverse []
        | .otherwise _ => Statement.choose choice.branches.reverse p.current.reverse
      .ok ⟨closed :: choice.before, outer⟩
where
  nextPart (p : Progress) (line : Nat) (part : Part) : Except TextFault Progress :=
    match p.stack with
    | [] => .error (.line line (.unmatched "elif'/'else"))
    | choice :: outer =>
      match choice.part with
      | .branch test =>
        let branches := (test, p.current.reverse) :: choice.branches
        .ok ⟨[], { choice with branches := branches, part := part } :: outer⟩
      | .otherwise elseLine => .error (.line elseLine .elseNotLast)

/-- Reads one more line. -/
def step (p : Progress) (line : Line) : Except TextFault Progress :=
  if p.stack.isEmpty && Clause.continuesChoice line.head.toLower then
    .error (.line line.number (.unmatched line.head))
  else
    match Clause.ofLine line with
    | .ok clause => p.take line.number clause
    | .error fault => .error (.line line.number fault)

/-- The statements, if no choice is left open. -/
def finish (p : Progress) : Except TextFault (List Statement) :=
  match p.stack with
  | [] => .ok p.current.reverse
  | choice :: _ => .error (.line choice.line .neverClosed)

end Progress

namespace Descriptor

def ofLines (lines : List Line) : Except TextFault (List Statement) := do
  (← lines.foldlM Progress.step .initial).finish

/-- Reads a descriptor. Every line has to have words before any of them is understood. -/
def read (source : String) : Except TextFault (List Statement) := do
  ofLines (← Line.ofText source)

end Descriptor

end EnvModules
