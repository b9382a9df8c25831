import EnvModules.Text.Printable

/-!
Notices about a command line, some of whose parts stand out.
-/

namespace EnvModules

/-- What a part of a notice is. -/
inductive Role where
  | prose
  | alarm
  /-- What was given and cannot be used. -/
  | rejected
  /-- What can be used instead. -/
  | proposed
  | heading
  /-- What is written as it stands. -/
  | literal
  deriving DecidableEq, Repr

/-- The terminal's codes for a part that stands out. -/
def Role.codes : Role → String
  | prose => ""
  | alarm => "\x1b[1m\x1b[31m"
  | rejected => "\x1b[33m"
  | proposed => "\x1b[32m"
  | heading => "\x1b[1m\x1b[4m"
  | literal => "\x1b[1m"

structure Span where
  role : Role
  text : String
  deriving DecidableEq, Repr

namespace Span

/-- A part as it goes to a terminal. -/
def colored (s : Span) : String :=
  if s.role = .prose then s.text else s.role.codes ++ s.text ++ "\x1b[0m"

/-- A part without anything that is meant for a terminal. -/
def plain (s : Span) : String := String.ofList (Text.printable s.text.toList)

/-- A part as a stream shows it that is no terminal. -/
def shown (s : Span) : String := String.ofList (Text.shown s.text.toList)

end Span

structure Notice where
  spans : List Span
  deriving DecidableEq, Repr

namespace Notice

def empty : Notice := ⟨[]⟩

instance : Append Notice := ⟨fun a b => ⟨a.spans ++ b.spans⟩⟩

def part (role : Role) (s : String) : Notice := ⟨[⟨role, s⟩]⟩

def prose (s : String) : Notice := part .prose s

/-- A part with quotes around it. -/
def quoted (role : Role) (s : String) : Notice := prose "'" ++ part role s ++ prose "'"

def colored (n : Notice) : String := String.join (n.spans.map Span.colored)

def plain (n : Notice) : String := String.join (n.spans.map Span.plain)

def shown (n : Notice) : String := String.join (n.spans.map Span.shown)

/-- A notice as it goes to a stream. -/
def render (n : Notice) (color : Bool) : String := if color then n.colored else n.shown

end Notice

end EnvModules
