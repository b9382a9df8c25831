import EnvModules.Descriptor.Line

/-!
Version pins: the file that names the default version of a package.
-/

namespace EnvModules

open Text

namespace Pin

/-- The version a line binds, in one of the forms `version V`, `version = V` and `version=V`. -/
def ofLine (line : Line) : Except LineFault String :=
  match line.arguments with
  | [value] => if line.head = "version" then .ok value else .error .expectedBinding
  | ["=", value] => if line.head = "version" then .ok value else .error .expectedBinding
  | [] =>
    match splitOnce '=' line.head.toList with
    | some (key, value) =>
      if trim key = "version".toList then .ok (String.ofList (trim value))
      else .error (.unexpectedWord line.head)
    | none => .error (.unexpectedWord line.head)
  | _ => .error .expectedBinding

/-- Reads on after a version was bound, or none yet. The last binding counts. -/
def ofLines (bound : Option String) : List Line → Except TextFault (Option String)
  | [] => .ok bound
  | line :: lines =>
    match ofLine line with
    | .ok version => ofLines (some version) lines
    | .error fault => .error (.line line.number fault)

def read (source : String) : Except TextFault (Option String) := do
  ofLines none (← Line.ofText source)

end Pin

end EnvModules
