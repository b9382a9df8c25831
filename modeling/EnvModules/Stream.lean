/-!
Output streams that may stop taking bytes.
-/

namespace EnvModules

structure Stream where
  written : ByteArray
  /-- How many more bytes the stream takes, if that is limited. -/
  room : Option Nat

namespace Stream

def unlimited : Stream := ⟨.empty, none⟩

/-- Writes a text, and says whether all of it was taken. If not, the stream has kept the bytes that
there was room for. -/
def write (s : Stream) (text : String) : Bool × Stream :=
  let bytes := text.toUTF8
  match s.room with
  | none => (true, ⟨s.written ++ bytes, none⟩)
  | some room =>
    if bytes.size ≤ room then (true, ⟨s.written ++ bytes, some (room - bytes.size)⟩)
    else (false, ⟨s.written ++ bytes.extract 0 room, some 0⟩)

theorem write_of_room_eq_none {s : Stream} (h : s.room = none) (text : String) :
    s.write text = (true, ⟨s.written ++ text.toUTF8, none⟩) := by
  simp [write, h]

end Stream

/-- The two streams of an invocation. Only the first may be evaluated by the caller. -/
structure Streams where
  commands : Stream
  diagnostics : Stream
  /-- Whether emphasis is shown on the second. -/
  emphasis : Bool

namespace Streams

/-- Writes to the stream that nobody evaluates. -/
def report (s : Streams) (text : String) : Bool × Streams :=
  let (ok, diagnostics) := s.diagnostics.write text
  (ok, { s with diagnostics })

@[simp] theorem report_commands (s : Streams) (text : String) :
    (s.report text).2.commands = s.commands := rfl

end Streams

end EnvModules
