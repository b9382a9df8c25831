import EnvModules.Text.Split

/-!
Paths as they are written. Joining never normalises, so a path prints as it was put together.
-/

namespace EnvModules

structure Path where
  text : String
  deriving DecidableEq, Repr

namespace Path

def isAbsolute (p : Path) : Bool := p.text.toList.head? == some '/'

/-- An absolute path replaces the base; any other is put after it, with a slash between them unless
the base is empty or already ends in one. -/
def join (base rest : Path) : Path :=
  if rest.isAbsolute then rest
  else
    match base.text.toList.getLast? with
    | none => rest
    | some c => if c = '/' then ⟨base.text ++ rest.text⟩ else ⟨base.text ++ "/" ++ rest.text⟩

/-- The names a walk along the path goes through. A slash at the end asks for a directory, as a last
step to the directory itself would. -/
def components (p : Path) : List String :=
  let names := ((Text.fields (· == '/') p.text.toList).filter (!·.isEmpty)).map String.ofList
  if p.text.toList.getLast? = some '/' then names ++ ["."] else names

end Path

end EnvModules
