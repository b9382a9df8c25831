import EnvModules.Bindings
import EnvModules.Config
import EnvModules.Fault
import EnvModules.Toml.Reader

/-!
Reading a configuration from a TOML document. Its keys are looked at in ascending order, and the first
that cannot be used decides the fault.
-/

namespace EnvModules

open Toml

/-- Why a document is no configuration. -/
inductive Misfit where
  | unknownKey (key : String) (known : List String)
  | other
  deriving DecidableEq, Repr

namespace Config

def strings (v : Value) : Except Misfit (List String) :=
  match v with
  | .array elements => elements.mapM fun e => match e with
    | .string text => .ok text
    | _ => .error .other
  | _ => .error .other

def subdirectoryKeys : List String := ["bin", "lib", "include", "man", "python"]

/-- Gives the location with a key its directories. -/
def setSubdirectories (s : Subdirectories) (key : String) (directories : List String) :
    Option Subdirectories :=
  if key = "bin" then some { s with bin := directories }
  else if key = "lib" then some { s with lib := directories }
  else if key = "include" then some { s with headers := directories }
  else if key = "man" then some { s with man := directories }
  else if key = "python" then some { s with python := directories }
  else none

def takeSubdirectory (s : Subdirectories) (key : String) (v : Value) :
    Except Misfit Subdirectories :=
  if subdirectoryKeys.contains key then do
    match setSubdirectories s key (← strings v) with
    | some s => .ok s
    | none => .error .other
  else .error (.unknownKey key subdirectoryKeys)

/-- The members of a table in ascending order of keys. -/
def ascending (members : List (String × Value)) : List (String × Value) :=
  (Bindings.ofList members).entries

/-- The key by which a date or time presents itself as a table. -/
def momentKey : String := "$__toml_private_datetime"

/-- The directories come as a table, or as an array in the order of the keys. -/
def readSubdirectories (v : Value) : Except Misfit Subdirectories :=
  match v with
  | .table members =>
    (ascending members).foldlM (fun s (key, v) => takeSubdirectory s key v) Subdirectories.default
  | .array elements =>
    (subdirectoryKeys.zip elements).foldlM (fun s (key, v) => takeSubdirectory s key v)
      Subdirectories.default
  | .moment _ => .error (.unknownKey momentKey subdirectoryKeys)
  | _ => .error .other

def keys : List String := ["search_paths", "library_path_var", "subdirs"]

def takeKey (c : Config) (key : String) (v : Value) : Except Misfit Config :=
  if key = "search_paths" then do
    return { c with searchPaths := (← strings v).map Path.mk }
  else if key = "library_path_var" then
    match v with
    | .string text => .ok { c with libraryVariable := text }
    | _ => .error .other
  else if key = "subdirs" then do
    return { c with subdirectories := ← readSubdirectories v }
  else .error (.unknownKey key keys)

/-- Reads a configuration. What it leaves out keeps its default. -/
def ofText (source : String) : Except Misfit Config :=
  match Toml.read source with
  | none => .error .other
  | some members =>
    (ascending members).foldlM (fun c (key, v) => takeKey c key v) Config.default

/-- Reads the configuration that stands at a path. -/
def read (path : Path) (source : String) : Except Fault Config :=
  match ofText source with
  | .ok c => .ok c
  | .error (.unknownKey key known) => .error (.config (.malformed path (some (key, known))))
  | .error .other => .error (.config (.malformed path none))

/-- The configuration of a user. Without a file it is the default one. -/
def load (t : FileTree) (env : Environment) (user : UserDirectories) : Except Fault Config :=
  match file? env user with
  | none => .ok .default
  | some path =>
    if t.isFile path then
      match t.readText path with
      | .ok source => read path source
      | .error fault => .error (.config (.unreadable path fault))
    else .ok .default

end Config

end EnvModules
