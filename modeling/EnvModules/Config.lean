import EnvModules.Environment
import EnvModules.Path

/-!
What a site can configure, and where its configuration is looked for.
-/

namespace EnvModules

/-- The directories of an installation that are tried for each location. For all but the last the
first usable one counts. -/
structure Subdirectories where
  bin : List String
  lib : List String
  headers : List String
  man : List String
  /-- A star stands for any part of a name. -/
  python : List String
  deriving DecidableEq, Repr

structure Config where
  /-- The roots that are searched before those of the environment. -/
  searchPaths : List Path
  /-- The list variable for libraries. -/
  libraryVariable : String
  subdirectories : Subdirectories
  deriving DecidableEq, Repr

def Subdirectories.default : Subdirectories where
  bin := ["bin"]
  lib := ["lib"]
  headers := ["include"]
  man := ["share/man", "man"]
  python := ["lib/python*/site-packages", "lib64/python*/site-packages"]

def Subdirectories.all (s : Subdirectories) : List String :=
  s.bin ++ s.lib ++ s.headers ++ s.man ++ s.python

def Config.default : Config := ⟨[], "LD_LIBRARY_PATH", Subdirectories.default⟩

instance : Inhabited Config := ⟨Config.default⟩

/-- Where a user keeps files. -/
structure UserDirectories where
  home : Option Path
  /-- The directory for configuration, which counts only if it is absolute. -/
  configHome : Option Path
  deriving DecidableEq, Repr

namespace UserDirectories

/-- The directories that an environment names, with a home in case it names none. -/
def ofEnvironment (env : Environment) (home : Option Path) : UserDirectories :=
  ⟨((env.getNonEmpty? "HOME").map Path.mk).or home, (env.get? "XDG_CONFIG_HOME").map Path.mk⟩

def configDirectory? (u : UserDirectories) : Option Path :=
  match u.configHome.filter Path.isAbsolute with
  | some directory => some directory
  | none => u.home.map (·.join ⟨".config"⟩)

end UserDirectories

namespace Config

/-- The file that the environment names, or else the one in the user's configuration. -/
def file? (env : Environment) (user : UserDirectories) : Option Path :=
  match env.getNonEmpty? "ENVMASTER_CONFIG" with
  | some named => some ⟨env.expand named⟩
  | none => user.configDirectory?.map fun directory =>
      (directory.join ⟨"envmaster"⟩).join ⟨"config.toml"⟩

/-- The given roots, and after them those that the environment names. -/
def searchPath (roots : List Path) (env : Environment) : List Path :=
  roots ++ ((env.segments "ENVMASTERPATH").filter (!·.isEmpty)).map Path.mk

/-- All roots of a site, with the references in its own roots replaced. -/
def roots (config : Config) (env : Environment) : List Path :=
  searchPath (config.searchPaths.map fun p => ⟨env.expand p.text⟩) env

end Config

end EnvModules
