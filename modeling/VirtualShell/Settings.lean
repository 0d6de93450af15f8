import VirtualShell.Decimal.Numeral
import VirtualShell.Text.Case

/-!
# Settings

Settings are read from environment variables. One that cannot be read counts as not set.
-/
namespace VirtualShell
set_option autoImplicit false

structure Host where
  /-- The directory of the program. -/
  root : String
  home : String

structure Settings where
  defaultUser : String
  hostname : String
  markup : Bool
  deniedElevated : List String
  outputLimit : Int
  savePath : String
  logLevel : String
  logFormat : String
  logFile : Option String
  metricsEnabled : Bool
  metricsHost : String
  metricsPort : Int
  deriving DecidableEq, Repr

namespace HostPath

def parts (cs : List Char) : List (List Char) :=
  (cs.splitOn '/').filter fun p => !p.isEmpty && p != ['.']

/-- The slashes that a path keeps at its start: exactly two stay two. -/
def rootOf (cs : List Char) : List Char :=
  match (cs.takeWhile (· == '/')).length with
  | 0 => []
  | 2 => ['/', '/']
  | _ => ['/']

/-- A path without what says nothing; the empty one is a point. -/
def normal (path : String) : String :=
  let cs := path.toList
  let text := rootOf cs ++ List.intercalate ['/'] (parts cs)
  if text.isEmpty then "." else String.ofList text

def directory (path : String) : String :=
  let cs := path.toList
  normal (String.ofList (rootOf cs ++ List.intercalate ['/'] (parts cs).dropLast))

/-- Replaces a leading tilde by a home directory; those of others than the administrator are not known. -/
def expand? (home path : String) : Option String :=
  let cs := path.toList
  if cs.head? == some '/' then some (normal path)
  else
    match parts cs with
    | ('~' :: name) :: rest =>
      let home? := if name.isEmpty then some home else if name == "root".toList then some "/root" else none
      home?.map fun home => normal (String.ofList (List.intercalate ['/'] (home.toList :: rest)))
    | _ => some (normal path)

end HostPath

abbrev Environment := List (String × String)

namespace Environment

def names : List String :=
  ["USER", "HOSTNAME", "HTML_OUTPUT", "SUDO_DENYLIST", "MAX_OUTPUT", "SAVE_PATH", "LOG_LEVEL", "LOG_FORMAT",
    "LOG_FILE", "METRICS_ENABLED", "METRICS_HOST", "METRICS_PORT"]

/-- What the names of all variables begin with. -/
def beginning : String := "SHELLQUEST_"

def get? (env : Environment) (name : String) : Option String :=
  (env.find? fun entry => entry.1 == beginning ++ name).map Prod.snd

def text (env : Environment) (name default : String) : String := (env.get? name).getD default

def integer (env : Environment) (name : String) (default : Int) : Int :=
  ((env.get? name).bind readInteger?).getD default

def flag (env : Environment) (name : String) (default : Bool) : Bool :=
  let word := Text.lower (env.text name "")
  if ["true", "1", "yes", "on"].contains word then true
  else if ["false", "0", "no", "off"].contains word then false
  else default

/-- The items between commas that are not blank. -/
def items (env : Environment) (name : String) : List String :=
  ((((env.text name "").toList.splitOn ',').map Text.trim).filter (!·.isEmpty)).map String.ofList

end Environment

/-- A path starts with a home directory that is not known. -/
inductive SettingsFault where
  | unknownHome
  deriving DecidableEq, Repr

def Settings.ofEnvironment (host : Host) (env : Environment) : Except SettingsFault Settings :=
  match HostPath.expand? host.home (env.text "SAVE_PATH" (host.root ++ "/data/save.json")) with
  | none => .error .unknownHome
  | some savePath =>
    .ok
      { defaultUser := env.text "USER" "user"
        hostname := env.text "HOSTNAME" "linux-game"
        markup := env.flag "HTML_OUTPUT" false
        deniedElevated := env.items "SUDO_DENYLIST"
        outputLimit := env.integer "MAX_OUTPUT" 100000
        savePath
        logLevel := env.text "LOG_LEVEL" "WARNING"
        logFormat := env.text "LOG_FORMAT" "%(asctime)s - %(name)s - %(levelname)s - %(message)s"
        logFile := match env.get? "LOG_FILE" with
          | none | some "" => none
          | some path => some (HostPath.normal path)
        metricsEnabled := env.flag "METRICS_ENABLED" false
        metricsHost := env.text "METRICS_HOST" "127.0.0.1"
        metricsPort := env.integer "METRICS_PORT" 9090 }

end VirtualShell
