import VirtualShell.Shell.Run

/-!
# What the terminal shows

Texts of the terminal itself are coloured by control sequences.
-/
namespace VirtualShell.Terminal
set_option autoImplicit false

inductive Colour where
  | red
  | green
  | yellow
  | blue
  | cyan
  deriving DecidableEq, Repr

def Colour.code : Colour → String
  | red => "31"
  | green => "32"
  | yellow => "33"
  | blue => "34"
  | cyan => "36"

def escape (code : String) : String := "\x1b[" ++ code ++ "m"

def coloured (c : Colour) (text : String) : String := escape c.code ++ text ++ escape "0"

def colouredLine (c : Colour) (text : String) : String := coloured c text ++ "\n"

def shortPath (home cwd : String) : String :=
  if cwd == home then "~"
  else if (home.toList ++ ['/']).isPrefixOf cwd.toList then
    "~" ++ String.ofList (cwd.toList.drop home.length)
  else cwd

def promptOf (s : Session) (hostname : String) : String :=
  coloured .green (s.username ++ "@" ++ hostname) ++ ":" ++ coloured .blue (shortPath s.home s.cwd) ++
    (if s.subject.isAdmin then "#" else "$") ++ " "

def shownReply (r : Reply) : String :=
  if r.output == "" then ""
  else if r.failed then colouredLine .red r.output
  else r.output ++ "\n"

def versionText : String := "0.1.0"

def banner : String := "\n".intercalate
  ["",
   "     ____  _          _ _  ___                  _",
   "    / ___|| |__   ___| | |/ _ \\ _   _  ___  ___| |_",
   "    \\___ \\| '_ \\ / _ \\ | | | | | | | |/ _ \\/ __| __|",
   "     ___) | | | |  __/ | | |_| | |_| |  __/\\__ \\ |_",
   "    |____/|_| |_|\\___|_|_|\\__\\_\\\\__,_|\\___||___/\\__|",
   "    Linux terminal training game v" ++ versionText,
   "    ",
   "Type 'whatis <command>' or 'apropos <keyword>' for help, 'exit' to quit.",
   "",
   ""]

end VirtualShell.Terminal
