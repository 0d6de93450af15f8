/-!
# Utilities

The commands that the shell knows.
-/
namespace VirtualShell
set_option autoImplicit false

inductive Utility where
  | apropos | cat | cd | chmod | chown | cp | echo | find | grep | groupadd | groups | head | id | less
  | ls | man | mkdir | mv | nano | pwd | rm | rmdir | sort | stat | su | elevate | tail | touch | useradd
  | userdel | usermod | wc | whatis | whoami
  deriving DecidableEq, Repr

namespace Utility

def all : List Utility :=
  [apropos, cat, cd, chmod, chown, cp, echo, find, grep, groupadd, groups, head, id, less, ls, man, mkdir,
    mv, nano, pwd, rm, rmdir, sort, stat, su, elevate, tail, touch, useradd, userdel, usermod, wc, whatis,
    whoami]

def name : Utility → String
  | apropos => "apropos"
  | cat => "cat"
  | cd => "cd"
  | chmod => "chmod"
  | chown => "chown"
  | cp => "cp"
  | echo => "echo"
  | find => "find"
  | grep => "grep"
  | groupadd => "groupadd"
  | groups => "groups"
  | head => "head"
  | id => "id"
  | less => "less"
  | ls => "ls"
  | man => "man"
  | mkdir => "mkdir"
  | mv => "mv"
  | nano => "nano"
  | pwd => "pwd"
  | rm => "rm"
  | rmdir => "rmdir"
  | sort => "sort"
  | stat => "stat"
  | su => "su"
  | elevate => "sudo"
  | tail => "tail"
  | touch => "touch"
  | useradd => "useradd"
  | userdel => "userdel"
  | usermod => "usermod"
  | wc => "wc"
  | whatis => "whatis"
  | whoami => "whoami"

def names : List String := all.map name

def ofName? (text : String) : Option Utility := all.find? fun u => u.name == text

def description : Utility → String
  | apropos => "Search command descriptions by keyword"
  | cat => "Concatenate and print files"
  | cd => "Change the current directory"
  | chmod => "Change file permissions"
  | chown => "Change file owner and group"
  | cp => "Copy files and directories"
  | echo => "Display a line of text"
  | find => "Search for files in a directory hierarchy"
  | grep => "Search for patterns in files"
  | groupadd => "Create a new group"
  | groups => "Print the groups a user is in"
  | head => "Output the first part of files"
  | id => "Print user and group identity"
  | less => "View file contents one screen at a time"
  | ls => "List directory contents"
  | man => "Display the manual page of a command"
  | mkdir => "Create directories"
  | mv => "Move or rename files"
  | nano => "Edit files in a simplified mode"
  | pwd => "Print the current working directory"
  | rm => "Remove files or directories"
  | rmdir => "Remove empty directories"
  | sort => "Sort lines of text"
  | stat => "Display file status"
  | su => "Switch user"
  | elevate => "Execute a command as the administrator"
  | tail => "Output the last part of files"
  | touch => "Create empty files or update timestamps"
  | useradd => "Create a new user account"
  | userdel => "Delete a user account"
  | usermod => "Modify a user account"
  | wc => "Count lines, words and characters"
  | whatis => "Display one-line command descriptions"
  | whoami => "Print the current user name"

def isAdminOnly : Utility → Bool
  | groupadd | useradd | userdel | usermod => true
  | _ => false

def summary (u : Utility) : String := u.name ++ " - " ++ u.description

theorem ofName?_name (u : Utility) : ofName? u.name = some u := by
  cases u <;> decide

end Utility

end VirtualShell
