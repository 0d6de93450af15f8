import VirtualShell.Session.State

/-!
# The session at the start

The tree that a new session starts with, its accounts and its groups. Ages are in seconds before the
start.
-/
namespace VirtualShell.Seed
set_option autoImplicit false

def linesText (ls : List String) : String := String.intercalate "\n" ls

def textOf (ls : List String) : String := linesText ls ++ "\n"

def shellStart : String :=
  textOf [
    "# ~/.bashrc: executed by bash for non-login shells.",
    "export PS1='\\u@\\h:\\w\\$ '",
    "alias ll='ls -la'",
    "alias la='ls -a'"]

def notes : String :=
  textOf [
    "Welcome to Linux Game!",
    "These notes will help you get started:",
    "- pwd shows where you are",
    "- ls lists the files in a directory",
    "- cd moves you around",
    "- cat prints a file",
    "Have fun exploring the terminal."]

def bonuses : String :=
  textOf [
    "Q1 bonus pool: 12000",
    "Q2 bonus pool: 15500",
    "Confidential - HR and management only."]

def report : String :=
  textOf [
    "Quarterly report",
    "================",
    "Revenue grew by 12% over the previous quarter.",
    "Action items: review access rights on shared documents."]

def toDo : String :=
  textOf [
    "TODO",
    "- clean up the downloads folder",
    "- archive old reports",
    "- learn grep and find"]

def readMe : String :=
  textOf [
    "# Downloads",
    "Files downloaded from the internet land here.",
    "Move what you want to keep into ~/documents."]

def backupScript : String :=
  textOf [
    "#!/bin/bash",
    "echo \"Backing up documents...\"",
    "cp -r ~/documents /tmp/backup",
    "echo \"Done.\""]

def systemLog : String :=
  linesText [
    "[2024-01-15 08:00:01] Info: system boot completed",
    "[2024-01-15 08:00:05] Info: network interface eth0 up",
    "[2024-01-15 09:12:44] Warning: disk usage above 80% on /var",
    "[2024-01-15 10:03:17] Info: user login: user",
    "[2024-01-15 11:22:33] Error: connection timeout to remote server",
    "[2024-01-15 11:25:02] Info: retrying connection",
    "[2024-01-15 11:25:09] Info: connection established",
    "[2024-01-15 14:47:51] Error: failed to write /var/backups/daily.tar",
    "[2024-01-15 18:30:00] Info: scheduled maintenance finished"]

def loginLog : String :=
  linesText [
    "Jan 15 10:03:17 linux-game login[812]: session opened for user user",
    "Jan 15 10:41:02 linux-game sudo: user : TTY=pts/0 ; PWD=/home/user ; USER=root ; COMMAND=/usr/bin/apt update",
    "Jan 15 12:15:40 linux-game sshd[1044]: Failed password for invalid user admin from 203.0.113.7 port 51122"]

def passwords : String :=
  linesText [
    "root:x:0:0:root:/root:/bin/bash",
    "user:x:1000:1000:Player:/home/user:/bin/bash",
    "admin:x:1001:1001:Administrator:/home/admin:/bin/bash"]

def groupTable : String :=
  linesText [
    "root:x:0:",
    "user:x:1000:",
    "admin:x:1001:",
    "security:x:1002:user",
    "marketing:x:1003:"]

def adminNotes : String :=
  textOf [
    "Rotate the backup keys on Friday.",
    "Temporary password for the staging box is in the vault."]

def hours (n : Nat) : Nat := 3600 * n

def days (n : Nat) : Nat := 86400 * n

def file (now : Float) (name content owner group permissions : String) (age : Nat) : Node :=
  .file { name, permissions, owner, group, modified := now - age.toFloat } content

def plainFile (now : Float) (name content owner : String) (age : Nat) : Node :=
  file now name content owner owner "rw-r--r--" age

def directory (now : Float) (name owner permissions : String) (age : Nat) (entries : List Node) : Node :=
  .dir { name, permissions, owner, group := owner, modified := now - age.toFloat }
    (entries.foldl (fun es e => Keyed.insert Node.name e es) [])

def openDirectory (now : Float) (name owner : String) (age : Nat) (entries : List Node) : Node :=
  directory now name owner "rwxr-xr-x" age entries

def program (now : Float) (name : String) : Node :=
  file now name ("#!ELF " ++ name) "root" "root" "rwxr-xr-x" (days 90)

def settings (now : Float) : Node :=
  openDirectory now "etc" "root" (days 30)
    [plainFile now "hostname" "linux-game" "root" (days 90),
      plainFile now "passwd" passwords "root" (days 30),
      plainFile now "group" groupTable "root" (days 30),
      file now "shadow" "root:*:19000:0:99999:7:::" "root" "root" "rw-------" (days 30),
      plainFile now "motd" "Welcome to the Linux Game training system." "root" (days 60)]

def documents (now : Float) : Node :=
  openDirectory now "documents" "user" (days 1)
    [plainFile now "notes.txt" notes "user" (days 1),
      file now "bonuses.txt" bonuses "user" "marketing" "rw-rw----" (days 5),
      plainFile now "rapport.txt" report "user" (days 3),
      plainFile now "todo.txt" toDo "user" (hours 2)]

def downloads (now : Float) : Node :=
  openDirectory now "telechargements" "user" (days 4)
    [plainFile now "readme.md" readMe "user" (days 4),
      plainFile now "archive.zip" "PK\x03\x04 old archive" "user" (days 40),
      plainFile now "photo.jpg" "JFIF image data" "user" (days 12)]

def projects (now : Float) : Node :=
  openDirectory now "projets" "user" (days 6)
    [file now "backup.sh" backupScript "user" "user" "rwxr-xr-x" (days 6)]

def homes (now : Float) : Node :=
  openDirectory now "home" "root" (days 60)
    [openDirectory now "user" "user" (days 20)
      [plainFile now ".bashrc" shellStart "user" (days 20),
        plainFile now ".profile" "# ~/.profile\n" "user" (days 20), documents now, downloads now, projects now],
      directory now "admin" "admin" "rwx------" (days 20)
        [file now "notes.txt" adminNotes "admin" "admin" "rw-------" (days 8)]]

def logs (now : Float) : Node :=
  openDirectory now "var" "root" (days 60)
    [openDirectory now "log" "root" (days 1)
      [plainFile now "system.log" systemLog "root" (days 1),
        file now "auth.log" loginLog "root" "root" "rw-r-----" (days 1)]]

def root (now : Float) : Node :=
  openDirectory now "/" "root" (days 90)
    [openDirectory now "bin" "root" (days 90) (["bash", "cat", "ls", "grep", "find"].map (program now)),
      settings now, homes now,
      directory now "root" "root" "rwx------" (days 60) [plainFile now ".bashrc" shellStart "root" (days 60)],
      directory now "tmp" "root" "rwxrwxrwx" (hours 1) [], logs now]

def accounts : Accounts :=
  Roster.ofList
    [Account.create "root" "root" Roster.empty "/root",
      Account.create "user" "user" (Roster.ofList ["security"]) "/home/user",
      Account.create "admin" "admin" Roster.empty "/home/admin"]

def groups : Names := Roster.ofList ["root", "user", "admin", "security", "marketing"]

end VirtualShell.Seed

namespace VirtualShell
set_option autoImplicit false

def Session.start? (root : Node) (accounts : Accounts) (groups : Names) (username : String) (now : Float) :
    Option Session :=
  (accounts.find? username).map fun account =>
    let s : Session :=
      { root, accounts, groups, username, cwd := "/", elevations := [], switches := 0, now }
    { s with cwd := if s.isDirectory account.home then account.home else "/" }

def Session.fresh? (username : String) (now : Float) : Option Session :=
  Session.start? (Seed.root now) Seed.accounts Seed.groups username now

end VirtualShell
