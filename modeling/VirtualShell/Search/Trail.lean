import VirtualShell.Session.Inspect

/-!
# Walking with rights

A walk takes one node after the other from a stack and lists it. The entries of a directory that the
subject may read and search are put on the stack then, so that they come before what is below them.
What was listed before a crash stays listed.
-/
namespace VirtualShell
set_option autoImplicit false

/-- The nodes met on a walk with their paths, and the fault that broke it off, if one did. -/
structure Trail where
  nodes : List (String × Node)
  fault : Option Fault

def Trail.andThen (t : Trail) (next : Trail) : Trail :=
  match t.fault with
  | some _ => t
  | none => ⟨t.nodes ++ next.nodes, next.fault⟩

def Trail.empty : Trail := ⟨[], none⟩

namespace Node

/-- Puts the entries of the directory at `path` on a stack, the first one on top. -/
def pushEntries (path : String) (n : Node) (stack : List (String × Node)) : List (String × Node) :=
  n.entries.reverse.foldl (fun stack e => (Path.join path e.name, e) :: stack) stack

theorem pushEntries_eq (path : String) (n : Node) (stack : List (String × Node)) :
    n.pushEntries path stack = n.entries.map (fun e => (Path.join path e.name, e)) ++ stack := by
  rw [pushEntries, List.foldl_reverse]
  induction n.entries with
  | nil => rfl
  | cons e es ih => rw [List.foldr_cons, ih, List.map_cons, List.cons_append]

theorem sizeOf_append_lt (es ns : List Node) : sizeOf (es ++ ns) < sizeOf es + sizeOf ns := by
  induction es with
  | nil =>
    rw [List.nil_append, List.nil.sizeOf_spec]
    omega
  | cons e es ih =>
    rw [List.cons_append, List.cons.sizeOf_spec, List.cons.sizeOf_spec]
    omega

/-- The entries of a directory are together smaller than the directory. -/
theorem sizeOf_pushEntries_lt (path : String) (n : Node) (stack : List (String × Node)) :
    sizeOf ((n.pushEntries path stack).map Prod.snd) < sizeOf n + sizeOf (stack.map Prod.snd) := by
  have hNodes : (n.pushEntries path stack).map Prod.snd = n.entries ++ stack.map Prod.snd := by
    rw [pushEntries_eq, List.map_append, List.map_map]
    exact congrArg (· ++ _) (List.map_id _)
  rw [hNodes]
  cases n with
  | file i c =>
    rw [entries, List.nil_append, Node.file.sizeOf_spec]
    omega
  | dir i es =>
    have hEntries := sizeOf_append_lt es (stack.map Prod.snd)
    rw [entries, Node.dir.sizeOf_spec]
    omega

end Node

/-- Visits the nodes on a stack. A directory that the subject may not read and search is listed without
its entries. -/
def Subject.visit (s : Subject) : List (String × Node) → Trail
  | [] => Trail.empty
  | (path, n) :: stack =>
    Trail.andThen ⟨[(path, n)], none⟩ <|
      if n.isDir then
        match s.mayAll n [.read, .execute] with
        | .ok true => s.visit (n.pushEntries path stack)
        | .ok false => s.visit stack
        | .error fault => ⟨[], some fault⟩
      else s.visit stack
termination_by stack => sizeOf (stack.map Prod.snd)
decreasing_by
  · have hEntries := n.sizeOf_pushEntries_lt path stack
    simp only [List.map_cons, List.cons.sizeOf_spec]
    omega
  all_goals
    simp only [List.map_cons, List.cons.sizeOf_spec]
    omega

/-- The walk from a path; where there is nothing to see, it is empty. -/
def Session.walk (s : Session) (start : PathArg) : Trail :=
  match s.stat start with
  | .ok n => s.subject.visit [(s.resolve start, n)]
  | .error (.refused _) => Trail.empty
  | .error (.crashed c) => ⟨[], some (.crashed c)⟩

end VirtualShell
