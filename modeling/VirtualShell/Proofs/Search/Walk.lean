import VirtualShell.Proofs.Tree.Everywhere
import VirtualShell.Search.Trail

/-!
# Walks by recursion on the tree

What is visited from a stack is what a walk by recursion lists of each node on it, one after the other. All that is said
of walks is proved by induction on the tree.
-/
namespace VirtualShell
set_option autoImplicit false

mutual

/-- The node itself and then, in a directory that may be read and searched, the walks from its entries. -/
def Subject.walk (s : Subject) (path : String) : Node → Trail
  | .file i c => ⟨[(path, .file i c)], none⟩
  | .dir i es =>
    match s.mayAll (.dir i es) [.read, .execute] with
    | .ok true => Trail.andThen ⟨[(path, .dir i es)], none⟩ (s.walkList path es)
    | .ok false => ⟨[(path, .dir i es)], none⟩
    | .error fault => ⟨[(path, .dir i es)], some fault⟩

def Subject.walkList (s : Subject) (path : String) : List Node → Trail
  | [] => Trail.empty
  | e :: es => (s.walk (Path.join path e.name) e).andThen (s.walkList path es)

end

namespace Trail

@[simp] theorem empty_andThen (t : Trail) : empty.andThen t = t := rfl

@[simp] theorem andThen_empty (t : Trail) : t.andThen empty = t := by
  obtain ⟨nodes, fault⟩ := t
  cases fault with
  | none => rw [andThen, empty, List.append_nil]
  | some fault => rfl

theorem andThen_assoc (t next last : Trail) : (t.andThen next).andThen last = t.andThen (next.andThen last) := by
  obtain ⟨nodes, fault⟩ := t
  obtain ⟨nodes', fault'⟩ := next
  cases fault with
  | some fault => rfl
  | none =>
    cases fault' with
    | some fault' => rfl
    | none => simp only [andThen, List.append_assoc]

end Trail

namespace Subject

variable {u : Subject}

/-- Entries that were put on a stack are visited one by one. -/
theorem visit_map_append {es : List Node}
    (h : ∀ e ∈ es, ∀ path stack, u.visit ((path, e) :: stack) = (u.walk path e).andThen (u.visit stack))
    (path : String) (stack : List (String × Node)) :
    u.visit (es.map (fun e => (Path.join path e.name, e)) ++ stack) =
      (u.walkList path es).andThen (u.visit stack) := by
  induction es with
  | nil => rfl
  | cons e es ih =>
    obtain ⟨he, hes⟩ := List.forall_mem_cons.mp h
    rw [List.map_cons, List.cons_append, he, ih hes, walkList, Trail.andThen_assoc]

/-- What is on the stack comes after the walk from the node on top of it. -/
theorem visit_cons (path : String) (n : Node) (stack : List (String × Node)) :
    u.visit ((path, n) :: stack) = (u.walk path n).andThen (u.visit stack) := by
  induction n using Node.induct generalizing path stack with
  | file i c =>
    rw [visit, walk]
    rfl
  | dir i es ih =>
    have hDir : (Node.dir i es).isDir = true := rfl
    rw [visit, walk, if_pos hDir, Node.pushEntries_eq, Node.entries, visit_map_append ih]
    cases u.mayAll (.dir i es) [.read, .execute] with
    | error fault => rfl
    | ok may =>
      cases may with
      | false => rfl
      | true => exact (Trail.andThen_assoc _ _ _).symm

end Subject

namespace Session

variable {s : Session} {start : PathArg} {n : Node}

theorem walk_of_stat (h : s.stat start = .ok n) : s.walk start = s.subject.walk (s.resolve start) n := by
  rw [walk, h]
  dsimp only
  rw [Subject.visit_cons, Subject.visit, Trail.andThen_empty]

theorem walk_eq (s : Session) (start : PathArg) : s.walk start =
    match s.stat start with
    | .ok n => s.subject.walk (s.resolve start) n
    | .error (.refused _) => Trail.empty
    | .error (.crashed c) => ⟨[], some (.crashed c)⟩ := by
  cases h : s.stat start with
  | ok n => exact walk_of_stat h
  | error fault =>
    rw [walk, h]
    cases fault <;> rfl

end Session

end VirtualShell
