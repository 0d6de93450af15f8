import VirtualShell.Access.Mode
import VirtualShell.Session.Update

/-! # Modes and owners -/
namespace VirtualShell.Session
set_option autoImplicit false

def changeMode (path : PathArg) (mode : String) : Update String := do
  let s ← Update.session
  let target := s.resolve path
  let n ← s.reach target path
  if s.subject.mayChange n.info then
    let permissions ← Mode.apply mode n.info.permissions
    Update.write (·.modifyAt target (Node.mapInfo fun i => { i with permissions := permissions }))
    return permissions
  else refuse (.obstructed (.changeMode path.text) .notPermitted)

def OwnerSpec.applyTo (spec : OwnerSpec) (i : Info) : Info :=
  { i with owner := spec.owner.getD i.owner, group := spec.group.getD i.group }

/-- Owners may not give a node away, but pass it on to a group of their own. -/
def mayReown (s : Subject) (spec : OwnerSpec) (i : Info) : Bool :=
  s.owns i && (spec.owner.isNone || spec.owner == some i.owner) &&
    match spec.group with
    | none => true
    | some group => s.groups.contains group

def changeOwner (path : PathArg) (spec : String) (recursive : Bool) : Update String := do
  let s ← Update.session
  let owners := OwnerSpec.ofText spec
  if owners.owner.isNone && owners.group.isNone then refuse (.emptyOwnerSpec spec)
  else if owners.owner.any fun owner => !s.accounts.contains owner then refuse (.unknownOwner spec)
  else if owners.group.any fun group => !s.groups.contains group then refuse (.unknownOwnerGroup spec)
  else
    let target := s.resolve path
    let n ← s.reach target path
    let nodes := if recursive then (n.walk target).map Prod.snd else [n]
    if s.subject.isAdmin || nodes.all fun m => mayReown s.subject owners m.info then
      let change := OwnerSpec.applyTo owners
      Update.write (·.modifyAt target (if recursive then Node.mapAll change else Node.mapInfo change))
      return target
    else refuse (.obstructed (.changeOwner path.text) .notPermitted)

end VirtualShell.Session
