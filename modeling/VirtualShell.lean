import VirtualShell.Main
import VirtualShell.Proofs.Line.Boundaries
import VirtualShell.Proofs.Line.Bundles
import VirtualShell.Proofs.Line.Dangling
import VirtualShell.Proofs.Mode.Expression
import VirtualShell.Proofs.Path.Ancestry
import VirtualShell.Proofs.Path.Resolution
import VirtualShell.Proofs.Save.Store
import VirtualShell.Proofs.Search.Closed
import VirtualShell.Proofs.Search.Complement
import VirtualShell.Proofs.Search.Conjunction
import VirtualShell.Proofs.Session.Confidential
import VirtualShell.Proofs.Session.Copying
import VirtualShell.Proofs.Session.DirectoryChain
import VirtualShell.Proofs.Session.Elevation
import VirtualShell.Proofs.Session.Inspection
import VirtualShell.Proofs.Session.Ownership
import VirtualShell.Proofs.Session.Relocation
import VirtualShell.Proofs.Session.Unseen
import VirtualShell.Proofs.Session.Writing
import VirtualShell.Proofs.Shell.AccountCycle
import VirtualShell.Proofs.Shell.Blame
import VirtualShell.Proofs.Shell.Blocking
import VirtualShell.Proofs.Shell.Cutting
import VirtualShell.Proofs.Shell.Refusals
import VirtualShell.Proofs.Terminal.Operand
import VirtualShell.Proofs.Terminal.Saving
