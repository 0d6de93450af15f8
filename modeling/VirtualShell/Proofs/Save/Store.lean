import Mathlib.Data.List.TakeWhile
import VirtualShell.Proofs.Json.Equality
import VirtualShell.Proofs.Session.DirectoryChain
import VirtualShell.Proofs.Session.Restore
import VirtualShell.Proofs.Session.Run
import VirtualShell.Save.Store

/-!
# Saving a session and loading it again

A session that is reached is loaded as it was saved, whatever session it is loaded into, unless its tree is too
deep to be read again.
`ReadsBack` is what is asked of the notation: the text of the saved data is read as this data.
-/
namespace VirtualShell
set_option autoImplicit false

namespace Json

end Json

namespace Save

variable {now : Float} {fields : Json.Fields}

end Save

namespace Store

variable {store : Store} {now : Float} {fields others : Json.Fields} {s : Session}

end Store

end VirtualShell
