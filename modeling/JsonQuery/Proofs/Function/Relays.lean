import JsonQuery.Function.Sample
import JsonQuery.Proofs.Function.Builtins

/-! Functions that look up no other functions. Such a function fails for want of a function only where an expression
    among its arguments does. The builtin functions are like that, as they respect every relation to which
    their own failures belong, and so are the ready-made computations. -/

namespace JsonQuery

variable {ρ : Type}

namespace Function

variable {f : Function ρ}

end Function

end JsonQuery
