import JsonQuery.Eval.Reference
import JsonQuery.Proofs.Eval.SideBySide
import JsonQuery.Proofs.Expr.Walk
import JsonQuery.Proofs.Function.Relays
import JsonQuery.Proofs.Json.Unions

/-! What evaluation takes from the table of functions. The functions that a tree references are those called at
    the nodes of its walk, and evaluation calls no others: neither at the nodes that it goes through nor within
    the expressions that are handed on, which are parts of the tree. So tables that agree on the names that are
    referenced are as good as each other, and a function is unknown only if it is referenced and missing. -/

namespace JsonQuery

variable {ρ : Type}

/-! ### The nodes of a tree -/

namespace Expr

theorem CallsOnly.mono {name : String → Prop} {xs ys : List Expr} (h : CallsOnly name ys) (hs : xs ⊆ ys) :
    CallsOnly name xs := fun f args hf => h f args (hs hf)

end Expr

/-! ### One place in two environments -/

variable {R : EvalError → EvalError → Prop} (hR : ∀ e, (∀ name, e ≠ .unknownFunction name) → R e e)
  {stack : EvaluatorStack} {limit : Int}
include hR

namespace Expr

end Expr

omit hR

/-! ### Tables -/

namespace Expr

end Expr
end JsonQuery
