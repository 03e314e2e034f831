/-!
# First-come bindings

Names are bound in order, each by a holder. The first holder of a name keeps it; a
second claim by the same holder changes nothing, and one by another holder is
refused with the name of the first.
-/
namespace RpcScaffold

abbrev Bindings (Holder : Type) := List (String × Holder)

namespace Bindings

variable {Holder : Type}

def holder? (bound : Bindings Holder) (name : String) : Option Holder :=
  bound.lookup name

/-- Either the bindings with the claim granted, or the holder that stands in its way. -/
def claim [DecidableEq Holder] (bound : Bindings Holder) (name : String) (holder : Holder) :
    Except Holder (Bindings Holder) :=
  match bound.holder? name with
  | none => .ok (bound ++ [(name, holder)])
  | some first => if first = holder then .ok bound else .error first

end Bindings

end RpcScaffold
