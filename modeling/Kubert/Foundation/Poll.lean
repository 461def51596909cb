/-!
# Polling

The answer of an operation that does not wait: either it is ready, with a value,
or the caller has to ask again.
-/

namespace Kubert
namespace Foundation

universe u

/-- `std::task::Poll`. -/
inductive Poll (α : Type u)
  | ready (a : α)
  | pending
deriving DecidableEq, Repr

end Foundation
end Kubert
