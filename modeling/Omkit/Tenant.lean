import Omkit.Lib.Text

/-!
# The tenant of a task

The context variables that hold the tenant and the request of a task, and the block that sets
them for the code under it.
-/

namespace Omkit.Tenant

open Lib

/-- The context variables `tenant_id` and `request_id`. -/
structure Context where
  tenantId : Option PyStr
  requestId : Option PyStr
deriving DecidableEq

/-- Code of one task: it reads and sets the variables of its own context, and it may raise. -/
abbrev InContext (ε α : Type) := ExceptT ε (StateM Context) α

/-- `bind`: the tokens of the two `set` calls hold the values that the variables had before. -/
def bind {ε α : Type} (tenantId : PyStr) (requestId : Option PyStr) (body : InContext ε α) :
    InContext ε α := fun tokens =>
  let (result, _) := body ⟨some tenantId, requestId⟩
  -- the `finally` branch, whether the body has returned or raised
  (result, tokens)

end Omkit.Tenant
