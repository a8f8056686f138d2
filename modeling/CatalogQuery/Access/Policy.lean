/-!
# Access policy

Whether rows are filtered for every caller. Once filtering was asked for it stays.
-/

namespace CatalogQuery

structure AccessSettings where
  strict : Bool := false
  /-- Callers of this name are filtered under every policy. -/
  anonymousUser : String := "anonymous"
  /-- The zone of users named without one. -/
  localZone : String := "tempZone"
  deriving DecidableEq, Repr

structure Policy where
  strict : Bool := false
  deriving DecidableEq, Repr

/-- A request to relax a strict policy is passed over. -/
def Policy.configure (p : Policy) (strict : Bool) : Policy := ⟨p.strict || strict⟩

end CatalogQuery
