/-
# The catalog of services

What a broker tells a platform of its services: a catalog of services, each with its plans.  The
layout is that of the Open Service Broker catalog, in which every field is always given.
-/
import ConfigRegistry.Model.Payload

namespace ConfigRegistry

/-- A plan of a service in the catalog. -/
structure OfferedPlan where
  name : String := ""
  id : String := ""
  description : String := ""
  free : Bool := false
deriving DecidableEq, Repr

namespace OfferedPlan

/-- The layout of plans. -/
def shape : Shape OfferedPlan :=
  .via
    (.record "ServicePlan" false <|
      .cons "name" .required .text <| .cons "id" .required .text <|
      .cons "description" .required .text <| .cons "free" .required .flag .nil)
    (fun (name, id, description, free, ()) => ⟨name, id, description, free⟩)
    (fun p => (p.name, p.id, p.description, p.free, ()))
    fun _ => rfl

/-- The plan of a payload.  Every plan is free. -/
def ofPlan (p : ServicePlan) : OfferedPlan :=
  let e := p.plan.getD {}
  { name := e.name, id := e.id, description := e.description, free := true }

end OfferedPlan

/-- A service in the catalog. -/
structure OfferedService where
  name : String := ""
  id : String := ""
  description : String := ""
  bindable : Bool := false
  planUpdateable : Bool := false
  plans : List OfferedPlan := []
deriving DecidableEq, Repr

namespace OfferedService

/-- The layout of services. -/
def shape : Shape OfferedService :=
  .via
    (.record "Service" false <|
      .cons "name" .required .text <| .cons "id" .required .text <|
      .cons "description" .required .text <| .cons "bindable" .required .flag <|
      .cons "plan_updateable" .required .flag <|
      .cons "plans" .required (.list OfferedPlan.shape) .nil)
    (fun (name, id, description, bindable, planUpdateable, plans, ()) =>
      ⟨name, id, description, bindable, planUpdateable, plans⟩)
    (fun s => (s.name, s.id, s.description, s.bindable, s.planUpdateable, s.plans, ()))
    fun _ => rfl

/-- The service of a class with its plans.  Classes are bindable, and their plans are fixed. -/
def ofClass (c : ServiceClass) (plans : List OfferedPlan) : OfferedService :=
  let e := c.entry.getD {}
  { name := e.name, id := e.id, description := e.description, bindable := true,
    planUpdateable := false, plans }

end OfferedService

/-- A catalog of services. -/
structure Catalog where
  services : List OfferedService := []
deriving DecidableEq, Repr

namespace Catalog

/-- The layout of catalogs. -/
def shape : Shape Catalog :=
  .via
    (.record "Catalog" false <| .cons "services" .required (.list OfferedService.shape) .nil)
    (fun (services, ()) => ⟨services⟩) (fun c => (c.services, ())) fun _ => rfl

end Catalog

end ConfigRegistry
