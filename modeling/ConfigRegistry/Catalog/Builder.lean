/-
# Building the catalog

The catalog has a service for each service class, with the plans that are offered for a class of
its name.  Services, and the plans of a service, are in ascending order of their store keys.
-/
import ConfigRegistry.Catalog.Offer
import ConfigRegistry.Catalog.View

namespace ConfigRegistry.View

variable {σ : Type} [ConfigStore σ]

/-- The service of a class. -/
def service (v : View σ) (c : ServiceClass) : Except StoreError OfferedService := do
  let plans ← v.plansOf c.name
  return .ofClass c (plans.values.map OfferedPlan.ofPlan)

/-- The catalog. -/
def catalog (v : View σ) : Except StoreError Catalog := do
  let classes ← v.serviceClasses
  return { services := ← classes.values.mapM v.service }

end ConfigRegistry.View
