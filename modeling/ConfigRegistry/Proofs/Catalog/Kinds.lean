/-
# The descriptor of a broker

The two schemas of a broker have different names, so their registration succeeds.  Here stands the
descriptor that comes of it, and a few entries and calls on which statements about stores can be
tried out.
-/
import ConfigRegistry.Proofs.SortedMap
import ConfigRegistry.Proofs.Store.Run
import ConfigRegistry.Catalog.Kinds

namespace ConfigRegistry.Broker

/-- The descriptor of a broker, with its indexes written out. -/
def known : Descriptor where
  schemas := [serviceClassSchema, servicePlanSchema]
  byType := ((∅ : SortedMap String Nat).insert serviceClassType 0).insert servicePlanType 1
  byMessage :=
    ((∅ : SortedMap String Nat).insert Kind.serviceClass.messageName 0).insert
      Kind.servicePlan.messageName 1

theorem descriptor_eq_known : descriptor = .ok known := by
  simp [descriptor, Descriptor.ofSchemas, Descriptor.register, Descriptor.empty, Descriptor.size,
    SortedMap.contains, SortedMap.find?_insert, serviceClassSchema, servicePlanSchema,
    serviceClassType, servicePlanType, Schema.messageName, PayloadType.messageName,
    Kind.messageName, bind, Except.bind, pure, Except.pure, known]

@[simp] lemma schemaOfType?_serviceClassType :
    known.schemaOfType? serviceClassType = some serviceClassSchema := by
  simp [Descriptor.schemaOfType?, known, SortedMap.find?_insert, serviceClassType,
    servicePlanType]

@[simp] lemma schemaOfType?_servicePlanType :
    known.schemaOfType? servicePlanType = some servicePlanSchema := by
  simp [Descriptor.schemaOfType?, known, SortedMap.find?_insert]

/-- A class in a namespace, with a name to be shown, as it would be submitted under a revision. -/
def classEntry (space name shown revision : String) : Entry where
  metadata := { typeName := serviceClassType, name, space, revision }
  payload := ⟨.serviceClass, { entry := some { name := shown } }⟩

/-- A plan in a namespace, with a name to be shown, that is offered for classes of some names. -/
def planEntry (space name shown : String) (services : List String) (revision : String) : Entry where
  metadata := { typeName := servicePlanType, name, space, revision }
  payload := ⟨.servicePlan, { plan := some { name := shown }, services }⟩

end ConfigRegistry.Broker
