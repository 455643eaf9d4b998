/-
# The configuration types of a service broker

A broker knows two types, one for service classes and one for service plans.
-/
import ConfigRegistry.Model.Descriptor

namespace ConfigRegistry.Broker

/-- The type name of service classes. -/
def serviceClassType : String := "service-class"

/-- The type name of service plans. -/
def servicePlanType : String := "service-plan"

/-- The schema of service classes. -/
def serviceClassSchema : Schema :=
  { typeName := serviceClassType, plural := "service-classes", payloadType := .known .serviceClass }

/-- The schema of service plans. -/
def servicePlanSchema : Schema :=
  { typeName := servicePlanType, plural := "service-plans", payloadType := .known .servicePlan }

/-- The descriptor of a broker. -/
def descriptor : Except ModelError Descriptor :=
  Descriptor.ofSchemas [serviceClassSchema, servicePlanSchema]

end ConfigRegistry.Broker
