/-
# Payloads

The payload of an object is a record of one of a few kinds.  Two kinds make up the catalog of a
service broker: service classes, and the plans offered for them.  Two further kinds are samples
for trying out a registry: a list of pairs under a key, and a switch.  All of them are strict: no
field is unknown and none is given twice.
-/
import ConfigRegistry.Shape.Basic

namespace ConfigRegistry

/-- A field for a text that is left out when it is empty. -/
def Presence.text : Presence String := .omittedWhen String.isEmpty ""

/-- A field that is left out when it has no value.  A value that is empty itself stays. -/
def Presence.optional {α : Type} : Presence (Option α) := .omittedWhen Option.isNone none

/-- A field for a list that is left out when it has no items. -/
def Presence.items {α : Type} : Presence (List α) := .omittedWhen List.isEmpty []

/-- The identity that classes and plans show to users of the platform. -/
structure CatalogEntry where
  /-- The name by which plans refer to a class. -/
  name : String := ""
  id : String := ""
  description : String := ""
deriving DecidableEq, Repr

/-- The layout of catalog entries. -/
def CatalogEntry.shape : Shape CatalogEntry :=
  .via
    (.record "CatalogEntry" true <|
      .cons "name" .text .text <| .cons "id" .text .text <| .cons "description" .text .text .nil)
    (fun (name, id, description, ()) => ⟨name, id, description⟩)
    (fun e => (e.name, e.id, e.description, ()))
    fun _ => rfl

/-- Where a service class is deployed. -/
structure Deployment where
  target : String := ""
deriving DecidableEq, Repr

/-- The layout of deployments. -/
def Deployment.shape : Shape Deployment :=
  .via (.record "Deployment" true <| .cons "instance" .text .text .nil)
    (fun (target, ()) => ⟨target⟩) (fun d => (d.target, ())) fun _ => rfl

/-- A service offered through the broker. -/
structure ServiceClass where
  deployment : Option Deployment := none
  entry : Option CatalogEntry := none
deriving DecidableEq, Repr

namespace ServiceClass

/-- The layout of service classes. -/
def shape : Shape ServiceClass :=
  .via
    (.record "ServiceClass" true <|
      .cons "deployment" .optional (.option Deployment.shape) <|
      .cons "entry" .optional (.option CatalogEntry.shape) .nil)
    (fun (deployment, entry, ()) => ⟨deployment, entry⟩)
    (fun c => (c.deployment, c.entry, ()))
    fun _ => rfl

/-- The name that plans are matched against; a class without an entry has the empty name. -/
def name (c : ServiceClass) : String := (c.entry.map CatalogEntry.name).getD ""

end ServiceClass

/-- A plan offered for one or more service classes. -/
structure ServicePlan where
  plan : Option CatalogEntry := none
  /-- The names of the classes that the plan is offered for. -/
  services : List String := []
deriving DecidableEq, Repr

namespace ServicePlan

/-- The layout of service plans. -/
def shape : Shape ServicePlan :=
  .via
    (.record "ServicePlan" true <|
      .cons "plan" .optional (.option CatalogEntry.shape) <|
      .cons "services" .items (.list .text) .nil)
    (fun (plan, services, ()) => ⟨plan, services⟩)
    (fun p => (p.plan, p.services, ()))
    fun _ => rfl

/-- Whether the plan is offered for the classes of a name. -/
def appliesTo (p : ServicePlan) (service : String) : Bool := p.services.contains service

end ServicePlan

/-- A key and a value. -/
structure ConfigPair where
  key : String := ""
  value : String := ""
deriving DecidableEq, Repr

/-- The layout of pairs. -/
def ConfigPair.shape : Shape ConfigPair :=
  .via (.record "ConfigPair" true <| .cons "key" .text .text <| .cons "value" .text .text .nil)
    (fun (key, value, ()) => ⟨key, value⟩) (fun p => (p.key, p.value, ())) fun _ => rfl

/-- A sample kind: pairs under a key. -/
structure PairsConfig where
  key : String := ""
  pairs : List ConfigPair := []
deriving DecidableEq, Repr

/-- The layout of the sample kind of pairs. -/
def PairsConfig.shape : Shape PairsConfig :=
  .via
    (.record "MockConfig" true <|
      .cons "key" .text .text <| .cons "pairs" .items (.list ConfigPair.shape) .nil)
    (fun (key, pairs, ()) => ⟨key, pairs⟩)
    (fun c => (c.key, c.pairs, ()))
    fun _ => rfl

/-- A sample kind: a switch, which is always written. -/
structure SwitchConfig where
  enabled : Bool := false
deriving DecidableEq, Repr

/-- The layout of the sample kind of switches. -/
def SwitchConfig.shape : Shape SwitchConfig :=
  .via (.record "OtherConfig" true <| .cons "enabled" (.withDefault false) .flag .nil)
    (fun (enabled, ()) => ⟨enabled⟩) (fun c => (c.enabled, ())) fun _ => rfl

/-- The kinds of payloads. -/
inductive Kind where
  | serviceClass
  | servicePlan
  | pairs
  | switch
deriving DecidableEq, Repr

namespace Kind

/-- The payloads of a kind. -/
abbrev Body : Kind → Type
  | serviceClass => ServiceClass
  | servicePlan => ServicePlan
  | pairs => PairsConfig
  | switch => SwitchConfig

instance (k : Kind) : DecidableEq k.Body :=
  match k with
  | serviceClass => inferInstanceAs (DecidableEq ServiceClass)
  | servicePlan => inferInstanceAs (DecidableEq ServicePlan)
  | pairs => inferInstanceAs (DecidableEq PairsConfig)
  | switch => inferInstanceAs (DecidableEq SwitchConfig)

/-- The full name of the messages of a kind. -/
def messageName : Kind → String
  | serviceClass => "istio.broker.v1.config.ServiceClass"
  | servicePlan => "istio.broker.v1.config.ServicePlan"
  | pairs => "test.MockConfig"
  | switch => "test.OtherConfig"

/-- All kinds. -/
def all : List Kind := [serviceClass, servicePlan, pairs, switch]

/-- The kind of a message name. -/
def ofMessageName? (name : String) : Option Kind := all.find? (·.messageName == name)

/-- The layout of the payloads of a kind. -/
def shape : (k : Kind) → Shape k.Body
  | serviceClass => ServiceClass.shape
  | servicePlan => ServicePlan.shape
  | pairs => PairsConfig.shape
  | switch => SwitchConfig.shape

/-- The payload of a kind in which nothing is given. -/
def blank : (k : Kind) → k.Body
  | serviceClass => ({} : ServiceClass)
  | servicePlan => ({} : ServicePlan)
  | pairs => ({} : PairsConfig)
  | switch => ({} : SwitchConfig)

end Kind

/-- A payload together with its kind. -/
structure Message where
  kind : Kind
  body : kind.Body

namespace Message

/-- The full name of the message. -/
def name (m : Message) : String := m.kind.messageName

/-- The message of a kind in which nothing is given. -/
def blank (k : Kind) : Message := ⟨k, k.blank⟩

/-- The payload, if it is of the given kind. -/
def as? (m : Message) (k : Kind) : Option k.Body :=
  if h : m.kind = k then some (h ▸ m.body) else none

theorem as?_eq_some_iff {m : Message} {k : Kind} {body : k.Body} :
    m.as? k = some body ↔ m = ⟨k, body⟩ := by
  obtain ⟨l, b⟩ := m
  rw [as?]
  by_cases h : l = k
  · subst h
    simp
  · simp [h]

theorem as?_eq_none_iff {m : Message} {k : Kind} : m.as? k = none ↔ m.kind ≠ k := by
  rw [as?]
  by_cases h : m.kind = k
  · simp [h]
  · simp [h]

/-- Messages of different kinds are never equal, whatever their payloads. -/
instance : DecidableEq Message := fun a b =>
  match a, b with
  | ⟨k, x⟩, ⟨l, y⟩ =>
    if h : k = l then
      if h' : h ▸ x = y then .isTrue (by subst h; subst h'; rfl)
      else .isFalse fun e => h' (by cases e; rfl)
    else .isFalse fun e => h (by cases e; rfl)

end Message

end ConfigRegistry
