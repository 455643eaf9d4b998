/-
# Views of a store

A broker sees a store as maps from store keys to payloads of one kind.  Entries whose payload is
of another kind are left out, and of entries with the same key the last one listed counts.  A
store may fail to list a type; what the view does then is up to its settings.
-/
import ConfigRegistry.Catalog.Kinds
import ConfigRegistry.Store.Basic

namespace ConfigRegistry

/-- What a view does when a store fails to list a type. -/
inductive ListErrorPolicy where
  /-- It is empty. -/
  | suppress
  /-- It fails, too. -/
  | propagate
deriving DecidableEq, Repr

namespace ListErrorPolicy

/-- The names of the policies. -/
def names : List String := ["suppress", "propagate"]

/-- The place of a policy among the names. -/
def index : ListErrorPolicy → Fin names.length
  | suppress => ⟨0, by decide⟩
  | propagate => ⟨1, by decide⟩

/-- The policy at a place. -/
def ofIndex (i : Fin names.length) : ListErrorPolicy := if i.val == 0 then suppress else propagate

/-- The name of a policy. -/
def name (p : ListErrorPolicy) : String := names.get p.index

/-- The layout of policies. -/
def shape : Shape ListErrorPolicy :=
  .via (.choice names) ofIndex index fun p => by cases p <;> rfl

end ListErrorPolicy

/-- The settings of a view. -/
structure ViewConfig where
  listErrors : ListErrorPolicy := .suppress
deriving DecidableEq, Repr

namespace ViewConfig

/-- The layout of settings; all of them may be left out when they are read. -/
def shape : Shape ViewConfig :=
  .via
    (.record "ViewConfig" false <|
      .cons "list_errors" (.withDefault .suppress) ListErrorPolicy.shape .nil)
    (fun (listErrors, ()) => ⟨listErrors⟩) (fun c => (c.listErrors, ())) fun _ => rfl

end ViewConfig

/-- A store as a broker sees it. -/
structure View (σ : Type) where
  store : σ
  config : ViewConfig := {}

namespace View

variable {σ : Type} [ConfigStore σ]

/-- The entries of a type, or what the settings have in their place. -/
def entries (v : View σ) (typeName : String) : Except StoreError (List Entry) :=
  match ConfigStore.list v.store typeName "", v.config.listErrors with
  | .ok entries, _ => .ok entries
  | .error _, .suppress => .ok []
  | .error e, .propagate => .error e

/-- The payloads of a kind among entries, by store key. -/
def payloads (k : Kind) (entries : List Entry) : SortedMap String k.Body :=
  .ofList (entries.filterMap fun e => (e.payload.as? k).map fun body => (e.key, body))

/-- All service classes by store key. -/
def serviceClasses (v : View σ) : Except StoreError (SortedMap String ServiceClass) :=
  payloads .serviceClass <$> v.entries Broker.serviceClassType

/-- All service plans by store key. -/
def servicePlans (v : View σ) : Except StoreError (SortedMap String ServicePlan) :=
  payloads .servicePlan <$> v.entries Broker.servicePlanType

/-- The service plans that are offered for a service, by store key. -/
def plansOf (v : View σ) (service : String) : Except StoreError (SortedMap String ServicePlan) :=
  (·.filter fun _ p => p.appliesTo service) <$> v.servicePlans

end View

end ConfigRegistry
