/-
# When a type cannot be listed

A store may fail to list one of the types of a broker.  A view that suppresses this error shows
nothing of the type, and one that propagates it fails as well.  The first one differs from the
second one only where that fails (`Softens`): this is true of a list, and it stays true of whatever
is made of lists, so it is true of the views and of the catalog.

When the catalog fails is another matter.  Plans are listed for one class after the other, so that
a broker without classes never learns that it cannot list plans.
-/
import ConfigRegistry.Proofs.Catalog.Views
import ConfigRegistry.Store.Fixed

namespace ConfigRegistry

/-! ## Results that have been softened -/

/-- The lenient result is always a success, and it is that of the frank one if that succeeds. -/
structure Softens {ε α : Type} (frank lenient : Except ε α) : Prop where
  succeeds : ∃ a, lenient = .ok a
  keeps : ∀ a, frank = .ok a → lenient = .ok a

namespace Softens

variable {ε α β : Type} {x y : Except ε α}

lemma ok (a : α) : Softens (.ok a : Except ε α) (.ok a) := ⟨⟨a, rfl⟩, fun _ h => h⟩

lemma error (e : ε) (a : α) : Softens (.error e) (.ok a) := ⟨⟨a, rfl⟩, nofun⟩

lemma bind {f g : α → Except ε β} (h : Softens x y) (hfg : ∀ a, Softens (f a) (g a)) :
    Softens (x >>= f) (y >>= g) := by
  obtain ⟨a, rfl⟩ := h.succeeds
  refine ⟨(hfg a).succeeds, fun b hb => ?_⟩
  obtain ⟨a', hx, hf⟩ := bind_eq_ok_iff.mp hb
  -- the second steps start from the same value
  cases h.keeps a' hx
  exact (hfg a).keeps b hf

lemma map (h : Softens x y) (f : α → β) : Softens (f <$> x) (f <$> y) := by
  obtain ⟨a, rfl⟩ := h.succeeds
  refine ⟨⟨f a, rfl⟩, fun b hb => ?_⟩
  obtain ⟨a', hx, rfl⟩ := map_eq_ok_iff.mp hb
  cases h.keeps a' hx
  rfl

lemma mapM {f g : α → Except ε β} (hfg : ∀ a, Softens (f a) (g a)) (l : List α) :
    Softens (l.mapM f) (l.mapM g) := by
  induction l with
  | nil => exact ok []
  | cons a l ih =>
    rw [List.mapM_cons, List.mapM_cons]
    exact (hfg a).bind fun b => ih.bind fun bs => ok (b :: bs)

end Softens

namespace View

variable {σ : Type} [ConfigStore σ]

/-- The view of a store under a policy. -/
def under (s : σ) (policy : ListErrorPolicy) : View σ := ⟨s, ⟨policy⟩⟩

variable {s : σ} {v : View σ} {typeName : String} {e : StoreError}

/-! ## Views -/

lemma entries_under (s : σ) (policy : ListErrorPolicy) (typeName : String) :
    (under s policy).entries typeName =
      match ConfigStore.list s typeName "", policy with
      | .ok entries, _ => .ok entries
      | .error _, .suppress => .ok []
      | .error e, .propagate => .error e := rfl

lemma softens_entries (s : σ) (typeName : String) :
    Softens ((under s .propagate).entries typeName) ((under s .suppress).entries typeName) := by
  rw [entries_under, entries_under]
  cases ConfigStore.list s typeName "" with
  | ok entries => exact Softens.ok entries
  | error e => exact Softens.error e []

lemma softens_servicePlans (s : σ) :
    Softens (under s .propagate).servicePlans (under s .suppress).servicePlans :=
  (softens_entries s _).map _

lemma softens_plansOf (s : σ) (service : String) :
    Softens ((under s .propagate).plansOf service) ((under s .suppress).plansOf service) :=
  (softens_servicePlans s).map _

lemma softens_serviceClasses (s : σ) :
    Softens (under s .propagate).serviceClasses (under s .suppress).serviceClasses :=
  (softens_entries s _).map _

lemma softens_service (s : σ) (c : ServiceClass) :
    Softens ((under s .propagate).service c) ((under s .suppress).service c) :=
  (softens_plansOf s c.name).bind fun _ => Softens.ok _

lemma softens_catalog (s : σ) :
    Softens (under s .propagate).catalog (under s .suppress).catalog :=
  (softens_serviceClasses s).bind fun classes =>
    (Softens.mapM (softens_service s) classes.values).bind fun _ => Softens.ok _

/-! ## Lists that fail -/

/-- The payloads of a type that cannot be listed. -/
lemma payloads_of_list_error (k : Kind) (h : ConfigStore.list s typeName "" = .error e) :
    payloads k <$> (under s .propagate).entries typeName = .error e ∧
      payloads k <$> (under s .suppress).entries typeName = .ok ∅ := by
  rw [entries_under, entries_under, h]
  exact ⟨rfl, rfl⟩

/-- If no plans can be listed, the first class that asks for them makes the catalog fail. -/
lemma catalog_of_servicePlans_error {v : View σ} {classes : SortedMap String ServiceClass}
    (hc : v.serviceClasses = .ok classes) (hp : v.servicePlans = .error e) :
    v.catalog = if classes.isEmpty then .ok {} else .error e := by
  have hservice : ∀ c, v.service c = .error e := by
    intro c
    rw [service, plansOf, hp]
    rfl
  rw [catalog, hc, SortedMap.isEmpty]
  show (do return { services := ← classes.values.mapM v.service } : Except StoreError Catalog) = _
  rw [SortedMap.values]
  cases classes.toList with
  | nil => rfl
  | cons x more =>
    rw [List.map_cons, List.mapM_cons, hservice]
    rfl

/-- What the two policies make of a store. -/
structure ListErrors (s : σ) : Prop where
  serviceClasses :
    Softens (under s .propagate).serviceClasses (under s .suppress).serviceClasses
  servicePlans : Softens (under s .propagate).servicePlans (under s .suppress).servicePlans
  plansOf : ∀ service,
    Softens ((under s .propagate).plansOf service) ((under s .suppress).plansOf service)
  catalog : Softens (under s .propagate).catalog (under s .suppress).catalog
  /-- The catalog fails with the error of the list of classes, or with that of the list of plans if
  there is a class in the view that asks for them. -/
  catalog_eq_error_iff : ∀ e, (under s .propagate).catalog = .error e ↔
    ConfigStore.list s Broker.serviceClassType "" = .error e ∨
      (∃ classes, (under s .propagate).serviceClasses = .ok classes ∧ classes.isEmpty = false) ∧
        ConfigStore.list s Broker.servicePlanType "" = .error e
  /-- If classes cannot be listed, the catalog that suppresses this is empty. -/
  without_classes : ∀ e, ConfigStore.list s Broker.serviceClassType "" = .error e →
    (under s .suppress).catalog = .ok {}
  /-- If just plans cannot be listed, the catalog that suppresses this has a service for each class
  of the view, and these have no plans. -/
  without_plans : ∀ classes e, (under s .propagate).serviceClasses = .ok classes →
    ConfigStore.list s Broker.servicePlanType "" = .error e →
      (under s .suppress).catalog = .ok ⟨classes.values.map fun c => .ofClass c []⟩

end View

open View

/-- **A view that suppresses errors differs from one that propagates them only where that fails.**
This is so for whatever may be asked of a view, on any store, and the lists that fail tell when the
catalog fails, and what is in it if the error is suppressed. -/
theorem listErrors_of_store {σ : Type} [ConfigStore σ] (s : σ) : ListErrors s := by
  constructor
  case serviceClasses => exact softens_serviceClasses s
  case servicePlans => exact softens_servicePlans s
  case plansOf => exact softens_plansOf s
  case catalog => exact softens_catalog s
  case catalog_eq_error_iff =>
    intro e
    cases hclasses : ConfigStore.list s Broker.serviceClassType "" with
    | error e' =>
      have hfrank : (under s .propagate).serviceClasses = .error e' :=
        (payloads_of_list_error .serviceClass hclasses).1
      have hcatalog : (under s .propagate).catalog = .error e' := by
        rw [View.catalog, hfrank]
        rfl
      simp [hcatalog, hfrank]
    | ok classEntries =>
      have hc : (under s .propagate).serviceClasses = .ok (payloads .serviceClass classEntries) :=
        serviceClasses_of_list hclasses
      cases hplans : ConfigStore.list s Broker.servicePlanType "" with
      | error e' =>
        have hp : (under s .propagate).servicePlans = .error e' :=
          (payloads_of_list_error .servicePlan hplans).1
        rw [catalog_of_servicePlans_error hc hp]
        cases hempty : (payloads .serviceClass classEntries).isEmpty <;> simp [hc, hempty]
      | ok planEntries =>
        have hp : (under s .propagate).servicePlans = .ok (payloads .servicePlan planEntries) :=
          servicePlans_of_list hplans
        simp [catalog_of_views hc hp]
  case without_classes =>
    intro e hclasses
    have hc : (under s .suppress).serviceClasses = .ok ∅ :=
      (payloads_of_list_error .serviceClass hclasses).2
    obtain ⟨plans, hp⟩ := (softens_servicePlans s).succeeds
    exact catalog_of_views hc hp
  case without_plans =>
    intro classes e hc hplans
    have hp : (under s .suppress).servicePlans = .ok ∅ :=
      (payloads_of_list_error .servicePlan hplans).2
    exact catalog_of_views ((softens_serviceClasses s).keeps classes hc) hp

/-- A store of classes only: as long as it is empty nobody asks for plans. -/
example :
    let catalogAfter (calls : List Call) : Except ModelError (Option Catalog) := do
      let d ← Descriptor.ofSchemas [Broker.serviceClassSchema]
      let s := MemoryStore.operations.after (.withCapacity d 1) calls
      return (under s .propagate).catalog.toOption
    catalogAfter [] = .ok (some {}) ∧
      catalogAfter [.create "1" (Broker.classEntry "" "a" "first" "")] = .ok none := by
  decide +kernel

end ConfigRegistry
