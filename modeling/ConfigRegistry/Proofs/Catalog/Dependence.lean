/-
# What a catalog depends on

Two stores may have come to the same classes and plans in different ways, and they still bear the
traces of it: revisions, labels, annotations, the namespace of the control plane.  None of these
shows in a catalog.  A listing is in the order of the identities, so the entries with one key stand
in it in the same order whatever order they were written in, and the last of them is the same one.
What a view makes of a listing it makes of identities and payloads alone (`View.payloads_congr`).
-/
import ConfigRegistry.Proofs.Catalog.Views

namespace ConfigRegistry

/-- What a catalog can show of an entry. -/
def Entry.shownPart (e : Entry) : Identity × Message := (e.identity, e.payload)

namespace View

/-- The items of a view are made of the identities and the payloads that are listed. -/
lemma payloads_congr (k : Kind) {entries entries' : List Entry}
    (h : entries.map Entry.shownPart = entries'.map Entry.shownPart) :
    payloads k entries = payloads k entries' := by
  have hitems : ∀ entries : List Entry,
      payloads k entries = .ofList ((entries.map Entry.shownPart).filterMap fun x =>
        (x.2.as? k).map fun body => (x.1.key, body)) := by
    intro entries
    rw [List.filterMap_map]
    rfl
  rw [hitems, hitems, h]

variable {σ τ : Type} [ConfigStore σ] [ConfigStore τ] {v : View σ} {v' : View τ}

/-- The catalog is made of the two views. -/
lemma catalog_congr (hclasses : v.serviceClasses = v'.serviceClasses)
    (hplans : v.servicePlans = v'.servicePlans) : v.catalog = v'.catalog := by
  have hservice : v.service = v'.service := by
    funext c
    rw [service, service, plansOf, plansOf, hplans]
  rw [catalog, catalog, hclasses, hservice]

end View

section

variable {d : Descriptor} {capacity capacity' : ℕ} {calls calls' : List Call}

/-- If two stores hold the same payloads of a type, what they list of it can be told apart neither
by identities nor by payloads. -/
lemma MemoryStore.exists_list_of_payload_eq {typeName : String} {s : Schema}
    (hs : d.schemaOfType? typeName = some s)
    (h : ∀ i : Identity, i.typeName = typeName →
      ((operations.after (.withCapacity d capacity) calls).get? i).map Entry.payload =
        ((operations.after (.withCapacity d capacity') calls').get? i).map Entry.payload) :
    ∃ entries entries',
      (operations.after (.withCapacity d capacity) calls).list typeName "" = .ok entries ∧
        (operations.after (.withCapacity d capacity') calls').list typeName "" = .ok entries' ∧
        entries.map Entry.shownPart = entries'.map Entry.shownPart := by
  obtain ⟨entries, hlist, -⟩ := list_after_of_known d capacity calls hs ""
  obtain ⟨entries', hlist', -⟩ := list_after_of_known d capacity' calls' hs ""
  refine ⟨entries, entries', hlist, hlist', ?_⟩
  simp only [← find?_contents, contents_after_empty] at h
  have hmap := (Contents.sound_after calls).map_list_eq (Contents.sound_after calls') h ""
  rw [← list_after_empty d capacity, ← list_after_empty d capacity', hlist, hlist'] at hmap
  exact Except.ok.inj hmap

end

/-- **A catalog shows identities and payloads only.**  If two stores of the kinds of a broker hold
the same classes and plans, each with the same payload, then their catalogs can be had and are the
same: it makes no difference by which calls the stores have come to hold them, nor what the views
would do if a type could not be listed. -/
theorem catalog_eq_of_payload_eq {d : Descriptor} (hd : Broker.descriptor = .ok d)
    (capacity capacity' : ℕ) (calls calls' : List Call) (config config' : ViewConfig) :
    let store := MemoryStore.operations.after (.withCapacity d capacity) calls
    let store' := MemoryStore.operations.after (.withCapacity d capacity') calls'
    (∀ i, i.typeName = Broker.serviceClassType ∨ i.typeName = Broker.servicePlanType →
      (store.get? i).map Entry.payload = (store'.get? i).map Entry.payload) →
    ∃ catalog, View.catalog { store, config } = .ok catalog ∧
      View.catalog { store := store', config := config' } = .ok catalog := by
  intro store store' hpayload
  obtain rfl : Broker.known = d := Except.ok.inj (Broker.descriptor_eq_known.symm.trans hd)
  obtain ⟨classes, classes', hclasses, hclasses', hclassesEq⟩ :=
    MemoryStore.exists_list_of_payload_eq Broker.schemaOfType?_serviceClassType
      fun i hi => hpayload i (Or.inl hi)
  obtain ⟨plans, plans', hplans, hplans', hplansEq⟩ :=
    MemoryStore.exists_list_of_payload_eq Broker.schemaOfType?_servicePlanType
      fun i hi => hpayload i (Or.inr hi)
  set view : View MemoryStore := { store, config }
  set view' : View MemoryStore := { store := store', config := config' }
  have hc : view.serviceClasses = .ok (View.payloads .serviceClass classes) :=
    View.serviceClasses_of_list hclasses
  have hp : view.servicePlans = .ok (View.payloads .servicePlan plans) :=
    View.servicePlans_of_list hplans
  have hc' : view'.serviceClasses = .ok (View.payloads .serviceClass classes) := by
    rw [View.payloads_congr _ hclassesEq]
    exact View.serviceClasses_of_list hclasses'
  have hp' : view'.servicePlans = .ok (View.payloads .servicePlan plans) := by
    rw [View.payloads_congr _ hplansEq]
    exact View.servicePlans_of_list hplans'
  refine ⟨_, View.catalog_of_views hc hp, ?_⟩
  rw [View.catalog_congr (hc'.trans hc.symm) (hp'.trans hp.symm)]
  exact View.catalog_of_views hc hp

/-- Two classes with one key and a plan, each of them created once. -/
def Broker.straight : List Call :=
  Broker.joinedAlike ++ [.create "3" (Broker.planEntry "" "p" "small" ["second"] "")]

/-- A class with a label and a namespace of the control plane. -/
def Broker.labelled (space name shown : String) : Entry :=
  let e := Broker.classEntry space name shown ""
  { e with metadata := { e.metadata with
      controlSpace := "control", labels := .ofList [("tier", "gold")] } }

/-- The same classes and the same plan, in another order: the plan is another one at first, and
one of the classes is created, refused the second time, removed and created anew, with a label. -/
def Broker.roundabout : List Call :=
  [.create "1" (Broker.planEntry "" "p" "large" [] ""),
    .create "2" (Broker.classEntry "a/b" "c" "third" ""),
    .create "3" (Broker.classEntry "a/b" "c" "second" ""),
    .update "4" (Broker.planEntry "" "p" "small" ["second"] "1"),
    .delete ⟨Broker.serviceClassType, "a/b", "c"⟩,
    .create "5" (Broker.labelled "a/b" "c" "second"),
    .create "6" (Broker.classEntry "a" "b/c" "first" "")]

/-- The stores are different, and their catalogs are the same. -/
theorem catalog_roundabout :
    let store := MemoryStore.operations.after (.withCapacity Broker.known 1) Broker.straight
    let store' := MemoryStore.operations.after (.withCapacity Broker.known 1) Broker.roundabout
    store.contents ≠ store'.contents ∧
      (∀ i, i.typeName = Broker.serviceClassType ∨ i.typeName = Broker.servicePlanType →
        (store.get? i).map Entry.payload = (store'.get? i).map Entry.payload) ∧
      (View.catalog { store }).map
          (fun c => c.services.map fun s => (s.name, s.plans.map (·.name))) =
        .ok [("second", ["small"])] ∧
      ∃ catalog, View.catalog { store, config := ⟨.suppress⟩ } = .ok catalog ∧
        View.catalog { store := store', config := ⟨.propagate⟩ } = .ok catalog := by
  intro store store'
  have hpayloads : mapValues Entry.payload store.contents.toList =
      mapValues Entry.payload store'.contents.toList := by
    decide +kernel
  have hpayload : ∀ i, (store.get? i).map Entry.payload = (store'.get? i).map Entry.payload := by
    simpa only [MemoryStore.find?_contents] using
      SortedMap.mapValues_toList_eq_iff.mp hpayloads
  exact ⟨by decide +kernel, fun i _ => hpayload i, by decide +kernel,
    catalog_eq_of_payload_eq Broker.descriptor_eq_known 1 1 Broker.straight Broker.roundabout
      ⟨.suppress⟩ ⟨.propagate⟩ fun i _ => hpayload i⟩

end ConfigRegistry
