/-
# What views lose

A store tells objects apart by type, namespace and name, and a view by their keys.  Entries of one
type whose keys are the same make one item of a view.  So a view shows each stored entry exactly
if no two identities among them share a key, that is, if no two of them differ only in which slash
of the key stands between namespace and name (`Identity.Shifted`).  Nothing keeps a store from
holding two such entries, and then the view, and the catalog with it, loses one.
-/
import ConfigRegistry.Catalog.Builder
import ConfigRegistry.Proofs.Catalog.Kinds
import ConfigRegistry.Proofs.Model.Key
import ConfigRegistry.Proofs.Steps
import ConfigRegistry.Proofs.Store.Refinement

namespace ConfigRegistry

/-- No two of the identities differ only in which slash stands between namespace and name. -/
def Unambiguous (entries : List Entry) : Prop :=
  ∀ a ∈ entries, ∀ b ∈ entries, ¬ a.identity.Shifted b.identity

lemma unambiguous_of_space {entries : List Entry}
    (h : ∀ e ∈ entries, '/' ∉ e.metadata.space.toList) : Unambiguous entries :=
  fun _ _ b hb => Identity.not_shifted_of_space (h b hb)

lemma unambiguous_of_name {entries : List Entry}
    (h : ∀ e ∈ entries, '/' ∉ e.metadata.name.toList) : Unambiguous entries :=
  fun a ha _ _ => Identity.not_shifted_of_name (h a ha)

/-- Among the entries of a type, keys come once exactly if the identities are unambiguous. -/
lemma Contents.Lists.nodup_keys_iff {m : Contents} {typeName space : String}
    {entries : List Entry} (h : m.Lists typeName space entries) :
    (entries.map Entry.key).Nodup ↔ Unambiguous entries := by
  have htype : ∀ {a b}, a ∈ entries → b ∈ entries → a.identity.typeName = b.identity.typeName :=
    fun ha hb => ((h.mem_iff _).mp ha).2.1.trans ((h.mem_iff _).mp hb).2.1.symm
  constructor
  · intro hnd a ha b hb hshift
    have hkey : a.key = b.key :=
      (Identity.key_eq_iff (htype ha hb)).mpr (Or.inr (Or.inl hshift))
    obtain rfl : a = b := List.inj_on_of_nodup_map hnd ha hb hkey
    exact Identity.not_shifted_self _ hshift
  · intro hun
    -- the entries come in ascending order, so no identity comes twice to begin with
    refine List.pairwise_map.mpr (List.Pairwise.imp_of_mem ?_ h.ascending)
    intro a b ha hb hlt hkey
    rcases (Identity.key_eq_iff (htype ha hb)).mp hkey with heq | hshift | hshift
    · simp [heq, Std.ReflCmp.compare_self] at hlt
    · exact hun a ha b hb hshift
    · exact hun b hb a ha hshift

namespace View

/-- The items show each of the entries: there are as many of them, and under the key of an entry
stands its own payload. -/
structure ShowsEach (k : Kind) (entries : List Entry) (items : SortedMap String k.Body) :
    Prop where
  size_eq : items.size = entries.length
  find?_key : ∀ e ∈ entries, ∃ body, e.payload = ⟨k, body⟩ ∧ items.find? e.key = some body

section Payloads

variable {k : Kind} {entries : List Entry}

lemma map_fst_keyed (h : ∀ e ∈ entries, e.payload.kind = k) :
    ((entries.filterMap fun e => (e.payload.as? k).map fun body => (e.key, body)).map Prod.fst) =
      entries.map Entry.key := by
  induction entries with
  | nil => rfl
  | cons e entries ih =>
    obtain ⟨metadata, ⟨l, body⟩⟩ := e
    obtain rfl : l = k := h ⟨metadata, ⟨l, body⟩⟩ (by simp)
    have has : Message.as? ⟨l, body⟩ l = some body := Message.as?_eq_some_iff.mpr rfl
    simp only [List.filterMap_cons, has, Option.map_some, List.map_cons]
    rw [ih fun e' he' => h e' (by simp [he'])]

/-- There are as many items as entries exactly if the keys are different. -/
lemma size_payloads_eq_iff (h : ∀ e ∈ entries, e.payload.kind = k) :
    (payloads k entries).size = entries.length ↔ (entries.map Entry.key).Nodup := by
  have hkeys := map_fst_keyed h
  have hlength := congrArg List.length hkeys
  rw [List.length_map, List.length_map] at hlength
  rw [← hkeys, ← SortedMap.size_ofList_eq_length_iff, hlength]
  rfl

/-- Entries of one kind are all shown exactly if their keys are different. -/
lemma showsEach_payloads_iff (h : ∀ e ∈ entries, e.payload.kind = k) :
    ShowsEach k entries (payloads k entries) ↔ (entries.map Entry.key).Nodup := by
  constructor
  · intro hs
    exact (size_payloads_eq_iff h).mp hs.size_eq
  · intro hnd
    -- no payload is of another kind, so each entry comes into the map under its key
    refine ⟨(size_payloads_eq_iff h).mpr hnd, ?_⟩
    rintro ⟨metadata, ⟨l, body⟩⟩ he
    obtain rfl : l = k := h _ he
    rw [← map_fst_keyed h] at hnd
    refine ⟨body, rfl, SortedMap.find?_ofList_of_mem hnd ?_⟩
    refine List.mem_filterMap.mpr ⟨_, he, ?_⟩
    rw [Message.as?_eq_some_iff.mpr rfl, Option.map_some]

end Payloads

section Listed

variable {σ : Type} [ConfigStore σ] {v : View σ}

lemma entries_of_list {typeName : String} {entries : List Entry}
    (h : ConfigStore.list v.store typeName "" = .ok entries) :
    v.entries typeName = .ok entries := by
  rw [View.entries, h]

lemma serviceClasses_of_list {entries : List Entry}
    (h : ConfigStore.list v.store Broker.serviceClassType "" = .ok entries) :
    v.serviceClasses = .ok (payloads .serviceClass entries) := by
  rw [View.serviceClasses, entries_of_list h]
  rfl

lemma servicePlans_of_list {entries : List Entry}
    (h : ConfigStore.list v.store Broker.servicePlanType "" = .ok entries) :
    v.servicePlans = .ok (payloads .servicePlan entries) := by
  rw [View.servicePlans, entries_of_list h]
  rfl

/-- If both types can be listed, the catalog has one service for each class of the view. -/
lemma catalog_of_views {classes : SortedMap String ServiceClass}
    {plans : SortedMap String ServicePlan} (hc : v.serviceClasses = .ok classes)
    (hp : v.servicePlans = .ok plans) :
    v.catalog = .ok ⟨classes.values.map fun c =>
      .ofClass c ((plans.filter fun _ p => p.appliesTo c.name).values.map OfferedPlan.ofPlan)⟩ := by
  -- no class fails: the plans it looks through are those that could be listed
  have hservice : ∀ c ∈ classes.values, v.service c = .ok (.ofClass c
      ((plans.filter fun _ p => p.appliesTo c.name).values.map OfferedPlan.ofPlan)) := by
    intro c _
    rw [service, plansOf, hp]
    rfl
  rw [catalog, hc]
  simp only [bind, Except.bind, mapM_eq_ok_map hservice]
  rfl

end Listed

end View

/-- Every entry that a store has come to hold of a type has a payload of the kind of that type. -/
lemma Contents.Lists.kind_eq {d : Descriptor} {calls : List Call} {typeName space : String}
    {entries : List Entry} {s : Schema} {k : Kind}
    (h : ((Contents.operations d).after ∅ calls).Lists typeName space entries)
    (hs : d.schemaOfType? typeName = some s) (hk : s.payloadType = .known k) :
    ∀ e ∈ entries, e.payload.kind = k := by
  intro e he
  obtain ⟨hfind, rfl, -⟩ := (h.mem_iff e).mp he
  exact ((Contents.sound_after calls).accepts hfind).kind_eq hs hk

/-- **When the views of a broker show everything.**  After any calls on a store of the kinds of a
broker, each of the two views can be had, and it shows every entry of its type with its own
payload exactly if the identities of these entries are unambiguous; the catalog has as many
services as there are classes in the store exactly if the identities of the classes are.  They are
as long as no namespace has a slash in it, or no name has. -/
theorem views_showEach_iff (capacity : ℕ) (calls : List Call) (config : ViewConfig) :
    ∃ d classEntries planEntries classes plans catalog,
      Broker.descriptor = .ok d ∧
      let store := MemoryStore.operations.after (.withCapacity d capacity) calls
      let view : View MemoryStore := { store, config }
      store.list Broker.serviceClassType "" = .ok classEntries ∧
      store.list Broker.servicePlanType "" = .ok planEntries ∧
      view.serviceClasses = .ok classes ∧ view.servicePlans = .ok plans ∧
      view.catalog = .ok catalog ∧
      (View.ShowsEach .serviceClass classEntries classes ↔ Unambiguous classEntries) ∧
      (View.ShowsEach .servicePlan planEntries plans ↔ Unambiguous planEntries) ∧
      (catalog.services.length = classEntries.length ↔ Unambiguous classEntries) ∧
      ∀ entries, entries = classEntries ∨ entries = planEntries →
        (∀ e ∈ entries, '/' ∉ e.metadata.space.toList) ∨
          (∀ e ∈ entries, '/' ∉ e.metadata.name.toList) → Unambiguous entries := by
  obtain ⟨classEntries, hclasses, hclassLists⟩ :=
    MemoryStore.list_after_of_known Broker.known capacity calls
      Broker.schemaOfType?_serviceClassType ""
  obtain ⟨planEntries, hplans, hplanLists⟩ :=
    MemoryStore.list_after_of_known Broker.known capacity calls
      Broker.schemaOfType?_servicePlanType ""
  have hclassKind := hclassLists.kind_eq Broker.schemaOfType?_serviceClassType rfl
  have hplanKind := hplanLists.kind_eq Broker.schemaOfType?_servicePlanType rfl
  set store := MemoryStore.operations.after (.withCapacity Broker.known capacity) calls
  set view : View MemoryStore := { store, config } with hview
  have hc : view.serviceClasses = .ok (View.payloads .serviceClass classEntries) :=
    View.serviceClasses_of_list hclasses
  have hp : view.servicePlans = .ok (View.payloads .servicePlan planEntries) :=
    View.servicePlans_of_list hplans
  refine ⟨Broker.known, classEntries, planEntries, _, _, _, Broker.descriptor_eq_known, hclasses,
    hplans, hc, hp, View.catalog_of_views hc hp, ?_, ?_, ?_, ?_⟩
  · rw [View.showsEach_payloads_iff hclassKind, hclassLists.nodup_keys_iff]
  · rw [View.showsEach_payloads_iff hplanKind, hplanLists.nodup_keys_iff]
  · rw [List.length_map, ← SortedMap.size_eq_length_values, View.size_payloads_eq_iff hclassKind,
      hclassLists.nodup_keys_iff]
  · rintro entries - (h | h)
    · exact unambiguous_of_space h
    · exact unambiguous_of_name h

/-- Two classes whose namespace and name are the same text once they are joined by a slash. -/
def Broker.joinedAlike : List Call :=
  [.create "1" (Broker.classEntry "a" "b/c" "first" ""),
    .create "2" (Broker.classEntry "a/b" "c" "second" "")]

/-- A store may hold two classes of which the view and the catalog show one only. -/
theorem view_of_joinedAlike :
    let store := MemoryStore.operations.after (.withCapacity Broker.known 1) Broker.joinedAlike
    let view : View MemoryStore := { store }
    (store.list Broker.serviceClassType "").map List.length = .ok 2 ∧
      view.serviceClasses.map SortedMap.size = .ok 1 ∧
      view.catalog.map (fun c => c.services.map OfferedService.name) = .ok ["second"] := by
  decide +kernel

end ConfigRegistry
