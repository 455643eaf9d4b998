/-
# The catalog as a join

What the catalog of a store is can be said without maps and without any order of work.  Of the
entries listed with one key the last one counts whose payload is of the right kind
(`Counts`).  The services are those of the classes that count, in ascending order of their keys; a
service has the plans that count and are offered for its name, in ascending order of theirs.  There
is just one catalog of which all this is true, and it is the one that is built
(`catalog_iff_isJoin`).

The items of a view may come in any arrangement, and in another one each time that the view is
asked.  As they are sorted by their keys before anything is made of them, the arrangement makes no
difference (`View.catalog_eq_of_arrangements`).
-/
import ConfigRegistry.Proofs.Catalog.Views
import ConfigRegistry.Store.Fixed

namespace ConfigRegistry

namespace View

/-! ## Which entries count -/

/-- The payload is that of the last of the entries which have this key and a payload of this
kind. -/
def Counts (k : Kind) (entries : List Entry) (key : String) (body : k.Body) : Prop :=
  ∃ before e after, entries = before ++ e :: after ∧ e.key = key ∧ e.payload = ⟨k, body⟩ ∧
    ∀ e' ∈ after, e'.key = key → e'.payload.kind ≠ k

section Counts

variable {k : Kind} {entries : List Entry} {e : Entry} {key : String} {body : k.Body}

/-- An entry that is listed last counts if it has the key and the kind, and makes no difference
otherwise. -/
lemma counts_concat_iff :
    Counts k (entries ++ [e]) key body ↔
      (e.key = key ∧ e.payload = ⟨k, body⟩) ∨
        (¬ (e.key = key ∧ e.payload.kind = k) ∧ Counts k entries key body) := by
  constructor
  · rintro ⟨before, e', after, hsplit, hkey, hpayload, hlast⟩
    rcases List.eq_nil_or_concat' after with rfl | ⟨after', last, rfl⟩
    · obtain ⟨-, rfl⟩ := List.append_inj' hsplit rfl |>.imp_right List.singleton_inj.mp
      exact Or.inl ⟨hkey, hpayload⟩
    · rw [← List.cons_append, ← List.append_assoc] at hsplit
      obtain ⟨rfl, rfl⟩ := List.append_inj' hsplit rfl |>.imp_right List.singleton_inj.mp
      refine Or.inr ⟨fun h => hlast e (by simp) h.1 h.2, before, e', after', rfl, hkey, hpayload,
        ?_⟩
      exact fun x hx => hlast x (by simp [hx])
  · rintro (⟨hkey, hpayload⟩ | ⟨hnot, before, e', after, rfl, hkey, hpayload, hlast⟩)
    · exact ⟨entries, e, [], rfl, hkey, hpayload, by simp⟩
    · refine ⟨before, e', after ++ [e], by simp, hkey, hpayload, fun x hx hxkey hxkind => ?_⟩
      rcases List.mem_append.mp hx with hx | hx
      · exact hlast x hx hxkey hxkind
      · rw [List.mem_singleton.mp hx] at hxkey hxkind
        exact hnot ⟨hxkey, hxkind⟩

lemma payloads_concat (k : Kind) (entries : List Entry) (e : Entry) :
    payloads k (entries ++ [e]) =
      (e.payload.as? k).elim (payloads k entries) ((payloads k entries).insert e.key) := by
  rw [payloads, List.filterMap_append, List.filterMap_cons]
  cases e.payload.as? k with
  | none => simp [payloads]
  | some body => exact SortedMap.ofList_append_singleton _ _ _

/-- A view shows the payloads that count, under their keys. -/
lemma find?_payloads_eq_some_iff :
    (payloads k entries).find? key = some body ↔ Counts k entries key body := by
  induction entries using List.reverseRecOn with
  | nil => simp [payloads, Counts]
  | append_singleton entries e ih =>
    rw [payloads_concat, counts_concat_iff, ← ih]
    cases has : e.payload.as? k with
    | none =>
      -- an entry of another kind neither counts nor hides anything
      have hkind : e.payload.kind ≠ k := Message.as?_eq_none_iff.mp has
      have hpayload : e.payload ≠ ⟨k, body⟩ := fun h => hkind (by rw [h])
      simp [hkind, hpayload]
    | some body' =>
      have hpayload : e.payload = ⟨k, body'⟩ := Message.as?_eq_some_iff.mp has
      rw [Option.elim_some, SortedMap.find?_insert]
      by_cases hkey : key = e.key
      · simp [hkey, hpayload]
      · simp [hkey, Ne.symm hkey]

end Counts

/-! ## What the catalog says of an entry -/

/-- The items are those for which something is true of key and value, in ascending order of the
keys. -/
structure Enumerates {α : Type} (P : String → α → Prop) (items : List (String × α)) : Prop where
  mem_iff : ∀ key a, (key, a) ∈ items ↔ P key a
  ascending : Ascending items

/-- If a map holds just what something is true of, its own list is the only one that enumerates
this. -/
lemma enumerates_iff {α : Type} {P : String → α → Prop} {m : SortedMap String α}
    (hm : ∀ key a, m.find? key = some a ↔ P key a) {items : List (String × α)} :
    Enumerates P items ↔ m.toList = items := by
  constructor
  · intro h
    have heq : m = ⟨items, h.ascending⟩ := by
      refine SortedMap.ext_find fun key => ?_
      ext a
      rw [hm, ← h.mem_iff, ← SortedMap.mem_toList_iff]
    rw [heq]
  · rintro rfl
    exact ⟨fun key a => by rw [SortedMap.mem_toList_iff, hm], m.ascending⟩

/-- Name, id and description are those of a catalog entry, and all are empty if there is none. -/
def Shows (entry : Option CatalogEntry) (name id description : String) : Prop :=
  match entry with
  | some e => name = e.name ∧ id = e.id ∧ description = e.description
  | none => name = "" ∧ id = "" ∧ description = ""

/-- The plan as it is offered. -/
structure Offers (p : ServicePlan) (o : OfferedPlan) : Prop where
  shows : Shows p.plan o.name o.id o.description
  free : o.free = true

/-- The service of a class: it shows the entry of the class, and has the plans that count and are
offered for its name, in ascending order of their keys. -/
structure Serves (planEntries : List Entry) (c : ServiceClass) (s : OfferedService) : Prop where
  shows : Shows c.entry s.name s.id s.description
  bindable : s.bindable = true
  planUpdateable : s.planUpdateable = false
  plans : ∃ plans : List (String × ServicePlan),
    Enumerates (fun key p => Counts .servicePlan planEntries key p ∧ s.name ∈ p.services) plans ∧
      List.Forall₂ (fun x o => Offers x.2 o) plans s.plans

/-- The catalog of the entries listed for classes and for plans: one service for each class that
counts, in ascending order of their keys. -/
def IsJoin (classEntries planEntries : List Entry) (catalog : Catalog) : Prop :=
  ∃ classes : List (String × ServiceClass),
    Enumerates (Counts .serviceClass classEntries) classes ∧
      List.Forall₂ (fun x s => Serves planEntries x.2 s) classes catalog.services

/-! ## There is one such catalog -/

/-- Lists that go together item by item along a function are the image of one another. -/
lemma forall₂_iff_map_eq {α β : Type} {R : α → β → Prop} {f : α → β}
    (h : ∀ a b, R a b ↔ f a = b) {l : List α} {l' : List β} :
    List.Forall₂ R l l' ↔ l.map f = l' := by
  rw [← List.forall₂_eq_eq_eq, List.forall₂_map_left_iff]
  exact ⟨.imp fun a b => (h a b).mp, .imp fun a b => (h a b).mpr⟩

/-- If a map holds just what something is true of, then what is made of this item by item, in
ascending order of the keys, is what is made of the values of the map. -/
lemma exists_enumerates_iff {α β : Type} {P : String → α → Prop} {m : SortedMap String α}
    (hm : ∀ key a, m.find? key = some a ↔ P key a) {R : α → β → Prop} {f : α → β}
    (hR : ∀ a b, R a b ↔ f a = b) {out : List β} :
    (∃ items, Enumerates P items ∧ List.Forall₂ (fun x b => R x.2 b) items out) ↔
      m.values.map f = out := by
  have hmap : ∀ items : List (String × α),
      List.Forall₂ (fun x b => R x.2 b) items out ↔ (items.map Prod.snd).map f = out := by
    intro items
    rw [List.map_map]
    exact forall₂_iff_map_eq fun x b => hR x.2 b
  constructor
  · rintro ⟨items, henumerates, hall⟩
    rw [SortedMap.values, (enumerates_iff hm).mp henumerates]
    exact (hmap items).mp hall
  · intro h
    exact ⟨m.toList, (enumerates_iff hm).mpr rfl, (hmap m.toList).mpr h⟩

/-- The plans that count and are offered for a name. -/
lemma find?_filter_appliesTo {planEntries : List Entry} {name key : String} {p : ServicePlan} :
    ((payloads .servicePlan planEntries).filter fun _ p => p.appliesTo name).find? key = some p ↔
      Counts .servicePlan planEntries key p ∧ name ∈ p.services := by
  rw [SortedMap.find?_filter, Option.filter_eq_some_iff, find?_payloads_eq_some_iff]
  simp [ServicePlan.appliesTo]

lemma shows_iff {entry : Option CatalogEntry} {name id description : String} :
    Shows entry name id description ↔
      (entry.getD {}).name = name ∧ (entry.getD {}).id = id ∧
        (entry.getD {}).description = description := by
  cases entry with
  | none => simp [Shows, eq_comm]
  | some e => simp [Shows, eq_comm]

lemma offers_iff {p : ServicePlan} {o : OfferedPlan} : Offers p o ↔ OfferedPlan.ofPlan p = o := by
  obtain ⟨name, id, description, free⟩ := o
  rw [OfferedPlan.ofPlan, OfferedPlan.mk.injEq]
  constructor
  · rintro ⟨hshows, hfree⟩
    obtain ⟨hname, hid, hdescription⟩ := shows_iff.mp hshows
    exact ⟨hname, hid, hdescription, hfree.symm⟩
  · rintro ⟨hname, hid, hdescription, hfree⟩
    exact ⟨shows_iff.mpr ⟨hname, hid, hdescription⟩, hfree.symm⟩

/-- The service that a view builds for a class, if these entries are listed for plans. -/
def serviceOf (planEntries : List Entry) (c : ServiceClass) : OfferedService :=
  .ofClass c (((payloads .servicePlan planEntries).filter fun _ p => p.appliesTo c.name).values.map
    OfferedPlan.ofPlan)

/-- The service that is built for a class is the one that it is to have. -/
lemma serves_iff {planEntries : List Entry} {c : ServiceClass} {s : OfferedService} :
    Serves planEntries c s ↔ serviceOf planEntries c = s := by
  -- the plans are offered for the name that the service shows, which is that of the class
  have hplans (offered : List OfferedPlan) :
      (∃ plans : List (String × ServicePlan),
        Enumerates (fun key p => Counts .servicePlan planEntries key p ∧
            (c.entry.getD {}).name ∈ p.services) plans ∧
          List.Forall₂ (fun x o => Offers x.2 o) plans offered) ↔
      ((payloads .servicePlan planEntries).filter
        fun _ p => p.appliesTo (c.entry.getD {}).name).values.map OfferedPlan.ofPlan = offered :=
    exists_enumerates_iff (R := Offers) (f := OfferedPlan.ofPlan)
      (fun key p => find?_filter_appliesTo) (fun p o => offers_iff)
  have hname : c.name = (c.entry.getD {}).name := by
    rw [ServiceClass.name]
    cases c.entry <;> rfl
  rw [serviceOf, hname]
  obtain ⟨name, id, description, bindable, planUpdateable, plans⟩ := s
  rw [OfferedService.ofClass, OfferedService.mk.injEq]
  constructor
  · rintro ⟨hshows, hbindable, hfixed, hoffered⟩
    obtain ⟨rfl, hid, hdescription⟩ := shows_iff.mp hshows
    exact ⟨rfl, hid, hdescription, hbindable.symm, hfixed.symm, (hplans plans).mp hoffered⟩
  · rintro ⟨rfl, hid, hdescription, hbindable, hfixed, hoffered⟩
    exact ⟨shows_iff.mpr ⟨rfl, hid, hdescription⟩, hbindable.symm, hfixed.symm,
      (hplans plans).mpr hoffered⟩

/-- The services that a view builds are those of the join. -/
lemma isJoin_iff {classEntries planEntries : List Entry} {services : List OfferedService} :
    IsJoin classEntries planEntries ⟨services⟩ ↔
      (payloads .serviceClass classEntries).values.map (serviceOf planEntries) = services := by
  have hclasses : ∀ (key : String) (c : ServiceClass),
      (payloads .serviceClass classEntries).find? key = some c ↔
        Counts .serviceClass classEntries key c := fun key c => find?_payloads_eq_some_iff
  have hserves : ∀ (c : ServiceClass) (s : OfferedService),
      Serves planEntries c s ↔ serviceOf planEntries c = s := fun c s => serves_iff
  exact exists_enumerates_iff hclasses hserves

/-! ## Arrangements -/

section Arrangements

variable {σ : Type} [ConfigStore σ]

/-- The service of a class is made of the plans in any arrangement, once they are sorted. -/
lemma service_eq_of_arrangement (v : View σ) (c : ServiceClass)
    {arrange : SortedMap String ServicePlan → List (String × ServicePlan)}
    (h : ∀ m, (arrange m).Perm m.toList) :
    v.service c = do
      let plans ← v.plansOf c.name
      return .ofClass c ((SortedMap.sortByKey (arrange plans)).map fun x => .ofPlan x.2) := by
  have hsort : ∀ plans : SortedMap String ServicePlan,
      (SortedMap.sortByKey (arrange plans)).map (fun x => OfferedPlan.ofPlan x.2) =
        plans.values.map OfferedPlan.ofPlan := by
    intro plans
    rw [SortedMap.sortByKey_of_perm (h plans), SortedMap.values, List.map_map]
    rfl
  simp only [hsort]
  rfl

/-- **The catalog does not depend on the arrangement of views.**  It is what comes of the classes in
any arrangement, sorted by their keys, if for each class the plans that are offered for it come in
any arrangement of theirs and are sorted, too; also if one of the views fails. -/
theorem catalog_eq_of_arrangements (v : View σ)
    {arrange : SortedMap String ServiceClass → List (String × ServiceClass)}
    {arrangePlans : ServiceClass → SortedMap String ServicePlan → List (String × ServicePlan)}
    (h : ∀ m, (arrange m).Perm m.toList) (hplans : ∀ c m, (arrangePlans c m).Perm m.toList) :
    v.catalog = do
      let classes ← v.serviceClasses
      let services ← (SortedMap.sortByKey (arrange classes)).mapM fun x => do
        let plans ← v.plansOf x.2.name
        return .ofClass x.2
          ((SortedMap.sortByKey (arrangePlans x.2 plans)).map fun y => .ofPlan y.2)
      return { services } := by
  have hservice : ∀ classes : SortedMap String ServiceClass,
      classes.values.mapM v.service =
        (SortedMap.sortByKey (arrange classes)).mapM fun x => v.service x.2 := by
    intro classes
    rw [SortedMap.sortByKey_of_perm (h classes), SortedMap.values, List.mapM_map]
    rfl
  rw [catalog]
  simp only [hservice, ← service_eq_of_arrangement v _ (hplans _)]

end Arrangements

end View

section

variable {σ : Type} [ConfigStore σ]

/-- **The catalog is the join of classes and plans.**  If a store lists both types, whatever it
lists, the catalog can be had, and it is the one catalog that has just the services of the classes
that count, each with just the plans that count and are offered for it. -/
theorem catalog_iff_isJoin (v : View σ) {classEntries planEntries : List Entry}
    (hclasses : ConfigStore.list v.store Broker.serviceClassType "" = .ok classEntries)
    (hplans : ConfigStore.list v.store Broker.servicePlanType "" = .ok planEntries) :
    ∃ catalog, v.catalog = .ok catalog ∧
      ∀ c, View.IsJoin classEntries planEntries c ↔ c = catalog := by
  have hc := View.serviceClasses_of_list hclasses
  have hp := View.servicePlans_of_list hplans
  refine ⟨_, View.catalog_of_views hc hp, fun c => ?_⟩
  obtain ⟨services⟩ := c
  rw [Catalog.mk.injEq, eq_comm (a := services)]
  exact View.isJoin_iff

end

/-- What somebody lists who does not look: two classes with one key, a class and a plan that bear
the payload of the other type, and plans that are offered for one name twice. -/
def Broker.unchecked : List Entry :=
  [Broker.classEntry "a" "z" "one" "",
    Broker.classEntry "a-b" "c" "two" "",
    Broker.classEntry "a" "z" "three" "",
    { Broker.classEntry "a" "z" "" "" with payload := .blank .servicePlan },
    Broker.planEntry "" "q" "large" ["two", "three"] "",
    Broker.planEntry "" "p" "small" ["three", "one", "three"] "",
    { Broker.planEntry "" "r" "" [] "" with payload := .blank .serviceClass }]

/-- The namespace `a` comes before `a-b`, but a key that begins with the one comes after those that
begin with the other. -/
theorem catalog_unchecked :
    let view : View FixedStore := { store := ⟨Broker.known, Broker.unchecked⟩ }
    let classEntries := Broker.unchecked.take 4
    let planEntries := Broker.unchecked.drop 4
    ConfigStore.list view.store Broker.serviceClassType "" = .ok classEntries ∧
      ConfigStore.list view.store Broker.servicePlanType "" = .ok planEntries ∧
      view.catalog.map (fun c => c.services.map fun s => (s.name, s.plans.map (·.name))) =
        .ok [("two", ["large"]), ("three", ["small", "large"])] ∧
      ∃ catalog, view.catalog = .ok catalog ∧
        ∀ c, View.IsJoin classEntries planEntries c ↔ c = catalog := by
  intro view classEntries planEntries
  have hclasses : ConfigStore.list view.store Broker.serviceClassType "" = .ok classEntries := by
    decide +kernel
  have hplans : ConfigStore.list view.store Broker.servicePlanType "" = .ok planEntries := by
    decide +kernel
  exact ⟨hclasses, hplans, by decide +kernel, catalog_iff_isJoin view hclasses hplans⟩

end ConfigRegistry
