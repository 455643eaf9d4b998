/-
# The trees that a broker reads

Which generic trees are payloads of service classes and of service plans can be told without a
reader.  Both are objects with few keys; under a key stands an array of strings, or `null`, or a
record of strings, which in turn is an object with few keys or an array that has the fields in
their order.  The first part of this file says so by tests that can be run, and gives the payload
that a tree stands for.  The schemas read just the trees that pass the tests, each as that payload
(`Broker.schemas_readExactly`).

A tree is read by way of its text, and a record member by member.  The first step makes no
difference (`Shape.ofText_render_iff`), and of the second one it is enough to know what the fields
have in the end (`Fields.Gathers`).
-/
import ConfigRegistry.Proofs.Catalog.Kinds
import ConfigRegistry.Proofs.Model.Agreement
import ConfigRegistry.Proofs.Shape.Members
import ConfigRegistry.Proofs.Shape.Recognition

namespace ConfigRegistry

/-! ## Strings, and records of strings -/

namespace Json

/-- Whether the tree is a string. -/
def isText : Json → Bool
  | string _ => true
  | _ => false

/-- The string that the tree is. -/
def textValue : Json → String
  | string a => a
  | _ => ""

/-- Whether the tree is an array of strings. -/
def isTexts : Json → Bool
  | array items => items.all isText
  | _ => false

/-- The strings of the array that the tree is. -/
def textValues : Json → List String
  | array items => items.map textValue
  | _ => []

/-- Whether the tree is an object that has no other keys than these, each at most once, and under
each of them what passes its test. -/
def isObject (allowed : List (String × (Json → Bool))) : Json → Bool
  | object members =>
    decide (members.map Prod.fst).Nodup &&
      members.all fun m => (allowed.lookup m.1).any fun test => test m.2
  | _ => false

/-- Whether the tree is an object that has no other keys than these, each at most once, with
strings under them; or an array of strings, at most as many as there are keys. -/
def isTextRecord (names : List String) : Json → Bool
  | array items => decide (items.length ≤ names.length) && items.all isText
  | j => j.isObject (names.map fun name => (name, isText))

/-- What the tree has under names: an object under its keys, and an array under the names given, in
their order. -/
def members (names : List String) : Json → List (String × Json)
  | object members => members
  | array items => names.zip items
  | _ => []

/-- The value that a tree stands for, or none if the tree is `null`. -/
def unlessNull {α : Type} (value : Json → α) (j : Json) : Option α :=
  if j.isNull then none else some (value j)

end Json

/-! ## Classes and plans -/

namespace Broker

/-- The fields of the entry of a class or plan. -/
def entryNames : List String := ["name", "id", "description"]

/-- The fields of a deployment. -/
def deploymentNames : List String := ["instance"]

/-- Whether a tree may stand where there may be an entry. -/
def isEntry (j : Json) : Bool := j.isNull || j.isTextRecord entryNames

/-- Whether a tree may stand where there may be a deployment. -/
def isDeployment (j : Json) : Bool := j.isNull || j.isTextRecord deploymentNames

/-- Whether a tree is a service class. -/
def isServiceClass (j : Json) : Bool :=
  j.isNull || j.isObject [("deployment", isDeployment), ("entry", isEntry)]

/-- Whether a tree is a service plan. -/
def isServicePlan (j : Json) : Bool :=
  j.isNull || j.isObject [("plan", isEntry), ("services", Json.isTexts)]

/-- The entry that a tree stands for; fields that are missing are empty. -/
def entryOf (j : Json) : CatalogEntry where
  name := ((j.members entryNames).lookup "name").elim "" Json.textValue
  id := ((j.members entryNames).lookup "id").elim "" Json.textValue
  description := ((j.members entryNames).lookup "description").elim "" Json.textValue

/-- The deployment that a tree stands for. -/
def deploymentOf (j : Json) : Deployment where
  target := ((j.members deploymentNames).lookup "instance").elim "" Json.textValue

/-- The service class that a tree stands for. -/
def serviceClassOf (j : Json) : ServiceClass where
  deployment := ((j.members []).lookup "deployment").elim none (Json.unlessNull deploymentOf)
  entry := ((j.members []).lookup "entry").elim none (Json.unlessNull entryOf)

/-- The service plan that a tree stands for. -/
def servicePlanOf (j : Json) : ServicePlan where
  plan := ((j.members []).lookup "plan").elim none (Json.unlessNull entryOf)
  services := ((j.members []).lookup "services").elim [] Json.textValues

end Broker

/-! ## Shapes that a test decides -/

/-- The shape reads the trees that pass the test, each as its value, and no others. -/
def Shape.Decides {α : Type} (shape : Shape α) (test : Json → Bool) (value : Json → α) : Prop :=
  ∀ j a, shape.ofTree j = .ok a ↔ test j = true ∧ a = value j

/-- The fields have what passes the tests of their names, each as its value, and nothing else. -/
structure Fields.Decides {β σ : Type} (fields : Fields β σ)
    (allowed : List (String × (Json → Bool))) (values : (String → Option Json) → β) : Prop where
  names_eq : fields.names = allowed.map Prod.fst
  gathers_iff : ∀ look b, fields.Gathers look b ↔
    (∀ p ∈ allowed, ∀ j, look p.1 = some j → p.2 j = true) ∧ b = values look

namespace Shape

variable {α : Type}

lemma decides_text : Shape.text.Decides Json.isText Json.textValue := by
  intro j a
  rw [ofTree_text_iff]
  cases j <;> simp [Json.isText, Json.textValue, eq_comm]

lemma decides_texts : (Shape.list .text).Decides Json.isTexts Json.textValues := by
  intro j l
  rw [ofTree_list_iff]
  cases j with
  | array items =>
    have hitems : List.Forall₂ (fun j a => Shape.text.ofTree j = .ok a) items l ↔
        items.all Json.isText = true ∧ l = items.map Json.textValue := by
      induction items generalizing l with
      | nil => simp
      | cons j items ih =>
        rw [List.forall₂_cons_left_iff]
        constructor
        · rintro ⟨a, l, ha, hl, rfl⟩
          obtain ⟨htest, rfl⟩ := (decides_text j a).mp ha
          obtain ⟨htests, rfl⟩ := (ih l).mp hl
          simp [htest, htests]
        · rintro ⟨htests, rfl⟩
          obtain ⟨htest, htests⟩ := Bool.and_eq_true_iff.mp htests
          exact ⟨_, _, (decides_text j _).mpr ⟨htest, rfl⟩, (ih _).mpr ⟨htests, rfl⟩, rfl⟩
    simpa [Json.isTexts, Json.textValues] using hitems
  | _ => simp [Json.isTexts]

lemma Decides.option {content : Shape α} {test : Json → Bool} {value : Json → α}
    (h : content.Decides test value) :
    (Shape.option content).Decides (fun j => j.isNull || test j) (Json.unlessNull value) := by
  intro j o
  rw [ofTree_option_iff]
  cases j with
  | null => simp [Json.isNull, Json.unlessNull]
  | _ =>
    simp only [h _ _]
    simp [Json.isNull, Json.unlessNull]

lemma Decides.via {β : Type} {content : Shape β} {test : Json → Bool} {value : Json → β}
    (h : content.Decides test value) {pack : β → α} {unpack : α → β}
    (hpack : ∀ a, pack (unpack a) = a) :
    (Shape.via content pack unpack hpack).Decides test fun j => pack (value j) := by
  intro j a
  rw [ofTree_via_iff]
  constructor
  · rintro ⟨b, hb, rfl⟩
    obtain ⟨htest, rfl⟩ := (h j b).mp hb
    exact ⟨htest, rfl⟩
  · rintro ⟨htest, rfl⟩
    exact ⟨value j, (h j _).mpr ⟨htest, rfl⟩, rfl⟩

end Shape

namespace Json

/-- An object is one of these exactly if what stands under each key passes its test. -/
lemma isObject_object_iff {allowed : List (String × (Json → Bool))}
    (hallowed : (allowed.map Prod.fst).Nodup) {members : List (String × Json)} :
    (object members).isObject allowed = true ↔
      (members.map Prod.fst).Nodup ∧ (∀ m ∈ members, m.1 ∈ allowed.map Prod.fst) ∧
        ∀ p ∈ allowed, ∀ j, members.lookup p.1 = some j → p.2 j = true := by
  rw [isObject, Bool.and_eq_true, decide_eq_true_eq, List.all_eq_true]
  refine and_congr_right fun hkeys => ?_
  simp only [Option.any_eq_true, SortedMap.lookup_eq_some_iff_mem hkeys,
    SortedMap.lookup_eq_some_iff_mem hallowed]
  constructor
  · intro h
    constructor
    · intro m hm
      obtain ⟨test, htest, -⟩ := h m hm
      exact List.mem_map_of_mem htest
    · rintro ⟨k, test⟩ hp j hj
      obtain ⟨test', htest, hpass⟩ := h (k, j) hj
      -- a key has one test only
      cases List.inj_on_of_nodup_map hallowed hp htest rfl
      exact hpass
  · rintro ⟨hknown, hpass⟩ m hm
    obtain ⟨p, hp, hkey⟩ := List.mem_map.mp (hknown m hm)
    exact ⟨p.2, hkey ▸ hp, hpass p hp m.2 (hkey ▸ hm)⟩

end Json

namespace Fields

variable {α β σ : Type}

lemma decides_nil : Fields.nil.Decides [] fun _ => () := ⟨rfl, by simp [Gathers]⟩

lemma Decides.cons {content : Shape α} {more : Fields β σ} {test : Json → Bool}
    {value : Json → α} {a : α} {allowed : List (String × (Json → Bool))}
    {values : (String → Option Json) → β} (hmore : more.Decides allowed values) (name : String)
    (presence : Presence α) (hcontent : content.Decides test value)
    (hfallback : presence.fallback = some a) :
    (Fields.cons name presence content more).Decides ((name, test) :: allowed)
      fun look => ((look name).elim a value, values look) := by
  refine ⟨by rw [names, hmore.names_eq, List.map_cons], ?_⟩
  rintro look ⟨a', b⟩
  rw [Gathers, hmore.gathers_iff, List.forall_mem_cons, Prod.mk.injEq]
  cases hlook : look name with
  | some j =>
    simp only [hcontent j a', Option.some.injEq, forall_eq', Option.elim_some]
    tauto
  | none =>
    simp only [hfallback, Option.some.injEq, Option.elim_none, reduceCtorEq, false_imp_iff,
      implies_true, true_and, eq_comm (a := a)]
    tauto

variable {fields : Fields β σ} {values : (String → Option Json) → β}

/-- An object is read as a strict record exactly if it passes the tests. -/
lemma Decides.ofTree_object_iff {allowed : List (String × (Json → Bool))}
    (h : fields.Decides allowed values) (hallowed : (allowed.map Prod.fst).Nodup)
    {name : String} {members : List (String × Json)} {b : β} :
    (Shape.record name true fields).ofTree (.object members) = .ok b ↔
      (Json.object members).isObject allowed = true ∧ b = values fun k => members.lookup k := by
  have hnames : fields.names.Nodup := h.names_eq ▸ hallowed
  rw [Shape.ofTree_strict_object_iff hnames, h.gathers_iff, h.names_eq,
    Json.isObject_object_iff hallowed]
  tauto

/-- So is one whose values are packed as those of another type. -/
lemma Decides.ofTree_via_object_iff {allowed : List (String × (Json → Bool))}
    (h : fields.Decides allowed values) (hallowed : (allowed.map Prod.fst).Nodup)
    {name : String} {pack : β → α} {unpack : α → β} {hpack : ∀ a, pack (unpack a) = a}
    {members : List (String × Json)} {a : α} :
    (Shape.via (.record name true fields) pack unpack hpack).ofTree (.object members) = .ok a ↔
      (Json.object members).isObject allowed = true ∧
        a = pack (values fun k => members.lookup k) := by
  rw [Shape.ofTree_via_iff]
  constructor
  · rintro ⟨b, hb, rfl⟩
    obtain ⟨htest, rfl⟩ := (h.ofTree_object_iff hallowed).mp hb
    exact ⟨htest, rfl⟩
  · rintro ⟨htest, rfl⟩
    exact ⟨_, (h.ofTree_object_iff hallowed).mpr ⟨htest, rfl⟩, rfl⟩

/-- A strict record of strings is read from objects and arrays of strings. -/
lemma Decides.textRecord (names : List String)
    (h : fields.Decides (names.map fun name => (name, Json.isText)) values)
    (hnames : names.Nodup) (name : String) :
    (Shape.record name true fields).Decides (Json.isTextRecord names)
      fun j => values fun k => (j.members names).lookup k := by
  have hkeys : (names.map fun name => (name, Json.isText)).map Prod.fst = names := by
    simp [Function.comp_def]
  have hfields : fields.names = names := h.names_eq.trans hkeys
  intro j b
  cases j with
  | object members => exact h.ofTree_object_iff (hkeys.symm ▸ hnames)
  | array items =>
    rw [Shape.ofTree_array_iff (hfields.symm ▸ hnames), h.gathers_iff, hfields]
    simp only [Json.isTextRecord, Json.members, Bool.and_eq_true, decide_eq_true_eq,
      List.all_eq_true, List.forall_mem_map]
    constructor
    · rintro ⟨hlength, htexts, rfl⟩
      exact ⟨⟨hlength, (Json.forall_lookup_zip_iff hnames hlength).mp htexts⟩, rfl⟩
    · rintro ⟨⟨hlength, htexts⟩, rfl⟩
      exact ⟨hlength, (Json.forall_lookup_zip_iff hnames hlength).mpr htexts, rfl⟩
  | _ => simp [Shape.ofTree, Json.isTextRecord, Json.isObject]

end Fields

/-! ## The layouts of classes and plans -/

lemma CatalogEntry.decides_shape :
    CatalogEntry.shape.Decides (Json.isTextRecord Broker.entryNames) Broker.entryOf := by
  have hfields := Fields.decides_nil
    |>.cons "description" .text Shape.decides_text rfl
    |>.cons "id" .text Shape.decides_text rfl
    |>.cons "name" .text Shape.decides_text rfl
  exact (Fields.Decides.textRecord Broker.entryNames hfields (by decide) _).via _

lemma Deployment.decides_shape :
    Deployment.shape.Decides (Json.isTextRecord Broker.deploymentNames) Broker.deploymentOf := by
  have hfields := Fields.decides_nil
    |>.cons "instance" .text Shape.decides_text rfl
  exact (Fields.Decides.textRecord Broker.deploymentNames hfields (by decide) _).via _

lemma ServiceClass.ofTree_object_iff {members : List (String × Json)} {c : ServiceClass} :
    ServiceClass.shape.ofTree (.object members) = .ok c ↔
      (Json.object members).isObject
          [("deployment", Broker.isDeployment), ("entry", Broker.isEntry)] = true ∧
        c = Broker.serviceClassOf (.object members) := by
  have hfields := Fields.decides_nil
    |>.cons "entry" .optional CatalogEntry.decides_shape.option rfl
    |>.cons "deployment" .optional Deployment.decides_shape.option rfl
  exact hfields.ofTree_via_object_iff (by decide)

lemma ServicePlan.ofTree_object_iff {members : List (String × Json)} {p : ServicePlan} :
    ServicePlan.shape.ofTree (.object members) = .ok p ↔
      (Json.object members).isObject
          [("plan", Broker.isEntry), ("services", Json.isTexts)] = true ∧
        p = Broker.servicePlanOf (.object members) := by
  have hfields := Fields.decides_nil
    |>.cons "services" .items Shape.decides_texts rfl
    |>.cons "plan" .optional CatalogEntry.decides_shape.option rfl
  exact hfields.ofTree_via_object_iff (by decide)

/-! ## Schemas -/

namespace Schema

/-- The schema reads the trees that pass the test, each as its value; any other tree it refuses as
one that cannot be decoded. -/
structure ReadsExactly (s : Schema) (test : Json → Bool) (value : Json → Message) : Prop where
  ofTree_eq_ok_iff : ∀ j m, s.ofTree j = .ok m ↔ test j = true ∧ m = value j
  decoding_of_error : ∀ j fault, s.ofTree j = .error fault → ∃ cause, fault = .decoding cause

variable {s : Schema} {k : Kind}

/-- A schema whose payloads are records with certain keys reads these records, and `null` as the
one without members. -/
lemma readsExactly_of_object (hs : s.payloadType = .known k)
    {allowed : List (String × (Json → Bool))} {value : Json → k.Body}
    (hobject : ∀ members body, k.shape.ofTree (.object members) = .ok body ↔
      (Json.object members).isObject allowed = true ∧ body = value (.object members))
    (hnull : value .null = value (.object [])) :
    s.ReadsExactly (fun j => j.isNull || j.isObject allowed) fun j => ⟨k, value j⟩ := by
  constructor
  case ofTree_eq_ok_iff =>
    intro j m
    cases j with
    | null =>
      rw [ofTree, ofText_render_eq_ok_iff hs]
      simp only [hobject]
      simp [Json.isNull, Json.isObject, hnull]
    | object members =>
      rw [ofTree, ofText_render_eq_ok_iff hs]
      simp only [hobject]
      simp [Json.isNull]
    | _ => simp [ofTree, Json.isNull, Json.isObject]
  case decoding_of_error =>
    intro j fault h
    cases j with
    | null => exact decoding_of_ofText hs h
    | object members => exact decoding_of_ofText hs h
    | _ => exact ⟨_, (Except.error.inj h).symm⟩

end Schema

/-- **A broker reads just the trees of its grammar, and fails closed.**  Of all trees, the schema of
service classes reads those that are service classes, each as the class that it stands for, and the
schema of service plans those that are service plans.  Every other tree is refused with the one
error that says so. -/
theorem Broker.schemas_readExactly :
    serviceClassSchema.ReadsExactly isServiceClass (fun j => ⟨.serviceClass, serviceClassOf j⟩) ∧
      servicePlanSchema.ReadsExactly isServicePlan fun j => ⟨.servicePlan, servicePlanOf j⟩ :=
  ⟨Schema.readsExactly_of_object rfl (fun _ _ => ServiceClass.ofTree_object_iff) rfl,
    Schema.readsExactly_of_object rfl (fun _ _ => ServicePlan.ofTree_object_iff) rfl⟩

/-- The fields of an entry may come in an array, and those at its end may be missing. -/
example :
    let j : Json := .object [("entry", .array [.string "db", .string "7"]), ("deployment", .null)]
    Broker.isServiceClass j = true ∧
      Broker.serviceClassOf j = { entry := some { name := "db", id := "7" } } := by
  decide

/-- A key that is not known is refused, at whatever depth, and so is `null` in place of a list. -/
example :
    Broker.isServiceClass (.object [("entry", .object [("title", .string "db")])]) = false ∧
      Broker.isServicePlan (.object [("services", .null)]) = false := by
  decide

end ConfigRegistry
