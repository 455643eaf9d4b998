/-
# Registration of schemas

A descriptor comes of schemas that are registered one after another.  With each of them the list
grows, and with the list both indexes, which lead from each name to the place of the schema that
bears it (`Indexes`).  So a schema is refused exactly if one before it has its type name or its
message name, and a look-up by way of an index finds what a search through the list would find.

The main statement, `Descriptor.ofSchemas_registers`, puts this together: which lists of schemas are
registered, which error the others end with, and what a descriptor answers.
-/
import ConfigRegistry.Proofs.SortedMap
import ConfigRegistry.Proofs.Steps
import ConfigRegistry.Model.Descriptor

namespace ConfigRegistry

/-! ## Indexes -/

/-- An index leads from each name to the place of the first schema that bears it. -/
def Indexes (index : SortedMap String Nat) (name : Schema → String) (schemas : List Schema) :
    Prop :=
  ∀ n, index.find? n = schemas.findIdx? (name · == n)

section Indexes

variable {index : SortedMap String Nat} {name : Schema → String} {schemas : List Schema}
  {s : Schema} {n : String}

lemma indexes_nil (name : Schema → String) : Indexes ∅ name [] := fun _ => rfl

lemma Indexes.contains_iff (h : Indexes index name schemas) :
    index.contains n = true ↔ n ∈ schemas.map name := by
  rw [SortedMap.contains, h n, List.findIdx?_isSome, List.any_eq_true, List.mem_map]
  simp only [beq_iff_eq]

/-- A name that is new is led to the end of the list. -/
lemma Indexes.concat (h : Indexes index name schemas) (hnew : name s ∉ schemas.map name) :
    Indexes (index.insert (name s) schemas.length) name (schemas ++ [s]) := by
  intro n
  rw [SortedMap.find?_insert, List.findIdx?_append, h n]
  split
  · next hn =>
    subst hn
    have hnone : schemas.findIdx? (name · == name s) = none := by
      rw [List.findIdx?_eq_none_iff]
      exact fun s' hs' => beq_eq_false_iff_ne.mpr fun heq =>
        hnew (heq ▸ List.mem_map_of_mem hs')
    simp [hnone]
  · next hn =>
    have hother : [s].findIdx? (name · == n) = none := by simp [Ne.symm hn]
    rw [hother, Option.map_none, Option.or_none]

lemma Indexes.lt_length (h : Indexes index name schemas) {i : ℕ} (hi : index.find? n = some i) :
    i < schemas.length := by
  rw [h n] at hi
  exact (List.findIdx?_eq_some_iff_findIdx_eq.mp hi).1

/-- The schema at the place of a name is the one that a search through the list finds. -/
lemma Indexes.bind_getElem? (h : Indexes index name schemas) (n : String) :
    ((index.find? n).bind fun i => schemas[i]?) = schemas.find? (name · == n) := by
  rw [h n, List.find?_eq_bind_findIdx?_getElem?]

/-- Among different names, a search finds the schema whose name it is. -/
lemma find?_name_of_mem (hnodup : (schemas.map name).Nodup) (hs : s ∈ schemas) :
    schemas.find? (name · == name s) = some s := by
  induction schemas with
  | nil => exact absurd hs List.not_mem_nil
  | cons s' schemas ih =>
    obtain ⟨hnew, hnodup⟩ := List.nodup_cons.mp hnodup
    rcases List.mem_cons.mp hs with rfl | hs
    · exact List.find?_cons_of_pos (beq_self_eq_true _)
    · have hne : name s' ≠ name s := fun heq => hnew (heq ▸ List.mem_map_of_mem hs)
      rw [List.find?_cons_of_neg (by simpa using hne), ih hnodup hs]

end Indexes

namespace Descriptor

/-! ## Names that are taken -/

/-- No two of the schemas have one type name, and no two have one message name. -/
structure Distinct (schemas : List Schema) : Prop where
  types : (schemas.map Schema.typeName).Nodup
  messages : (schemas.map Schema.messageName).Nodup

/-- What stands against a schema behind others: that its type name is taken, or else that its
message name is. -/
def clash? (earlier : List Schema) (s : Schema) : Option ModelError :=
  if s.typeName ∈ earlier.map Schema.typeName then some (.duplicateType s.typeName)
  else if s.messageName ∈ earlier.map Schema.messageName then some (.duplicateMessage s.messageName)
  else none

/-- The error of the first schema that has a name of an earlier one. -/
def FirstClash (schemas : List Schema) (e : ModelError) : Prop :=
  ∃ earlier s later, schemas = earlier ++ s :: later ∧ Distinct earlier ∧ clash? earlier s = some e

section Clashes

variable {schemas earlier : List Schema} {s : Schema} {e : ModelError}

lemma distinct_nil : Distinct [] := ⟨List.nodup_nil, List.nodup_nil⟩

lemma clash?_eq_none_iff : clash? earlier s = none ↔
    s.typeName ∉ earlier.map Schema.typeName ∧ s.messageName ∉ earlier.map Schema.messageName := by
  rw [clash?]
  split
  · next htype => simp [htype]
  · next htype =>
    split
    · next hmessage => simp [hmessage]
    · next hmessage => simp [htype, hmessage]

lemma distinct_concat_iff :
    Distinct (schemas ++ [s]) ↔ Distinct schemas ∧ clash? schemas s = none := by
  have hname : ∀ name : Schema → String, ((schemas ++ [s]).map name).Nodup ↔
      (schemas.map name).Nodup ∧ name s ∉ schemas.map name := by
    intro name
    rw [List.map_append, List.map_cons, List.map_nil, ← List.concat_eq_append,
      List.nodup_concat, and_comm]
  rw [clash?_eq_none_iff]
  constructor
  · rintro ⟨types, messages⟩
    obtain ⟨htypes, hs⟩ := (hname _).mp types
    obtain ⟨hmessages, hs'⟩ := (hname _).mp messages
    exact ⟨⟨htypes, hmessages⟩, hs, hs'⟩
  · rintro ⟨⟨htypes, hmessages⟩, hs, hs'⟩
    exact ⟨(hname _).mpr ⟨htypes, hs⟩, (hname _).mpr ⟨hmessages, hs'⟩⟩

lemma Distinct.of_append {more : List Schema} (h : Distinct (schemas ++ more)) :
    Distinct schemas := by
  obtain ⟨types, messages⟩ := h
  rw [List.map_append] at types messages
  exact ⟨types.of_append_left, messages.of_append_left⟩

/-- Where a schema has a name of an earlier one, the names are not distinct. -/
lemma FirstClash.not_distinct (h : FirstClash schemas e) : ¬Distinct schemas := by
  obtain ⟨earlier, s, later, rfl, -, hclash⟩ := h
  intro hdistinct
  rw [List.append_cons] at hdistinct
  have hnone := (distinct_concat_iff.mp hdistinct.of_append).2
  rw [hclash] at hnone
  cases hnone

/-- More schemas behind the first one that clashes make no difference. -/
lemma FirstClash.append (h : FirstClash schemas e) (more : List Schema) :
    FirstClash (schemas ++ more) e := by
  obtain ⟨earlier, s, later, rfl, hdistinct, hclash⟩ := h
  exact ⟨earlier, s, later ++ more, by simp, hdistinct, hclash⟩

end Clashes

/-! ## Registration -/

/-- What a descriptor of schemas answers. -/
structure Registers (d : Descriptor) (schemas : List Schema) : Prop where
  /-- The schemas, their number and their types are given in the order of registration. -/
  schemas_eq : d.schemas = schemas
  size_eq : d.size = schemas.length
  types_eq : d.types = schemas.map Schema.typeName
  /-- Look-ups find what a search through the schemas would find. -/
  schemaOfType?_eq : ∀ n, d.schemaOfType? n = schemas.find? (·.typeName == n)
  schemaOfMessage?_eq : ∀ n, d.schemaOfMessage? n = schemas.find? (·.messageName == n)
  /-- Either name of a schema leads to that schema. -/
  lookups_of_mem : ∀ s ∈ schemas,
    d.schemaOfType? s.typeName = some s ∧ d.schemaOfMessage? s.messageName = some s
  /-- The indexes lead to no place beyond the last schema. -/
  inRange : ∀ n i, d.byType.find? n = some i ∨ d.byMessage.find? n = some i → i < d.schemas.length

/-- Both indexes of a descriptor fit its schemas. -/
structure Indexed (d : Descriptor) : Prop where
  byType : Indexes d.byType Schema.typeName d.schemas
  byMessage : Indexes d.byMessage Schema.messageName d.schemas

section Registration

variable {d : Descriptor} {schemas : List Schema} {s : Schema} {e : ModelError}

lemma indexed_empty : empty.Indexed := ⟨indexes_nil _, indexes_nil _⟩

/-- A schema is refused if a name of it is taken. -/
lemma Indexed.register_of_clash (h : d.Indexed) (hclash : clash? d.schemas s = some e) :
    d.register s = .error e := by
  simp only [clash?, ← h.byType.contains_iff, ← h.byMessage.contains_iff] at hclash
  rw [register]
  split at hclash
  · next htype => rw [if_pos htype, Option.some.inj hclash]
  · next htype =>
    split at hclash
    · next hmessage => rw [if_neg htype, if_pos hmessage, Option.some.inj hclash]
    · cases hclash

/-- A schema with new names comes behind the others, and the indexes go along. -/
lemma Indexed.register_of_free (h : d.Indexed) (hfree : clash? d.schemas s = none) :
    ∃ d', d.register s = .ok d' ∧ d'.schemas = d.schemas ++ [s] ∧ d'.Indexed := by
  obtain ⟨htype, hmessage⟩ := clash?_eq_none_iff.mp hfree
  have hnotType := mt h.byType.contains_iff.mp htype
  have hnotMessage := mt h.byMessage.contains_iff.mp hmessage
  refine ⟨⟨d.schemas ++ [s], d.byType.insert s.typeName d.size,
    d.byMessage.insert s.messageName d.size⟩, ?_, rfl, h.byType.concat htype,
    h.byMessage.concat hmessage⟩
  rw [register, if_neg hnotType, if_neg hnotMessage]

lemma ofSchemas_concat (schemas : List Schema) (s : Schema) :
    ofSchemas (schemas ++ [s]) = ofSchemas schemas >>= fun d => d.register s := by
  rw [ofSchemas, List.foldlM_append]
  refine congrArg _ (funext fun d => ?_)
  rw [List.foldlM_cons]
  cases d.register s <;> rfl

/-- Schemas are registered one by one until one of them clashes. -/
lemma ofSchemas_cases (schemas : List Schema) :
    (Distinct schemas ∧ ∃ d, ofSchemas schemas = .ok d ∧ d.schemas = schemas ∧ d.Indexed) ∨
      ∃ e, FirstClash schemas e ∧ ofSchemas schemas = .error e := by
  induction schemas using List.reverseRecOn with
  | nil => exact .inl ⟨distinct_nil, empty, rfl, rfl, indexed_empty⟩
  | append_singleton schemas s ih =>
    rw [ofSchemas_concat]
    rcases ih with ⟨hdistinct, d, hd, rfl, hindexed⟩ | ⟨e, hclash, he⟩
    · rw [hd]
      cases hs : clash? d.schemas s with
      | none =>
        obtain ⟨d', hd', hschemas, hindexed'⟩ := hindexed.register_of_free hs
        exact .inl ⟨distinct_concat_iff.mpr ⟨hdistinct, hs⟩, d', hd', hschemas, hindexed'⟩
      | some e =>
        exact .inr ⟨e, ⟨d.schemas, s, [], rfl, hdistinct, hs⟩, hindexed.register_of_clash hs⟩
    · rw [he]
      exact .inr ⟨e, hclash.append [s], rfl⟩

/-- What comes behind the first schema that clashes is not looked at. -/
lemma FirstClash.ofSchemas_eq (h : FirstClash schemas e) : ofSchemas schemas = .error e := by
  obtain ⟨earlier, s, later, rfl, hdistinct, hclash⟩ := h
  rcases ofSchemas_cases earlier with ⟨-, d, hd, rfl, hindexed⟩ | ⟨e', hclash', -⟩
  · rw [ofSchemas, List.foldlM_append]
    change (ofSchemas d.schemas >>= _) = _
    rw [hd]
    change (s :: later).foldlM register d = _
    rw [List.foldlM_cons, hindexed.register_of_clash hclash]
    rfl
  · exact absurd hdistinct hclash'.not_distinct

lemma Indexed.registers (h : d.Indexed) (hdistinct : Distinct d.schemas) :
    d.Registers d.schemas where
  schemas_eq := rfl
  size_eq := rfl
  types_eq := rfl
  schemaOfType?_eq := h.byType.bind_getElem?
  schemaOfMessage?_eq := h.byMessage.bind_getElem?
  lookups_of_mem _ hs :=
    ⟨(h.byType.bind_getElem? _).trans (find?_name_of_mem hdistinct.types hs),
      (h.byMessage.bind_getElem? _).trans (find?_name_of_mem hdistinct.messages hs)⟩
  inRange _ _ hi := hi.elim h.byType.lt_length h.byMessage.lt_length

/-- **Registration keeps names apart, and look-ups go by the list.**  Schemas make up a descriptor
exactly if no two have one type name and no two have one message name.  Otherwise the error is that
of the first schema with a name of an earlier one, and it is about the type name if this is taken.
The descriptor has the schemas in their order and finds each by both of its names. -/
theorem ofSchemas_registers (schemas : List Schema) :
    ((∃ d, ofSchemas schemas = .ok d) ↔ Distinct schemas) ∧
      (∀ e, ofSchemas schemas = .error e ↔ FirstClash schemas e) ∧
      ∀ d, ofSchemas schemas = .ok d → d.Registers schemas := by
  rcases ofSchemas_cases schemas with ⟨hdistinct, d, hd, rfl, hindexed⟩ | ⟨e, hclash, he⟩
  · refine ⟨⟨fun _ => hdistinct, fun _ => ⟨d, hd⟩⟩, fun e => ⟨fun he => ?_, ?_⟩, fun d' hd' => ?_⟩
    · rw [hd] at he
      cases he
    · exact FirstClash.ofSchemas_eq
    · obtain rfl := Except.ok.inj (hd.symm.trans hd')
      exact hindexed.registers hdistinct
  · refine ⟨⟨fun ⟨d, hd⟩ => ?_, fun hdistinct => absurd hdistinct hclash.not_distinct⟩,
      fun e' => ⟨fun he' => ?_, FirstClash.ofSchemas_eq⟩, fun d hd => ?_⟩
    · rw [he] at hd
      cases hd
    · exact Except.error.inj (he.symm.trans he') ▸ hclash
    · rw [he] at hd
      cases hd

end Registration

end Descriptor

end ConfigRegistry
