/-
# How far a file is loaded

A file is loaded document by document, and what has been created stays when a later document turns
out to be at fault.  So what a file does to a store is to create the objects of its first documents,
in their order, up to the first document that fails.  Whether a document fails can be told without
loading anything (`Loading.failureAt?`): it is no object, or its object is no entry, or the identity
of the entry is taken, be it in the store or by an earlier document of the file.

The store refuses nothing else.  An entry that has been read has been checked, so the check that the
store makes once more cannot fail.
-/
import ConfigRegistry.Proofs.Catalog.Kinds
import ConfigRegistry.Proofs.Store.Transfer
import ConfigRegistry.Server.Loading

namespace ConfigRegistry

/-! ## Creating entries one after another -/

namespace MemoryStore

/-- Whether the store holds an entry of an identity. -/
def taken (s : MemoryStore) (i : Identity) : Bool := (s.get? i).isSome

/-- Creates entries in their order, each under the next of some revisions, of which the first one
has a given number. -/
def createAll (s : MemoryStore) (revisions : Loading.Revisions) (first : ℕ) (entries : List Entry) :
    Except StoreError MemoryStore :=
  (entries.zipIdx first).foldlM (fun s x => (s.create (revisions x.2) x.1).changed) s

variable {s s' : MemoryStore} {revisions : Loading.Revisions} {first : ℕ}
  {entries more : List Entry} {e : Entry}

lemma createAll_cons (s : MemoryStore) (revisions : Loading.Revisions) (first : ℕ) (e : Entry)
    (entries : List Entry) :
    s.createAll revisions first (e :: entries) =
      (s.create (revisions first) e).changed >>= fun s' =>
        s'.createAll revisions (first + 1) entries := rfl

lemma createAll_append (s : MemoryStore) (revisions : Loading.Revisions) (first : ℕ)
    (entries more : List Entry) :
    s.createAll revisions first (entries ++ more) =
      s.createAll revisions first entries >>= fun s' =>
        s'.createAll revisions (first + entries.length) more := by
  rw [createAll, List.zipIdx_append, List.foldlM_append]
  rfl

/-- An entry that has been created was valid, and its place was free. -/
lemma create_eq_ok {revision : String} (h : (s.create revision e).changed = .ok s') :
    s.descriptor.Accepts e ∧ s.get? e.identity = none ∧
      s' = s.put .add (e.withRevision revision) := by
  rw [Mutated.changed_eq_ok_iff, create_unaudited] at h
  split at h
  · cases h
  · cases h
  · next schema hvalid hfree =>
    cases h
    exact ⟨⟨schema, hvalid⟩, hfree, rfl⟩

/-- A store has become another one by the creation of entries. -/
structure Extends (s s' : MemoryStore) (entries : List Entry) : Prop where
  descriptor_eq : s'.descriptor = s.descriptor
  /-- No two of the entries have one identity. -/
  distinct : (entries.map Entry.identity).Nodup
  /-- The identities have been free. -/
  free : ∀ e ∈ entries, s.get? e.identity = none
  /-- The entries are held, each under some revision. -/
  held : ∀ e ∈ entries, ∃ revision, s'.get? e.identity = some (e.withRevision revision)
  /-- Nothing else has changed. -/
  kept : ∀ i, i ∉ entries.map Entry.identity → s'.get? i = s.get? i

/-- What is free after entries have been created was free before, and is not one of theirs. -/
lemma Extends.get?_eq_none_iff (h : s.Extends s' entries) (i : Identity) :
    s'.get? i = none ↔ s.get? i = none ∧ i ∉ entries.map Entry.identity := by
  by_cases hi : i ∈ entries.map Entry.identity
  · obtain ⟨e, he, rfl⟩ := List.mem_map.mp hi
    obtain ⟨revision, hheld⟩ := h.held e he
    simp [hheld, hi]
  · rw [h.kept i hi]
    simp [hi]

/-- The identities that are taken after entries have been created are those that were taken before,
and theirs. -/
lemma Extends.taken_eq (h : s.Extends s' entries) :
    s'.taken = fun i => s.taken i || entries.any fun e => e.identity == i := by
  funext i
  rw [taken, taken, Bool.eq_iff_iff, Option.isSome_iff_ne_none, ne_eq, h.get?_eq_none_iff,
    not_and_or]
  simp [Option.isSome_iff_ne_none]

lemma extends_of_createAll (h : s.createAll revisions first entries = .ok s') :
    s.Extends s' entries := by
  induction entries generalizing s first with
  | nil =>
    cases h
    exact ⟨rfl, List.nodup_nil, by simp, by simp, fun _ _ => rfl⟩
  | cons e entries ih =>
    rw [createAll_cons] at h
    obtain ⟨s₁, hcreate, h⟩ := bind_eq_ok_iff.mp h
    obtain ⟨-, hfree, rfl⟩ := create_eq_ok hcreate
    have hrest := ih h
    have hget : ∀ i, (s.put .add (e.withRevision (revisions first))).get? i =
        if i = e.identity then some (e.withRevision (revisions first)) else s.get? i :=
      fun i => get?_put .add (e.withRevision (revisions first)) i
    have hnew : e.identity ∉ entries.map Entry.identity := by
      intro hmem
      obtain ⟨e', he', hidentity⟩ := List.mem_map.mp hmem
      have hnone := hrest.free e' he'
      rw [hget, if_pos hidentity] at hnone
      cases hnone
    constructor
    case descriptor_eq => exact hrest.descriptor_eq
    case distinct => exact List.nodup_cons.mpr ⟨hnew, hrest.distinct⟩
    case free =>
      intro e' he'
      rcases List.mem_cons.mp he' with rfl | he'
      · exact hfree
      · have hnone := hrest.free e' he'
        rw [hget] at hnone
        split at hnone
        · cases hnone
        · exact hnone
    case held =>
      intro e' he'
      rcases List.mem_cons.mp he' with rfl | he'
      · exact ⟨revisions first, by rw [hrest.kept _ hnew, hget, if_pos rfl]⟩
      · exact hrest.held e' he'
    case kept =>
      intro i hi
      rw [List.map_cons, List.mem_cons, not_or] at hi
      rw [hrest.kept i hi.2, hget, if_neg hi.1]

end MemoryStore

/-! ## What documents read as -/

namespace Loading

/-- What a document reads as: an object, or nothing if it is empty, or neither. -/
abbrev Reading : Type := Except Yaml.Fault (Option ConfigObject)

/-- Reads a document. -/
def reading (d : Except Yaml.Fault Yaml.Document) : Reading :=
  d >>= (Shape.option ConfigObject.shape).ofDocument

/-- What the documents of a text read as. -/
def readings (text : String) : List Reading := (Yaml.Document.allOfText text).map reading

/-- Whether there is something in the document. -/
def isFilled : Reading → Bool
  | .ok none => false
  | _ => true

/-- The entry that the document describes, if it describes one. -/
def entryOf? (d : Descriptor) : Reading → Option Entry
  | .ok (some o) => (d.ofObject o).outcome.toOption
  | _ => none

/-- The entries that documents describe, in their order. -/
def entriesOf (d : Descriptor) (rs : List Reading) : List Entry := rs.filterMap (entryOf? d)

lemma entriesOf_append (d : Descriptor) (rs more : List Reading) :
    entriesOf d (rs ++ more) = entriesOf d rs ++ entriesOf d more :=
  List.filterMap_append

lemma entriesOf_singleton (d : Descriptor) (r : Reading) :
    entriesOf d [r] = (entryOf? d r).toList := by
  cases h : entryOf? d r <;> simp [entriesOf, h]

/-- The error with which a document fails, where some identities are taken: it is no object, or the
object is no entry, or the identity of the entry is taken. -/
def failureOf? (d : Descriptor) (taken : Identity → Bool) (path : Path) (index : ℕ) :
    Reading → Option StartupError
  | .error fault => some (.document path index fault)
  | .ok none => none
  | .ok (some o) =>
    match (d.ofObject o).outcome with
    | .error error => some (.object path index error)
    | .ok e =>
      if taken e.identity then some (.store path e.key (.alreadyExists e.identity)) else none

/-- The error with which one of the documents fails that are to be loaded into a store.  Taken are
the identities in the store and those of the documents before it. -/
def failureAt? (s : MemoryStore) (path : Path) (rs : List Reading) (k : ℕ) : Option StartupError :=
  rs[k]?.bind <| failureOf? s.descriptor
    (fun i => s.taken i || (entriesOf s.descriptor (rs.take k)).any fun e => e.identity == i)
    path k

/-- Loading has come further by the creation of entries. -/
structure Adds (revisions : Revisions) (l : Loading MemoryStore) (entries : List Entry)
    (l' : Loading MemoryStore) : Prop where
  created_eq : l'.created = l.created + entries.length
  createAll_eq : l.store.createAll revisions l.created entries = .ok l'.store

variable {revisions : Revisions} {path : Path} {index : ℕ} {l l₁ l₂ : Loading MemoryStore}
  {d : Except Yaml.Fault Yaml.Document} {error : StartupError}

lemma Adds.refl (revisions : Revisions) (l : Loading MemoryStore) : Adds revisions l [] l :=
  ⟨rfl, rfl⟩

lemma Adds.trans {entries more : List Entry} (h : Adds revisions l entries l₁)
    (h' : Adds revisions l₁ more l₂) : Adds revisions l (entries ++ more) l₂ where
  created_eq := by rw [h'.created_eq, h.created_eq, List.length_append, Nat.add_assoc]
  createAll_eq := by
    rw [MemoryStore.createAll_append, h.createAll_eq, ← h.created_eq]
    exact h'.createAll_eq

lemma Adds.extends {entries : List Entry} (h : Adds revisions l entries l₁) :
    l.store.Extends l₁.store entries := MemoryStore.extends_of_createAll h.createAll_eq

/-! ## One document -/

lemma document_eq {σ : Type} [ConfigStore σ] (revisions : Revisions) (path : Path) (index : ℕ)
    (d : Except Yaml.Fault Yaml.Document) (l : Loading σ) :
    document revisions path index d l =
      match reading d with
      | .error e => l.stop (.document path index e)
      | .ok none => l
      | .ok (some o) => l.object revisions path index o := rfl

lemma object_of_invalid {o : ConfigObject} {fault : ModelError}
    (h : (l.store.descriptor.ofObject o).outcome = .error fault) :
    (l.object revisions path index o).failure = some (.object path index fault) ∧
      Adds revisions l [] (l.object revisions path index o) := by
  have hread : ((ConfigStore.descriptor l.store).ofObject o).outcome = .error fault := h
  simp only [object, hread]
  exact ⟨rfl, rfl, rfl⟩

lemma object_of_taken {o : ConfigObject} {e : Entry}
    (h : (l.store.descriptor.ofObject o).outcome = .ok e)
    (htaken : l.store.get? e.identity ≠ none) :
    (l.object revisions path index o).failure =
        some (.store path e.key (.alreadyExists e.identity)) ∧
      Adds revisions l [] (l.object revisions path index o) := by
  have hread : ((ConfigStore.descriptor l.store).ofObject o).outcome = .ok e := h
  have hcreate : (ConfigStore.create l.store (revisions l.created) e).unaudited =
      (.error (.alreadyExists e.identity), l.store) := by
    obtain ⟨schema, hvalid⟩ := Descriptor.accepts_of_ofObject h
    obtain ⟨current, hcurrent⟩ := Option.ne_none_iff_exists'.mp htaken
    show (l.store.create (revisions l.created) e).unaudited = _
    rw [MemoryStore.create_unaudited, hvalid, hcurrent]
  obtain ⟨houtcome, hstore⟩ := Prod.mk.inj hcreate
  simp only [object, hread, houtcome, hstore]
  exact ⟨rfl, rfl, rfl⟩

lemma object_of_free {o : ConfigObject} {e : Entry}
    (h : (l.store.descriptor.ofObject o).outcome = .ok e) (hfree : l.store.get? e.identity = none) :
    (l.object revisions path index o).failure = l.failure ∧
      Adds revisions l [e] (l.object revisions path index o) := by
  have hread : ((ConfigStore.descriptor l.store).ofObject o).outcome = .ok e := h
  have hcreate : (ConfigStore.create l.store (revisions l.created) e).unaudited =
      (.ok (), l.store.put .add (e.withRevision (revisions l.created))) :=
    MemoryStore.create_of_accepts (Descriptor.accepts_of_ofObject h) hfree _
  obtain ⟨houtcome, hstore⟩ := Prod.mk.inj hcreate
  simp only [object, hread, houtcome, hstore]
  refine ⟨trivial, rfl, ?_⟩
  rw [MemoryStore.createAll_cons]
  exact bind_eq_ok_iff.mpr ⟨_, Mutated.changed_eq_ok_iff.mpr hcreate, rfl⟩

/-- A document that fails ends the loading, and nothing is created. -/
lemma document_of_failureOf?_eq_some (revisions : Revisions)
    (h : failureOf? l.store.descriptor l.store.taken path index (reading d) =
      some error) :
    (document revisions path index d l).failure = some error ∧
      Adds revisions l [] (document revisions path index d l) := by
  rw [document_eq]
  match reading d, h with
  | .error fault, h =>
    cases h
    exact ⟨rfl, rfl, rfl⟩
  | .ok (some o), h =>
    simp only [failureOf?] at h
    split at h
    · next fault hread =>
      cases h
      exact object_of_invalid hread
    · next e hread =>
      split at h
      · next htaken =>
        cases h
        exact object_of_taken hread (Option.isSome_iff_ne_none.mp htaken)
      · cases h

/-- A document that does not fail is empty, or describes an entry, which is created. -/
lemma document_of_failureOf?_eq_none (revisions : Revisions)
    (h : failureOf? l.store.descriptor l.store.taken path index (reading d) =
      none) :
    (document revisions path index d l).failure = l.failure ∧
      Adds revisions l (entryOf? l.store.descriptor (reading d)).toList
        (document revisions path index d l) := by
  rw [document_eq]
  match reading d, h with
  | .ok none, _ => exact ⟨rfl, Adds.refl revisions l⟩
  | .ok (some o), h =>
    simp only [failureOf?] at h
    split at h
    · cases h
    · next e hread =>
      split at h
      · cases h
      · next hfree =>
        rw [entryOf?, hread]
        exact object_of_free hread (Option.not_isSome_iff_eq_none.mp hfree)

/-! ## The documents of a file -/

/-- Loading that has ended does not go on. -/
lemma documents_of_failure (h : l.failure = some error) (index : ℕ)
    (docs : List (Except Yaml.Fault Yaml.Document)) :
    documents revisions path l index docs = l := by
  induction docs generalizing index with
  | nil => rfl
  | cons d docs ih => rw [documents, next, if_pos (by rw [h]; rfl), ih]

lemma documents_append (l : Loading MemoryStore) (index : ℕ)
    (docs more : List (Except Yaml.Fault Yaml.Document)) :
    documents revisions path l index (docs ++ more) =
      documents revisions path (documents revisions path l index docs) (index + docs.length)
        more := by
  induction docs generalizing l index with
  | nil => rfl
  | cons d docs ih =>
    rw [List.cons_append, documents, documents, ih, List.length_cons, Nat.add_right_comm,
      Nat.add_assoc]

lemma documents_singleton (h : l.failure = none) :
    documents revisions path l index [d] = document revisions path index d l := by
  rw [documents, documents, next, if_neg (by rw [h]; decide)]

section Run

variable {docs : List (Except Yaml.Fault Yaml.Document)} {k : ℕ}

/-- After the entries of the documents before it have been created, what is taken for a document is
what the store holds. -/
lemma failureAt?_eq {rs : List Reading} {r : Reading} (hr : rs[k]? = some r)
    (h : Adds revisions l (entriesOf l.store.descriptor (rs.take k)) l₁) :
    failureAt? l.store path rs k =
      failureOf? l₁.store.descriptor l₁.store.taken path k r := by
  rw [failureAt?, hr, ← h.extends.taken_eq, h.extends.descriptor_eq]
  rfl

/-- As long as no document fails, the entries that the documents describe are created. -/
lemma documents_take (revisions : Revisions) (hl : l.failure = none)
    (h : ∀ j < k, failureAt? l.store path (docs.map reading) j = none) :
    (documents revisions path l 0 (docs.take k)).failure = none ∧
      Adds revisions l (entriesOf l.store.descriptor ((docs.map reading).take k))
        (documents revisions path l 0 (docs.take k)) := by
  induction k with
  | zero => exact ⟨hl, Adds.refl revisions l⟩
  | succ k ih =>
    obtain ⟨hnone, hadds⟩ := ih fun j hj => h j (Nat.lt_succ_of_lt hj)
    rw [List.take_add_one, List.take_add_one, List.getElem?_map]
    cases hd : docs[k]? with
    | none => simpa using ⟨hnone, hadds⟩
    | some d =>
      have hlength : (docs.take k).length = k :=
        List.length_take_of_le (List.getElem?_eq_some_iff.mp hd).1.le
      have hr : (docs.map reading)[k]? = some (reading d) := by rw [List.getElem?_map, hd]; rfl
      have hfits := h k (Nat.lt_succ_self k)
      rw [failureAt?_eq hr hadds] at hfits
      obtain ⟨hfailure, hstep⟩ := document_of_failureOf?_eq_none revisions hfits
      rw [Option.toList_some, documents_append, hlength, Nat.zero_add, documents_singleton hnone]
      refine ⟨hfailure.trans hnone, ?_⟩
      rw [hadds.extends.descriptor_eq, ← entriesOf_singleton] at hstep
      rw [Option.map_some, Option.toList_some, entriesOf_append]
      exact hadds.trans hstep

/-- The first document that fails ends the loading. -/
lemma documents_of_failureAt? (revisions : Revisions) (hl : l.failure = none)
    (h : failureAt? l.store path (docs.map reading) k = some error)
    (hfirst : ∀ j < k, failureAt? l.store path (docs.map reading) j = none) :
    (documents revisions path l 0 docs).failure = some error ∧
      Adds revisions l (entriesOf l.store.descriptor ((docs.map reading).take k))
        (documents revisions path l 0 docs) := by
  obtain ⟨hnone, hadds⟩ := documents_take revisions hl hfirst
  obtain ⟨r, hr, -⟩ := Option.bind_eq_some_iff.mp h
  rw [failureAt?_eq hr hadds] at h
  rw [List.getElem?_map] at hr
  obtain ⟨d, hd, rfl⟩ := Option.map_eq_some_iff.mp hr
  obtain ⟨hk, hget⟩ := List.getElem?_eq_some_iff.mp hd
  have hsplit : docs = docs.take k ++ ([d] ++ docs.drop (k + 1)) := by
    rw [List.singleton_append, ← hget, ← List.drop_eq_getElem_cons hk, List.take_append_drop]
  have hlength : (docs.take k).length = k := List.length_take_of_le hk.le
  obtain ⟨hfailure, hstep⟩ := document_of_failureOf?_eq_some revisions h
  have hrun : documents revisions path l 0 docs =
      document revisions path k d (documents revisions path l 0 (docs.take k)) := by
    conv_lhs => rw [hsplit]
    rw [documents_append, hlength, Nat.zero_add, documents_append, documents_singleton hnone,
      documents_of_failure hfailure]
  rw [hrun]
  refine ⟨hfailure, ?_⟩
  have hall := hadds.trans hstep
  rwa [List.append_nil] at hall

end Run

/-! ## Counting what has been created -/

/-- A document that does not fail describes an entry if there is something in it. -/
lemma isSome_entryOf?_of_failureOf? {D : Descriptor} {taken : Identity → Bool} {r : Reading}
    (h : failureOf? D taken path index r = none) : (entryOf? D r).isSome = isFilled r := by
  match r, h with
  | .ok none, _ => rfl
  | .ok (some o), h =>
    simp only [failureOf?] at h
    split at h
    · cases h
    · next e hread =>
      rw [entryOf?, hread]
      rfl

lemma length_entriesOf {D : Descriptor} {rs : List Reading}
    (h : ∀ r ∈ rs, (entryOf? D r).isSome = isFilled r) :
    (entriesOf D rs).length = rs.countP isFilled := by
  rw [entriesOf, List.length_filterMap_eq_countP]
  exact List.countP_congr fun r hr => by rw [h r hr]

lemma length_entriesOf_take {s : MemoryStore} {rs : List Reading} {k : ℕ}
    (h : ∀ j < k, failureAt? s path rs j = none) :
    (entriesOf s.descriptor (rs.take k)).length = (rs.take k).countP isFilled := by
  refine length_entriesOf fun r hr => ?_
  obtain ⟨j, hj, hget⟩ := List.mem_take_iff_getElem.mp hr
  have hnone := h j (Nat.lt_of_lt_of_le hj (Nat.min_le_left _ _))
  rw [failureAt?, List.getElem?_eq_getElem (Nat.lt_of_lt_of_le hj (Nat.min_le_right _ _)), hget]
    at hnone
  exact isSome_entryOf?_of_failureOf? (Option.bind_some _ _ ▸ hnone)

/-! ## Files -/

lemma outcome_eq_ok_iff {n : ℕ} : l.outcome = .ok n ↔ l.failure = none ∧ l.created = n := by
  rw [outcome]
  cases l.failure <;> simp

lemma outcome_eq_error_iff : l.outcome = .error error ↔ l.failure = some error := by
  rw [outcome]
  cases l.failure <;> simp

lemma file_of_readText_error {fs : FileSystem} {fault : IoFault} (hl : l.failure = none)
    (h : fs.readText path = .error fault) :
    file revisions fs l path = l.stop (.file path fault) := by
  rw [file, next, if_neg (by rw [hl]; decide), h]

lemma file_of_readText {fs : FileSystem} {text : String} (hl : l.failure = none)
    (h : fs.readText path = .ok text) :
    file revisions fs l path = l.documents revisions path 0 (Yaml.Document.allOfText text) := by
  rw [file, next, if_neg (by rw [hl]; decide), h]

/-- A file none of whose documents fails is loaded as a whole. -/
lemma file_of_forall_failureAt? (revisions : Revisions) {fs : FileSystem} {text : String}
    (hl : l.failure = none) (htext : fs.readText path = .ok text)
    (h : ∀ k, failureAt? l.store path (readings text) k = none) :
    (file revisions fs l path).failure = none ∧
      Adds revisions l (entriesOf l.store.descriptor (readings text))
        (file revisions fs l path) := by
  set docs := Yaml.Document.allOfText text
  have hnone : ∀ j < docs.length, failureAt? l.store path (docs.map reading) j = none :=
    fun j _ => h j
  have hrun := documents_take revisions hl hnone
  rw [List.take_length, List.take_of_length_le (by rw [List.length_map])] at hrun
  rw [file_of_readText hl htext]
  exact hrun

/-- A file is loaded up to the first of its documents that fails. -/
lemma file_of_failureAt? (revisions : Revisions) {fs : FileSystem} {text : String} {k : ℕ}
    (hl : l.failure = none) (htext : fs.readText path = .ok text)
    (h : failureAt? l.store path (readings text) k = some error)
    (hfirst : ∀ j < k, failureAt? l.store path (readings text) j = none) :
    (file revisions fs l path).failure = some error ∧
      Adds revisions l (entriesOf l.store.descriptor ((readings text).take k))
        (file revisions fs l path) := by
  rw [file_of_readText hl htext]
  exact documents_of_failureAt? revisions hl h hfirst

/-- **A file creates what its documents describe up to the first one that fails.**  If the file
cannot be read, nothing is created.  If none of its documents fails, the entries of those that are
not empty are created in their order, and their number is the outcome.  Otherwise, the entries of
the documents before the first one that fails are created, and the outcome is the error of this
one. -/
theorem file_createsFirst (revisions : Revisions) (fs : FileSystem) (path : Path)
    (s : MemoryStore) :
    let l := file revisions fs { store := s } path
    (∀ fault, fs.readText path = .error fault →
        l.outcome = .error (.file path fault) ∧ l.store = s) ∧
      ∀ text, fs.readText path = .ok text →
        let rs := readings text
        ((∀ k, failureAt? s path rs k = none) →
            l.outcome = .ok (rs.countP isFilled) ∧
              s.createAll revisions 0 (entriesOf s.descriptor rs) = .ok l.store) ∧
          ∀ k error, failureAt? s path rs k = some error →
            (∀ j < k, failureAt? s path rs j = none) →
              l.outcome = .error error ∧ l.created = (rs.take k).countP isFilled ∧
                s.createAll revisions 0 (entriesOf s.descriptor (rs.take k)) = .ok l.store := by
  intro l
  set start : Loading MemoryStore := { store := s }
  have hstart : start.failure = none := rfl
  refine ⟨fun fault hfault => ?_, fun text htext => ?_⟩
  · have hl : l = start.stop (.file path fault) := file_of_readText_error hstart hfault
    rw [hl]
    exact ⟨rfl, rfl⟩
  · intro rs
    refine ⟨fun hnone => ?_, fun k error herror hfirst => ?_⟩
    · obtain ⟨hfailure, hadds⟩ :=
        file_of_forall_failureAt? revisions hstart htext hnone
      have hcount := length_entriesOf_take (k := rs.length) fun j _ => hnone j
      rw [List.take_length] at hcount
      have hcreated : l.created = rs.countP isFilled := by
        rw [hadds.created_eq, hcount, Nat.zero_add]
      exact ⟨outcome_eq_ok_iff.mpr ⟨hfailure, hcreated⟩, hadds.createAll_eq⟩
    · obtain ⟨hfailure, hadds⟩ :=
        file_of_failureAt? revisions hstart htext herror hfirst
      have hcreated : l.created = (rs.take k).countP isFilled := by
        rw [hadds.created_eq, length_entriesOf_take hfirst, Nat.zero_add]
      exact ⟨outcome_eq_error_iff.mpr hfailure, hcreated, hadds.createAll_eq⟩

end Loading

/-- A class, nothing, another class and another plan. -/
def Broker.fourDocuments : String :=
  "type: service-class\nname: a\n---\n---\ntype: service-class\nname: z\n---\ntype: service-plan\n"

/-- The second of the classes is in the store already. -/
theorem Loading.file_createsFirst_taken :
    let revisions : Revisions := fun n => toString n
    let path : Path := ⟨"classes.yaml"⟩
    let fs : FileSystem :=
      { readDirectory := fun _ => .ok [], isFile := fun _ => true,
        read := fun _ => .ok Broker.fourDocuments.toUTF8 }
    let s := MemoryStore.operations.after (.empty Broker.known)
      [.create "z" (Broker.classEntry "" "z" "shown" "")]
    let l := file revisions fs { store := s } path
    let rs := readings Broker.fourDocuments
    let error := StartupError.store path "service-class//z"
      (.alreadyExists ⟨Broker.serviceClassType, "", "z"⟩)
    fs.readText path = .ok Broker.fourDocuments ∧ failureAt? s path rs 2 = some error ∧
      (∀ j < 2, failureAt? s path rs j = none) ∧
      l.outcome = .error error ∧ l.created = (rs.take 2).countP isFilled ∧
      s.createAll revisions 0 (entriesOf s.descriptor (rs.take 2)) = .ok l.store := by
  intro revisions path fs s l rs error
  have htext : fs.readText path = .ok Broker.fourDocuments := by decide +kernel
  have herror : failureAt? s path rs 2 = some error := by decide +kernel
  have hfirst : ∀ j < 2, failureAt? s path rs j = none := by decide +kernel
  exact ⟨htext, herror, hfirst,
    ((file_createsFirst revisions fs path s).2 _ htext).2 2 error herror hfirst⟩

end ConfigRegistry
