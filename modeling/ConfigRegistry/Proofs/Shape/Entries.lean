/-
# Records from the entries of a mapping

A record that passes over unknown names is read from the entries of a mapping in any order: what is
found for a field depends on the values under its name only (`Fields.Finds`).  A field of which
there is no value stays empty, and of one value the field gets what the value reads as.  So the
fields can be looked at one by one (`Fields.foldEntries_eq`).

A text is the text of a scalar, whatever its style, and a map of texts is read from scalars.
-/
import ConfigRegistry.Proofs.Yaml.Tree
import ConfigRegistry.Shape.Document

namespace ConfigRegistry

open Yaml (Node Document Visit foldEntries)

/-! ## Texts -/

namespace Yaml

variable {ν : Type}

/-- The text of a scalar. -/
def Node.text? : Node ν → Option String
  | .scalar _ _ _ text => some text
  | _ => none

/-- The texts of an entry whose key and value are scalars. -/
def Node.textEntry? (e : Node ν × Node ν) : Option (String × String) := do
  return (← e.1.text?, ← e.2.text?)

/-- The texts of the entries of a mapping of scalars. -/
def Node.texts? : Node ν → Option (List (String × String))
  | .mapping _ _ entries => entries.mapM textEntry?
  | _ => none

variable {d : Document} {n : Node Nat} {l : List (String × String)}

lemma textOf_of_text? {s : String} (h : n.text? = some s) : d.textOf n = pure s := by
  cases n with
  | scalar _ _ _ text =>
    cases h
    rfl
  | _ => cases h

lemma foldEntries_of_textEntry? {entries : List (Node Nat × Node Nat)}
    (h : entries.mapM Node.textEntry? = some l) (m : TextMap) :
    foldEntries (fun key value m => do
        let key ← d.textOf key
        return m.insert key (← d.textOf value)) m entries =
      pure (l.foldl (fun m e => m.insert e.1 e.2) m) := by
  induction entries generalizing l m with
  | nil =>
    cases h
    rfl
  | cons e entries ih =>
    rw [List.mapM_cons] at h
    obtain ⟨⟨k, v⟩, he, h⟩ := Option.bind_eq_some_iff.mp h
    obtain ⟨l, hl, h⟩ := Option.bind_eq_some_iff.mp h
    cases h
    obtain ⟨_, hk, he⟩ := Option.bind_eq_some_iff.mp he
    obtain ⟨_, hv, he⟩ := Option.bind_eq_some_iff.mp he
    cases he
    rw [foldEntries, textOf_of_text? hk, pure_bind, textOf_of_text? hv, pure_bind, pure_bind,
      ih hl, List.foldl_cons]

end Yaml

open Yaml

section Texts

variable {d : Document} {n : Node Nat} {depth : ℕ}

lemma Shape.ofNode_text {s : String} (h : n.text? = some s) :
    Shape.text.ofNode d depth n = pure s := by
  rw [Shape.ofNode]
  exact textOf_of_text? h

/-- A map of texts is read from the entries in their order, so of entries with the same key the last
one counts. -/
lemma Shape.ofNode_texts {l : List (String × String)} (h : n.texts? = some l) :
    Shape.texts.ofNode d (depth + 1) n = pure (SortedMap.ofList l) := by
  cases n with
  | mapping _ _ entries =>
    rw [Shape.ofNode]
    exact foldEntries_of_textEntry? h ∅
  | _ => cases h

end Texts

/-! ## Values under a name -/

namespace Yaml

/-- The values under a name, in their order. -/
def valuesUnder (name : String) (entries : List (Node Nat × Node Nat)) : List (Node Nat) :=
  (entries.filter fun e => e.1.text? == some name).map Prod.snd

variable {name k : String} {e : Node Nat × Node Nat} {entries : List (Node Nat × Node Nat)}

lemma valuesUnder_cons_self (h : e.1.text? = some name) :
    valuesUnder name (e :: entries) = e.2 :: valuesUnder name entries := by
  simp [valuesUnder, h]

lemma valuesUnder_cons_of_ne (h : e.1.text? = some k) (hk : k ≠ name) :
    valuesUnder name (e :: entries) = valuesUnder name entries := by
  simp [valuesUnder, h, hk]

end Yaml

namespace Fields

/-! ## Single entries -/

section Take

variable {β σ : Type} {d : Document} {depth : ℕ} {strict : Bool} {key v : Node Nat} {k : String}

/-- Takes one more entry of a mapping. -/
def takeEntry (fields : Fields β σ) (strict : Bool) (d : Document) (depth : ℕ)
    (key value : Node Nat) (found : σ) : Visit σ := do
  let name ← d.textOf key
  match fields.memberOfNode d depth name value found with
  | some field => field
  | none => if strict then Visit.fault (.unknownField name) else return found

lemma memberOfNode_eq_none : {β σ : Type} → {fields : Fields β σ} → {k : String} →
    k ∉ fields.names → {v : Node Nat} → {found : σ} →
    fields.memberOfNode d depth k v found = none
  | _, _, .nil, _, _, _, _ => by rw [Fields.memberOfNode.eq_def]
  | _, _, .cons name _ _ more, k, h, v, (o, found) => by
    rw [names, List.mem_cons, not_or] at h
    rw [Fields.memberOfNode.eq_def]
    dsimp only
    rw [if_neg (by simpa using h.1), memberOfNode_eq_none h.2]

/-- An entry with a name that is not known is passed over. -/
lemma takeEntry_of_notMem {fields : Fields β σ} (hk : key.text? = some k) (h : k ∉ fields.names)
    (v : Node Nat) (found : σ) : fields.takeEntry false d depth key v found = pure found := by
  simp only [takeEntry, textOf_of_text? hk, pure_bind, memberOfNode_eq_none h]
  rfl

variable {α : Type} {name : String} {presence : Presence α} {content : Shape α} {more : Fields β σ}

/-- An entry is taken by the field of its key. -/
lemma takeEntry_cons_self {a : α} (hk : key.text? = some name)
    (hv : content.ofNode d depth v = pure a) (found : σ) :
    (Fields.cons name presence content more).takeEntry strict d depth key v (none, found) =
      pure (some a, found) := by
  have hmember :
      (Fields.cons name presence content more).memberOfNode d depth name v (none, found) =
      some (pure (some a, found)) := by
    rw [Fields.memberOfNode.eq_def]
    dsimp only
    rw [if_pos (beq_self_eq_true name), hv]
    rfl
  simp only [takeEntry, textOf_of_text? hk, pure_bind, hmember]

/-- An entry with another key is left to the other fields. -/
lemma takeEntry_cons_of_ne (hk : key.text? = some k) (hne : k ≠ name) (v : Node Nat) (o : Option α)
    (found : σ) :
    (Fields.cons name presence content more).takeEntry strict d depth key v (o, found) = (do
      return (o, ← more.takeEntry strict d depth key v found)) := by
  have hmember : (Fields.cons name presence content more).memberOfNode d depth k v (o, found) =
      (more.memberOfNode d depth k v found).map fun field => do return (o, ← field) := by
    rw [Fields.memberOfNode.eq_def]
    dsimp only
    rw [if_neg (by simpa using hne)]
    cases more.memberOfNode d depth k v found <;> rfl
  simp only [takeEntry, textOf_of_text? hk, pure_bind, hmember]
  cases more.memberOfNode d depth k v found with
  | some field => rfl
  | none => cases strict <;> rfl

end Take

/-! ## All entries -/

section Fold

variable {α β σ : Type} {d : Document} {depth : ℕ} {strict : Bool}
  {entries : List (Node Nat × Node Nat)} {name : String} {presence : Presence α} {content : Shape α}
  {more : Fields β σ} {a : α} {v : Node Nat}

/-- If there is no value for it, a field stays as it is. -/
lemma foldEntries_of_valuesUnder_eq_nil (hkeys : ∀ e ∈ entries, ∃ k, e.1.text? = some k)
    (h : valuesUnder name entries = []) (o : Option α) (found : σ) :
    foldEntries ((Fields.cons name presence content more).takeEntry strict d depth) (o, found)
        entries = (do
      return (o, ← foldEntries (more.takeEntry strict d depth) found entries)) := by
  induction entries generalizing found with
  | nil => rfl
  | cons e entries ih =>
    obtain ⟨⟨k, hk⟩, hkeys⟩ := List.forall_mem_cons.mp hkeys
    have hne : k ≠ name := by
      rintro rfl
      rw [valuesUnder_cons_self hk] at h
      cases h
    rw [valuesUnder_cons_of_ne hk hne] at h
    simp only [foldEntries, takeEntry_cons_of_ne hk hne, bind_assoc, pure_bind, ih hkeys h]

/-- If there is one value for it, a field that is still empty gets it. -/
lemma foldEntries_of_valuesUnder_eq_singleton (hname : name ∉ more.names)
    (hkeys : ∀ e ∈ entries, ∃ k, e.1.text? = some k) (h : valuesUnder name entries = [v])
    (hv : content.ofNode d depth v = pure a) (found : σ) :
    foldEntries ((Fields.cons name presence content more).takeEntry false d depth) (none, found)
        entries = (do
      return (some a, ← foldEntries (more.takeEntry false d depth) found entries)) := by
  induction entries generalizing found with
  | nil => cases h
  | cons e entries ih =>
    obtain ⟨⟨k, hk⟩, hkeys⟩ := List.forall_mem_cons.mp hkeys
    by_cases hne : k = name
    · subst hne
      rw [valuesUnder_cons_self hk, List.cons.injEq] at h
      obtain ⟨rfl, h⟩ := h
      simp only [foldEntries, takeEntry_cons_self hk hv, pure_bind, takeEntry_of_notMem hk hname,
        foldEntries_of_valuesUnder_eq_nil hkeys h]
    · rw [valuesUnder_cons_of_ne hk hne] at h
      simp only [foldEntries, takeEntry_cons_of_ne hk hne, bind_assoc, pure_bind, ih hkeys h]

/-- Under a name nothing is found if there is no value, and otherwise what the only value reads
as. -/
def FindsAt (d : Document) (depth : ℕ) (name : String) (content : Shape α)
    (entries : List (Node Nat × Node Nat)) : Option α → Prop
  | none => valuesUnder name entries = []
  | some a => ∃ v, valuesUnder name entries = [v] ∧ content.ofNode d depth v = pure a

/-- What the fields find among entries, each under its own name. -/
def Finds (d : Document) (depth : ℕ) : {β σ : Type} → Fields β σ →
    List (Node Nat × Node Nat) → σ → Prop
  | _, _, .nil, _, () => True
  | _, _, .cons name _ content more, entries, (found, rest) =>
    FindsAt d depth name content entries found ∧ more.Finds d depth entries rest

/-- All entries together fill the fields with what each of them finds. -/
theorem foldEntries_eq : {β σ : Type} → (fields : Fields β σ) → fields.names.Nodup →
    (∀ e ∈ entries, ∃ k, e.1.text? = some k) → {found : σ} → fields.Finds d depth entries found →
    foldEntries (fields.takeEntry false d depth) fields.noneFound entries = pure found
  | _, _, .nil, _, hkeys, (), h => by
    clear h
    induction entries with
    | nil => rfl
    | cons e entries ih =>
      obtain ⟨⟨k, hk⟩, hkeys⟩ := List.forall_mem_cons.mp hkeys
      rw [foldEntries, takeEntry_of_notMem hk (by simp [names]), pure_bind]
      exact ih hkeys
  | _, _, .cons name presence content more, hnames, hkeys, (o, found), h => by
    rw [Finds] at h
    obtain ⟨hfirst, hmore⟩ := h
    obtain ⟨hname, hnames⟩ := List.nodup_cons.mp hnames
    have hrest := more.foldEntries_eq hnames hkeys hmore
    cases o with
    | none =>
      rw [noneFound, foldEntries_of_valuesUnder_eq_nil hkeys hfirst, hrest, pure_bind]
    | some a =>
      obtain ⟨v, hv, hread⟩ := hfirst
      rw [noneFound, foldEntries_of_valuesUnder_eq_singleton hname hkeys hv hread, hrest, pure_bind]

end Fold

end Fields

/-- A record is read from a mapping if its fields settle with what they find. -/
theorem Shape.ofNode_record {β σ : Type} {record : String} {fields : Fields β σ} {d : Document}
    {depth : ℕ} {anchor : Option Nat} {tag : Option String}
    {entries : List (Node Nat × Node Nat)} {found : σ} {b : β} (hnames : fields.names.Nodup)
    (hkeys : ∀ e ∈ entries, ∃ k, e.1.text? = some k) (hfinds : fields.Finds d depth entries found)
    (hsettle : fields.settle found = .ok b) :
    (Shape.record record false fields).ofNode d (depth + 1) (.mapping anchor tag entries) =
      pure b := by
  have hread := fields.foldEntries_eq hnames hkeys hfinds
  rw [Shape.ofNode]
  show (foldEntries (fields.takeEntry false d depth) fields.noneFound entries >>= _) = _
  rw [hread, pure_bind, hsettle]
  rfl

end ConfigRegistry
