/-
# What is written is read back from a document

The node of the tree that a value is written as reads as the value (`Shape.ofNode_encode`).  It is
more than what holds of the tree itself in one respect only, that a text has a style: where a shape
asks for a value of another kind, a plain text might be taken for one, so it has to be told from
those (`TellsTexts`).

The generic trees in a value are read with their keys in order, so they have to be sorted
(`Shape.Sorted`), and the numbers are left to the shapes that have none.
-/
import ConfigRegistry.Proofs.Shape.Entries
import ConfigRegistry.Proofs.Shape.RoundTrip

namespace ConfigRegistry

open Yaml (Node Document Style Visit TellsTexts)

mutual

/-- The generic trees in a value are sorted. -/
def Shape.Sorted : {α : Type} → Shape α → α → Prop
  | _, .text, _ | _, .path, _ | _, .flag, _ | _, .word, _ | _, .choice _, _ | _, .texts, _ => True
  | _, .tree, j => j.sorted = j
  | _, .option content, o => ∀ a ∈ o, content.Sorted a
  | _, .list item, l => ∀ a ∈ l, item.Sorted a
  | _, .record _ _ fields, b => fields.Sorted b
  | _, .via content _ unpack _, a => content.Sorted (unpack a)

/-- The generic trees in the fields of a record are sorted. -/
def Fields.Sorted : {β σ : Type} → Fields β σ → β → Prop
  | _, _, .nil, () => True
  | _, _, .cons _ _ content more, (a, b) => content.Sorted a ∧ more.Sorted b

end

namespace Yaml

variable {d : Document} {style : String → Style}

/-! ## Scalars -/

lemma flagOf_bool (b : Bool) : flagOf (Node.ofTree style (.bool b)) = .ok b := by
  cases b with
  | false =>
    show flagOf (.scalar none none .plain "false") = _
    decide +kernel
  | true =>
    show flagOf (.scalar none none .plain "true") = _
    decide +kernel

lemma choiceOf_string {names : List String} (h : names.Nodup) (i : Fin names.length) :
    choiceOf names (Node.ofTree style (.string (names.get i))) = .ok i := by
  show (variant names (names.get i)).mapError Fault.ofMismatch = _
  rw [variant_get h i]
  rfl

/-- Whether a node in place of an option stands for no value. -/
def absent : Node Nat → Visit Bool
  | .scalar _ tag style text => Visit.ofExcept (isAbsent tag style text)
  | _ => Visit.pure false

lemma isAbsent_text (hstyle : TellsTexts style) (s : String) :
    isAbsent none (style s) s = .ok false := by
  cases h : style s with
  | plain =>
    have hs := hstyle s h
    rw [resolve] at hs
    split at hs
    · cases hs
    · next hnull =>
      rw [isAbsent, Bool.not_eq_true _ |>.mp hnull]
  | singleQuoted | doubleQuoted | literal | folded => rfl

/-- Only null stands for no value. -/
lemma absent_ofTree (hstyle : TellsTexts style) {j : Json} (hj : j.Numberless) (hnull : j ≠ .null) :
    absent (Node.ofTree style j) = pure false := by
  cases j with
  | null => exact absurd rfl hnull
  | bool b => cases b <;> rfl
  | number n => exact hj.elim
  | string s =>
    show Visit.ofExcept (isAbsent none (style s) s) = _
    rw [isAbsent_text hstyle]
    rfl
  | array items => rfl
  | object members => rfl

/-! ## Collections -/

/-- The keys of a written object are texts. -/
lemma exists_text?_ofMembers (style : String → Style) (members : List (String × Json)) :
    ∀ e ∈ (Node.ofMembers style members : List (Node Nat × Node Nat)),
      ∃ k, e.1.text? = some k := by
  rw [Node.ofMembers_eq_map]
  rintro _ he
  obtain ⟨m, -, rfl⟩ := List.mem_map.mp he
  exact ⟨m.1, rfl⟩

lemma valuesUnder_ofMembers {name : String} {members : List (String × Json)}
    (h : name ∉ members.map Prod.fst) : valuesUnder name (Node.ofMembers style members) = [] := by
  rw [valuesUnder, List.map_eq_nil_iff, List.filter_eq_nil_iff, Node.ofMembers_eq_map]
  rintro _ he
  obtain ⟨m, hm, rfl⟩ := List.mem_map.mp he
  have hne : m.1 ≠ name := fun heq => h (heq ▸ List.mem_map_of_mem hm)
  simpa [Node.text?] using hne

/-- The texts of a written map are those of the map. -/
lemma texts?_ofTree (style : String → Style) (l : List (String × String)) :
    (Node.ofTree style (.object (l.map fun (k, v) => (k, .string v))) : Node Nat).texts? =
      some l := by
  rw [Node.ofTree, Node.texts?, Node.ofMembers_eq_map, List.map_map]
  induction l with
  | nil => rfl
  | cons e l ih =>
    rw [List.map_cons, List.mapM_cons, ih]
    rfl

end Yaml

open Yaml

/-! ## Records -/

namespace Fields

variable {β σ : Type} {d : Document} {style : String → Style}

/-- What has been found when the written members have been read. -/
def written : {β σ : Type} → Fields β σ → β → σ
  | _, _, .nil, () => ()
  | _, _, .cons _ presence _ more, (a, b) =>
    (if presence.omits a then none else some a, more.written b)

lemma settle_written : {β σ : Type} → (fields : Fields β σ) → fields.Lawful → (b : β) →
    fields.settle (fields.written b) = .ok b
  | _, _, .nil, _, () => rfl
  | _, _, .cons name presence content more, h, (a, b) => by
    refine settle_cons_iff.mpr ⟨?_, more.settle_written h.2.2 b⟩
    by_cases homits : presence.omits a = true
    · exact .inr ⟨if_pos homits, h.1 a homits⟩
    · exact .inl (if_neg homits)

end Fields

/-! ## All shapes -/

section Documents

variable {d : Document} {style : String → Style}

lemma Shape.ofNode_option {α : Type} (content : Shape α) (depth : ℕ) (n : Node Nat) :
    (Shape.option content).ofNode d depth n = (do
      let n ← d.follow n
      if ← absent n then return none else return some (← content.ofNode d depth n)) := by
  rw [Shape.ofNode]
  refine bind_congr fun n => ?_
  cases n <;> rfl

mutual

/-- A value is read from the node that it is written as. -/
theorem Shape.ofNode_encode (hstyle : TellsTexts style) : {α : Type} → (shape : Shape α) →
    shape.Lawful → (a : α) → shape.Sorted a → {depth : ℕ} → (shape.encode a).Fits depth →
    shape.ofNode d depth (Node.ofTree style (shape.encode a)) = pure a
  | _, .text, _, _, _, _, _ => rfl
  | _, .path, _, _, _, _, _ => rfl
  | _, .flag, _, b, _, _, _ => by
    have hread : Visit.ofExcept (flagOf (Node.ofTree style (.bool b))) = pure b := by
      rw [flagOf_bool]
      rfl
    rw [Shape.ofNode, Shape.encode, Document.follow_ofTree, pure_bind, hread]
  | _, .word, _, _, _, _, h => h.numberless.elim
  | _, .choice names, hlawful, i, _, _, _ => by
    have hread : Visit.ofExcept (choiceOf names (Node.ofTree style (.string (names.get i)))) =
        pure i := by
      rw [choiceOf_string hlawful]
      rfl
    rw [Shape.ofNode, Shape.encode, Document.follow_ofTree, pure_bind, hread]
  | _, .tree, _, j, hsorted, _, h => Document.tree_ofTree hstyle j h hsorted
  | _, .texts, _, m, _, depth, h => by
    obtain ⟨depth, rfl, -⟩ := h.of_object
    rw [Shape.encode, Shape.ofNode_texts (texts?_ofTree style m.toList), m.ofList_toList]
  | _, .option content, _, none, _, _, _ => by
    have habsent : isAbsent none .plain "null" = .ok true := by decide +kernel
    have hread : absent (Node.ofTree style .null) = pure true := by
      show Visit.ofExcept (isAbsent none .plain "null") = _
      rw [habsent]
      rfl
    rw [Shape.ofNode_option, Shape.encode, Document.follow_ofTree, pure_bind, hread]
    rfl
  | _, .option content, hlawful, some a, hsorted, _, h => by
    have hread : absent (Node.ofTree style (content.encode a)) = pure false :=
      absent_ofTree hstyle h.numberless (hlawful.1 a)
    rw [Shape.ofNode_option, Shape.encode, Document.follow_ofTree, pure_bind, hread, pure_bind,
      if_neg Bool.false_ne_true, content.ofNode_encode hstyle hlawful.2 a (hsorted a rfl) h,
      pure_bind]
  | _, .list item, hlawful, l, hsorted, depth, h => by
    obtain ⟨depth, rfl, hfits⟩ := h.of_array
    have hread : (l.map fun a => Node.ofTree style (item.encode a)).mapM (item.ofNode d depth) =
        pure l :=
      Visit.mapM_map_eq_pure fun a ha =>
        item.ofNode_encode hstyle hlawful a (hsorted a ha) (hfits _ (List.mem_map_of_mem ha))
    have hitems : (Node.ofTree style (.array (l.map item.encode)) : Node Nat) =
        .sequence none none (l.map fun a => Node.ofTree style (item.encode a)) := by
      rw [Node.ofTree, Node.ofItems_eq_map, List.map_map]
      rfl
    rw [Shape.ofNode, Shape.encode, Document.follow_ofTree, hitems]
    exact hread
  | _, .record _ strict fields, hlawful, b, hsorted, depth, h => by
    obtain ⟨depth, rfl, hfits⟩ := h.of_object
    have hread : foldEntries (fields.takeEntry strict d depth) fields.noneFound
        (Node.ofMembers style (fields.encode b)) = pure (fields.written b) :=
      fields.foldEntries_encode hstyle hlawful.1 hlawful.2 b hsorted hfits
    have hsettle := fields.settle_written hlawful.2 b
    rw [Shape.ofNode, Shape.encode, Document.follow_ofTree]
    show (foldEntries (fields.takeEntry strict d depth) fields.noneFound
      (Node.ofMembers style (fields.encode b)) >>= _) = _
    rw [hread, pure_bind, hsettle]
    rfl
  | _, .via content pack unpack pack_unpack, hlawful, a, hsorted, _, h => by
    rw [Shape.ofNode, Shape.encode, content.ofNode_encode hstyle hlawful _ hsorted h, pure_bind,
      pack_unpack]

theorem Fields.foldEntries_encode (hstyle : TellsTexts style) : {β σ : Type} →
    (fields : Fields β σ) → fields.names.Nodup → fields.Lawful → (b : β) → fields.Sorted b →
    {strict : Bool} → {depth : ℕ} → (∀ m ∈ fields.encode b, m.2.Fits depth) →
    foldEntries (fields.takeEntry strict d depth) fields.noneFound
      (Node.ofMembers style (fields.encode b)) = pure (fields.written b)
  | _, _, .nil, _, _, (), _, _, _, _ => rfl
  | _, _, .cons name presence content more, hnames, hlawful, (a, b), hsorted, strict, depth, h => by
    obtain ⟨hname, hnames⟩ := List.nodup_cons.mp hnames
    have hother : valuesUnder name (Node.ofMembers style (more.encode b)) = [] :=
      valuesUnder_ofMembers fun hmem => hname ((more.keys_encode_sublist b).subset hmem)
    have hkeys := exists_text?_ofMembers style (more.encode b)
    rw [Fields.encode] at h ⊢
    by_cases homits : presence.omits a = true
    · rw [if_pos homits] at h ⊢
      rw [Fields.noneFound, Fields.foldEntries_of_valuesUnder_eq_nil hkeys hother,
        more.foldEntries_encode hstyle hnames hlawful.2.2 b hsorted.2 h, pure_bind, Fields.written,
        if_pos homits]
    · rw [if_neg homits] at h ⊢
      obtain ⟨ha, hb⟩ := List.forall_mem_cons.mp h
      have hvalue := content.ofNode_encode hstyle hlawful.2.1 a hsorted.1 ha
      rw [Fields.noneFound, Node.ofMembers, foldEntries, Fields.takeEntry_cons_self rfl hvalue,
        pure_bind, Fields.foldEntries_of_valuesUnder_eq_nil hkeys hother,
        more.foldEntries_encode hstyle hnames hlawful.2.2 b hsorted.2 hb, pure_bind, Fields.written,
        if_neg homits]

end

/-- The value of a document is that of its root. -/
lemma Shape.ofDocument_of_ofNode {α : Type} {shape : Shape α} {a : α}
    (h : shape.ofNode d Yaml.nestingLimit d.root = pure a) : shape.ofDocument d = .ok a := by
  rw [ofDocument, Document.visit, h]
  rfl

/-- A value is read from the document that it is written as. -/
theorem Shape.ofDocument_encode {α : Type} {shape : Shape α} (hstyle : TellsTexts style)
    (hlawful : shape.Lawful) {a : α} (hsorted : shape.Sorted a)
    (h : (shape.encode a).Fits Yaml.nestingLimit) :
    shape.ofDocument (Document.ofTree style (shape.encode a)) = .ok a :=
  ofDocument_of_ofNode (shape.ofNode_encode hstyle hlawful a hsorted h)

end Documents

end ConfigRegistry
