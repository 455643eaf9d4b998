/-
# Generic trees of documents without anchors

The node of a sorted tree without numbers is read as that tree, wherever it stands, provided that a
text is written plain only if it stands for itself (`TellsTexts`).  As there are no aliases, none is
followed: such a visit returns a value and does nothing else.
-/
import ConfigRegistry.Proofs.Json.Sorted
import ConfigRegistry.Proofs.Shape.Plain
import ConfigRegistry.Proofs.Yaml.Node.Tree
import ConfigRegistry.Yaml.Tree

namespace ConfigRegistry.Yaml

/-! ## Visits -/

instance : LawfulMonad Visit :=
  LawfulMonad.mk' Visit
    (fun v => by
      funext left
      show Visit.bind v (fun a => Visit.pure a) left = v left
      simp only [Visit.bind, Visit.pure]
      cases v left <;> rfl)
    (fun _ _ => rfl)
    fun v f g => by
      funext left
      show Visit.bind (Visit.bind v f) g left = Visit.bind v (fun a => Visit.bind (f a) g) left
      simp only [Visit.bind]
      cases v left <;> rfl

/-- If each item is written so that it is read back, then all of them are. -/
lemma Visit.mapM_map_eq_pure {α β : Type} {write : α → β} {read : β → Visit α} {l : List α}
    (h : ∀ a ∈ l, read (write a) = pure a) : (l.map write).mapM read = pure l := by
  induction l with
  | nil => rfl
  | cons a l ih =>
    obtain ⟨ha, hl⟩ := List.forall_mem_cons.mp h
    rw [List.map_cons, List.mapM_cons, ha, ih hl]
    rfl

namespace Node

variable {ν : Type} {style : String → Style}

lemma ofItems_eq_map (items : List Json) :
    (ofItems style items : List (Node ν)) = items.map (ofTree style) := by
  induction items with
  | nil => rfl
  | cons x xs ih => rw [ofItems, ih, List.map_cons]

lemma ofMembers_eq_map (members : List (String × Json)) :
    (ofMembers style members : List (Node ν × Node ν)) =
      members.map fun m => (.scalar none none (style m.1) m.1, ofTree style m.2) := by
  induction members with
  | nil => rfl
  | cons m ms ih => rw [ofMembers, ih, List.map_cons]

end Node

namespace Document

variable {d : Document} {style : String → Style}

/-- A node of a tree is not an alias. -/
lemma follow_ofTree (j : Json) : d.follow (Node.ofTree style j) = pure (Node.ofTree style j) := by
  cases j with
  | bool b => cases b <;> rfl
  | null | number _ | string _ | array _ | object _ => rfl

lemma textOf_scalar (style : Style) (text : String) :
    d.textOf (.scalar none none style text) = pure text := rfl

end Document

/-! ## Scalars -/

/-- A text is plain only if it stands for itself. -/
def TellsTexts (style : String → Style) : Prop := ∀ s, style s = .plain → resolve s = .text

lemma treeOfPlain_null : treeOfPlain "null" = .ok .null := by decide +kernel

lemma treeOfPlain_bool (b : Bool) :
    treeOfPlain (if b then "true" else "false") = .ok (.bool b) := by
  cases b <;> decide +kernel

lemma treeOfScalar_text {style : String → Style} (hstyle : TellsTexts style) (s : String) :
    treeOfScalar none (style s) s = .ok (.string s) := by
  cases h : style s with
  | plain => rw [treeOfScalar, treeOfPlain, hstyle s h]
  | singleQuoted | doubleQuoted | literal | folded => rfl

/-! ## Trees -/

namespace Document

variable {d : Document} {style : String → Style}

-- The recursion on the depth stands behind a bind, so these equations are reached by unfolding the
-- reader as a whole.

lemma tree_scalar {depth : ℕ} {style : Style} {text : String} {j : Json}
    (h : treeOfScalar none style text = .ok j) :
    d.tree depth (.scalar none none style text) = pure j := by
  have hvisit : Visit.ofExcept (treeOfScalar none style text) = (pure j : Visit Json) := by
    rw [h]
    rfl
  cases depth <;>
    · delta Document.tree
      exact hvisit

lemma tree_sequence (depth : ℕ) (items : List (Node Nat)) :
    d.tree (depth + 1) (.sequence none none items) = (do
      return .array (← items.mapM (d.tree depth))) := by
  delta Document.tree
  rfl

lemma tree_mapping (depth : ℕ) (entries : List (Node Nat × Node Nat)) :
    d.tree (depth + 1) (.mapping none none entries) = (do
      let members ← entries.mapM fun (key, value) => do
        let key ← d.textOf key
        return (key, ← d.tree depth value)
      return .object (SortedMap.ofList members).toList) := by
  delta Document.tree
  rfl

/-- The node of a sorted tree is read as the tree. -/
theorem tree_ofTree (hstyle : TellsTexts style) : (j : Json) → {depth : ℕ} → j.Fits depth →
    j.sorted = j → d.tree depth (Node.ofTree style j) = pure j
  | .null, _, _, _ => tree_scalar treeOfPlain_null
  | .bool true, _, _, _ => tree_scalar (treeOfPlain_bool true)
  | .bool false, _, _, _ => tree_scalar (treeOfPlain_bool false)
  | .number _, _, h, _ => h.numberless.elim
  | .string s, _, _, _ => tree_scalar (treeOfScalar_text hstyle s)
  | .array items, depth, h, hsorted => by
    obtain ⟨depth, rfl, hfits⟩ := h.of_array
    have hitems : (items.map (Node.ofTree style)).mapM (d.tree depth) = pure items := by
      refine Visit.mapM_map_eq_pure fun x hx => ?_
      exact tree_ofTree hstyle x (hfits x hx) (Json.sorted_array_iff.mp hsorted x hx)
    rw [Node.ofTree, Node.ofItems_eq_map, tree_sequence, hitems]
    rfl
  | .object members, depth, h, hsorted => by
    obtain ⟨depth, rfl, hfits⟩ := h.of_object
    obtain ⟨hlist, hvalues⟩ := Json.sorted_object_iff.mp hsorted
    have hentries : (members.map fun m => ((.scalar none none (style m.1) m.1 : Node Nat),
        Node.ofTree style m.2)).mapM (fun (key, value) => do
          let key ← d.textOf key
          return (key, ← d.tree depth value)) = pure members := by
      refine Visit.mapM_map_eq_pure fun m hm => ?_
      have hvalue := tree_ofTree hstyle m.2 (hfits m hm) (hvalues m hm)
      simp only [textOf_scalar, hvalue, pure_bind]
    rw [Node.ofTree, Node.ofMembers_eq_map, tree_mapping, hentries, pure_bind, hlist]

end Document

end ConfigRegistry.Yaml
