/-
# Equality and canonical texts

Two payloads are equal if the second one, taken as of the kind of the first, has the same content.
The canonical text of a payload does not show its kind, and it leaves out all that has its default
value.  Yet nothing else is lost: of one kind, different payloads have different texts, and so two
entries are equal exactly if their metadata, the names of their messages and their canonical texts
are (`Entry.equality_isCanonical`).  The name cannot be left out here, but only because of payloads
in which nothing is written at all; these have one text, whatever their kinds.
-/
import ConfigRegistry.Model.Entry
import ConfigRegistry.Proofs.Json.Written
import ConfigRegistry.Proofs.Model.Codec

namespace ConfigRegistry

/-! ## Texts tell payloads apart -/

/-- Different values of a plain shape have different canonical texts. -/
lemma Shape.toText_injective {α : Type} {shape : Shape α} (hplain : shape.Plain)
    (hlawful : shape.Lawful) : Function.Injective shape.toText := by
  intro a b h
  have ha := (fits_encode_of_plain hplain hlawful a).numberless
  have hb := (fits_encode_of_plain hplain hlawful b).numberless
  exact encode_injective hlawful (Json.eq_of_render_eq ha hb h)

namespace Kind

lemma mem_all (k : Kind) : k ∈ all := by
  cases k <;> decide

/-- Payloads of different kinds have no field in common. -/
lemma notMem_fieldNames {k l : Kind} (h : k ≠ l) {name : String} (hname : name ∈ k.fieldNames) :
    name ∉ l.fieldNames := by
  have hdisjoint : ∀ k ∈ all, ∀ l ∈ all, k ≠ l → ∀ name ∈ k.fieldNames, name ∉ l.fieldNames := by
    decide
  exact hdisjoint k k.mem_all l l.mem_all h name hname

end Kind

namespace Message

variable {m n : Message}

/-- Payloads are compared as of the kind of the first one. -/
lemma beq_eq_as? (m n : Message) : (m == n) = (n.as? m.kind == some m.body) := by
  rw [Bool.eq_iff_iff, beq_iff_eq, beq_iff_eq, as?_eq_some_iff, eq_comm]

lemma beq_iff_canonical : (m == n) = true ↔ m.name = n.name ∧ m.text = n.text := by
  obtain ⟨k, x⟩ := m
  obtain ⟨l, y⟩ := n
  rw [beq_eq_as?, beq_iff_eq, as?_eq_some_iff]
  constructor
  · intro h
    cases h
    exact ⟨rfl, rfl⟩
  · rintro ⟨hname, htext⟩
    obtain rfl : k = l := Kind.messageName_injective hname
    obtain rfl : x = y := Shape.toText_injective k.plain_shape k.lawful_shape htext
    rfl

/-- Payloads of different kinds have the same text only if nothing is written of either. -/
lemma text_eq_text_iff (h : m.kind ≠ n.kind) :
    m.text = n.text ↔ m.text = "\x7b\x7d" ∧ n.text = "\x7b\x7d" := by
  constructor
  · obtain ⟨k, x⟩ := m
    obtain ⟨l, y⟩ := n
    intro htext
    have hfits := Shape.fits_encode_of_plain k.plain_shape k.lawful_shape x
    have hfits' := Shape.fits_encode_of_plain l.plain_shape l.lawful_shape y
    have htree := Json.eq_of_render_eq hfits.numberless hfits'.numberless htext
    obtain ⟨members, hx, hk⟩ := k.exists_encode_eq_object_fieldNames x
    obtain ⟨members', hy, hl⟩ := l.exists_encode_eq_object_fieldNames y
    -- a member of both would have the name of a field of both kinds
    rw [hx, hy, Json.object.injEq] at htree
    subst htree
    have hnone : members = [] := List.eq_nil_iff_forall_not_mem.mpr fun e he =>
      Kind.notMem_fieldNames h (hk e he) (hl e he)
    subst hnone
    exact ⟨congrArg Json.render hx, congrArg Json.render hy⟩
  · rintro ⟨hm, hn⟩
    rw [hm, hn]

end Message

/-! ## Equality of entries -/

namespace Entry

/-- Metadata are compared as a whole, and then the payloads. -/
lemma beq_eq (a b : Entry) :
    (a == b) = (a.metadata == b.metadata && a.payload == b.payload) := by
  obtain ⟨metadata, payload⟩ := a
  obtain ⟨metadata', payload'⟩ := b
  rw [Bool.eq_iff_iff, Bool.and_eq_true, beq_iff_eq, beq_iff_eq, beq_iff_eq, mk.injEq]

/-- **Equality is canonical equality.**  Entries are equal exactly if their metadata, the names of
their messages and the canonical texts of their payloads are.  Payloads of different kinds are never
equal, even where their texts are, which is to say if nothing is written of either; and equality of
payloads and of entries is symmetric and transitive, whatever their kinds. -/
theorem equality_isCanonical :
    (∀ a b : Entry, (a == b) = true ↔ a.metadata = b.metadata ∧
      a.payload.name = b.payload.name ∧ a.payload.text = b.payload.text) ∧
    (∀ m n : Message, m.kind ≠ n.kind →
      (m == n) = false ∧ (m.text = n.text ↔ m.text = "\x7b\x7d" ∧ n.text = "\x7b\x7d")) ∧
    (∀ m n : Message, (m == n) = (n == m)) ∧
    (∀ l m n : Message, (l == m) = true → (m == n) = true → (l == n) = true) ∧
    (∀ a b : Entry, (a == b) = (b == a)) ∧
    ∀ a b c : Entry, (a == b) = true → (b == c) = true → (a == c) = true := by
  refine ⟨fun a b => ?_, fun m n h => ⟨?_, Message.text_eq_text_iff h⟩, fun _ _ => BEq.comm,
    fun _ _ _ => BEq.trans, fun _ _ => BEq.comm, fun _ _ _ => BEq.trans⟩
  · rw [beq_eq, Bool.and_eq_true, beq_iff_eq, Message.beq_iff_canonical]
  · -- the second payload cannot be taken as of the kind of the first one
    rw [Message.beq_eq_as?, Message.as?_eq_none_iff.mpr (Ne.symm h)]
    rfl

/-- A class and a plan of which nothing is written, and one plan given in three ways. -/
theorem equality_isCanonical_blank :
    let a : Message := .blank .serviceClass
    let b : Message := .blank .servicePlan
    let x : Entry := ⟨{ name := "x" }, b⟩
    let y : Entry := ⟨{ name := "x" }, ⟨.servicePlan, { services := [] }⟩⟩
    let z : Entry := ⟨{ name := "x" }, ⟨.servicePlan, { plan := none }⟩⟩
    a.kind ≠ b.kind ∧ a.text = b.text ∧ (a == b) = false ∧
      (x == y) = true ∧ (y == z) = true ∧ (x == z) = true := by
  intro a b x y z
  obtain ⟨-, hkinds, -, -, -, htrans⟩ := equality_isCanonical
  have hkind : a.kind ≠ b.kind := by decide
  obtain ⟨hne, htext⟩ := hkinds a b hkind
  have hxy : (x == y) = true := by decide
  have hyz : (y == z) = true := by decide
  exact ⟨hkind, htext.mpr ⟨by decide, by decide⟩, hne, hxy, hyz, htrans x y z hxy hyz⟩

/-- An entry that is given but empty is written, and one that is missing is not. -/
example :
    (⟨.serviceClass, {}⟩ : Message).text = "\x7b\x7d" ∧
      (⟨.serviceClass, { entry := some {} }⟩ : Message).text = "\x7b\"entry\":\x7b\x7d\x7d" := by
  decide

end Entry

end ConfigRegistry
