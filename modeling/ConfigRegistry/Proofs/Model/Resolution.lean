/-
# Schemas of an unknown kind

The message name of a schema may stand for no kind of payload.  Such a schema cannot make a payload
and cannot read one from a mapping, and says so.  But not all that its codec does comes to the point
where the kind has to be known (`CodecCall.needsKind`).  Writing asks for the message name only, so
a payload that bears this name is written all the same; and what is no mapping is refused before
anybody asks what it should be read as.

This is also what decides how far schemas that compare as alike can stand for one another.  They
have the same names, but not always a kind in common: where no kind is needed they do the same, and
everywhere else only if both know their kind or neither does.
-/
import ConfigRegistry.Proofs.Model.Codec

namespace ConfigRegistry

/-- Whether a payload may be read from the tree: it is an object, or null. -/
def Json.isMapping : Json → Bool
  | null => true
  | object _ => true
  | _ => false

/-! ## The operations of a codec -/

/-- An operation of the codec of a schema, with what it is given. -/
inductive CodecCall where
  | blank
  | toText (m : Message)
  | toTree (m : Message)
  | toYaml (m : Message)
  | ofText (text : String)
  | ofTree (tree : Json)
  | ofYaml (text : String)

/-- What an operation of a codec gives. -/
inductive CodecResult where
  | message (m : Message)
  | text (text : String)
  | tree (tree : Json)

namespace CodecCall

/-- The payload that is to be written. -/
def written? : CodecCall → Option Message
  | toText m => some m
  | toTree m => some m
  | toYaml m => some m
  | _ => none

/-- Whether the operation comes to a payload that is to be made, or to be read from a mapping, so
that its kind has to be known. -/
def needsKind : CodecCall → Bool
  | blank => true
  | ofText _ => true
  | ofTree tree => tree.isMapping
  | ofYaml text =>
    match Shape.tree.ofYaml text with
    | .ok tree => tree.isMapping
    | .error _ => false
  | _ => false

end CodecCall

namespace PayloadType

/-- Whether a kind of payloads is known. -/
def isKnown (p : PayloadType) : Bool := p.kind?.isSome

/-- A message name stands for one kind at most. -/
lemma eq_of_messageName_eq {p q : PayloadType} (hname : p.messageName = q.messageName)
    (hknown : p.isKnown = q.isKnown) : p = q := by
  cases p with
  | known k =>
    cases q with
    | known l => exact congrArg known (Kind.messageName_injective hname)
    | unknown name => cases hknown
  | unknown name =>
    cases q with
    | known l => cases hknown
    | unknown name' => exact congrArg unknown hname

end PayloadType

namespace Schema

variable {s t : Schema} {c : CodecCall} {name : String} {k : Kind}

/-- Does an operation. -/
def perform (s : Schema) : CodecCall → Except ModelError CodecResult
  | .blank => CodecResult.message <$> s.blank
  | .toText m => CodecResult.text <$> s.toText m
  | .toTree m => CodecResult.tree <$> s.toTree m
  | .toYaml m => CodecResult.text <$> s.toYaml m
  | .ofText text => CodecResult.message <$> s.ofText text
  | .ofTree tree => CodecResult.message <$> s.ofTree tree
  | .ofYaml text => CodecResult.message <$> s.ofYaml text

/-! ## What the type of the payloads decides -/

/-- The codec looks at nothing but the type of the payloads. -/
lemma perform_congr (h : s.payloadType = t.payloadType) (c : CodecCall) :
    s.perform c = t.perform c := by
  obtain ⟨_, _, p, _⟩ := s
  obtain ⟨_, _, q, _⟩ := t
  obtain rfl : p = q := h
  cases c <;> rfl

/-- Where the kind need not be known, the codec looks at nothing but the message name. -/
lemma perform_eq_of_needsKind_eq_false (hname : s.messageName = t.messageName)
    (hc : c.needsKind = false) : s.perform c = t.perform c := by
  have htoText : s.toText = t.toText := by
    funext m
    rw [toText, toText, checkMessage, checkMessage, hname]
  have htoTree : s.toTree = t.toTree := by
    funext m
    rw [toTree, toTree, htoText]
  have hofTree : ∀ {tree : Json}, tree.isMapping = false → s.ofTree tree = t.ofTree tree := by
    intro tree htree
    cases tree <;> first | rfl | cases htree
  cases c with
  | toText m => rw [perform, perform, htoText]
  | toTree m => rw [perform, perform, htoTree]
  | toYaml m => rw [perform, perform, toYaml, toYaml, htoTree]
  | ofTree tree => rw [perform, perform, hofTree hc]
  | ofYaml text =>
    rw [CodecCall.needsKind] at hc
    rw [perform, perform, ofYaml, ofYaml]
    cases htree : Shape.tree.ofYaml text with
    | error fault => rfl
    | ok tree =>
      rw [htree] at hc
      exact congrArg (CodecResult.message <$> ·) (hofTree hc)
  | blank => cases hc
  | ofText text => cases hc

/-- A payload is written exactly if it is of the type that the schema names. -/
lemma perform_of_written?_eq_some {m : Message} (hc : c.written? = some m) :
    (m.name = s.messageName → ∃ r, s.perform c = .ok r) ∧
      (m.name ≠ s.messageName → s.perform c = .error (.payloadMismatch s.messageName m.name)) := by
  obtain ⟨k, body⟩ := m
  constructor
  · intro hname
    -- a schema of the same name that knows the kind does the same
    let known : Schema := { s with payloadType := .known k }
    have hknown : known.payloadType = .known k := rfl
    have htext := toText_eq_of_known hknown body
    have htree := toTree_eq_of_known hknown body
    have hsame : ∀ {c : CodecCall}, c.needsKind = false → s.perform c = known.perform c :=
      fun hc => perform_eq_of_needsKind_eq_false hname.symm hc
    cases c with
    | toText m => cases hc; exact ⟨_, by rw [hsame rfl, perform, htext]; rfl⟩
    | toTree m => cases hc; exact ⟨_, by rw [hsame rfl, perform, htree]; rfl⟩
    | toYaml m => cases hc; exact ⟨_, by rw [hsame rfl, perform, toYaml, htree]; rfl⟩
    | _ => cases hc
  · intro hname
    have hcheck : s.checkMessage ⟨k, body⟩ =
        .error (.payloadMismatch s.messageName (Message.name ⟨k, body⟩)) := by
      rw [checkMessage, if_neg (by simpa using hname)]
    cases c with
    | toText m => cases hc; rw [perform, toText, hcheck]; rfl
    | toTree m => cases hc; rw [perform, toTree, toText, hcheck]; rfl
    | toYaml m => cases hc; rw [perform, toYaml, toTree, toText, hcheck]; rfl
    | _ => cases hc

/-- What is to be read, but is no mapping, cannot be decoded, whatever the schema. -/
lemma perform_of_written?_eq_none (s : Schema) (hwritten : c.written? = none)
    (hc : c.needsKind = false) : ∃ cause, s.perform c = .error (.decoding cause) := by
  have hofTree : ∀ {tree : Json}, tree.isMapping = false →
      s.ofTree tree = .error (.decoding (.notMapping tree)) := by
    intro tree htree
    cases tree <;> first | rfl | cases htree
  cases c with
  | ofTree tree => exact ⟨_, by rw [perform, hofTree hc]; rfl⟩
  | ofYaml text =>
    rw [CodecCall.needsKind] at hc
    rw [perform, ofYaml]
    cases htree : Shape.tree.ofYaml text with
    | error fault => exact ⟨_, rfl⟩
    | ok tree =>
      rw [htree] at hc
      exact ⟨_, congrArg (CodecResult.message <$> ·) (hofTree hc)⟩
  | blank => cases hc
  | ofText text => cases hc
  | _ => cases hwritten

/-- Where the kind need not be known, an operation writes a payload of the message name, or refuses
one of another message name, or refuses what is no mapping. -/
lemma perform_cases (s : Schema) (hc : c.needsKind = false) :
    (∃ m, c.written? = some m ∧ m.name = s.messageName ∧ ∃ r, s.perform c = .ok r) ∨
      (∃ m, c.written? = some m ∧ m.name ≠ s.messageName ∧
        s.perform c = .error (.payloadMismatch s.messageName m.name)) ∨
      c.written? = none ∧ ∃ cause, s.perform c = .error (.decoding cause) := by
  cases hm : c.written? with
  | none => exact Or.inr (Or.inr ⟨rfl, s.perform_of_written?_eq_none hm hc⟩)
  | some m =>
    obtain ⟨hwritten, hrefused⟩ := perform_of_written?_eq_some (s := s) hm
    by_cases hname : m.name = s.messageName
    · exact Or.inl ⟨m, rfl, hname, hwritten hname⟩
    · exact Or.inr (Or.inl ⟨m, rfl, hname, hrefused hname⟩)

/-! ## What the kind decides -/

/-- What needs the kind is to make a payload, or to read one from some JSON text in the end. -/
lemma exists_perform_eq_ofText (hc : c.needsKind = true) :
    c = .blank ∨ ∃ text, ∀ s : Schema, s.perform c = CodecResult.message <$> s.ofText text := by
  have hofTree : ∀ {tree : Json}, tree.isMapping = true →
      ∃ text, ∀ s : Schema, s.ofTree tree = s.ofText text := by
    intro tree htree
    cases tree with
    | null => exact ⟨_, fun _ => rfl⟩
    | object members => exact ⟨_, fun _ => rfl⟩
    | _ => cases htree
  cases c with
  | blank => exact Or.inl rfl
  | ofText text => exact Or.inr ⟨text, fun _ => rfl⟩
  | ofTree tree =>
    obtain ⟨text, htext⟩ := hofTree hc
    exact Or.inr ⟨text, fun s => by rw [perform, htext]⟩
  | ofYaml text =>
    rw [CodecCall.needsKind] at hc
    cases htree : Shape.tree.ofYaml text with
    | error fault => rw [htree] at hc; cases hc
    | ok tree =>
      rw [htree] at hc
      obtain ⟨text', htext⟩ := hofTree hc
      refine Or.inr ⟨text', fun s => ?_⟩
      rw [perform, ofYaml, htree, ← htext]
      rfl
  | _ => cases hc

/-- If the kind has to be known and is not, the message name is reported. -/
lemma perform_of_unknown (hs : s.payloadType = .unknown name) (hc : c.needsKind = true) :
    s.perform c = .error (.unknownMessage name) := by
  have hkind : s.kind = .error (.unknownMessage name) := by
    rw [kind, messageName, hs]
    rfl
  rcases exists_perform_eq_ofText hc with rfl | ⟨text, htext⟩
  · rw [perform, blank, hkind]
    rfl
  · rw [htext, ofText, hkind]
    rfl

/-- If the kind is known, no message name is reported. -/
lemma perform_ne_of_known (hs : s.payloadType = .known k) (hc : c.needsKind = true) :
    s.perform c ≠ .error (.unknownMessage name) := by
  intro h
  rcases exists_perform_eq_ofText hc with rfl | ⟨text, htext⟩
  · have hkind : s.kind = .ok k := by
      rw [kind, hs]
      rfl
    rw [perform, blank, hkind] at h
    cases h
  · rw [htext] at h
    cases hread : s.ofText text with
    | ok m => rw [hread] at h; cases h
    | error fault =>
      obtain ⟨cause, rfl⟩ := decoding_of_ofText hs hread
      rw [hread] at h
      cases h

/-! ## Schemas of an unknown kind -/

/-- **Where a schema reports that its message name is unknown.**  It does so exactly where the kind
of the payloads has to be known.  Of the other operations, those that write a payload of just this
message name succeed; each of the others fails, since the payload is of another message type or
what is to be read is no mapping. -/
theorem perform_of_unknownKind (typeName plural name : String) (validator : Option Validator) :
    let s : Schema := ⟨typeName, plural, .unknown name, validator⟩
    (∀ c, s.perform c = .error (.unknownMessage name) ↔ c.needsKind = true) ∧
      (∀ c, (∃ r, s.perform c = .ok r) ↔ ∃ m, c.written? = some m ∧ m.name = name) ∧
      ∀ c, c.needsKind = false → ∀ fault, s.perform c = .error fault →
        (∃ m, c.written? = some m ∧ fault = .payloadMismatch name m.name) ∨
          ∃ cause, fault = .decoding cause := by
  intro s
  have hs : s.payloadType = .unknown name := rfl
  refine ⟨fun c => ⟨fun h => ?_, perform_of_unknown hs⟩, fun c => ⟨?_, ?_⟩, fun c hc fault h => ?_⟩
  · by_contra hc
    rcases s.perform_cases (eq_false_of_ne_true hc) with
      ⟨m, -, -, r, hr⟩ | ⟨m, -, -, hm⟩ | ⟨-, cause, hcause⟩
    · rw [hr] at h; cases h
    · rw [hm] at h; cases h
    · rw [hcause] at h; cases h
  · rintro ⟨r, hr⟩
    cases hc : c.needsKind with
    | true =>
      rw [perform_of_unknown hs hc] at hr
      cases hr
    | false =>
      rcases s.perform_cases hc with ⟨m, hm, hname, -⟩ | ⟨m, -, -, hm⟩ | ⟨-, cause, hcause⟩
      · exact ⟨m, hm, hname⟩
      · rw [hm] at hr; cases hr
      · rw [hcause] at hr; cases hr
  · rintro ⟨m, hm, hname⟩
    exact (perform_of_written?_eq_some hm).1 hname
  · rcases s.perform_cases hc with ⟨m, -, -, r, hr⟩ | ⟨m, hm, -, hrefused⟩ | ⟨-, cause, hcause⟩
    · rw [hr] at h; cases h
    · exact Or.inl ⟨m, hm, Except.error.inj (h.symm.trans hrefused)⟩
    · exact Or.inr ⟨cause, Except.error.inj (h.symm.trans hcause)⟩

/-- A schema that has the message name of the sample kind of pairs, but does not know the kind. -/
def pairsByName : Schema := ⟨"mock", "mocks", .unknown Kind.pairs.messageName, none⟩

/-- An unknown message name is not always reported: a payload of a kind that bears it is written. -/
theorem not_forall_unknownMessage :
    ¬∀ (typeName plural name : String) (c : CodecCall),
      Schema.perform ⟨typeName, plural, .unknown name, none⟩ c = .error (.unknownMessage name) := by
  intro h
  have hwritten : pairsByName.perform (.toText ⟨.pairs, ({ key := "k" } : PairsConfig)⟩) =
      .error (.unknownMessage Kind.pairs.messageName) := h _ _ _ _
  cases hwritten

/-! ## Schemas that compare as alike -/

/-- **How far schemas that are alike do the same.**  They do the same throughout exactly if both of
them know the kind of their payloads or neither does.  If only one of them knows it, they still do
the same where the kind need not be known, and nowhere else. -/
theorem perform_eq_iff_of_isLike (h : s.isLike t = true) :
    ((∀ c, s.perform c = t.perform c) ↔ s.payloadType.isKnown = t.payloadType.isKnown) ∧
      ∀ c, s.perform c = t.perform c ↔
        c.needsKind = false ∨ s.payloadType.isKnown = t.payloadType.isKnown := by
  have hname : s.messageName = t.messageName := by
    simp only [isLike, Bool.and_eq_true, beq_iff_eq] at h
    exact h.2
  have hboth : s.payloadType.isKnown = t.payloadType.isKnown → ∀ c, s.perform c = t.perform c :=
    fun hknown => perform_congr (PayloadType.eq_of_messageName_eq hname hknown)
  have hone : ∀ c, s.perform c = t.perform c → c.needsKind = true →
      s.payloadType.isKnown = t.payloadType.isKnown := by
    intro c hsame hc
    cases hs : s.payloadType with
    | known k =>
      cases ht : t.payloadType with
      | known l => rfl
      | unknown name =>
        exact absurd (hsame.trans (perform_of_unknown ht hc)) (perform_ne_of_known hs hc)
    | unknown name =>
      cases ht : t.payloadType with
      | known l =>
        exact absurd (hsame.symm.trans (perform_of_unknown hs hc)) (perform_ne_of_known ht hc)
      | unknown name' => rfl
  refine ⟨⟨fun hall => hone .blank (hall .blank) rfl, hboth⟩, fun c => ⟨fun hsame => ?_, ?_⟩⟩
  · cases hc : c.needsKind with
    | true => exact Or.inr (hone c hsame hc)
    | false => exact Or.inl rfl
  · rintro (hc | hknown)
    · exact perform_eq_of_needsKind_eq_false hname hc
    · exact hboth hknown c

/-- A schema of the same three names that knows the kind. -/
def pairsByKind : Schema := ⟨"mock", "mocks", .known .pairs, none⟩

theorem perform_eq_iff_pairs :
    pairsByName.isLike pairsByKind = true ∧
      ((∀ c, pairsByName.perform c = pairsByKind.perform c) ↔
        pairsByName.payloadType.isKnown = pairsByKind.payloadType.isKnown) ∧
      ∀ c, pairsByName.perform c = pairsByKind.perform c ↔
        c.needsKind = false ∨ pairsByName.payloadType.isKnown = pairsByKind.payloadType.isKnown := by
  have halike : pairsByName.isLike pairsByKind = true := by decide
  exact ⟨halike, perform_eq_iff_of_isLike halike⟩

/-- Schemas that are alike need not do the same: only one of these two can make a payload. -/
theorem not_forall_perform_eq :
    ¬∀ s t : Schema, s.isLike t = true → ∀ c, s.perform c = t.perform c := by
  intro h
  have hmade := h pairsByName pairsByKind (by decide) .blank
  cases hmade

end Schema

end ConfigRegistry
