/-
# Reading the text of a value

A record that passes over fields that it does not know is not plain, so a text may hold much that a
tree would not show.  But the text that such a record is itself written as holds known fields only.
From it the record is read back, as long as its shape is lawful and has no numbers in it
(`Shape.ofText_toText`).  The text is gone through along the shape that has written it, which says
for each field what stands there.
-/
import ConfigRegistry.Proofs.Json.Recognition
import ConfigRegistry.Proofs.Shape.RoundTrip
import ConfigRegistry.Proofs.Shape.Text

namespace ConfigRegistry

open Json Json.Reader

mutual

/-- The shape has no numbers and no trees of any kind. -/
def Shape.Textual : {α : Type} → Shape α → Prop
  | _, .text | _, .path | _, .flag | _, .choice _ | _, .texts => True
  | _, .word | _, .tree => False
  | _, .option content => content.Textual
  | _, .list item => item.Textual
  | _, .record _ _ fields => fields.Textual
  | _, .via content _ _ _ => content.Textual

/-- The shape of every field is textual. -/
def Fields.Textual : {β σ : Type} → Fields β σ → Prop
  | _, _, .nil => True
  | _, _, .cons _ _ content more => content.Textual ∧ more.Textual

end

/-! ## Trees that are written -/

mutual

/-- The tree of a value has no numbers and is nested no deeper than the shape. -/
theorem Shape.fits_encode : {α : Type} → (shape : Shape α) → shape.Textual → (a : α) →
    (shape.encode a).Fits shape.height
  | _, .text, _, a => Fits.string a
  | _, .path, _, a => Fits.string a
  | _, .flag, _, _ => ⟨trivial, Nat.le_refl 0⟩
  | _, .word, h, _ => h.elim
  | _, .choice names, _, i => (Fits.string (names.get i)).mono (Nat.zero_le _)
  | _, .tree, h, _ => h.elim
  | _, .texts, _, m => by
    refine Fits.object fun e he => ?_
    obtain ⟨e', -, rfl⟩ := List.mem_map.mp he
    exact Fits.string e'.2
  | _, .option _, _, none => Fits.null.mono (Nat.zero_le _)
  | _, .option content, h, some a => content.fits_encode h a
  | _, .list item, h, l => by
    refine Fits.array fun x hx => ?_
    obtain ⟨a, -, rfl⟩ := List.mem_map.mp hx
    exact item.fits_encode h a
  | _, .record _ _ fields, h, b => Fits.object (fields.fits_encode h b)
  | _, .via content _ unpack _, h, a => content.fits_encode h (unpack a)

theorem Fields.fits_encode : {β σ : Type} → (fields : Fields β σ) → fields.Textual → (b : β) →
    ∀ m ∈ fields.encode b, m.2.Fits fields.height
  | _, _, .nil, _, () => nofun
  | _, _, .cons name presence content more, h, (a, b) => by
    have hmore : ∀ m ∈ more.encode b, m.2.Fits (max content.height more.height) :=
      fun m hm => (more.fits_encode h.2 b m hm).mono (Nat.le_max_right _ _)
    rw [Fields.encode]
    split
    · exact hmore
    · refine List.forall_mem_cons.mpr ⟨?_, hmore⟩
      exact (content.fits_encode h.1 a).mono (Nat.le_max_left _ _)

end

/-! ## Texts that are read -/

namespace Fields

variable {α β σ : Type} {depth : Nat} {members : List (String × Json)}

/-- The members of the other fields leave a field as it is. -/
lemma threads_later {name : String} {presence : Presence α} {content : Shape α}
    {more : Fields β σ} {found found' : σ} (hname : ∀ m ∈ members, m.1 ≠ name)
    (h : Threads (more.Takes depth) members found found') (o : Option α) :
    Threads ((cons name presence content more).Takes depth) members (o, found) (o, found') := by
  induction h with
  | nil found => exact .nil _
  | cons head _ ih =>
    obtain ⟨hk, hname⟩ := List.forall_mem_cons.mp hname
    exact .cons (takes_later hk head o) (ih hname)

/-- If each member is taken by a field, all of them are read, be the record strict or not. -/
lemma carries_of_threads {fields : Fields β σ} {found found' : σ}
    (h : Threads (fields.Takes depth) members found found') (strict : Bool) :
    Carries (fields.readMember strict depth) members found found' := by
  induction h with
  | nil found => exact .nil found
  | cons head _ ih => exact .cons (head.readsMember strict) ih

end Fields

mutual

/-- A value is read from every text that spells its tree. -/
theorem Shape.reads_encode : {α : Type} → (shape : Shape α) → shape.Textual → shape.Lawful →
    (a : α) → {depth : Nat} → shape.height < depth → (shape.reader depth).Reads (shape.encode a) a
  | _, .text, _, _, a, _, _ => reads_text _ a
  | _, .path, _, _, a, _, _ => reads_text _ a
  | _, .flag, _, _, b, _, _ => reads_flag b
  | _, .word, h, _, _, _, _ => h.elim
  | _, .choice _, _, hlawful, i, _, _ => reads_choice_string (variant_get hlawful i)
  | _, .tree, h, _, _, _, _ => h.elim
  | _, .texts, _, _, m, depth, hdepth => by
    have hread := reads_texts hdepth m.toList
    rw [m.ofList_toList] at hread
    exact hread
  | _, .option content, _, _, none, _, _ => reads_option_null _
  | _, .option content, h, hlawful, some a, _, hdepth =>
    reads_option_some (content.reads_encode h hlawful.2 a hdepth) (hlawful.1 a)
  | _, .list item, h, hlawful, l, depth, hdepth => by
    rw [Shape.height] at hdepth
    refine reads_list (by omega) ?_
    rw [List.forall₂_map_left_iff, List.forall₂_same]
    exact fun a _ => item.reads_encode h hlawful a (by omega)
  | _, .record name strict fields, h, hlawful, b, depth, hdepth => by
    rw [Shape.height] at hdepth
    obtain ⟨found, hthreads, hsettle⟩ :=
      fields.threads_encode h hlawful.1 hlawful.2 b (show fields.height < depth - 1 by omega)
    exact Shape.reads_object (by omega) (Fields.carries_of_threads hthreads strict) hsettle
  | _, .via content pack unpack pack_unpack, h, hlawful, a, depth, hdepth => by
    intro s rest hs
    have hcontent := (content.reads_encode h hlawful (unpack a) hdepth hs).map pack
    rw [pack_unpack] at hcontent
    exact hcontent

/-- The members that a record is written as go into its fields, which then have the values of the
record. -/
theorem Fields.threads_encode : {β σ : Type} → (fields : Fields β σ) → fields.Textual →
    fields.names.Nodup → fields.Lawful → (b : β) → {depth : Nat} → fields.height < depth →
    ∃ found, Threads (fields.Takes depth) (fields.encode b) fields.noneFound found ∧
      fields.settle found = .ok b
  | _, _, .nil, _, _, _, (), _, _ => ⟨(), .nil (), rfl⟩
  | _, _, .cons name presence content more, h, hnames, hlawful, (a, b), depth, hdepth => by
    obtain ⟨hcontent, hmore⟩ := Nat.max_lt.mp hdepth
    obtain ⟨hname, hnames⟩ := List.nodup_cons.mp hnames
    obtain ⟨found, hthreads, hsettle⟩ := more.threads_encode h.2 hnames hlawful.2.2 b hmore
    -- names are different, so the field itself stays as the first member has left it
    have hother : ∀ m ∈ more.encode b, m.1 ≠ name := fun m hm =>
      ne_of_mem_of_not_mem ((more.keys_encode_sublist b).subset (List.mem_map_of_mem hm)) hname
    rw [Fields.encode]
    by_cases homits : presence.omits a = true
    · rw [if_pos homits]
      exact ⟨(none, found), Fields.threads_later hother hthreads none,
        Fields.settle_cons_iff.mpr ⟨Or.inr ⟨rfl, hlawful.1 a homits⟩, hsettle⟩⟩
    · rw [if_neg homits]
      have hfirst := content.reads_encode h.1 hlawful.2.1 a hcontent
      exact ⟨(some a, found),
        .cons (Fields.takes_first hfirst more.noneFound)
          (Fields.threads_later hother hthreads (some a)),
        Fields.settle_cons_iff.mpr ⟨Or.inl rfl, hsettle⟩⟩

end

/-- A value is read from the canonical text of it. -/
theorem Shape.ofText_toText {α : Type} {shape : Shape α} (h : shape.Textual)
    (hlawful : shape.Lawful) (hheight : shape.height < depthLimit) (a : α) :
    shape.ofText (shape.toText a) = .ok a :=
  (shape.reads_encode h hlawful a hheight).run_render (shape.fits_encode h a).numberless

end ConfigRegistry
