/-
# Reading sorted trees

A plain shape reads a sorted tree as it reads the tree itself, provided that no object of it has
a key twice.  The trees that values are written as are of that kind, and so are the trees that are
read by a shape which knows all keys.
-/
import ConfigRegistry.Proofs.Shape.RoundTrip

namespace ConfigRegistry

open Json

mutual

/-- No object of the tree of a value has a key twice. -/
theorem Shape.distinctKeys_encode : {α : Type} → (shape : Shape α) → shape.Plain →
    shape.Lawful → (a : α) → (shape.encode a).DistinctKeys
  | _, .text, _, _, _ => trivial
  | _, .path, _, _, _ => trivial
  | _, .flag, _, _, _ => trivial
  | _, .word, hplain, _, _ => hplain.elim
  | _, .choice _, _, _, _ => trivial
  | _, .tree, hplain, _, _ => hplain.elim
  | _, .texts, _, _, m => by
    refine ⟨?_, distinctKeysMembers_iff.mpr fun e he => ?_⟩
    · show ((mapValues Json.string m.toList).map Prod.fst).Nodup
      rw [map_fst_mapValues]
      exact m.nodup_keys
    · obtain ⟨e', -, rfl⟩ := List.mem_map.mp he
      trivial
  | _, .option _, _, _, none => trivial
  | _, .option content, hplain, h, some a => content.distinctKeys_encode hplain h.2 a
  | _, .list item, hplain, h, l => by
    refine distinctKeysItems_iff.mpr fun x hx => ?_
    obtain ⟨a, -, rfl⟩ := List.mem_map.mp hx
    exact item.distinctKeys_encode hplain h a
  | _, .record _ _ fields, hplain, h, b =>
    ⟨(fields.keys_encode_sublist b).nodup h.1, fields.distinctKeys_encode hplain.2 h.2 b⟩
  | _, .via content _ unpack _, hplain, h, a => content.distinctKeys_encode hplain h (unpack a)

theorem Fields.distinctKeys_encode : {β σ : Type} → (fields : Fields β σ) → fields.Plain →
    fields.Lawful → (b : β) → DistinctKeysMembers (fields.encode b)
  | _, _, .nil, _, _, () => trivial
  | _, _, .cons name presence content more, hplain, h, (a, b) => by
    have hmore := more.distinctKeys_encode hplain.2 h.2.2 b
    rw [Fields.encode]
    split
    · exact hmore
    · exact ⟨content.distinctKeys_encode hplain.1 h.2.1 a, hmore⟩

end

mutual

/-- The shape knows the keys of every object: they are names of fields or of choices. -/
def Shape.KnowsKeys : {α : Type} → Shape α → Prop
  | _, .text | _, .path | _, .flag | _, .word | _, .choice _ => True
  | _, .tree | _, .texts => False
  | _, .option content => content.KnowsKeys
  | _, .list item => item.KnowsKeys
  | _, .record _ strict fields => strict = true ∧ fields.KnowsKeys
  | _, .via content _ _ _ => content.KnowsKeys

/-- The shape of every field knows the keys. -/
def Fields.KnowsKeys : {β σ : Type} → Fields β σ → Prop
  | _, _, .nil => True
  | _, _, .cons _ _ content more => content.KnowsKeys ∧ more.KnowsKeys

end

mutual

/-- A tree in which some object has a key twice is not read by a shape that knows the keys. -/
theorem Shape.distinctKeys_of_ofTree : {α : Type} → (shape : Shape α) → shape.KnowsKeys →
    shape.Lawful → {j : Json} → {a : α} → shape.ofTree j = .ok a → j.DistinctKeys
  | _, .text, _, _, j, a, h => by
    obtain rfl := Shape.ofTree_text_iff.mp h
    trivial
  | _, .path, _, _, j, a, h => by
    obtain rfl := Shape.ofTree_path_iff.mp h
    trivial
  | _, .flag, _, _, j, b, h => by
    obtain rfl := Shape.ofTree_flag_iff.mp h
    trivial
  | _, .word, _, _, j, n, h => by
    cases j with
    | number n => trivial
    | _ => cases h
  | _, .choice names, _, _, j, i, h => by
    obtain ⟨name, -, rfl | rfl⟩ := Shape.ofTree_choice_iff.mp h
    · trivial
    · exact ⟨List.nodup_singleton name, trivial, trivial⟩
  | _, .tree, hknows, _, _, _, _ => hknows.elim
  | _, .texts, hknows, _, _, _, _ => hknows.elim
  | _, .option content, hknows, hlawful, j, o, h => by
    rcases Shape.ofTree_option_iff.mp h with ⟨rfl, -⟩ | ⟨-, a, ha, -⟩
    · trivial
    · exact content.distinctKeys_of_ofTree hknows hlawful.2 ha
  | _, .list item, hknows, hlawful, j, l, h => by
    obtain ⟨items, rfl, hitems⟩ := Shape.ofTree_list_iff.mp h
    refine distinctKeysItems_iff.mpr ?_
    clear h
    induction hitems with
    | nil => simp
    | cons ha _ ih =>
      exact List.forall_mem_cons.mpr ⟨item.distinctKeys_of_ofTree hknows hlawful ha, ih⟩
  | _, .record name strict fields, hknows, hlawful, j, b, h => by
    obtain ⟨rfl, hknows⟩ := hknows
    cases j with
    | object members =>
      obtain ⟨hkeys, hnames, hgathers⟩ := (Shape.ofTree_strict_object_iff hlawful.1).mp h
      refine ⟨hkeys, distinctKeysMembers_iff.mpr fun m hm => ?_⟩
      have hlookup : members.lookup m.1 = some m.2 :=
        (SortedMap.lookup_eq_some_iff_mem hkeys).mpr hm
      exact fields.distinctKeys_of_gathers hknows hlawful.2 hgathers _ (hnames m hm) _ hlookup
    | array items =>
      obtain ⟨hlength, hgathers⟩ := (Shape.ofTree_array_iff hlawful.1).mp h
      have hlook := fields.distinctKeys_of_gathers hknows hlawful.2 hgathers
      exact distinctKeysItems_iff.mpr ((forall_lookup_zip_iff hlawful.1 hlength).mp hlook)
    | _ => cases h
  | _, .via content _ _ _, hknows, hlawful, j, a, h => by
    obtain ⟨b, hb, -⟩ := Shape.ofTree_via_iff.mp h
    exact content.distinctKeys_of_ofTree hknows hlawful hb

theorem Fields.distinctKeys_of_gathers : {β σ : Type} → (fields : Fields β σ) →
    fields.KnowsKeys → fields.Lawful → {look : String → Option Json} → {b : β} →
    fields.Gathers look b → ∀ name ∈ fields.names, ∀ v, look name = some v → v.DistinctKeys
  | _, _, .nil, _, _, _, (), _ => by simp [Fields.names]
  | _, _, .cons name presence content more, hknows, hlawful, look, (a, b), h => by
    refine List.forall_mem_cons.mpr ⟨fun v hv => ?_, ?_⟩
    · have hfirst := h.1
      rw [hv] at hfirst
      exact content.distinctKeys_of_ofTree hknows.1 hlawful.2.1 hfirst
    · exact more.distinctKeys_of_gathers hknows.2 hlawful.2.2 h.2

end

namespace Json

/-! ## What a tree is that has been sorted -/

lemma sorted_eq_null_iff {j : Json} : j.sorted = null ↔ j = null := by
  cases j <;> simp [sorted]

lemma sorted_eq_bool_iff {j : Json} {b : Bool} : j.sorted = bool b ↔ j = bool b := by
  cases j <;> simp [sorted]

lemma sorted_eq_string_iff {j : Json} {a : String} : j.sorted = string a ↔ j = string a := by
  cases j <;> simp [sorted]

lemma exists_mapValues_of_forall {α β : Type} {f : α → β} {l : List (String × β)}
    (h : ∀ e ∈ l, ∃ a, e.2 = f a) : ∃ l', l = mapValues f l' := by
  induction l with
  | nil => exact ⟨[], rfl⟩
  | cons e l ih =>
    obtain ⟨⟨a, ha⟩, hl⟩ := List.forall_mem_cons.mp h
    obtain ⟨l', rfl⟩ := ih hl
    exact ⟨(e.1, a) :: l', congrArg (· :: _) (Prod.ext rfl ha)⟩

lemma mapValues_injective {α β : Type} {f : α → β} (hf : Function.Injective f) :
    Function.Injective (mapValues (κ := String) f) :=
  List.map_injective_iff.mpr fun _ _ h => Prod.ext (Prod.mk.inj h).1 (hf (Prod.mk.inj h).2)

/-- If no key comes twice, each value stands among the sorted members, sorted. -/
lemma mem_sortedMembers {members : List (String × Json)} (h : (members.map Prod.fst).Nodup)
    {m : String × Json} (hm : m ∈ members) : (m.1, m.2.sorted) ∈ sortedMembers [] members := by
  have hlookup := (SortedMap.lookup_eq_some_iff_mem h).mpr hm
  rw [← SortedMap.lookup_eq_some_iff_mem (nodup_keys_sortedMembers members),
    lookup_sortedMembers h, hlookup, Option.map_some]

/-- If no key comes twice, sorting makes texts of nothing else than texts. -/
lemma exists_texts_of_sorted {members : List (String × Json)} (h : (members.map Prod.fst).Nodup)
    {entries : List (String × String)}
    (hsorted : sortedMembers [] members = mapValues string entries) :
    ∃ entries', members = mapValues string entries' ∧
      SortedMap.ofList entries' = SortedMap.ofList entries := by
  have hvalues : ∀ m ∈ members, ∃ a, m.2 = string a := by
    intro m hm
    have hmem := mem_sortedMembers h hm
    rw [hsorted] at hmem
    obtain ⟨e, -, he⟩ := List.mem_map.mp hmem
    exact ⟨e.2, sorted_eq_string_iff.mp (congrArg Prod.snd he).symm⟩
  obtain ⟨entries', rfl⟩ := exists_mapValues_of_forall hvalues
  have htexts := sorted_texts entries'
  rw [sorted, hsorted, object.injEq] at htexts
  have hentries := mapValues_injective (fun _ _ => string.inj) htexts
  exact ⟨entries', rfl, by rw [hentries, SortedMap.ofList_toList]⟩

/-- If no key comes twice, sorting makes one member of no more than one. -/
lemma sortedMembers_eq_singleton {members : List (String × Json)}
    (h : (members.map Prod.fst).Nodup) {k : String}
    (hsorted : sortedMembers [] members = [(k, null)]) : members = [(k, null)] := by
  have hsize : (SortedMap.ofList (mapValues sorted members)).size = members.length := by
    rw [SortedMap.size_ofList_eq_length_iff (mapValues sorted members) |>.mpr (by simpa using h)]
    simp [mapValues]
  have hlength : members.length = 1 := by
    rw [← hsize, SortedMap.size, ← sortedMembers_nil, hsorted]
    rfl
  obtain ⟨⟨l, v⟩, rfl⟩ := List.length_eq_one_iff.mp hlength
  have hmem := mem_sortedMembers h (List.mem_singleton_self (l, v))
  rw [hsorted, List.mem_singleton, Prod.mk.injEq, sorted_eq_null_iff] at hmem
  exact congrArg (fun m => [m]) (Prod.ext hmem.1 hmem.2)

end Json

lemma forall₂_congr_of_mem {α β : Type} {R S : α → β → Prop} {l : List α} {l' : List β}
    (h : ∀ a ∈ l, ∀ b, R a b ↔ S a b) : List.Forall₂ R l l' ↔ List.Forall₂ S l l' := by
  induction l generalizing l' with
  | nil => simp only [List.forall₂_nil_left_iff]
  | cons a l ih =>
    obtain ⟨ha, hl⟩ := List.forall_mem_cons.mp h
    simp only [List.forall₂_cons_left_iff, ha, ih hl]

/-! ## Reading -/

mutual

/-- From the sorted tree the same is read as from the tree. -/
theorem Shape.ofTree_sorted_iff : {α : Type} → (shape : Shape α) → shape.Plain → shape.Lawful →
    {j : Json} → {a : α} → j.DistinctKeys →
    (shape.ofTree j.sorted = .ok a ↔ shape.ofTree j = .ok a)
  | _, .text, _, _, j, a, _ => by
    rw [Shape.ofTree_text_iff, Shape.ofTree_text_iff, sorted_eq_string_iff]
  | _, .path, _, _, j, a, _ => by
    rw [Shape.ofTree_path_iff, Shape.ofTree_path_iff, sorted_eq_string_iff]
  | _, .flag, _, _, j, b, _ => by
    rw [Shape.ofTree_flag_iff, Shape.ofTree_flag_iff, sorted_eq_bool_iff]
  | _, .word, hplain, _, _, _, _ => hplain.elim
  | _, .choice names, _, _, j, i, hj => by
    have hobject : ∀ name, j.sorted = object [(name, null)] ↔ j = object [(name, null)] := by
      intro name
      constructor
      · intro h
        cases j with
        | object members =>
          rw [sorted, object.injEq] at h
          rw [sortedMembers_eq_singleton hj.1 h]
        | _ => cases h
      · rintro rfl
        rfl
    simp only [Shape.ofTree_choice_iff, sorted_eq_string_iff, hobject]
  | _, .tree, hplain, _, _, _, _ => hplain.elim
  | _, .texts, _, _, j, m, hj => by
    rw [Shape.ofTree_texts_iff, Shape.ofTree_texts_iff]
    constructor
    · rintro ⟨entries, h, rfl⟩
      cases j with
      | object members =>
        rw [sorted, object.injEq] at h
        obtain ⟨entries', rfl, hsame⟩ := exists_texts_of_sorted hj.1 h
        exact ⟨entries', rfl, hsame.symm⟩
      | _ => cases h
    · rintro ⟨entries, rfl, rfl⟩
      exact ⟨_, sorted_texts entries, by rw [SortedMap.ofList_toList]⟩
  | _, .option content, hplain, hlawful, j, o, hj => by
    have hcontent : ∀ a, content.ofTree j.sorted = .ok a ↔ content.ofTree j = .ok a :=
      fun a => content.ofTree_sorted_iff hplain hlawful.2 hj
    simp only [Shape.ofTree_option_iff, ne_eq, sorted_eq_null_iff, hcontent]
  | _, .list item, hplain, hlawful, j, l, hj => by
    cases j with
    | array items =>
      have hitems := distinctKeysItems_iff.mp hj
      simp only [sorted, Shape.ofTree_list_iff, array.injEq, exists_eq_left', sortedItems_eq_map,
        List.forall₂_map_left_iff]
      exact forall₂_congr_of_mem fun x hx a => item.ofTree_sorted_iff hplain hlawful (hitems x hx)
    | _ => simp [sorted, Shape.ofTree_list_iff]
  | _, .record name strict fields, hplain, hlawful, j, b, hj => by
    cases j with
    | object members =>
      -- the members stand in another order, but under each key there is the same, sorted
      obtain ⟨hkeys, hvalues⟩ := hj
      have hnodup := nodup_keys_sortedMembers members
      have hknown : (∀ m ∈ sortedMembers [] members, m.1 ∈ fields.names) ↔
          ∀ m ∈ members, m.1 ∈ fields.names := by
        constructor
        · exact fun h m hm => h (m.1, m.2.sorted) (mem_sortedMembers hkeys hm)
        · intro h m hm
          obtain ⟨v, hv⟩ := key_mem_of_mem_sortedMembers hkeys hm
          exact h (m.1, v) hv
      have hlook : ∀ k v, members.lookup k = some v → v.DistinctKeys := by
        intro k v hv
        have hmem := (SortedMap.lookup_eq_some_iff_mem hkeys).mp hv
        exact distinctKeysMembers_iff.mp hvalues (k, v) hmem
      rw [sorted, Shape.ofTree_object_iff hlawful.1 hnodup, Shape.ofTree_object_iff hlawful.1 hkeys,
        hknown]
      simp only [lookup_sortedMembers hkeys]
      rw [fields.gathers_sorted_iff hplain.2 hlawful.2 hlook]
    | array items =>
      have hzip : fields.names.zip (sortedItems items) =
          mapValues sorted (fields.names.zip items) := by
        rw [sortedItems_eq_map, List.zip_map_right]
        rfl
      have hlook : ∀ k v, (fields.names.zip items).lookup k = some v → v.DistinctKeys := by
        intro k v hv
        have hmem := (SortedMap.lookup_eq_some_iff_mem (nodup_keys_zip hlawful.1 items)).mp hv
        exact distinctKeysItems_iff.mp hj v (List.of_mem_zip hmem).2
      rw [sorted, Shape.ofTree_array_iff hlawful.1, Shape.ofTree_array_iff hlawful.1, hzip,
        sortedItems_eq_map, List.length_map]
      simp only [lookup_mapValues]
      rw [fields.gathers_sorted_iff hplain.2 hlawful.2 hlook]
    | _ => simp [sorted, Shape.ofTree_record_iff]
  | _, .via content _ _ _, hplain, hlawful, j, a, hj => by
    have hcontent : ∀ b, content.ofTree j.sorted = .ok b ↔ content.ofTree j = .ok b :=
      fun b => content.ofTree_sorted_iff hplain hlawful hj
    simp only [Shape.ofTree_via_iff, hcontent]

theorem Fields.gathers_sorted_iff : {β σ : Type} → (fields : Fields β σ) → fields.Plain →
    fields.Lawful → {look : String → Option Json} → {b : β} →
    (∀ k v, look k = some v → v.DistinctKeys) →
    (fields.Gathers (fun k => (look k).map sorted) b ↔ fields.Gathers look b)
  | _, _, .nil, _, _, _, (), _ => Iff.rfl
  | _, _, .cons name presence content more, hplain, hlawful, look, (a, b), hlook => by
    rw [Fields.Gathers, Fields.Gathers, more.gathers_sorted_iff hplain.2 hlawful.2.2 hlook]
    cases hname : look name with
    | some v =>
      have hcontent : content.ofTree v.sorted = .ok a ↔ content.ofTree v = .ok a :=
        content.ofTree_sorted_iff hplain.1 hlawful.2.1 (hlook name v hname)
      simp only [Option.map_some, hcontent]
    | none => simp only [Option.map_none]

end

end ConfigRegistry
