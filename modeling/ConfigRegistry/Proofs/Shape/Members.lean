/-
# The members of a record in any order

The members of an object are taken one by one, each into the field of its name.  If no key comes
twice, the order in which they are taken does not matter: the record that is read is the one that
has, in each field, what the object has under the name of the field, or else the default
(`Fields.Gathers`, `Shape.ofTree_object_iff`).
-/
import ConfigRegistry.Proofs.Shape.Tree
import Mathlib.Data.List.Nodup
import Mathlib.Logic.Function.Basic

namespace ConfigRegistry

namespace Json

/-! ## Items under names -/

lemma nodup_keys_zip {names : List String} (hnames : names.Nodup) (items : List Json) :
    ((names.zip items).map Prod.fst).Nodup := by
  induction names generalizing items with
  | nil => simp
  | cons name names ih =>
    obtain ⟨hname, hnames⟩ := List.nodup_cons.mp hnames
    cases items with
    | nil => simp
    | cons j items =>
      refine List.nodup_cons.mpr ⟨fun hmem => hname ?_, ih hnames items⟩
      obtain ⟨m, hm, rfl⟩ := List.mem_map.mp hmem
      exact (List.of_mem_zip hm).1

/-- What is in an array stands under some name, if there are enough names. -/
lemma forall_lookup_zip_iff {names : List String} (hnames : names.Nodup) {items : List Json}
    (hlength : items.length ≤ names.length) {P : Json → Prop} :
    (∀ name ∈ names, ∀ j, (names.zip items).lookup name = some j → P j) ↔ ∀ j ∈ items, P j := by
  simp only [SortedMap.lookup_eq_some_iff_mem (nodup_keys_zip hnames items)]
  constructor
  · intro h j hj
    rw [← List.map_snd_zip hlength] at hj
    obtain ⟨⟨name, j⟩, hmem, rfl⟩ := List.mem_map.mp hj
    exact h name (List.of_mem_zip hmem).1 j hmem
  · intro h name _ j hmem
    exact h j (List.of_mem_zip hmem).2

end Json

namespace Fields

variable {α β σ : Type}

/-- What has been found is what stands under the names of the fields. -/
def Holds : {β σ : Type} → Fields β σ → (String → Option Json) → σ → Prop
  | _, _, .nil, _, () => True
  | _, _, .cons name _ content more, look, (o, found) =>
    (look name).map content.ofTree = o.map Except.ok ∧ more.Holds look found

/-- The fields have the values that stand under their names, and their defaults where nothing
stands. -/
def Gathers : {β σ : Type} → Fields β σ → (String → Option Json) → β → Prop
  | _, _, .nil, _, () => True
  | _, _, .cons name presence content more, look, (a, b) =>
    (match look name with
      | some v => content.ofTree v = .ok a
      | none => presence.fallback = some a) ∧ more.Gathers look b

lemma holds_noneFound : {β σ : Type} → (fields : Fields β σ) →
    fields.Holds (fun _ => none) fields.noneFound
  | _, _, .nil => trivial
  | _, _, .cons _ _ _ more => ⟨rfl, more.holds_noneFound⟩

/-- Only what stands under the names of the fields counts. -/
lemma holds_congr : {β σ : Type} → (fields : Fields β σ) → {look look' : String → Option Json} →
    {found : σ} → (∀ name ∈ fields.names, look name = look' name) →
    (fields.Holds look found ↔ fields.Holds look' found)
  | _, _, .nil, _, _, _, _ => Iff.rfl
  | _, _, .cons name _ content more, look, look', (o, found), h => by
    have hfirst : look name = look' name := h name List.mem_cons_self
    have hmore : more.Holds look found ↔ more.Holds look' found :=
      more.holds_congr fun n hn => h n (List.mem_cons_of_mem _ hn)
    rw [Holds, Holds, hfirst, hmore]

lemma gathers_congr : {β σ : Type} → (fields : Fields β σ) →
    {look look' : String → Option Json} → {b : β} →
    (∀ name ∈ fields.names, look name = look' name) →
    (fields.Gathers look b ↔ fields.Gathers look' b)
  | _, _, .nil, _, _, _, _ => Iff.rfl
  | _, _, .cons name _ content more, look, look', (a, b), h => by
    have hfirst : look name = look' name := h name List.mem_cons_self
    have hmore : more.Gathers look b ↔ more.Gathers look' b :=
      more.gathers_congr fun n hn => h n (List.mem_cons_of_mem _ hn)
    rw [Gathers, Gathers, hfirst, hmore]

/-- What stands under the names determines what has been found. -/
lemma Holds.unique : {β σ : Type} → {fields : Fields β σ} → {look : String → Option Json} →
    {found found' : σ} → fields.Holds look found → fields.Holds look found' → found = found'
  | _, _, .nil, _, (), (), _, _ => rfl
  | _, _, .cons _ _ _ more, _, (o, found), (o', found'), h, h' => by
    have ho : o.map Except.ok = o'.map (Except.ok (ε := Mismatch)) := h.1.symm.trans h'.1
    have hmore := Holds.unique h.2 h'.2
    rw [hmore, Option.map_injective (fun _ _ => Except.ok.inj) ho]

/-- If the fields can hold what stands in either of two places, then they can hold what one has
under a given name and the other under all other names. -/
lemma Holds.exists_update : {β σ : Type} → {fields : Fields β σ} →
    {look look' : String → Option Json} → {found found' : σ} → (k : String) →
    fields.Holds look found → fields.Holds look' found' →
    ∃ found₁, fields.Holds (Function.update look k (look' k)) found₁
  | _, _, .nil, _, _, (), (), _, _, _ => ⟨(), trivial⟩
  | _, _, .cons name _ content more, look, look', (o, found), (o', found'), k, h, h' => by
    obtain ⟨found₁, hfound₁⟩ := Holds.exists_update k h.2 h'.2
    by_cases hk : name = k
    · subst hk
      refine ⟨(o', found₁), ?_, hfound₁⟩
      rw [Function.update_self]
      exact h'.1
    · refine ⟨(o, found₁), ?_, hfound₁⟩
      rw [Function.update_of_ne hk]
      exact h.1

lemma settle_cons_iff {name : String} {presence : Presence α} {content : Shape α}
    {more : Fields β σ} {o : Option α} {found : σ} {a : α} {b : β} :
    (Fields.cons name presence content more).settle (o, found) = .ok (a, b) ↔
      (o = some a ∨ (o = none ∧ presence.fallback = some a)) ∧ more.settle found = .ok b := by
  have hpresence : presence.settle name o = .ok a ↔
      o = some a ∨ (o = none ∧ presence.fallback = some a) := by
    rw [Presence.settle.eq_def]
    cases o <;> cases presence.fallback <;> simp
  rw [Fields.settle, bind_eq_ok_iff, ← hpresence]
  constructor
  · rintro ⟨a', ha, h⟩
    obtain ⟨b', hb, h⟩ := bind_eq_ok_iff.mp h
    cases h
    exact ⟨ha, hb⟩
  · rintro ⟨ha, hb⟩
    exact ⟨a, ha, bind_eq_ok_iff.mpr ⟨b, hb, rfl⟩⟩

/-- The fields of a record have values exactly if each of them has been found or has a default. -/
lemma gathers_iff : {β σ : Type} → (fields : Fields β σ) → {look : String → Option Json} →
    {b : β} → (fields.Gathers look b ↔
      ∃ found, fields.Holds look found ∧ fields.settle found = .ok b)
  | _, _, .nil, _, () => ⟨fun _ => ⟨(), trivial, rfl⟩, fun _ => trivial⟩
  | _, _, .cons name presence content more, look, (a, b) => by
    rw [Gathers, more.gathers_iff]
    constructor
    · rintro ⟨ha, found, hfound, hb⟩
      cases hlook : look name with
      | some v =>
        rw [hlook] at ha
        refine ⟨(some a, found), ⟨?_, hfound⟩, settle_cons_iff.mpr ⟨Or.inl rfl, hb⟩⟩
        rw [hlook, Option.map_some, Option.map_some, ha]
      | none =>
        rw [hlook] at ha
        refine ⟨(none, found), ⟨?_, hfound⟩, settle_cons_iff.mpr ⟨Or.inr ⟨rfl, ha⟩, hb⟩⟩
        rw [hlook, Option.map_none, Option.map_none]
    · rintro ⟨⟨o, found⟩, ⟨ho, hfound⟩, h⟩
      obtain ⟨ha, hb⟩ := settle_cons_iff.mp h
      refine ⟨?_, found, hfound, hb⟩
      rcases ha with rfl | ⟨rfl, ha⟩
      · obtain ⟨v, hv, ha⟩ := Option.map_eq_some_iff.mp ho
        rw [hv]
        exact ha
      · rw [Option.map_eq_none_iff.mp ho]
        exact ha

/-! ## One more member -/

lemma memberOfTree_of_notMem : {β σ : Type} → (fields : Fields β σ) → {k : String} →
    (v : Json) → (found : σ) → k ∉ fields.names → fields.memberOfTree k v found = .ok none
  | _, _, .nil, _, _, _, _ => rfl
  | _, _, .cons name _ _ more, k, v, (o, found), h => by
    have hk : k ≠ name := fun hk => h (hk ▸ List.mem_cons_self)
    have hmore := more.memberOfTree_of_notMem v found fun hk => h (List.mem_cons_of_mem _ hk)
    rw [Fields.memberOfTree.eq_def]
    dsimp only
    rw [if_neg (by simpa using hk), hmore]
    rfl

lemma memberOfTree_ne_ok_none : {β σ : Type} → (fields : Fields β σ) → {k : String} →
    {v : Json} → {found : σ} → k ∈ fields.names → fields.memberOfTree k v found ≠ .ok none
  | _, _, .nil, _, _, _, hk => nomatch hk
  | _, _, .cons name _ content more, k, v, (o, found), hk => by
    rw [Fields.memberOfTree.eq_def]
    dsimp only
    intro h
    split at h
    · cases o with
      | some a => cases h
      | none =>
        obtain ⟨a, -, h⟩ := bind_eq_ok_iff.mp h
        cases h
    · next hname =>
      have hmore : k ∈ more.names := (List.mem_cons.mp hk).resolve_left (by simpa using hname)
      obtain ⟨rest, hrest, h⟩ := bind_eq_ok_iff.mp h
      cases rest with
      | none => exact more.memberOfTree_ne_ok_none hmore hrest
      | some found₁ => cases h

/-- A member whose key is new is found exactly where it belongs. -/
lemma memberOfTree_eq_ok_iff : {β σ : Type} → (fields : Fields β σ) → fields.names.Nodup →
    {look : String → Option Json} → {k : String} → {v : Json} → {found found' : σ} →
    fields.Holds look found → look k = none → k ∈ fields.names →
    (fields.memberOfTree k v found = .ok (some found') ↔
      fields.Holds (Function.update look k (some v)) found')
  | _, _, .nil, _, _, _, _, _, _, _, _, hk => nomatch hk
  | _, _, .cons name presence content more, hnames, look, k, v, (o, found), (o', found'),
      hheld, hnew, hk => by
    obtain ⟨hname, hnames⟩ := List.nodup_cons.mp hnames
    rw [memberOfTree_cons_iff, Holds]
    by_cases hkey : k = name
    · -- the field takes the member, and since names are different, no other field could
      subst hkey
      have ho : o = none := by simpa [hnew, eq_comm] using hheld.1
      have hfound : more.Holds (Function.update look k (some v)) found' ↔ found' = found := by
        have hsame : ∀ n ∈ more.names, Function.update look k (some v) n = look n :=
          fun n hn => Function.update_of_ne (ne_of_mem_of_not_mem hn hname) _ _
        rw [more.holds_congr hsame]
        exact ⟨fun h => h.unique hheld.2, fun h => h ▸ hheld.2⟩
      have hvalue : (some v).map content.ofTree = o'.map Except.ok ↔
          ∃ a, content.ofTree v = .ok a ∧ o' = some a := by
        cases o' <;> simp
      rw [Function.update_self, hfound, hvalue]
      simp [ho, and_comm]
    · -- the field keeps what it has, and one of the others takes the member
      have hk : k ∈ more.names := (List.mem_cons.mp hk).resolve_left hkey
      have ho : o' = o ↔ (look name).map content.ofTree = o'.map Except.ok := by
        rw [hheld.1]
        constructor
        · rintro rfl
          rfl
        · exact fun h => (Option.map_injective (fun _ _ => Except.ok.inj) h).symm
      rw [Function.update_of_ne (Ne.symm hkey), ← ho,
        ← more.memberOfTree_eq_ok_iff hnames hheld.2 hnew hk]
      simp [hkey]

/-- A member that the record has a field for, or may pass over, is found where it belongs. -/
lemma takeMember_eq_ok_iff_holds {fields : Fields β σ} {strict : Bool}
    (hnames : fields.names.Nodup) {look : String → Option Json} {k : String} {v : Json}
    {found found' : σ} (hheld : fields.Holds look found) (hnew : look k = none) :
    fields.takeMember strict found (k, v) = .ok found' ↔
      (strict = true → k ∈ fields.names) ∧
        fields.Holds (Function.update look k (some v)) found' := by
  by_cases hk : k ∈ fields.names
  · rw [← fields.memberOfTree_eq_ok_iff hnames hheld hnew hk, takeMember, bind_eq_ok_iff]
    constructor
    · rintro ⟨o, ho, h⟩
      cases o with
      | none => exact absurd ho (fields.memberOfTree_ne_ok_none hk)
      | some found₁ =>
        cases h
        exact ⟨fun _ => hk, ho⟩
    · rintro ⟨-, h⟩
      exact ⟨_, h, rfl⟩
  · -- no field looks at the key, so nothing changes, and only a strict record minds
    have hsame : ∀ n ∈ fields.names, Function.update look k (some v) n = look n :=
      fun n hn => Function.update_of_ne (ne_of_mem_of_not_mem hn hk) _ _
    have hfound : fields.Holds look found' ↔ found = found' :=
      ⟨fun h => hheld.unique h, fun h => h ▸ hheld⟩
    rw [fields.holds_congr hsame, hfound, takeMember, fields.memberOfTree_of_notMem v found hk]
    cases strict with
    | true => simp [hk, bind, Except.bind]
    | false => simp [bind, Except.bind, pure, Except.pure]

/-- All members are found where they belong, if no key comes twice. -/
lemma foldlM_takeMember_iff {fields : Fields β σ} {strict : Bool} (hnames : fields.names.Nodup)
    {members : List (String × Json)} (hkeys : (members.map Prod.fst).Nodup)
    {look : String → Option Json} {found found' : σ} (hheld : fields.Holds look found)
    (hnew : ∀ m ∈ members, look m.1 = none) :
    members.foldlM (fields.takeMember strict) found = .ok found' ↔
      (strict = true → ∀ m ∈ members, m.1 ∈ fields.names) ∧
        fields.Holds (fun k => (members.lookup k).or (look k)) found' := by
  induction members generalizing look found with
  | nil =>
    have hfound : fields.Holds look found' ↔ found = found' :=
      ⟨fun h => hheld.unique h, fun h => h ▸ hheld⟩
    simp [hfound, pure, Except.pure]
  | cons m members ih =>
    obtain ⟨k, v⟩ := m
    obtain ⟨hk, hkeys⟩ := List.nodup_cons.mp hkeys
    have hlook : look k = none := hnew (k, v) List.mem_cons_self
    have hne : ∀ m ∈ members, m.1 ≠ k := fun m hm h => hk (List.mem_map.mpr ⟨m, hm, h⟩)
    have hnew' : ∀ m ∈ members, Function.update look k (some v) m.1 = none := by
      intro m hm
      rw [Function.update_of_ne (hne m hm)]
      exact hnew m (List.mem_cons_of_mem _ hm)
    have hnone : members.lookup k = none := by
      refine List.lookup_eq_none_iff.mpr fun m hm => ?_
      rw [bne_iff_ne]
      exact (hne m hm).symm
    have hlookup : (fun n => (members.lookup n).or (Function.update look k (some v) n)) =
        fun n => (((k, v) :: members).lookup n).or (look n) := by
      ext1 n
      rw [List.lookup_cons]
      by_cases hn : n = k
      · subst hn
        simp [hnone]
      · simp [hn, beq_eq_false_iff_ne.mpr hn]
    rw [List.foldlM_cons, bind_eq_ok_iff]
    constructor
    · rintro ⟨found₁, hfirst, hrest⟩
      obtain ⟨hknown, hheld₁⟩ := (takeMember_eq_ok_iff_holds hnames hheld hlook).mp hfirst
      obtain ⟨hknown', hall⟩ := (ih hkeys hheld₁ hnew').mp hrest
      rw [hlookup] at hall
      refine ⟨fun hstrict => ?_, hall⟩
      exact List.forall_mem_cons.mpr ⟨hknown hstrict, hknown' hstrict⟩
    · rintro ⟨hknown, hall⟩
      -- what has been found in the end tells what is found after the first member
      obtain ⟨found₁, hheld₁⟩ := hheld.exists_update k hall
      have hv : (((k, v) :: members).lookup k).or (look k) = some v := by simp
      rw [hv] at hheld₁
      refine ⟨found₁, (takeMember_eq_ok_iff_holds hnames hheld hlook).mpr ⟨?_, hheld₁⟩, ?_⟩
      · exact fun hstrict => hknown hstrict _ List.mem_cons_self
      · refine (ih hkeys hheld₁ hnew').mpr ⟨fun hstrict m hm => ?_, ?_⟩
        · exact hknown hstrict m (List.mem_cons_of_mem _ hm)
        · rw [hlookup]
          exact hall

/-! ## Keys that come twice -/

/-- A field takes a member only if nothing has been found for it. -/
lemma Holds.eq_none_of_memberOfTree : {β σ : Type} → {fields : Fields β σ} →
    {look : String → Option Json} → {k : String} → {v : Json} → {found found' : σ} →
    fields.Holds look found → fields.memberOfTree k v found = .ok (some found') → look k = none
  | _, _, .nil, _, _, _, _, _, _, h => by cases h
  | _, _, .cons _ _ _ more, _, _, _, (o, found), (o', found'), hheld, h => by
    rcases memberOfTree_cons_iff.mp h with ⟨rfl, rfl, -, -⟩ | ⟨-, -, hmore⟩
    · exact Option.map_eq_none_iff.mp hheld.1
    · exact Holds.eq_none_of_memberOfTree hheld.2 hmore

/-- A strict record takes no key twice. -/
lemma nodup_keys_of_foldlM_takeMember {fields : Fields β σ} (hnames : fields.names.Nodup)
    {members : List (String × Json)} {look : String → Option Json} {found found' : σ}
    (hheld : fields.Holds look found)
    (h : members.foldlM (fields.takeMember true) found = .ok found') :
    (members.map Prod.fst).Nodup ∧ ∀ m ∈ members, look m.1 = none := by
  induction members generalizing look found with
  | nil => simp
  | cons m members ih =>
    obtain ⟨k, v⟩ := m
    rw [List.foldlM_cons] at h
    obtain ⟨found₁, hfirst, hrest⟩ := bind_eq_ok_iff.mp h
    have hnew : look k = none :=
      hheld.eq_none_of_memberOfTree (takeMember_eq_ok_iff.mp hfirst)
    have hheld₁ := ((takeMember_eq_ok_iff_holds hnames hheld hnew).mp hfirst).2
    obtain ⟨hnodup, hfree⟩ := ih hheld₁ hrest
    -- what stands under the key from now on keeps the later members away from it
    have hne : ∀ m ∈ members, m.1 ≠ k := by
      intro m hm hk
      have hfree := hfree m hm
      rw [hk, Function.update_self] at hfree
      cases hfree
    constructor
    · refine List.nodup_cons.mpr ⟨fun hk => ?_, hnodup⟩
      obtain ⟨m, hm, hmk⟩ := List.mem_map.mp hk
      exact hne m hm hmk
    · refine List.forall_mem_cons.mpr ⟨hnew, fun m hm => ?_⟩
      rw [← hfree m hm, Function.update_of_ne (hne m hm)]

/-! ## The items of an array -/

/-- An array stands for the object that has its items under the names of the fields, in this
order. -/
lemma positionalOfTree_iff : {β σ : Type} → (fields : Fields β σ) → fields.names.Nodup →
    {record : String} → {count index : Nat} → {items : List Json} → {b : β} →
    (fields.positionalOfTree record count index items = .ok (b, []) ↔
      items.length ≤ fields.names.length ∧
        fields.Gathers (fun k => (fields.names.zip items).lookup k) b)
  | _, _, .nil, _, record, count, index, items, () => by
    cases items with
    | nil => simp [Fields.positionalOfTree, names, Gathers]
    | cons v items => simp [Fields.positionalOfTree, names]
  | _, _, .cons name presence content more, hnames, record, count, index, items, (a, b) => by
    obtain ⟨hname, hnames⟩ := List.nodup_cons.mp hnames
    rw [positionalOfTree_cons_iff, names, Gathers]
    cases items with
    | nil =>
      have hmore : more.positionalOfTree record count (index + 1) [] = .ok (b, []) ↔ _ :=
        more.positionalOfTree_iff hnames
      simp only [List.zip_nil_right, List.lookup_nil] at hmore ⊢
      simp [hmore]
    | cons v items =>
      have hmore : more.positionalOfTree record count (index + 1) items = .ok (b, []) ↔ _ :=
        more.positionalOfTree_iff hnames
      have hsame : more.Gathers (fun k => ((name :: more.names).zip (v :: items)).lookup k) b ↔
          more.Gathers (fun k => (more.names.zip items).lookup k) b := by
        refine more.gathers_congr fun n hn => ?_
        have hne : n ≠ name := ne_of_mem_of_not_mem hn hname
        rw [List.zip_cons_cons, List.lookup_cons, beq_eq_false_iff_ne.mpr hne]
      rw [hsame]
      simp [hmore, and_left_comm]

end Fields

/-- From an object in which no key comes twice, the record is read that has in each field what
stands under its name. -/
theorem Shape.ofTree_object_iff {β σ : Type} {name : String} {strict : Bool} {fields : Fields β σ}
    (hnames : fields.names.Nodup) {members : List (String × Json)}
    (hkeys : (members.map Prod.fst).Nodup) {b : β} :
    (Shape.record name strict fields).ofTree (.object members) = .ok b ↔
      (strict = true → ∀ m ∈ members, m.1 ∈ fields.names) ∧
        fields.Gathers (fun k => members.lookup k) b := by
  have hfold : ∀ found, members.foldlM (fields.takeMember strict) fields.noneFound = .ok found ↔
      (strict = true → ∀ m ∈ members, m.1 ∈ fields.names) ∧
        fields.Holds (fun k => members.lookup k) found := by
    intro found
    rw [Fields.foldlM_takeMember_iff hnames hkeys fields.holds_noneFound fun _ _ => rfl]
    simp only [Option.or_none]
  rw [fields.gathers_iff, ofTree_record_iff]
  constructor
  · rintro (⟨members', found, h, hfound, hsettle⟩ | ⟨items, h, -⟩)
    · cases h
      obtain ⟨hknown, hheld⟩ := (hfold found).mp hfound
      exact ⟨hknown, found, hheld, hsettle⟩
    · cases h
  · rintro ⟨hknown, found, hheld, hsettle⟩
    exact Or.inl ⟨members, found, rfl, (hfold found).mpr ⟨hknown, hheld⟩, hsettle⟩

/-- From an object a strict record is read exactly if no key comes twice, every key is the name of
a field, and the fields have what stands under their names. -/
theorem Shape.ofTree_strict_object_iff {β σ : Type} {name : String} {fields : Fields β σ}
    (hnames : fields.names.Nodup) {members : List (String × Json)} {b : β} :
    (Shape.record name true fields).ofTree (.object members) = .ok b ↔
      (members.map Prod.fst).Nodup ∧ (∀ m ∈ members, m.1 ∈ fields.names) ∧
        fields.Gathers (fun k => members.lookup k) b := by
  constructor
  · intro h
    have hkeys : (members.map Prod.fst).Nodup := by
      rcases ofTree_record_iff.mp h with ⟨members', found, heq, hfound, -⟩ | ⟨items, heq, -⟩
      · cases heq
        exact (Fields.nodup_keys_of_foldlM_takeMember hnames fields.holds_noneFound hfound).1
      · cases heq
    obtain ⟨hknown, hgathers⟩ := (ofTree_object_iff hnames hkeys).mp h
    exact ⟨hkeys, hknown rfl, hgathers⟩
  · rintro ⟨hkeys, hknown, hgathers⟩
    exact (ofTree_object_iff hnames hkeys).mpr ⟨fun _ => hknown, hgathers⟩

/-- From an array a record is read exactly if there are at most as many items as fields, and the
fields have the items in their order. -/
theorem Shape.ofTree_array_iff {β σ : Type} {name : String} {strict : Bool} {fields : Fields β σ}
    (hnames : fields.names.Nodup) {items : List Json} {b : β} :
    (Shape.record name strict fields).ofTree (.array items) = .ok b ↔
      items.length ≤ fields.names.length ∧
        fields.Gathers (fun k => (fields.names.zip items).lookup k) b := by
  rw [← fields.positionalOfTree_iff hnames, ofTree_record_iff]
  constructor
  · rintro (⟨_, _, h, -⟩ | ⟨items', h, hb⟩)
    · cases h
    · cases h
      exact hb
  · intro h
    exact Or.inr ⟨items, rfl, h⟩

end ConfigRegistry
