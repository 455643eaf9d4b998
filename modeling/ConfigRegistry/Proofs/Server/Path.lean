/-
# Paths and their order

The path of something in a directory has the components of the directory and one more, which is the
name (`Path.components_join`).  So what is in a directory can be told by names alone: whether it is
to be loaded, and which of two paths comes first.  The order of paths is total, and paths that stand
before each other have the same components; in a directory these are the same name.
-/
import Mathlib.Data.List.Sort
import ConfigRegistry.Proofs.Steps
import ConfigRegistry.Server.Files

namespace ConfigRegistry

namespace Path

/-! ## The order of paths -/

namespace Component

instance : Std.TransOrd Component := inferInstanceAs (Std.TransCmp (compareLex _ _))

instance : Std.LawfulEqOrd Component where
  eq_of_compare {a b} h := by
    obtain ⟨hrank, hname⟩ := compareLex_eq_eq.mp h
    have rank_eq : a.rank = b.rank := Std.LawfulEqOrd.eq_of_compare hrank
    have name_eq : a.name = b.name := Std.LawfulEqOrd.eq_of_compare hname
    cases a <;> cases b <;> simp_all [rank, name]

end Component

lemma le_eq_isLE (p q : Path) : p.le q = (Ord.compare p.components q.components).isLE := by
  rw [le, compare]
  cases Ord.compare p.components q.components <;> rfl

lemma le_trans {p q r : Path} (hpq : p.le q = true) (hqr : q.le r = true) : p.le r = true := by
  rw [le_eq_isLE] at *
  exact Std.TransCmp.isLE_trans hpq hqr

lemma le_total (p q : Path) : (p.le q || q.le p) = true := by
  rw [le_eq_isLE, le_eq_isLE,
    @Std.OrientedCmp.eq_swap _ Ord.compare _ q.components p.components]
  cases Ord.compare p.components q.components <;> rfl

/-- Paths that stand before each other have the same components. -/
lemma components_eq_of_le {p q : Path} (hpq : p.le q = true) (hqp : q.le p = true) :
    p.components = q.components := by
  rw [le_eq_isLE] at hpq hqp
  exact Std.LawfulEqOrd.eq_of_compare (Std.OrientedCmp.isLE_antisymm hpq hqp)

/-! ## What is in a directory -/

/-- The text is one under which a directory can list something. -/
structure IsEntryName (name : String) : Prop where
  slash_not_mem : '/' ∉ name.toList
  ne_empty : name ≠ ""
  ne_current : name ≠ "."
  ne_parent : name ≠ ".."

instance (name : String) : Decidable (IsEntryName name) :=
  decidable_of_iff ('/' ∉ name.toList ∧ name ≠ "" ∧ name ≠ "." ∧ name ≠ "..")
    ⟨fun ⟨slash, empty, current, parent⟩ => ⟨slash, empty, current, parent⟩,
      fun h => ⟨h.slash_not_mem, h.ne_empty, h.ne_current, h.ne_parent⟩⟩

lemma segments_ne_nil (cs : List Char) : segments cs ≠ [] := by
  cases cs with
  | nil => simp [segments]
  | cons c cs =>
    rw [segments]
    split
    · simp
    · split <;> simp

lemma segments_append (cs ds : List Char) :
    segments (cs ++ '/' :: ds) = segments cs ++ segments ds := by
  induction cs with
  | nil => simp [segments]
  | cons c cs ih =>
    rw [List.cons_append, segments, segments, ih]
    split
    · rfl
    · cases h : segments cs with
      | nil => exact absurd h (segments_ne_nil cs)
      | cons segment more => rfl

lemma segments_of_not_mem {cs : List Char} (h : '/' ∉ cs) : segments cs = [cs] := by
  induction cs with
  | nil => rfl
  | cons c cs ih =>
    rw [List.mem_cons, not_or] at h
    rw [segments, ih h.2, if_neg (by simpa using Ne.symm h.1)]

lemma components_of_slash (cs : List Char) :
    components ⟨.ofList ('/' :: cs)⟩ =
      .root :: (segments ('/' :: cs)).filterMap innerComponent := by
  simp [components]

lemma components_of_ne_slash {c : Char} (hc : c ≠ '/') (cs : List Char) {first : List Char}
    {more : List (List Char)} (h : segments (c :: cs) = first :: more) :
    components ⟨.ofList (c :: cs)⟩ =
      (firstComponent first).toList ++ more.filterMap innerComponent := by
  simp [components, h, hc]

/-- What follows a slash adds the components of its segments. -/
lemma components_append {cs : List Char} (hcs : cs ≠ []) (ds : List Char) :
    components ⟨.ofList (cs ++ '/' :: ds)⟩ =
      components ⟨.ofList cs⟩ ++ (segments ds).filterMap innerComponent := by
  obtain ⟨c, cs, rfl⟩ := List.exists_cons_of_ne_nil hcs
  have happend := segments_append (c :: cs) ds
  by_cases hc : c = '/'
  · subst hc
    rw [List.cons_append] at happend ⊢
    rw [components_of_slash, components_of_slash, happend, List.filterMap_append,
      List.cons_append]
  · obtain ⟨first, more, h⟩ := List.exists_cons_of_ne_nil (segments_ne_nil (c :: cs))
    rw [h, List.cons_append, List.cons_append] at happend
    rw [List.cons_append, components_of_ne_slash hc _ happend, components_of_ne_slash hc _ h,
      List.filterMap_append, List.append_assoc]

/-- A slash at the end makes no difference, but it begins the root. -/
lemma components_append_slash (cs ds : List Char) :
    components ⟨.ofList (cs ++ '/' :: ds)⟩ =
      components ⟨.ofList (cs ++ ['/'])⟩ ++ (segments ds).filterMap innerComponent := by
  by_cases hcs : cs = []
  · subst hcs
    have hsegments : segments ('/' :: ds) = [] :: segments ds := segments_append [] ds
    rw [List.nil_append, List.nil_append, components_of_slash, components_of_slash, hsegments]
    rfl
  · rw [components_append hcs ds, components_append hcs []]
    simp [segments, innerComponent]

namespace IsEntryName

variable {name : String} (h : IsEntryName name)

include h

lemma innerComponent_eq : innerComponent name.toList = some (.normal name) := by
  have hempty : name.toList.isEmpty = false := by
    simpa [String.isEmpty_iff] using h.ne_empty
  have hcurrent : name.toList ≠ ['.'] := fun heq => h.ne_current (String.ext heq)
  have hparent : name.toList ≠ ['.', '.'] := fun heq => h.ne_parent (String.ext heq)
  simp [innerComponent, hempty, hcurrent, hparent]

lemma filterMap_segments :
    (segments name.toList).filterMap innerComponent = [.normal name] := by
  rw [segments_of_not_mem h.slash_not_mem, List.filterMap_cons_some h.innerComponent_eq,
    List.filterMap_nil]

/-- A name is a path of one component. -/
lemma components_eq : components ⟨name⟩ = [.normal name] := by
  have hne : name.toList ≠ [] := fun heq => h.ne_empty (String.ext heq)
  obtain ⟨c, cs, hcs⟩ := List.exists_cons_of_ne_nil hne
  have hc : c ≠ '/' := by
    rintro rfl
    exact h.slash_not_mem (hcs ▸ List.mem_cons_self ..)
  have hfirst : firstComponent name.toList = some (.normal name) := by
    rw [firstComponent, if_neg, h.innerComponent_eq]
    simpa using fun heq => h.ne_current (String.ext heq)
  have hsegments := segments_of_not_mem h.slash_not_mem
  rw [hcs] at hsegments hfirst
  have hcomponents := components_of_ne_slash hc cs hsegments
  rwa [← hcs, String.ofList_toList, hcs, hfirst] at hcomponents

end IsEntryName

/-- Something in a directory has one component more than the directory, which is its name. -/
lemma components_join (p : Path) {name : String} (h : IsEntryName name) :
    (p.join ⟨name⟩).components = p.components ++ [.normal name] := by
  obtain ⟨text⟩ := p
  have hroot : ¬((name.toList.head? == some '/') = true) := by
    intro hhead
    exact h.slash_not_mem (List.mem_of_head? (eq_of_beq hhead))
  rw [join, if_neg hroot]
  by_cases hempty : text = ""
  · subst hempty
    exact h.components_eq
  have hne : text.toList ≠ [] := fun heq => hempty (String.ext heq)
  by_cases hslash : text.toList.getLast? = some '/'
  · -- the directory ends with the slash that stands before the name
    obtain ⟨cs, hcs⟩ := List.getLast?_eq_some_iff.mp hslash
    have htext : text = .ofList (cs ++ ['/']) := by rw [← hcs, String.ofList_toList]
    have hjoin : text ++ name = .ofList (cs ++ '/' :: name.toList) :=
      String.ext (by simp [hcs])
    rw [if_pos (by simp [hslash]), hjoin, components_append_slash, h.filterMap_segments, htext]
  · have hjoin : text ++ "/" ++ name = .ofList (text.toList ++ '/' :: name.toList) :=
      String.ext (by simp)
    rw [if_neg (by simp [hslash, hempty]), hjoin, components_append hne, h.filterMap_segments,
      String.ofList_toList]

lemma join_inj {p : Path} {name name' : String} (h : IsEntryName name) (h' : IsEntryName name')
    (heq : (p.join ⟨name⟩).components = (p.join ⟨name'⟩).components) : name = name' := by
  rw [components_join p h, components_join p h'] at heq
  simpa using heq

lemma fileName?_join (p : Path) {name : String} (h : IsEntryName name) :
    (p.join ⟨name⟩).fileName? = some name := by
  rw [fileName?, components_join p h, List.getLast?_append_of_ne_nil] <;> simp

end Path

/-- Whether something in a directory is to be loaded, its name tells. -/
lemma isConfigFile_join (p : Path) {name : String} (h : Path.IsEntryName name) :
    isConfigFile (p.join ⟨name⟩) = isConfigFile ⟨name⟩ := by
  have hname : (⟨name⟩ : Path).fileName? = some name := by
    rw [Path.fileName?, h.components_eq]
    rfl
  rw [isConfigFile, isConfigFile, Path.extension?, Path.extension?, Path.fileName?_join p h, hname]

/-! ## The files to be loaded -/

/-- Of a listing without errors, the files to be loaded are sorted. -/
lemma configFiles_map_ok (paths : List Path) :
    configFiles (paths.map .ok) = .ok ((paths.filter isConfigFile).mergeSort Path.le) := by
  have hpaths : (paths.map .ok : List (Except IoFault Path)).mapM id = .ok paths := by
    rw [mapM_eq_ok_iff, List.forall₂_map_left_iff, List.forall₂_same]
    exact fun _ _ => rfl
  rw [configFiles, hpaths]
  rfl

end ConfigRegistry
