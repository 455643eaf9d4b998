/-
# Which files of a listing are kept, and in which order

Of the paths that a directory lists, those with an extension of configuration files are kept, and
sorted.  Paths may be spelled differently and still be compared as equal (`Path.alike`); they are
then kept or dropped together, because extension and order both go by components, and kept they
stay in the order in which they were listed (`IsStableSort`).  There is only one way of sorting like
that.  Hence the order of a listing shows in the result only among paths that are alike.
-/
import ConfigRegistry.Proofs.Server.Path

namespace ConfigRegistry

namespace Path

/-! ## Paths that are compared as equal -/

/-- Whether two paths are compared as equal. -/
def alike (p q : Path) : Bool := p.compare q == .eq

/-- One path is spelled like another, but for a slash or dot that makes no difference. -/
inductive Respelled : Path → Path → Prop
  | doubledSlash (a b : String) : Respelled ⟨a ++ "//" ++ b⟩ ⟨a ++ "/" ++ b⟩
  | innerDot (a b : String) : Respelled ⟨a ++ "/./" ++ b⟩ ⟨a ++ "/" ++ b⟩
  | slashAtEnd {a : String} (h : a ≠ "") : Respelled ⟨a ++ "/"⟩ ⟨a⟩

variable {p q r : Path}

lemma alike_iff : p.alike q = true ↔ p.components = q.components := by
  rw [alike, beq_iff_eq]
  exact Std.LawfulEqOrd.compare_eq_iff_eq

lemma alike_self (p : Path) : p.alike p = true := alike_iff.mpr rfl

lemma le_of_alike (h : p.alike q = true) : p.le q = true := by
  rw [Path.le, eq_of_beq h]
  rfl

lemma alike_of_le (hpq : p.le q = true) (hqp : q.le p = true) : p.alike q = true :=
  alike_iff.mpr (components_eq_of_le hpq hqp)

/-- What stands between two slashes and makes no component can be left out. -/
lemma components_skip (a b : List Char) {skipped : List Char} (hslash : '/' ∉ skipped)
    (hskip : innerComponent skipped = none) :
    components ⟨.ofList (a ++ '/' :: (skipped ++ '/' :: b))⟩ =
      components ⟨.ofList (a ++ '/' :: b)⟩ := by
  rw [components_append_slash, components_append_slash a b, segments_append,
    segments_of_not_mem hslash]
  simp [hskip]

lemma Respelled.alike (h : Respelled p q) : p.alike q = true := by
  rw [alike_iff]
  cases h with
  | doubledSlash a b =>
    have hskip := components_skip a.toList b.toList (List.not_mem_nil (a := '/')) rfl
    convert hskip using 3 <;> simp [← String.toList_inj]
  | innerDot a b =>
    have hskip := components_skip a.toList b.toList (show '/' ∉ ['.'] by decide) rfl
    convert hskip using 3 <;> simp [← String.toList_inj]
  | @slashAtEnd a ha =>
    have hne : a.toList ≠ [] := fun heq => ha (String.ext heq)
    have happend := components_append hne []
    have hnothing : (segments []).filterMap innerComponent = [] := rfl
    rw [hnothing, List.append_nil] at happend
    convert happend using 2 <;> simp

/-- The file name and the extension go by components. -/
lemma isConfigFile_eq_of_alike (h : p.alike q = true) : isConfigFile p = isConfigFile q := by
  rw [isConfigFile, isConfigFile, extension?, extension?, fileName?, fileName?, alike_iff.mp h]

end Path

/-! ## Stable sorting -/

/-- The paths are sorted, and of those that are alike all are there, as they were given. -/
structure IsStableSort (paths sorted : List Path) : Prop where
  ascending : sorted.Pairwise fun p q => p.le q = true
  stable : ∀ p : Path, sorted.filter p.alike = paths.filter p.alike

section IsStableSort

variable {paths sorted sorted' : List Path} {p : Path}

lemma isStableSort_mergeSort (paths : List Path) :
    IsStableSort paths (paths.mergeSort Path.le) where
  ascending := @List.pairwise_mergeSort _ Path.le (fun _ _ _ => Path.le_trans) Path.le_total paths
  stable p := by
    have halike : (paths.filter p.alike).Pairwise fun q r => q.le r = true := by
      refine List.pairwise_of_forall_mem_list fun q hq r hr => Path.le_of_alike ?_
      have hpq := Path.alike_iff.mp (List.mem_filter.mp hq).2
      have hpr := Path.alike_iff.mp (List.mem_filter.mp hr).2
      exact Path.alike_iff.mpr (hpq.symm.trans hpr)
    have hsublist := @List.sublist_mergeSort _ Path.le paths (fun _ _ _ => Path.le_trans)
      Path.le_total _ halike List.filter_sublist
    have hfilter := hsublist.filter p.alike
    rw [List.filter_filter] at hfilter
    simp only [Bool.and_self] at hfilter
    exact (hfilter.eq_of_length ((List.mergeSort_perm paths Path.le).filter _).length_eq.symm).symm

/-- Every path is kept, as often as it was given. -/
lemma IsStableSort.perm (h : IsStableSort paths sorted) : sorted.Perm paths := by
  refine List.perm_iff_count.mpr fun p => ?_
  rw [← List.count_filter (Path.alike_self p), h.stable p, List.count_filter (Path.alike_self p)]

lemma mem_of_filter_alike_eq {l l' : List Path}
    (h : ∀ p : Path, l.filter p.alike = l'.filter p.alike) (hp : p ∈ l) : p ∈ l' := by
  have hfilter : p ∈ l.filter p.alike := List.mem_filter.mpr ⟨hp, Path.alike_self p⟩
  rw [h p] at hfilter
  exact List.mem_of_mem_filter hfilter

/-- Sorted lists are equal if they have the same paths among those that are alike, in one order. -/
lemma eq_of_filter_alike_eq : {l l' : List Path} → l.Pairwise (fun p q => p.le q = true) →
    l'.Pairwise (fun p q => p.le q = true) →
    (∀ p : Path, l.filter p.alike = l'.filter p.alike) → l = l'
  | [], [], _, _, _ => rfl
  | [], q :: l', _, _, h =>
    absurd (mem_of_filter_alike_eq (fun p => (h p).symm) (List.mem_cons_self ..)) List.not_mem_nil
  | p :: l, [], _, _, h =>
    absurd (mem_of_filter_alike_eq h (List.mem_cons_self ..)) List.not_mem_nil
  | p :: l, q :: l', hl, hl', h => by
    obtain ⟨hp, htail⟩ := List.pairwise_cons.mp hl
    obtain ⟨hq, htail'⟩ := List.pairwise_cons.mp hl'
    -- each of the two is in the other list, so that neither stands before the other
    have hqp : q.le p = true := by
      rcases List.mem_cons.mp (mem_of_filter_alike_eq h (List.mem_cons_self ..)) with rfl | hmem
      · exact Path.le_of_alike (Path.alike_self _)
      · exact hq p hmem
    have hpq : p.le q = true := by
      rcases List.mem_cons.mp (mem_of_filter_alike_eq (fun p => (h p).symm)
        (List.mem_cons_self ..)) with rfl | hmem
      · exact Path.le_of_alike (Path.alike_self _)
      · exact hp q hmem
    have hfirst := h p
    rw [List.filter_cons_of_pos (Path.alike_self p),
      List.filter_cons_of_pos (Path.alike_of_le hpq hqp)] at hfirst
    obtain ⟨rfl, -⟩ := List.cons.inj hfirst
    refine congrArg _ (eq_of_filter_alike_eq htail htail' fun r => ?_)
    have hr := h r
    by_cases hrp : r.alike p = true
    · rw [List.filter_cons_of_pos hrp, List.filter_cons_of_pos hrp] at hr
      exact List.tail_eq_of_cons_eq hr
    · rwa [List.filter_cons_of_neg hrp, List.filter_cons_of_neg hrp] at hr

/-- There is only one way to sort paths like that. -/
lemma isStableSort_iff : IsStableSort paths sorted ↔ paths.mergeSort Path.le = sorted := by
  constructor
  · intro h
    have hsort := isStableSort_mergeSort paths
    exact eq_of_filter_alike_eq hsort.ascending h.ascending fun p =>
      (hsort.stable p).trans (h.stable p).symm
  · rintro rfl
    exact isStableSort_mergeSort paths

/-- Whatever the order in which paths are given, the same components come out of sorting them. -/
lemma IsStableSort.forall₂_alike {paths' : List Path} (hperm : paths.Perm paths')
    (h : IsStableSort paths sorted) (h' : IsStableSort paths' sorted') :
    List.Forall₂ (fun p q => p.alike q = true) sorted sorted' := by
  have hsorted : (sorted.map Path.components).Perm (sorted'.map Path.components) :=
    (h.perm.trans (hperm.trans h'.perm.symm)).map _
  have hascending : ∀ {l : List Path}, l.Pairwise (fun p q => p.le q = true) →
      (l.map Path.components).Pairwise fun c d => (compare c d).isLE = true := by
    intro l hl
    rw [List.pairwise_map]
    exact hl.imp fun hpq => Path.le_eq_isLE _ _ ▸ hpq
  have heq := hsorted.eq_of_pairwise
    (fun c d _ _ hcd hdc => Std.LawfulEqOrd.eq_of_compare (Std.OrientedCmp.isLE_antisymm hcd hdc))
    (hascending h.ascending) (hascending h'.ascending)
  simp only [Path.alike_iff]
  rw [← List.forall₂_map_left_iff (R := fun c q => c = Path.components q),
    ← List.forall₂_map_right_iff, heq]
  exact List.forall₂_same.mpr fun _ _ => rfl

/-- If no two of the paths are alike, they come out in one order only. -/
lemma IsStableSort.eq_of_perm {paths' : List Path} (hperm : paths.Perm paths')
    (hne : paths.Pairwise fun p q => p.alike q = false) (h : IsStableSort paths sorted)
    (h' : IsStableSort paths' sorted') : sorted = sorted' := by
  have hnodup : (paths.map Path.components).Nodup := by
    refine List.pairwise_map.mpr (hne.imp fun hpq heq => ?_)
    rw [Path.alike_iff.mpr heq] at hpq
    cases hpq
  have hsorted := h.perm.trans (hperm.trans h'.perm.symm)
  refine hsorted.eq_of_pairwise (fun p q hp hq hpq hqp => ?_) h.ascending h'.ascending
  exact List.inj_on_of_nodup_map hnodup (h.perm.mem_iff.mp hp)
    (hperm.mem_iff.mpr (h'.perm.mem_iff.mp hq)) (Path.components_eq_of_le hpq hqp)

end IsStableSort

/-! ## Listings -/

section Listings

variable {entries : List (Except IoFault Path)} {paths files : List Path} {fault : IoFault}

/-- The first entry that cannot be read is the fault of the listing. -/
def FirstFault (entries : List (Except IoFault Path)) (fault : IoFault) : Prop :=
  ∃ (before : List Path) (after : List (Except IoFault Path)),
    entries = before.map .ok ++ .error fault :: after

lemma mapM_id_eq_ok_iff : entries.mapM id = .ok paths ↔ entries = paths.map .ok := by
  rw [mapM_eq_ok_iff, ← List.forall₂_eq_eq_eq, List.forall₂_map_right_iff]
  rfl

/-- The entries before the first fault are read, and those after it are not looked at. -/
lemma mapM_id_eq_error_iff : entries.mapM id = .error fault ↔ FirstFault entries fault := by
  constructor
  · intro h
    induction entries with
    | nil => cases h
    | cons entry entries ih =>
      cases entry with
      | error first =>
        obtain rfl : first = fault := Except.error.inj h
        exact ⟨[], entries, rfl⟩
      | ok p =>
        cases hrest : entries.mapM id with
        | ok paths =>
          rw [List.mapM_cons, hrest] at h
          cases h
        | error first =>
          rw [List.mapM_cons, hrest] at h
          obtain rfl : first = fault := Except.error.inj h
          obtain ⟨before, after, rfl⟩ := ih hrest
          exact ⟨p :: before, after, rfl⟩
  · rintro ⟨before, after, rfl⟩
    rw [List.mapM_append, mapM_id_eq_ok_iff.mpr rfl]
    rfl

lemma configFiles_eq_error_iff : configFiles entries = .error fault ↔ FirstFault entries fault := by
  rw [← mapM_id_eq_error_iff, configFiles]
  cases entries.mapM id with
  | error first => exact Iff.rfl
  | ok paths =>
    constructor
    · intro h
      cases h
    · intro h
      cases h

lemma configFiles_eq_ok_iff : configFiles entries = .ok files ↔
    ∃ paths : List Path, entries = paths.map .ok ∧
      IsStableSort (paths.filter isConfigFile) files := by
  rw [configFiles, bind_eq_ok_iff]
  simp only [mapM_id_eq_ok_iff, isStableSort_iff, pure, Except.pure, Except.ok.injEq]

lemma isConfigFile_iff {p : Path} : isConfigFile p = true ↔
    ∃ extension ∈ ["yaml", "yml", "json"], p.extension? = some extension := by
  rw [isConfigFile]
  cases p.extension? with
  | none => simp
  | some extension => simp [configExtensions]

end Listings

/-! ## The order of a listing -/

/-- **Listings are filtered and sorted stably.**  The first entry that cannot be read is the error.
Otherwise the result is the stable sort of the paths with an extension of configuration files.
Paths that are compared as equal, such as those that differ only in slashes and inner dots, are kept
or dropped together.  In whatever order the same paths are listed, the results are alike path by
path, and they are equal if no two of the paths are alike. -/
theorem configFiles_sortsStably :
    (∀ entries fault, configFiles entries = .error fault ↔ FirstFault entries fault) ∧
    (∀ entries files, configFiles entries = .ok files ↔
      ∃ paths : List Path, entries = paths.map .ok ∧
        IsStableSort (paths.filter isConfigFile) files) ∧
    (∀ p, isConfigFile p = true ↔
      ∃ extension ∈ ["yaml", "yml", "json"], p.extension? = some extension) ∧
    (∀ p q : Path, p.alike q = true → isConfigFile p = isConfigFile q) ∧
    (∀ p q : Path, p.alike q = true ↔ p.components = q.components) ∧
    (∀ p q : Path, p.Respelled q → p.alike q = true) ∧
    ∀ paths paths' : List Path, paths.Perm paths' →
      ∃ files files', configFiles (paths.map .ok) = .ok files ∧
        configFiles (paths'.map .ok) = .ok files' ∧
        List.Forall₂ (fun p q => p.alike q = true) files files' ∧
        ((paths.Pairwise fun p q => p.alike q = false) → files = files') := by
  refine ⟨fun _ _ => configFiles_eq_error_iff, fun _ _ => configFiles_eq_ok_iff,
    fun _ => isConfigFile_iff, fun _ _ => Path.isConfigFile_eq_of_alike, fun _ _ => Path.alike_iff,
    fun _ _ => Path.Respelled.alike, fun paths paths' hperm => ?_⟩
  have hsort := isStableSort_mergeSort (paths.filter isConfigFile)
  have hsort' := isStableSort_mergeSort (paths'.filter isConfigFile)
  have hkept := hperm.filter isConfigFile
  exact ⟨_, _, configFiles_map_ok paths, configFiles_map_ok paths',
    hsort.forall₂_alike hkept hsort',
    fun hne => hsort.eq_of_perm hkept (hne.filter _) hsort'⟩

end ConfigRegistry
