/-
# What the loading of a directory depends on

A directory is loaded file by file, and each file document by document.  All of it is loaded exactly
if every file can be read and none of the documents in them fails, taken together (`Loading.Fits`):
those with something in them describe entries, and no two of the entries have one identity.  This is
no matter of files any more, and not of the order of the documents either.  So however documents are
distributed over files, and whatever the files are called, the same entries are created, and a
catalog cannot tell the difference.
-/
import ConfigRegistry.Proofs.Catalog.Dependence
import ConfigRegistry.Proofs.Server.Loading
import ConfigRegistry.Proofs.Server.Path
import ConfigRegistry.Server.FileTree

namespace ConfigRegistry

namespace Loading

/-! ## Documents none of which fails -/

section Fits

variable {d : Descriptor} {taken : Identity → Bool} {r : Reading} {rs more : List Reading}

/-- None of the documents fails where some identities are taken. -/
structure Fits (d : Descriptor) (taken : Identity → Bool) (rs : List Reading) : Prop where
  /-- A document with something in it describes an entry. -/
  described : ∀ r ∈ rs, isFilled r = true → (entryOf? d r).isSome = true
  /-- No two of the entries have one identity. -/
  distinct : ((entriesOf d rs).map Entry.identity).Nodup
  /-- No entry has an identity that is taken. -/
  free : ∀ e ∈ entriesOf d rs, taken e.identity = false

lemma entriesOf_filter_isFilled (d : Descriptor) (rs : List Reading) :
    entriesOf d (rs.filter isFilled) = entriesOf d rs := by
  rw [entriesOf, entriesOf, List.filterMap_filter]
  refine List.filterMap_congr fun r _ => ?_
  rcases r with _ | _ | _ <;> rfl

lemma entriesOf_perm (d : Descriptor)
    (hperm : (rs.filter isFilled).Perm (more.filter isFilled)) :
    (entriesOf d rs).Perm (entriesOf d more) := by
  rw [← entriesOf_filter_isFilled d rs, ← entriesOf_filter_isFilled d more]
  exact hperm.filterMap _

lemma fits_nil (d : Descriptor) (taken : Identity → Bool) : Fits d taken [] where
  described _ hr := absurd hr List.not_mem_nil
  distinct := List.nodup_nil
  free _ he := absurd he List.not_mem_nil

/-- For documents that stand behind others, the identities of these are taken as well. -/
lemma fits_append :
    Fits d taken (rs ++ more) ↔ Fits d taken rs ∧
      Fits d (fun i => taken i || (entriesOf d rs).any fun e => e.identity == i) more := by
  have hfree : ∀ e : Entry,
      (taken e.identity || (entriesOf d rs).any fun e' => e'.identity == e.identity) = false ↔
        taken e.identity = false ∧ ∀ e' ∈ entriesOf d rs, e'.identity ≠ e.identity := by
    intro e
    simp
  have hdistinct := @List.nodup_append _ ((entriesOf d rs).map Entry.identity)
    ((entriesOf d more).map Entry.identity)
  rw [← List.map_append, ← entriesOf_append] at hdistinct
  constructor
  · rintro ⟨described, distinct, free⟩
    obtain ⟨hrs, hmore, hne⟩ := hdistinct.mp distinct
    rw [entriesOf_append] at free
    refine ⟨⟨fun r hr => described r (List.mem_append_left _ hr), hrs,
        fun e he => free e (List.mem_append_left _ he)⟩,
      fun r hr => described r (List.mem_append_right _ hr), hmore, fun e he => ?_⟩
    exact (hfree e).mpr ⟨free e (List.mem_append_right _ he), fun e' he' =>
      hne _ (List.mem_map_of_mem he') _ (List.mem_map_of_mem he)⟩
  · rintro ⟨hrs, hmore⟩
    refine ⟨fun r hr => ?_, hdistinct.mpr ⟨hrs.distinct, hmore.distinct, ?_⟩, fun e he => ?_⟩
    · exact (List.mem_append.mp hr).elim (hrs.described r) (hmore.described r)
    · intro i hi j hj
      obtain ⟨e, he, rfl⟩ := List.mem_map.mp hi
      obtain ⟨e', he', rfl⟩ := List.mem_map.mp hj
      exact ((hfree e').mp (hmore.free e' he')).2 e he
    · rw [entriesOf_append] at he
      exact (List.mem_append.mp he).elim (hrs.free e) fun he =>
        ((hfree e).mp (hmore.free e he)).1

lemma failureOf?_eq_none_iff {index : ℕ} :
    failureOf? d taken path index r = none ↔
      (isFilled r = true → (entryOf? d r).isSome = true) ∧
        ∀ e ∈ (entryOf? d r).toList, taken e.identity = false := by
  match r with
  | .error _ => simp [failureOf?, isFilled, entryOf?]
  | .ok none => simp [failureOf?, isFilled, entryOf?]
  | .ok (some o) =>
    cases h : (d.ofObject o).outcome <;>
      simp [failureOf?, isFilled, entryOf?, h, Except.toOption]

lemma fits_singleton (path : Path) (index : ℕ) :
    Fits d taken [r] ↔ failureOf? d taken path index r = none := by
  rw [failureOf?_eq_none_iff, ← entriesOf_singleton]
  constructor
  · intro h
    exact ⟨h.described r (List.mem_singleton_self r), h.free⟩
  · rintro ⟨described, free⟩
    refine ⟨fun r' hr' => List.mem_singleton.mp hr' ▸ described, ?_, free⟩
    rw [entriesOf_singleton]
    cases entryOf? d r <;> simp

/-- The order of the documents does not count, nor do those with nothing in them. -/
lemma Fits.of_perm (h : Fits d taken rs)
    (hperm : (rs.filter isFilled).Perm (more.filter isFilled)) : Fits d taken more := by
  have hentries := entriesOf_perm d hperm
  refine ⟨fun r hr hfilled => ?_, ?_, fun e he => h.free e (hentries.mem_iff.mpr he)⟩
  · have hmem := hperm.mem_iff.mpr (List.mem_filter.mpr ⟨hr, hfilled⟩)
    exact h.described r (List.mem_filter.mp hmem).1 hfilled
  · exact (hentries.map Entry.identity).nodup_iff.mp h.distinct

lemma Fits.length_entriesOf (h : Fits d taken rs) :
    (entriesOf d rs).length = rs.countP isFilled := by
  refine Loading.length_entriesOf fun r hr => ?_
  match r, h.described r hr with
  | .ok none, _ => rfl
  | .error _, hsome | .ok (some _), hsome => exact hsome rfl

/-- No document of a file fails exactly if, taken together, they fit. -/
lemma forall_failureAt?_eq_none_iff (path : Path) {s : MemoryStore} :
    (∀ k, failureAt? s path rs k = none) ↔ Fits s.descriptor s.taken rs := by
  induction rs using List.reverseRecOn with
  | nil => exact ⟨fun _ => fits_nil _ _, fun _ _ => rfl⟩
  | append_singleton rs r ih =>
    have hbefore : ∀ k < rs.length, failureAt? s path (rs ++ [r]) k = failureAt? s path rs k := by
      intro k hk
      rw [failureAt?, failureAt?, List.getElem?_append_left hk,
        List.take_append_of_le_length hk.le]
    have hlast : failureAt? s path (rs ++ [r]) rs.length = failureOf? s.descriptor
        (fun i => s.taken i || (entriesOf s.descriptor rs).any fun e => e.identity == i)
        path rs.length r := by
      rw [failureAt?, List.getElem?_concat_length, List.take_left]
      rfl
    have hbeyond : ∀ {rs : List Reading} {k : ℕ},
        rs.length ≤ k → failureAt? s path rs k = none := by
      intro rs k hk
      rw [failureAt?, List.getElem?_eq_none hk]
      rfl
    rw [fits_append, ← ih, fits_singleton path rs.length, ← hlast]
    constructor
    · refine fun h => ⟨fun k => ?_, h rs.length⟩
      rcases Nat.lt_or_ge k rs.length with hk | hk
      · exact hbefore k hk ▸ h k
      · exact hbeyond hk
    · rintro ⟨h, hr⟩ k
      rcases Nat.lt_trichotomy k rs.length with hk | rfl | hk
      · exact (hbefore k hk).trans (h k)
      · exact hr
      · exact hbeyond (by rw [List.length_append]; exact hk)

end Fits

end Loading

/-! ## The files of a directory -/

namespace FileSystem

/-- The text of a file can be had. -/
def Readable (fs : FileSystem) (p : Path) : Prop := ∃ text, fs.readText p = .ok text

/-- What the documents of a file read as. -/
def readings (fs : FileSystem) (p : Path) : List Loading.Reading :=
  match fs.readText p with
  | .ok text => Loading.readings text
  | .error _ => []

lemma readings_of_readText {fs : FileSystem} {p : Path} {text : String}
    (h : fs.readText p = .ok text) : fs.readings p = Loading.readings text := by
  rw [readings, h]

/-- A directory has something under each of some names, and nothing else. -/
structure Lists (fs : FileSystem) (folder : Path) (names : List String) : Prop where
  listing : fs.readDirectory folder = .ok (names.map fun name => .ok (folder.join ⟨name⟩))
  proper : ∀ name ∈ names, Path.IsEntryName name

instance (fs : FileSystem) (p : Path) : Decidable (fs.Readable p) :=
  match h : fs.readText p with
  | .ok text => .isTrue ⟨text, h⟩
  | .error _ => .isFalse fun ⟨_, heq⟩ => nomatch h.symm.trans heq

instance (fs : FileSystem) (folder : Path) (names : List String) :
    Decidable (fs.Lists folder names) :=
  decidable_of_iff (fs.readDirectory folder = .ok (names.map fun name => .ok (folder.join ⟨name⟩)) ∧
      ∀ name ∈ names, Path.IsEntryName name)
    ⟨fun ⟨listing, proper⟩ => ⟨listing, proper⟩, fun h => ⟨h.listing, h.proper⟩⟩

/-- The names of the files that are to be loaded, among all names in a directory. -/
def configNames (fs : FileSystem) (folder : Path) (names : List String) : List String :=
  names.filter fun name => isConfigFile ⟨name⟩ && fs.isFile (folder.join ⟨name⟩)

/-- What the documents of the files that are to be loaded read as. -/
def readingsIn (fs : FileSystem) (folder : Path) (names : List String) : List Loading.Reading :=
  (fs.configNames folder names).flatMap fun name => fs.readings (folder.join ⟨name⟩)

/-- Each of the files that are to be loaded can be read. -/
def AllReadable (fs : FileSystem) (folder : Path) (names : List String) : Prop :=
  ∀ name ∈ fs.configNames folder names, fs.Readable (folder.join ⟨name⟩)

/-- Nothing in a directory stands against loading it into an empty store. -/
structure Loadable (fs : FileSystem) (d : Descriptor) (folder : Path) (names : List String) :
    Prop where
  readable : fs.AllReadable folder names
  /-- A document with something in it describes an entry. -/
  described : ∀ r ∈ fs.readingsIn folder names,
    Loading.isFilled r = true → (Loading.entryOf? d r).isSome = true
  /-- No two of the entries have one identity. -/
  distinct : ((Loading.entriesOf d (fs.readingsIn folder names)).map Entry.identity).Nodup

instance (fs : FileSystem) (folder : Path) (names : List String) :
    Decidable (fs.AllReadable folder names) :=
  inferInstanceAs (Decidable (∀ name ∈ fs.configNames folder names, _))

instance (fs : FileSystem) (d : Descriptor) (folder : Path) (names : List String) :
    Decidable (fs.Loadable d folder names) :=
  decidable_of_iff (fs.AllReadable folder names ∧
      (∀ r ∈ fs.readingsIn folder names,
        Loading.isFilled r = true → (Loading.entryOf? d r).isSome = true) ∧
      ((Loading.entriesOf d (fs.readingsIn folder names)).map Entry.identity).Nodup)
    ⟨fun ⟨readable, described, distinct⟩ => ⟨readable, described, distinct⟩,
      fun h => ⟨h.readable, h.described, h.distinct⟩⟩

variable {fs fs' : FileSystem} {d : Descriptor} {folder : Path} {names names' : List String}

lemma loadable_iff (capacity : ℕ) :
    fs.Loadable d folder names ↔ fs.AllReadable folder names ∧
      Loading.Fits d (MemoryStore.withCapacity d capacity).taken (fs.readingsIn folder names) := by
  constructor
  · rintro ⟨readable, described, distinct⟩
    exact ⟨readable, described, distinct, fun _ _ => rfl⟩
  · rintro ⟨readable, described, distinct, -⟩
    exact ⟨readable, described, distinct⟩

/-- Another directory with the same documents is loadable too, if they can be read. -/
lemma Loadable.of_perm {folder' : Path} (h : fs.Loadable d folder names)
    (hreadable : fs'.AllReadable folder' names')
    (hperm : ((fs.readingsIn folder names).filter Loading.isFilled).Perm
      ((fs'.readingsIn folder' names').filter Loading.isFilled)) :
    fs'.Loadable d folder' names' := by
  obtain ⟨-, hfits⟩ := (loadable_iff 1).mp h
  exact (loadable_iff 1).mpr ⟨hreadable, hfits.of_perm hperm⟩

/-- The paths of the files that are to be loaded, in the order in which they are. -/
def configPaths (fs : FileSystem) (folder : Path) (names : List String) : List Path :=
  (((names.map fun name => folder.join ⟨name⟩).filter isConfigFile).mergeSort Path.le).filter
    fs.isFile

lemma configPaths_perm (h : fs.Lists folder names) :
    (fs.configPaths folder names).Perm
      ((fs.configNames folder names).map fun name => folder.join ⟨name⟩) := by
  refine ((List.mergeSort_perm _ _).filter _).trans (.of_eq ?_)
  rw [List.filter_map, List.filter_map, List.filter_filter, configNames]
  refine congrArg _ (List.filter_congr fun name hname => ?_)
  rw [Function.comp, Function.comp, isConfigFile_join folder (h.proper name hname), Bool.and_comm]

lemma configPaths_sorted (fs : FileSystem) (folder : Path) (names : List String) :
    (fs.configPaths folder names).Pairwise fun p q => p.le q = true := by
  have hsorted := @List.pairwise_mergeSort Path Path.le (fun _ _ _ => Path.le_trans) Path.le_total
    ((names.map fun name => folder.join ⟨name⟩).filter isConfigFile)
  exact hsorted.filter fs.isFile

/-- The order in which a directory has been listed does not show in the order of its files. -/
lemma configPaths_eq (h : fs.Lists folder names) (h' : fs'.Lists folder names')
    (hperm : (fs.configNames folder names).Perm (fs'.configNames folder names')) :
    fs.configPaths folder names = fs'.configPaths folder names' := by
  have hmem : ∀ {fs : FileSystem} {names : List String}, fs.Lists folder names →
      ∀ p ∈ fs.configPaths folder names,
        ∃ name, Path.IsEntryName name ∧ folder.join ⟨name⟩ = p := by
    intro fs names h p hp
    obtain ⟨name, hname, heq⟩ := List.mem_map.mp ((configPaths_perm h).mem_iff.mp hp)
    exact ⟨name, h.proper name (List.mem_of_mem_filter hname), heq⟩
  refine List.Perm.eq_of_pairwise (fun p q hp hq hpq hqp => ?_) (configPaths_sorted fs folder names)
    (configPaths_sorted fs' folder names')
    ((configPaths_perm h).trans ((hperm.map _).trans (configPaths_perm h').symm))
  -- two paths in one place have one name
  obtain ⟨name, hname, rfl⟩ := hmem h p hp
  obtain ⟨name', hname', rfl⟩ := hmem h' q hq
  rw [Path.join_inj hname hname' (Path.components_eq_of_le hpq hqp)]

/-- The order in which files are loaded does not count for what is in them. -/
lemma flatMap_configPaths_perm (h : fs.Lists folder names) :
    ((fs.configPaths folder names).flatMap fs.readings).Perm (fs.readingsIn folder names) := by
  have hflat := (configPaths_perm h).flatMap_right fs.readings
  rwa [List.flatMap_map] at hflat

end FileSystem

/-! ## Loading the files of a directory -/

namespace Loading

/-- Loading that begins with an empty store. -/
abbrev fresh (d : Descriptor) (capacity : ℕ) : Loading MemoryStore :=
  { store := .withCapacity d capacity }

variable {revisions : Revisions} {fs fs' : FileSystem} {path folder : Path} {paths : List Path}
  {names names' : List String} {l : Loading MemoryStore}

lemma foldl_file_of_failure {error : StartupError} (h : l.failure = some error) :
    paths.foldl (file revisions fs) l = l := by
  induction paths with
  | nil => rfl
  | cons p paths ih =>
    have hfile : file revisions fs l p = l := by rw [file, next, if_pos (by rw [h]; rfl)]
    rw [List.foldl_cons, hfile, ih]

lemma file_of_fits (revisions : Revisions) (hl : l.failure = none) (hreadable : fs.Readable path)
    (hfits : Fits l.store.descriptor l.store.taken (fs.readings path)) :
    (file revisions fs l path).failure = none ∧
      Adds revisions l (entriesOf l.store.descriptor (fs.readings path))
        (file revisions fs l path) := by
  obtain ⟨text, htext⟩ := hreadable
  rw [FileSystem.readings_of_readText htext] at hfits ⊢
  exact file_of_forall_failureAt? revisions hl htext
    ((forall_failureAt?_eq_none_iff path).mpr hfits)

/-- A file that cannot be read, or whose documents do not fit, ends the loading. -/
lemma exists_failure_file (revisions : Revisions) (hl : l.failure = none)
    (h : ¬(fs.Readable path ∧ Fits l.store.descriptor l.store.taken (fs.readings path))) :
    ∃ error, (file revisions fs l path).failure = some error := by
  cases htext : fs.readText path with
  | error fault => exact ⟨.file path fault, by rw [file_of_readText_error hl htext]; rfl⟩
  | ok text =>
    rw [FileSystem.readings_of_readText htext, ← forall_failureAt?_eq_none_iff path] at h
    have hexists : ∃ k, failureAt? l.store path (Loading.readings text) k ≠ none := by
      by_contra hnone
      exact h ⟨⟨text, htext⟩, fun k => not_not.mp fun hk => hnone ⟨k, hk⟩⟩
    -- the first of the documents that fail
    classical
    obtain ⟨error, herror⟩ := Option.ne_none_iff_exists'.mp (Nat.find_spec hexists)
    exact ⟨error, (file_of_failureAt? revisions hl htext herror
      fun j hj => not_not.mp (Nat.find_min hexists hj)).1⟩

/-- Files are loaded as a whole exactly if all of them can be read and their documents fit, taken
together. -/
lemma foldl_file (revisions : Revisions) (fs : FileSystem) (paths : List Path)
    (hl : l.failure = none) :
    let l' := paths.foldl (file revisions fs) l
    let rs := paths.flatMap fs.readings
    (l'.failure = none ↔
        (∀ p ∈ paths, fs.Readable p) ∧ Fits l.store.descriptor l.store.taken rs) ∧
      (l'.failure = none → Adds revisions l (entriesOf l.store.descriptor rs) l') := by
  induction paths generalizing l with
  | nil =>
    refine ⟨⟨fun _ => ⟨fun p hp => absurd hp List.not_mem_nil, fits_nil _ _⟩, fun _ => hl⟩, ?_⟩
    exact fun _ => Adds.refl revisions l
  | cons p paths ih =>
    simp only [List.foldl_cons, List.flatMap_cons, List.forall_mem_cons, fits_append]
    by_cases hfile : fs.Readable p ∧ Fits l.store.descriptor l.store.taken (fs.readings p)
    · obtain ⟨hreadable, hfits⟩ := hfile
      obtain ⟨hnone, hadds⟩ := file_of_fits revisions hl hreadable hfits
      obtain ⟨hiff, hrest⟩ := ih hnone
      rw [hadds.extends.descriptor_eq, hadds.extends.taken_eq] at hiff
      rw [hadds.extends.descriptor_eq] at hrest
      refine ⟨?_, fun hend => entriesOf_append _ _ _ ▸ hadds.trans (hrest hend)⟩
      rw [hiff]
      exact ⟨fun ⟨hall, hmore⟩ => ⟨⟨hreadable, hall⟩, hfits, hmore⟩,
        fun ⟨⟨_, hall⟩, _, hmore⟩ => ⟨hall, hmore⟩⟩
    · obtain ⟨error, h⟩ := exists_failure_file revisions hl hfile
      rw [foldl_file_of_failure h, h]
      exact ⟨⟨(nomatch ·), fun ⟨⟨hreadable, _⟩, hfits, _⟩ => absurd ⟨hreadable, hfits⟩ hfile⟩,
        (nomatch ·)⟩

lemma directory_eq (h : fs.Lists folder names) (revisions : Revisions)
    (l : Loading MemoryStore) :
    directory revisions fs l folder =
      (fs.configPaths folder names).foldl (file revisions fs) l := by
  have hmap : (names.map fun name => (.ok (folder.join ⟨name⟩) : Except IoFault Path)) =
      (names.map fun name => folder.join ⟨name⟩).map .ok := by
    rw [List.map_map]
    rfl
  rw [directory, h.listing]
  simp only [hmap, configFiles_map_ok]
  rfl

/-- What the loading of a directory does depends on the files that are to be loaded alone. -/
lemma directory_congr (h : fs.Lists folder names) (h' : fs'.Lists folder names')
    (hperm : (fs.configNames folder names).Perm (fs'.configNames folder names'))
    (hread : ∀ name ∈ fs.configNames folder names,
      fs.read (folder.join ⟨name⟩) = fs'.read (folder.join ⟨name⟩)) (revisions : Revisions)
    (l : Loading MemoryStore) :
    directory revisions fs' l folder = directory revisions fs l folder := by
  rw [directory_eq h, directory_eq h', FileSystem.configPaths_eq h h' hperm]
  refine List.foldl_ext _ _ l fun l p hp => ?_
  rw [← FileSystem.configPaths_eq h h' hperm] at hp
  obtain ⟨name, hname, rfl⟩ :=
    List.mem_map.mp ((FileSystem.configPaths_perm h).mem_iff.mp hp)
  rw [file, file, FileSystem.readText, FileSystem.readText, hread name hname]

/-- A directory is loaded into an empty store as a whole exactly if it is loadable. -/
lemma failure_directory_eq_none_iff (h : fs.Lists folder names) (d : Descriptor) (capacity : ℕ)
    (revisions : Revisions) :
    (directory revisions fs (fresh d capacity) folder).failure = none ↔
      fs.Loadable d folder names := by
  have hperm := FileSystem.configPaths_perm h
  have hreadable : (∀ p ∈ fs.configPaths folder names, fs.Readable p) ↔
      fs.AllReadable folder names := by
    simp only [hperm.mem_iff, List.forall_mem_map]
    rfl
  have hfilter := (FileSystem.flatMap_configPaths_perm h).filter isFilled
  rw [directory_eq h, (foldl_file revisions fs _ rfl).1, FileSystem.loadable_iff capacity,
    hreadable]
  exact and_congr_right fun _ => ⟨fun hfits => hfits.of_perm hfilter,
    fun hfits => hfits.of_perm hfilter.symm⟩

/-- What is created from a loadable directory are the entries that the documents in it describe,
in some order. -/
lemma adds_of_loadable {d : Descriptor} (h : fs.Lists folder names)
    (hloadable : fs.Loadable d folder names) (capacity : ℕ) (revisions : Revisions) :
    ∃ entries, entries.Perm (entriesOf d (fs.readingsIn folder names)) ∧
      Adds revisions (fresh d capacity) entries
        (directory revisions fs (fresh d capacity) folder) := by
  have hnone := (failure_directory_eq_none_iff h d capacity revisions).mpr hloadable
  rw [directory_eq h] at hnone ⊢
  exact ⟨_, (FileSystem.flatMap_configPaths_perm h).filterMap _,
    (foldl_file revisions fs _ rfl).2 hnone⟩

lemma outcome_directory_eq_ok_iff (h : fs.Lists folder names) (d : Descriptor) (capacity : ℕ)
    (revisions : Revisions) (n : ℕ) :
    (directory revisions fs (fresh d capacity) folder).outcome = .ok n ↔
      fs.Loadable d folder names ∧ n = (fs.readingsIn folder names).countP isFilled := by
  rw [outcome_eq_ok_iff, failure_directory_eq_none_iff h]
  refine and_congr_right fun hloadable => ?_
  obtain ⟨entries, hperm, hadds⟩ := adds_of_loadable h hloadable capacity revisions
  obtain ⟨-, hfits⟩ := (FileSystem.loadable_iff capacity).mp hloadable
  rw [hadds.created_eq, hperm.length_eq, hfits.length_entriesOf, Nat.zero_add, eq_comm]

end Loading

/-! ## What can be seen of a store after loading -/

/-- A store holds each of some entries, under some revision, and nothing else. -/
structure MemoryStore.HoldsJust (s : MemoryStore) (entries : List Entry) : Prop where
  held : ∀ e ∈ entries, ∃ revision, s.get? e.identity = some (e.withRevision revision)
  nothing_else : ∀ i, i ∉ entries.map Entry.identity → s.get? i = none

namespace MemoryStore

variable {s s' : MemoryStore} {revisions : Loading.Revisions} {first : ℕ}
  {entries entries' : List Entry}

lemma HoldsJust.of_perm (h : s.HoldsJust entries) (hperm : entries.Perm entries') :
    s.HoldsJust entries' where
  held e he := h.held e (hperm.mem_iff.mpr he)
  nothing_else i hi := h.nothing_else i fun hmem =>
    hi ((hperm.map Entry.identity).mem_iff.mp hmem)

/-- Stores that hold just the same entries hold the same but for revisions. -/
lemma HoldsJust.map_get?_eq (h : s.HoldsJust entries) (h' : s'.HoldsJust entries) (i : Identity) :
    (s'.get? i).map (·.withRevision "") = (s.get? i).map (·.withRevision "") := by
  by_cases hi : i ∈ entries.map Entry.identity
  · obtain ⟨e, he, rfl⟩ := List.mem_map.mp hi
    obtain ⟨revision, hheld⟩ := h.held e he
    obtain ⟨revision', hheld'⟩ := h'.held e he
    rw [hheld, hheld']
    rfl
  · rw [h.nothing_else i hi, h'.nothing_else i hi]

lemma Extends.holdsJust {d : Descriptor} {capacity : ℕ}
    (h : (withCapacity d capacity).Extends s entries) : s.HoldsJust entries where
  held := h.held
  nothing_else i hi := h.kept i hi

/-- To create entries one after another is to make the calls that create them. -/
lemma after_creations_of_createAll (h : s.createAll revisions first entries = .ok s') :
    operations.after s
      (creations ((entries.zipIdx first).map fun x => (revisions x.2, x.1))) = s' := by
  induction entries generalizing s first with
  | nil =>
    cases h
    rfl
  | cons e entries ih =>
    rw [createAll_cons] at h
    obtain ⟨s₁, hcreate, h⟩ := bind_eq_ok_iff.mp h
    rw [List.zipIdx_cons, List.map_cons, creations, List.map_cons, Operations.after_cons,
      Operations.step_create_ok (o := operations) (Mutated.changed_eq_ok_iff.mp hcreate)]
    exact ih h

end MemoryStore

/-- Views whose listings can be told apart neither by identities nor by payloads show one
catalog. -/
lemma View.exists_catalog_of_list {σ τ : Type} [ConfigStore σ] [ConfigStore τ] {v : View σ}
    {v' : View τ} {classes classes' plans plans' : List Entry}
    (hclasses : ConfigStore.list v.store Broker.serviceClassType "" = .ok classes)
    (hclasses' : ConfigStore.list v'.store Broker.serviceClassType "" = .ok classes')
    (hclassesEq : classes.map Entry.shownPart = classes'.map Entry.shownPart)
    (hplans : ConfigStore.list v.store Broker.servicePlanType "" = .ok plans)
    (hplans' : ConfigStore.list v'.store Broker.servicePlanType "" = .ok plans')
    (hplansEq : plans.map Entry.shownPart = plans'.map Entry.shownPart) :
    ∃ catalog, v.catalog = .ok catalog ∧ v'.catalog = .ok catalog := by
  have hc : v.serviceClasses = v'.serviceClasses := by
    rw [serviceClasses_of_list hclasses, serviceClasses_of_list hclasses',
      payloads_congr _ hclassesEq]
  have hp : v.servicePlans = v'.servicePlans := by
    rw [servicePlans_of_list hplans, servicePlans_of_list hplans', payloads_congr _ hplansEq]
  have hcatalog := catalog_of_views (serviceClasses_of_list hclasses) (servicePlans_of_list hplans)
  exact ⟨_, hcatalog, catalog_congr hc hp ▸ hcatalog⟩

namespace Loading

/-- What has been loaded into empty stores shows in one catalog if it is the same but for
revisions. -/
lemma exists_catalog_of_adds {revisions revisions' : Revisions} {capacity capacity' : ℕ}
    {entries entries' : List Entry} {l l' : Loading MemoryStore}
    (h : Adds revisions (fresh Broker.known capacity) entries l)
    (h' : Adds revisions' (fresh Broker.known capacity') entries' l')
    (hsame : ∀ i, (l'.store.get? i).map (·.withRevision "") =
      (l.store.get? i).map (·.withRevision "")) (config config' : ViewConfig) :
    ∃ catalog, View.catalog { store := l.store, config } = .ok catalog ∧
      View.catalog { store := l'.store, config := config' } = .ok catalog := by
  have hpayload : ∀ i,
      (l.store.get? i).map Entry.payload = (l'.store.get? i).map Entry.payload := by
    intro i
    have hmap := congrArg (Option.map Entry.payload) (hsame i)
    rw [Option.map_map, Option.map_map] at hmap
    exact hmap.symm
  rw [← MemoryStore.after_creations_of_createAll h.createAll_eq,
    ← MemoryStore.after_creations_of_createAll h'.createAll_eq] at hpayload ⊢
  obtain ⟨classes, classes', hclasses, hclasses', hclassesEq⟩ :=
    MemoryStore.exists_list_of_payload_eq Broker.schemaOfType?_serviceClassType
      fun i _ => hpayload i
  obtain ⟨plans, plans', hplans, hplans', hplansEq⟩ :=
    MemoryStore.exists_list_of_payload_eq Broker.schemaOfType?_servicePlanType
      fun i _ => hpayload i
  exact View.exists_catalog_of_list hclasses hclasses' hclassesEq hplans hplans' hplansEq

/-- **What is loaded from a directory depends on the documents in it only.**  Loading into an empty
store over the types of the broker succeeds exactly if every file that is to be loaded can be read,
every document with something in it describes an entry, and no two of these entries have one
identity; the outcome is then the number of these documents, and the store holds the entries and
nothing else.  If the files of another directory can be read, and hold the same documents in any
order, however they are distributed and whatever the files are called, then the outcome, what the
store holds but for revisions, and the catalog are the same.  Files of other names, sub-directories
and the order of the listing make no difference at all, be the directory loadable or not. -/
theorem directory_loadsDocuments {d : Descriptor} (hd : Broker.descriptor = .ok d) (capacity : ℕ)
    (revisions : Revisions) {fs : FileSystem} {folder : Path} {names : List String}
    (h : fs.Lists folder names) :
    let l := directory revisions fs (fresh d capacity) folder
    let rs := fs.readingsIn folder names
    (∀ n, l.outcome = .ok n ↔ fs.Loadable d folder names ∧ n = rs.countP isFilled) ∧
      (fs.Loadable d folder names →
        l.store.HoldsJust (entriesOf d rs) ∧
        ∀ (capacity' : ℕ) (revisions' : Revisions) (fs' : FileSystem) (folder' : Path)
          (names' : List String), fs'.Lists folder' names' → fs'.AllReadable folder' names' →
          (rs.filter isFilled).Perm ((fs'.readingsIn folder' names').filter isFilled) →
          let l' := directory revisions' fs' (fresh d capacity') folder'
          l'.outcome = l.outcome ∧
          (∀ i, (l'.store.get? i).map (·.withRevision "") =
            (l.store.get? i).map (·.withRevision "")) ∧
          ∀ config config', ∃ catalog, View.catalog { store := l.store, config } = .ok catalog ∧
            View.catalog { store := l'.store, config := config' } = .ok catalog) ∧
      ∀ (fs' : FileSystem) (names' : List String), fs'.Lists folder names' →
        (fs.configNames folder names).Perm (fs'.configNames folder names') →
        (∀ name ∈ fs.configNames folder names,
          fs.read (folder.join ⟨name⟩) = fs'.read (folder.join ⟨name⟩)) →
        directory revisions fs' (fresh d capacity) folder = l := by
  obtain rfl : Broker.known = d := Except.ok.inj (Broker.descriptor_eq_known.symm.trans hd)
  intro l rs
  refine ⟨outcome_directory_eq_ok_iff h Broker.known capacity revisions,
    fun hloadable => ⟨?contents, ?elsewhere⟩, ?listing⟩
  case contents =>
    obtain ⟨entries, hperm, hadds⟩ :=
      adds_of_loadable h hloadable capacity revisions
    exact hadds.extends.holdsJust.of_perm hperm
  case elsewhere =>
    intro capacity' revisions' fs' folder' names' h' hreadable hperm l'
    have hloadable' := hloadable.of_perm hreadable hperm
    obtain ⟨entries, hentries, hadds⟩ := adds_of_loadable h hloadable capacity revisions
    obtain ⟨entries', hentries', hadds'⟩ := adds_of_loadable h' hloadable' capacity' revisions'
    have hall : entries'.Perm entries :=
      hentries'.trans ((entriesOf_perm _ hperm).symm.trans hentries.symm)
    have hsame := hadds.extends.holdsJust.map_get?_eq (hadds'.extends.holdsJust.of_perm hall)
    refine ⟨?_, hsame, exists_catalog_of_adds hadds hadds' hsame⟩
    have houtcome := (outcome_directory_eq_ok_iff h Broker.known capacity revisions _).mpr
      ⟨hloadable, rfl⟩
    have houtcome' := (outcome_directory_eq_ok_iff h' Broker.known capacity' revisions' _).mpr
      ⟨hloadable', rfl⟩
    rw [List.countP_eq_length_filter, ← hperm.length_eq, ← List.countP_eq_length_filter]
      at houtcome'
    exact houtcome'.trans houtcome.symm
  case listing =>
    intro fs' names' h' hperm hread
    exact directory_congr h h' hperm hread revisions _

end Loading

namespace Broker

/-- A class and a plan in one file, with nothing between them, and another class in another file,
beside what is not to be loaded. -/
def twoFiles : FileTree :=
  .directory
    [("b.yaml",
        .file "type: service-class\nname: a\n---\n---\ntype: service-plan\nname: p\n".toUTF8),
      ("notes.txt", .file "type: none".toUTF8), ("old.yaml", .directory []),
      ("a.json", .file "\x7b\"type\": \"service-class\", \"name\": \"z\"\x7d".toUTF8)]

/-- The two files in another order, beside something else. -/
def twoFilesRelisted : FileTree :=
  .directory
    [("a.json", .file "\x7b\"type\": \"service-class\", \"name\": \"z\"\x7d".toUTF8),
      ("old", .directory [("c.yaml", .file "type: none".toUTF8)]),
      ("b.yaml",
        .file "type: service-class\nname: a\n---\n---\ntype: service-plan\nname: p\n".toUTF8)]

/-- The same classes and the same plan in one file. -/
def oneFile : FileTree :=
  .directory
    [("all.yml", .file ("type: service-plan\nname: p\n---\ntype: service-class\nname: z\n" ++
      "---\ntype: service-class\nname: a\n").toUTF8)]

end Broker

/-- Three objects are loaded, however they are distributed. -/
theorem Loading.directory_loadsDocuments_oneFile :
    let revisions : Revisions := fun n => toString n
    let folder : Path := ⟨"conf"⟩
    let names := ["b.yaml", "notes.txt", "old.yaml", "a.json"]
    let fs := Broker.twoFiles.mountedAt folder
    let relisted := Broker.twoFilesRelisted.mountedAt folder
    let regrouped := Broker.oneFile.mountedAt folder
    let l := directory revisions fs (fresh Broker.known 1) folder
    let l' := directory revisions regrouped (fresh Broker.known 2) folder
    fs.Lists folder names ∧ fs.Loadable Broker.known folder names ∧ l.outcome = .ok 3 ∧
      l.store.HoldsJust (entriesOf Broker.known (fs.readingsIn folder names)) ∧
      (regrouped.Lists folder ["all.yml"] ∧ regrouped.AllReadable folder ["all.yml"] ∧
        ((fs.readingsIn folder names).filter isFilled).Perm
          ((regrouped.readingsIn folder ["all.yml"]).filter isFilled) ∧
        l'.outcome = l.outcome ∧
        (∀ i, (l'.store.get? i).map (·.withRevision "") =
          (l.store.get? i).map (·.withRevision "")) ∧
        ∃ catalog, View.catalog { store := l.store } = .ok catalog ∧
          View.catalog { store := l'.store } = .ok catalog) ∧
      directory revisions relisted (fresh Broker.known 1) folder = l := by
  intro revisions folder names fs relisted regrouped l l'
  have h : fs.Lists folder names := by decide +kernel
  have hloadable : fs.Loadable Broker.known folder names := by decide +kernel
  have hregrouped : regrouped.Lists folder ["all.yml"] := by decide +kernel
  have hreadable : regrouped.AllReadable folder ["all.yml"] := by decide +kernel
  have hperm : ((fs.readingsIn folder names).filter isFilled).Perm
      ((regrouped.readingsIn folder ["all.yml"]).filter isFilled) := by decide +kernel
  obtain ⟨houtcome, hwhole, hlisting⟩ :=
    directory_loadsDocuments Broker.descriptor_eq_known 1 revisions h
  obtain ⟨hholds, helsewhere⟩ := hwhole hloadable
  obtain ⟨hsameOutcome, hsame, hcatalog⟩ :=
    helsewhere 2 revisions regrouped folder ["all.yml"] hregrouped hreadable hperm
  exact ⟨h, hloadable, (houtcome 3).mpr ⟨hloadable, by decide +kernel⟩, hholds,
    ⟨hregrouped, hreadable, hperm, hsameOutcome, hsame, hcatalog {} {}⟩,
    hlisting relisted ["a.json", "old", "b.yaml"] (by decide +kernel) (by decide +kernel)
      (by decide +kernel)⟩

end ConfigRegistry
