/-
# How often validators run

Whatever is done with a store, and with the descriptor that it has, comes down to a row of
submissions: entries that are to be written to the store, entries that are to be checked, and
objects that are to be read.  What a file submits as it is loaded depends on how far it gets, as the
first document that fails ends the loading.

Where every schema has a validator, one of them runs for each submission that is sound, which means
that its type is known, that there is a payload, and that this passes the structural checks.  What
comes of the submission makes no difference, but the store does: a store in memory has each entry
validated that it is to write, and a store that cannot be changed has none.
-/
import ConfigRegistry.Proofs.Catalog.Policy
import ConfigRegistry.Proofs.Model.Checks
import ConfigRegistry.Proofs.Server.Loading

namespace ConfigRegistry

/-! ## Submissions -/

/-- An occasion for a validator to run. -/
inductive Submission where
  /-- An entry is to be written to the store. -/
  | write (e : Entry)
  /-- An entry is to be checked by the descriptor. -/
  | check (e : Entry)
  /-- An object is to be read as an entry. -/
  | read (o : ConfigObject)

/-- The numbers of sound submissions. -/
structure Tally where
  written : ℕ
  checked : ℕ
  read : ℕ
deriving DecidableEq, Repr

/-- How many times a validator is to run; `vets` tells whether the store has entries validated that
it is to write. -/
def Tally.runs (t : Tally) (vets : Bool) : ℕ :=
  match vets with
  | true => t.written + t.checked + t.read
  | false => t.checked + t.read

namespace Submission

/-- A sound entry is to be written. -/
def isSoundWrite (d : Descriptor) : Submission → Bool
  | write e => d.passes e
  | _ => false

/-- A sound entry is to be checked. -/
def isSoundCheck (d : Descriptor) : Submission → Bool
  | check e => d.passes e
  | _ => false

/-- A sound object is to be read. -/
def isSoundRead (d : Descriptor) : Submission → Bool
  | read o => d.reads o
  | _ => false

/-- How many of the submissions are sound. -/
def tally (d : Descriptor) (l : List Submission) : Tally where
  written := l.countP (isSoundWrite d)
  checked := l.countP (isSoundCheck d)
  read := l.countP (isSoundRead d)

/-- How often a validator runs because of a submission. -/
def runs (d : Descriptor) (vets : Bool) : Submission → ℕ
  | write e => if vets then (d.validate e).runs else 0
  | check e => (d.validate e).runs
  | read o => (d.ofObject o).runs

/-- How often a validator runs because of several submissions. -/
def totalRuns (d : Descriptor) (vets : Bool) : List Submission → ℕ
  | [] => 0
  | x :: more => x.runs d vets + totalRuns d vets more

lemma totalRuns_singleton (d : Descriptor) (vets : Bool) (x : Submission) :
    totalRuns d vets [x] = x.runs d vets := rfl

lemma totalRuns_append (d : Descriptor) (vets : Bool) (l more : List Submission) :
    totalRuns d vets (l ++ more) = totalRuns d vets l + totalRuns d vets more := by
  induction l with
  | nil => rw [List.nil_append, totalRuns, Nat.zero_add]
  | cons x l ih => rw [List.cons_append, totalRuns, totalRuns, ih, Nat.add_assoc]

section Vetted

variable {d : Descriptor}

lemma countP_cons_eq_toNat_add {α : Type} (p : α → Bool) (a : α) (l : List α) :
    (a :: l).countP p = (p a).toNat + l.countP p := by
  rw [List.countP_cons, Nat.add_comm]
  cases p a <;> rfl

/-- Where every schema has a validator, one runs if a submission is sound. -/
lemma runs_eq (h : d.Vetted) (vets : Bool) (x : Submission) :
    x.runs d vets =
      (if vets then (x.isSoundWrite d).toNat else 0) + (x.isSoundCheck d).toNat +
        (x.isSoundRead d).toNat := by
  cases x with
  | write e => simp [runs, Descriptor.validate_runs h, isSoundWrite, isSoundCheck, isSoundRead]
  | check e => simp [runs, Descriptor.validate_runs h, isSoundWrite, isSoundCheck, isSoundRead]
  | read o => simp [runs, Descriptor.ofObject_runs h, isSoundWrite, isSoundCheck, isSoundRead]

lemma totalRuns_eq_runs_tally (h : d.Vetted) (vets : Bool) (l : List Submission) :
    totalRuns d vets l = (tally d l).runs vets := by
  induction l with
  | nil => cases vets <;> rfl
  | cons x l ih =>
    rw [totalRuns, ih, runs_eq h]
    simp only [tally, countP_cons_eq_toNat_add, Tally.runs]
    cases vets <;> simp only [if_true, Bool.false_eq_true, if_false] <;> omega

end Vetted

end Submission

open Submission (totalRuns totalRuns_singleton totalRuns_append)

/-! ## Changes of a store -/

/-- How a store goes about changes: its descriptor stays, whether a change succeeds or fails, and it
either has each entry validated that it is to write or has none validated. -/
structure Handling (σ : Type) [ConfigStore σ] (vets : Bool) : Prop where
  create_runs : ∀ (s : σ) (revision : String) (e : Entry),
    (ConfigStore.create s revision e).runs =
      Submission.runs (ConfigStore.descriptor s) vets (.write e)
  update_runs : ∀ (s : σ) (revision : String) (e : Entry),
    (ConfigStore.update s revision e).runs =
      Submission.runs (ConfigStore.descriptor s) vets (.write e)
  delete_runs : ∀ (s : σ) (i : Identity), (ConfigStore.delete s i).runs = 0
  descriptor_create : ∀ (s : σ) (revision : String) (e : Entry),
    ConfigStore.descriptor (ConfigStore.create s revision e).store = ConfigStore.descriptor s
  descriptor_update : ∀ (s : σ) (revision : String) (e : Entry),
    ConfigStore.descriptor (ConfigStore.update s revision e).store = ConfigStore.descriptor s
  descriptor_delete : ∀ (s : σ) (i : Identity),
    ConfigStore.descriptor (ConfigStore.delete s i).store = ConfigStore.descriptor s

namespace Mutation

variable {σ α β : Type} {m : Mutation σ α} {f : α → Mutation σ β}

/-- No validator runs, whatever the store. -/
def IsSilent (m : Mutation σ α) : Prop := ∀ s, (run s m).runs = 0

lemma runs_bind (s : σ) (m : Mutation σ α) (f : α → Mutation σ β) :
    (run s (m >>= f)).runs =
      (run s m).runs +
        match (run s m).unaudited with
        | (.ok a, s') => (run s' (f a)).runs
        | (.error _, _) => 0 := by
  show (Mutation.bind m f s).runs = (m s).runs +
    match (m s).unaudited with
    | (.ok a, s') => (f a s').runs
    | (.error _, _) => 0
  rw [Mutation.bind]
  obtain ⟨⟨_ | _, _⟩, _⟩ := m s <;> rfl

lemma IsSilent.bind (hm : m.IsSilent) (hf : ∀ a, (f a).IsSilent) : (m >>= f).IsSilent := by
  intro s
  rw [runs_bind, hm s]
  split
  · next a s' _ => exact (Nat.zero_add _).trans (hf a s')
  · rfl

lemma isSilent_get : (get : Mutation σ σ).IsSilent := fun _ => rfl

lemma isSilent_modify (f : σ → σ) : (modify f : Mutation σ PUnit).IsSilent := fun _ => rfl

lemma isSilent_modifyGet (f : σ → α × σ) : (modifyGet f : Mutation σ α).IsSilent := fun _ => rfl

lemma isSilent_ofExcept (r : Except StoreError α) :
    (liftM (Audited.ofExcept r) : Mutation σ α).IsSilent := fun _ => rfl

lemma isSilent_fail (e : StoreError) : (fail e : Mutation σ α).IsSilent := fun _ => rfl

end Mutation

namespace MemoryStore

open Mutation

variable (s : MemoryStore)

lemma validate_runs (e : Entry) : (s.validate e).runs = (s.descriptor.validate e).runs :=
  Audited.runs_bind_pure _ _

/-- If no validator runs after an entry has been validated, the runs are those of its
validation. -/
lemma validate_bind_runs {m : Mutation MemoryStore Unit} (e : Entry) (hm : m.IsSilent) :
    (run s (liftM (s.validate e) >>= fun _ => m)).runs = (s.descriptor.validate e).runs := by
  rw [runs_bind, ← validate_runs]
  split
  · next s' _ => rw [hm s']; rfl
  · rfl

lemma create_runs (revision : String) (e : Entry) :
    (s.create revision e).runs = (s.descriptor.validate e).runs := by
  refine validate_bind_runs s e ((isSilent_modify _).bind fun _ => isSilent_get.bind fun s' => ?_)
  cases s'.get? e.identity with
  | some current => exact isSilent_fail _
  | none => exact (isSilent_modify _).bind fun _ => isSilent_modify _

lemma update_runs (revision : String) (e : Entry) :
    (s.update revision e).runs = (s.descriptor.validate e).runs := by
  refine validate_bind_runs s e (isSilent_get.bind fun s' => ?_)
  cases s'.get? e.identity with
  | none => exact isSilent_fail _
  | some current =>
    dsimp only
    split
    · exact isSilent_fail _
    · exact (isSilent_modify _).bind fun _ => isSilent_modify _

lemma delete_runs (i : Identity) : (s.delete i).runs = 0 := by
  refine ((isSilent_ofExcept _).bind fun _ => (isSilent_modifyGet _).bind fun removed => ?_) s
  cases removed with
  | none => exact isSilent_fail _
  | some removed => exact isSilent_modify _

lemma handling : Handling MemoryStore true where
  create_runs := create_runs
  update_runs := update_runs
  delete_runs := delete_runs
  descriptor_create s revision e := descriptor_step s (.create revision e)
  descriptor_update s revision e := descriptor_step s (.update revision e)
  descriptor_delete s i := descriptor_step s (.delete i)

end MemoryStore

lemma FixedStore.handling : Handling FixedStore false where
  create_runs _ _ _ := rfl
  update_runs _ _ _ := rfl
  delete_runs _ _ := rfl
  descriptor_create _ _ _ := rfl
  descriptor_update _ _ _ := rfl
  descriptor_delete _ _ := rfl

lemma FailingStore.handling : Handling FailingStore false where
  create_runs _ _ _ := rfl
  update_runs _ _ _ := rfl
  delete_runs _ _ := rfl
  descriptor_create _ _ _ := rfl
  descriptor_update _ _ _ := rfl
  descriptor_delete _ _ := rfl

/-! ## Loading -/

namespace Loading

section Submitted

variable {σ : Type} [ConfigStore σ]

/-- An object is submitted to be read, and then the entry that it describes to be written. -/
def submittedByObject (l : Loading σ) (o : ConfigObject) : List Submission :=
  match ((ConfigStore.descriptor l.store).ofObject o).outcome with
  | .error _ => [.read o]
  | .ok e => [.read o, .write e]

/-- A document submits its object, if there is one. -/
def submittedByDocument (l : Loading σ) (d : Except Yaml.Fault Yaml.Document) : List Submission :=
  match reading d with
  | .ok (some o) => l.submittedByObject o
  | _ => []

/-- Nothing is submitted once loading has ended. -/
def submittedNext (l : Loading σ) (submitted : Loading σ → List Submission) : List Submission :=
  if l.failure.isSome then [] else submitted l

/-- What documents submit, of which the first one has a given number. -/
def submittedByDocuments (revisions : Revisions) (path : Path) (l : Loading σ) :
    ℕ → List (Except Yaml.Fault Yaml.Document) → List Submission
  | _, [] => []
  | index, d :: more =>
    l.submittedNext (submittedByDocument · d) ++
      submittedByDocuments revisions path (l.next (document revisions path index d)) (index + 1)
        more

/-- What a file submits. -/
def submittedByFile (revisions : Revisions) (fs : FileSystem) (l : Loading σ) (path : Path) :
    List Submission :=
  l.submittedNext fun l =>
    match fs.readText path with
    | .error _ => []
    | .ok text => submittedByDocuments revisions path l 0 (Yaml.Document.allOfText text)

/-- What files submit. -/
def submittedByFiles (revisions : Revisions) (fs : FileSystem) (l : Loading σ) :
    List Path → List Submission
  | [] => []
  | path :: more =>
    submittedByFile revisions fs l path ++
      submittedByFiles revisions fs (file revisions fs l path) more

/-- What the files of a directory submit. -/
def submittedByDirectory (revisions : Revisions) (fs : FileSystem) (l : Loading σ) (path : Path) :
    List Submission :=
  match fs.readDirectory path with
  | .error _ => []
  | .ok entries =>
    match configFiles entries with
    | .error _ => []
    | .ok files => submittedByFiles revisions fs l (files.filter fs.isFile)

end Submitted

/-- Loading has come further, and validators have run because of what has been submitted. -/
structure Spends {σ : Type} [ConfigStore σ] (vets : Bool) (l : Loading σ)
    (submitted : List Submission) (l' : Loading σ) : Prop where
  descriptor_eq : ConfigStore.descriptor l'.store = ConfigStore.descriptor l.store
  runs_eq : l'.runs = l.runs + totalRuns (ConfigStore.descriptor l.store) vets submitted

variable {σ : Type} [ConfigStore σ] {vets : Bool} {l l₁ l₂ : Loading σ}
  {submitted more : List Submission}

lemma Spends.stop (h : Spends vets l submitted l₁) (e : StartupError) :
    Spends vets l submitted (l₁.stop e) := ⟨h.descriptor_eq, h.runs_eq⟩

lemma Spends.refl (vets : Bool) (l : Loading σ) : Spends vets l [] l := ⟨rfl, rfl⟩

lemma Spends.trans (h : Spends vets l submitted l₁) (h' : Spends vets l₁ more l₂) :
    Spends vets l (submitted ++ more) l₂ where
  descriptor_eq := h'.descriptor_eq.trans h.descriptor_eq
  runs_eq := by rw [h'.runs_eq, h.runs_eq, h.descriptor_eq, totalRuns_append, Nat.add_assoc]

/-- A step that is not made spends nothing. -/
lemma Spends.next {step : Loading σ → Loading σ} {submitted : Loading σ → List Submission}
    (h : Spends vets l (submitted l) (step l)) :
    Spends vets l (l.submittedNext submitted) (l.next step) := by
  rw [submittedNext, Loading.next]
  split
  · exact Spends.refl vets l
  · exact h

lemma spends_object (hσ : Handling σ vets) (revisions : Revisions) (path : Path) (index : ℕ)
    (o : ConfigObject) (l : Loading σ) :
    Spends vets l (l.submittedByObject o) (l.object revisions path index o) := by
  have hread : Spends vets l [.read o]
      { l with runs := l.runs + ((ConfigStore.descriptor l.store).ofObject o).runs } :=
    ⟨rfl, by rw [totalRuns_singleton]; rfl⟩
  cases houtcome : ((ConfigStore.descriptor l.store).ofObject o).outcome with
  | error fault =>
    simp only [submittedByObject, object, houtcome]
    exact hread.stop _
  | ok e =>
    set made := ConfigStore.create l.store (revisions l.created) e with hmade
    -- the runs of the store count whether it takes the entry or refuses it
    have hwrite : ∀ created, Spends vets l [.read o, .write e]
        { l with
          created, store := made.store,
          runs := l.runs + ((ConfigStore.descriptor l.store).ofObject o).runs + made.runs } := by
      intro created
      refine ⟨hσ.descriptor_create l.store _ e, ?_⟩
      rw [hmade, hσ.create_runs, Nat.add_assoc]
      rfl
    cases hcreate : made.outcome with
    | error fault =>
      simp only [submittedByObject, object, houtcome, ← hmade, hcreate]
      exact (hwrite l.created).stop _
    | ok _ =>
      simp only [submittedByObject, object, houtcome, ← hmade, hcreate]
      exact hwrite (l.created + 1)

lemma spends_document (hσ : Handling σ vets) (revisions : Revisions) (path : Path) (index : ℕ)
    (d : Except Yaml.Fault Yaml.Document) (l : Loading σ) :
    Spends vets l (l.submittedByDocument d) (document revisions path index d l) := by
  rw [document_eq, submittedByDocument]
  match reading d with
  | .error fault => exact (Spends.refl vets l).stop _
  | .ok none => exact Spends.refl vets l
  | .ok (some o) => exact spends_object hσ revisions path index o l

lemma spends_documents (hσ : Handling σ vets) (revisions : Revisions) (path : Path) (index : ℕ)
    (docs : List (Except Yaml.Fault Yaml.Document)) (l : Loading σ) :
    Spends vets l (submittedByDocuments revisions path l index docs)
      (documents revisions path l index docs) := by
  induction docs generalizing index l with
  | nil => exact Spends.refl vets l
  | cons d docs ih =>
    exact (spends_document hσ revisions path index d l).next.trans (ih (index + 1) _)

lemma spends_file (hσ : Handling σ vets) (revisions : Revisions) (fs : FileSystem) (path : Path)
    (l : Loading σ) :
    Spends vets l (submittedByFile revisions fs l path) (file revisions fs l path) := by
  refine Spends.next ?_
  cases fs.readText path with
  | error fault => exact (Spends.refl vets l).stop _
  | ok text => exact spends_documents hσ revisions path 0 _ l

lemma spends_files (hσ : Handling σ vets) (revisions : Revisions) (fs : FileSystem)
    (paths : List Path) (l : Loading σ) :
    Spends vets l (submittedByFiles revisions fs l paths) (paths.foldl (file revisions fs) l) := by
  induction paths generalizing l with
  | nil => exact Spends.refl vets l
  | cons path paths ih => exact (spends_file hσ revisions fs path l).trans (ih _)

lemma spends_directory (hσ : Handling σ vets) (revisions : Revisions) (fs : FileSystem)
    (path : Path) (l : Loading σ) :
    Spends vets l (submittedByDirectory revisions fs l path) (l.directory revisions fs path) := by
  rw [submittedByDirectory, directory]
  cases fs.readDirectory path with
  | error fault => exact (Spends.refl vets l).stop _
  | ok entries =>
    cases hfiles : configFiles entries with
    | error fault => simpa only [hfiles] using (Spends.refl vets l).stop _
    | ok files => simpa only [hfiles] using spends_files hσ revisions fs _ l

end Loading

/-! ## Runs -/

/-- What may be done with a store and with its descriptor. -/
inductive Use where
  | create (revision : String) (e : Entry)
  | update (revision : String) (e : Entry)
  | delete (i : Identity)
  | get (i : Identity)
  | list (typeName space : String)
  | check (e : Entry)
  | readObject (o : ConfigObject)
  | readText (text : String)
  | showObject (e : Entry)
  | showText (e : Entry)
  | serviceClasses (policy : ListErrorPolicy)
  | servicePlans (policy : ListErrorPolicy)
  | plansOf (policy : ListErrorPolicy) (service : String)
  | catalog (policy : ListErrorPolicy)
  | loadFile (revisions : Loading.Revisions) (fs : FileSystem) (path : Path)
  | loadDirectory (revisions : Loading.Revisions) (fs : FileSystem) (path : Path)

/-- What the use of a store leaves behind: the store after it, and the number of times that a
validator has run. -/
structure Effect (σ : Type) where
  store : σ
  runs : ℕ

namespace Effect

variable {σ : Type}

def ofChange (r : Mutated σ Unit) : Effect σ := ⟨r.store, r.runs⟩

/-- An answer leaves the store as it was. -/
def ofAnswer {ε α : Type} (s : σ) (r : Audited ε α) : Effect σ := ⟨s, r.runs⟩

def ofLoading (l : Loading σ) : Effect σ := ⟨l.store, l.runs⟩

end Effect

namespace Use

variable {σ : Type} [ConfigStore σ]

/-- Makes use of a store. -/
def perform (s : σ) : Use → Effect σ
  | create revision e => .ofChange (ConfigStore.create s revision e)
  | update revision e => .ofChange (ConfigStore.update s revision e)
  | delete i => .ofChange (ConfigStore.delete s i)
  | get i => .ofAnswer s (.ofExcept (.ok (ConfigStore.get? s i) : Except StoreError _))
  | list typeName space => .ofAnswer s (.ofExcept (ConfigStore.list s typeName space))
  | check e => .ofAnswer s ((ConfigStore.descriptor s).validate e)
  | readObject o => .ofAnswer s ((ConfigStore.descriptor s).ofObject o)
  | readText text => .ofAnswer s ((ConfigStore.descriptor s).ofYaml text)
  | showObject e => .ofAnswer s (.ofExcept ((ConfigStore.descriptor s).toObject e))
  | showText e => .ofAnswer s (.ofExcept ((ConfigStore.descriptor s).toYaml e))
  | serviceClasses policy => .ofAnswer s (.ofExcept (View.under s policy).serviceClasses)
  | servicePlans policy => .ofAnswer s (.ofExcept (View.under s policy).servicePlans)
  | plansOf policy service => .ofAnswer s (.ofExcept ((View.under s policy).plansOf service))
  | catalog policy => .ofAnswer s (.ofExcept (View.under s policy).catalog)
  | loadFile revisions fs path => .ofLoading (Loading.file revisions fs { store := s } path)
  | loadDirectory revisions fs path =>
    .ofLoading (Loading.directory revisions fs { store := s } path)

/-- Makes use of a store several times; the runs add up. -/
def performAll (s : σ) : List Use → Effect σ
  | [] => ⟨s, 0⟩
  | u :: more =>
    let first := u.perform s
    let rest := performAll first.store more
    ⟨rest.store, first.runs + rest.runs⟩

/-- What the use of a store submits. -/
def submissions (s : σ) : Use → List Submission
  | create _ e => [.write e]
  | update _ e => [.write e]
  | check e => [.check e]
  | readObject o => [.read o]
  | readText text =>
    match ConfigObject.shape.ofYaml text with
    | .error _ => []
    | .ok o => [.read o]
  | loadFile revisions fs path => Loading.submittedByFile revisions fs { store := s } path
  | loadDirectory revisions fs path =>
    Loading.submittedByDirectory revisions fs { store := s } path
  | _ => []

/-- What the use of a store submits, several times. -/
def allSubmissions (s : σ) : List Use → List Submission
  | [] => []
  | u :: more => u.submissions s ++ allSubmissions (u.perform s).store more

end Use

namespace Effect

variable {σ : Type} [ConfigStore σ] {vets : Bool} {s : σ} {submitted : List Submission}

/-- The descriptor is the same as before, and validators have run because of what has been
submitted. -/
structure Follows (vets : Bool) (s : σ) (submitted : List Submission) (x : Effect σ) : Prop where
  descriptor_eq : ConfigStore.descriptor x.store = ConfigStore.descriptor s
  runs_eq : x.runs = totalRuns (ConfigStore.descriptor s) vets submitted

lemma follows_ofChange {r : Mutated σ Unit}
    (hdescriptor : ConfigStore.descriptor r.store = ConfigStore.descriptor s)
    (hruns : r.runs = totalRuns (ConfigStore.descriptor s) vets submitted) :
    (ofChange r).Follows vets s submitted := ⟨hdescriptor, hruns⟩

lemma follows_ofAnswer {ε α : Type} {r : Audited ε α}
    (hruns : r.runs = totalRuns (ConfigStore.descriptor s) vets submitted) :
    (ofAnswer s r).Follows vets s submitted := ⟨rfl, hruns⟩

lemma follows_ofLoading {l : Loading σ} (h : Loading.Spends vets { store := s } submitted l) :
    (ofLoading l).Follows vets s submitted :=
  ⟨h.descriptor_eq, h.runs_eq.trans (Nat.zero_add _)⟩

end Effect

namespace Use

variable {σ : Type} [ConfigStore σ] {vets : Bool}

open Effect

lemma follows_perform (hσ : Handling σ vets) (s : σ) (u : Use) :
    (u.perform s).Follows vets s (u.submissions s) := by
  cases u with
  | create revision e =>
    refine follows_ofChange (hσ.descriptor_create s revision e) ?_
    rw [hσ.create_runs, submissions, totalRuns_singleton]
  | update revision e =>
    refine follows_ofChange (hσ.descriptor_update s revision e) ?_
    rw [hσ.update_runs, submissions, totalRuns_singleton]
  | delete i => exact follows_ofChange (hσ.descriptor_delete s i) (hσ.delete_runs s i)
  | check e => exact follows_ofAnswer (totalRuns_singleton _ vets (.check e)).symm
  | readObject o => exact follows_ofAnswer (totalRuns_singleton _ vets (.read o)).symm
  | readText text =>
    refine follows_ofAnswer ?_
    rw [Descriptor.ofYaml, Audited.runs_ofExcept_bind, submissions]
    cases ConfigObject.shape.ofYaml text with
    | error fault => rfl
    | ok o => exact (totalRuns_singleton _ vets (.read o)).symm
  | loadFile revisions fs path =>
    exact follows_ofLoading (Loading.spends_file hσ revisions fs path _)
  | loadDirectory revisions fs path =>
    exact follows_ofLoading (Loading.spends_directory hσ revisions fs path _)
  | get | list | showObject | showText | serviceClasses | servicePlans | plansOf | catalog =>
    exact follows_ofAnswer rfl

lemma follows_performAll (hσ : Handling σ vets) (s : σ) (uses : List Use) :
    (performAll s uses).Follows vets s (allSubmissions s uses) := by
  induction uses generalizing s with
  | nil => exact ⟨rfl, rfl⟩
  | cons u uses ih =>
    have hfirst := follows_perform hσ s u
    have hrest := ih (u.perform s).store
    refine ⟨hrest.descriptor_eq.trans hfirst.descriptor_eq, ?_⟩
    rw [allSubmissions, totalRuns_append, ← hfirst.runs_eq, ← hfirst.descriptor_eq,
      ← hrest.runs_eq]
    rfl

/-- The tally tells how often validators have run, whatever the store. -/
lemma runs_performAll_of_handling (hσ : Handling σ vets) (s : σ)
    (h : (ConfigStore.descriptor s).Vetted) (uses : List Use) :
    (performAll s uses).runs =
      (Submission.tally (ConfigStore.descriptor s) (allSubmissions s uses)).runs vets :=
  (follows_performAll hσ s uses).runs_eq.trans (Submission.totalRuns_eq_runs_tally h vets _)

end Use

/-- **A validator runs once for each sound submission.**  Validation of a payload makes its checks
in their order, and has the validator run if all the others are passed.  So where every schema has a
validator, the runs of validators can be counted beforehand, whatever is done with a store.  In case
of a store in memory they are as many as there are sound entries to be written, be it by a call or
by the loading of a file, sound entries to be checked, and sound objects to be read, no matter what
comes of it.  A store that cannot be changed does not have the entries validated that it is to
write.  Nothing else makes a validator run. -/
theorem runs_performAll {d : Descriptor} (h : d.Vetted) (uses : List Use) :
    (∀ (s : Schema) (m : Message), s.ValidatesInOrder m) ∧
    (∀ s : MemoryStore, s.descriptor = d →
      let t := Submission.tally d (Use.allSubmissions s uses)
      (Use.performAll s uses).runs = t.written + t.checked + t.read) ∧
    (∀ s : FixedStore, s.descriptor = d →
      let t := Submission.tally d (Use.allSubmissions s uses)
      (Use.performAll s uses).runs = t.checked + t.read) ∧
    ∀ s : FailingStore, s.descriptor = d →
      let t := Submission.tally d (Use.allSubmissions s uses)
      (Use.performAll s uses).runs = t.checked + t.read := by
  refine ⟨Schema.validatesInOrder, ?_, ?_, ?_⟩
  · rintro s rfl
    exact Use.runs_performAll_of_handling MemoryStore.handling s h uses
  · rintro s rfl
    exact Use.runs_performAll_of_handling FixedStore.handling s h uses
  · rintro s rfl
    exact Use.runs_performAll_of_handling FailingStore.handling s h uses

namespace Broker

/-- The descriptor of a broker with a validator that rejects plans which are not offered for any
class. -/
def vetted : Descriptor :=
  let validator : Validator :=
    ⟨fun m => (m.as? .servicePlan).bind fun p =>
      if p.services.isEmpty then some "no services" else none⟩
  { known with schemas := known.schemas.map (·.withValidator validator) }

/-- Some use of a store.  A class is created twice and updated under a wrong revision; a plan is
rejected, and a plan that is called a class does not come as far as that; a plan is checked; an
object and a broken text are read; a file is loaded up to its last document, which describes a plan
that is rejected. -/
def errands : List Use :=
  let fs : FileSystem :=
    { readDirectory := fun _ => .ok [], isFile := fun _ => true,
      read := fun _ => .ok fourDocuments.toUTF8 }
  [.create "1" (classEntry "" "a" "first" ""),
    .create "2" (classEntry "" "a" "second" ""),
    .update "3" (classEntry "" "a" "third" "9"),
    .create "4" (planEntry "" "p" "large" [] ""),
    .create "5" ⟨(classEntry "" "p" "" "").metadata, (planEntry "" "p" "large" [] "").payload⟩,
    .check (planEntry "" "p" "large" ["first"] ""),
    .readText "type: service-plan\nname: p\n",
    .readText "type: [",
    .delete (classEntry "" "a" "" "").identity,
    .loadFile (fun n => toString n) fs ⟨"classes.yaml"⟩,
    .list serviceClassType "",
    .catalog .propagate]

end Broker

theorem runs_performAll_errands :
    Broker.vetted.Vetted ∧
    Submission.tally Broker.vetted (Use.allSubmissions (MemoryStore.empty Broker.vetted)
      Broker.errands) = { written := 6, checked := 1, read := 4 } ∧
    (Use.performAll (MemoryStore.empty Broker.vetted) Broker.errands).runs = 11 := by
  have hvetted : Broker.vetted.Vetted := by decide
  have htally : Submission.tally Broker.vetted (Use.allSubmissions (MemoryStore.empty Broker.vetted)
      Broker.errands) = { written := 6, checked := 1, read := 4 } := by decide +kernel
  have hruns := (runs_performAll hvetted Broker.errands).2.1 (MemoryStore.empty Broker.vetted) rfl
  rw [htally] at hruns
  exact ⟨hvetted, htally, hruns⟩

/-- It would not do to count what is written and what is read.  An entry that is just checked makes
a validator run, too, and a store that cannot be changed makes none run for an entry that it is to
write. -/
theorem runs_ne_written_add_read :
    let tally {σ : Type} [ConfigStore σ] (s : σ) (u : Use) :=
      Submission.tally Broker.vetted (Use.allSubmissions s [u])
    let entry := Broker.classEntry "" "a" "first" ""
    let store := MemoryStore.empty Broker.vetted
    let unreachable : FailingStore := ⟨Broker.vetted, "down"⟩
    Broker.vetted.Vetted ∧
    ((Use.performAll store [.check entry]).runs = 1 ∧
      (tally store (.check entry)).written + (tally store (.check entry)).read = 0) ∧
    (Use.performAll unreachable [.create "1" entry]).runs = 0 ∧
      (tally unreachable (.create "1" entry)).written +
        (tally unreachable (.create "1" entry)).read = 1 := by
  decide +kernel

end ConfigRegistry
