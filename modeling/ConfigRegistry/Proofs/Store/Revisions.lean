/-
# No update is lost

Clients that change the same object agree through revisions: an update is refused unless it bears
the revision that the store has handed out last for the object.  What this protects is a property
of histories.  The revision under which a store holds an object is the one returned by the last
write of that object in the history, with no removal after it (`Contents.current_of_find?_after`).
As no revision is handed out twice, only one write has returned it; so an update that succeeds
uses it up, and a removal makes it void.
-/
import Mathlib.Data.List.Induction
import ConfigRegistry.Proofs.Catalog.Kinds
import ConfigRegistry.Proofs.Store.Refinement

namespace ConfigRegistry

namespace Exchange

/-- The revision that a call has returned. -/
def handedOut? (x : Exchange) : Option String := x.written?.map Prod.snd

/-- The call has written or removed the entry of an identity. -/
def Changes (x : Exchange) (i : Identity) : Prop :=
  (∃ revision, x.written? = some (i, revision)) ∨ x.removed? = some i

variable {x : Exchange} {i : Identity} {revision : String}

lemma handedOut?_of_written? (h : x.written? = some (i, revision)) :
    x.handedOut? = some revision := by
  rw [handedOut?, h]
  rfl

/-- To replace an entry is to write one. -/
lemma changes_of_replaced? (h : x.replaced? = some (i, revision)) : x.Changes i := by
  rw [replaced?.eq_def] at h
  split at h
  · next drawn e new =>
    cases h
    exact Or.inl ⟨new, rfl⟩
  · cases h

/-- A call that fails, or only reads, changes nothing. -/
lemma not_changes_of_eq_none (hw : x.written? = none) (hr : x.removed? = none) (i : Identity) :
    ¬ x.Changes i := by
  simp [Changes, hw, hr]

/-- A call that writes to one identity does not change another one. -/
lemma not_changes_of_written? {j : Identity} (h : x.written? = some (j, revision))
    (hr : x.removed? = none) (hne : j ≠ i) : ¬ x.Changes i := by
  simp [Changes, h, hr, hne]

/-- A call that removes the entry of one identity does not change another one. -/
lemma not_changes_of_removed? {j : Identity} (hw : x.written? = none) (h : x.removed? = some j)
    (hne : j ≠ i) : ¬ x.Changes i := by
  simp [Changes, hw, h, hne]

end Exchange

/-- No revision is handed out twice in a history. -/
def FreshRevisions (h : List Exchange) : Prop := (h.filterMap Exchange.handedOut?).Nodup

instance (h : List Exchange) : Decidable (FreshRevisions h) :=
  inferInstanceAs (Decidable (List.Nodup _))

/-- The last change of an identity in a history is a write, and it has returned this revision. -/
def Current (h : List Exchange) (i : Identity) (revision : String) : Prop :=
  ∃ before w since, h = before ++ w :: since ∧ w.written? = some (i, revision) ∧
    ∀ y ∈ since, ¬ y.Changes i

lemma Current.append_singleton {h : List Exchange} {i : Identity} {revision : String}
    (hc : Current h i revision) {x : Exchange} (hx : ¬ x.Changes i) :
    Current (h ++ [x]) i revision := by
  obtain ⟨before, w, since, rfl, hw, hsince⟩ := hc
  refine ⟨before, w, since ++ [x], by simp, hw, ?_⟩
  intro y hy
  rcases List.mem_append.mp hy with hy | hy
  · exact hsince y hy
  · rw [List.mem_singleton.mp hy]
    exact hx

lemma current_append_write (h : List Exchange) {x : Exchange} {i : Identity} {revision : String}
    (hx : x.written? = some (i, revision)) : Current (h ++ [x]) i revision :=
  ⟨h, x, [], rfl, hx, by simp⟩

/-- If the images under a partial function are all different, an image has one place only. -/
lemma eq_of_nodup_filterMap {α β : Type*} {f : α → Option β} {a b a' b' : List α} {x x' : α}
    {r : β} (hnd : ((a ++ x :: b).filterMap f).Nodup) (h : a ++ x :: b = a' ++ x' :: b')
    (hx : f x = some r) (hx' : f x' = some r) : a = a' ∧ x = x' ∧ b = b' := by
  induction a generalizing a' with
  | nil =>
    cases a' with
    | nil => simpa using h
    | cons y a'' =>
      -- the image would come twice, at the head and at the later place
      exfalso
      simp only [List.nil_append, List.cons_append, List.cons.injEq] at h
      obtain ⟨rfl, rfl⟩ := h
      simp [hx, hx'] at hnd
  | cons y a ih =>
    cases a' with
    | nil =>
      exfalso
      simp only [List.nil_append, List.cons_append, List.cons.injEq] at h
      obtain ⟨rfl, rfl⟩ := h
      simp [hx, hx'] at hnd
    | cons y' a'' =>
      simp only [List.cons_append, List.cons.injEq] at h
      obtain ⟨rfl, h⟩ := h
      have hnd' : ((a ++ x :: b).filterMap f).Nodup :=
        hnd.sublist ((List.sublist_cons_self y _).filterMap f)
      obtain ⟨rfl, hxx, hb⟩ := ih hnd' h
      exact ⟨rfl, hxx, hb⟩

namespace Contents

variable {d : Descriptor}

/-- What a step means for one identity: it changes nothing about it, or writes its entry, or
removes it. -/
lemma find?_step (m : Contents) (c : Call) (i : Identity) :
    let x : Exchange := ⟨c, ((operations d).step m c).1⟩
    let m' := ((operations d).step m c).2
    (¬ x.Changes i ∧ m'.find? i = m.find? i) ∨
      (∃ e, x.written? = some (i, e.metadata.revision) ∧ m'.find? i = some e) ∨
      (x.removed? = some i ∧ m'.find? i = none) := by
  intro x m'
  rcases step_cases (d := d) m c with ⟨hw, hr, hm⟩ | ⟨e, hw, hr, -, hm⟩ | ⟨j, hw, hr, hm⟩
  · refine Or.inl ⟨Exchange.not_changes_of_eq_none hw hr i, ?_⟩
    exact congrArg (fun m : Contents => m.find? i) hm
  · have hfind : m'.find? i = if i = e.identity then some e else m.find? i := by
      rw [← SortedMap.find?_insert]
      exact congrArg (fun m : Contents => m.find? i) hm
    by_cases hi : e.identity = i
    · rw [if_pos hi.symm] at hfind
      exact Or.inr (Or.inl ⟨e, hi ▸ hw, hfind⟩)
    · rw [if_neg (Ne.symm hi)] at hfind
      exact Or.inl ⟨Exchange.not_changes_of_written? hw hr hi, hfind⟩
  · have hfind : m'.find? i = if i = j then none else m.find? i := by
      rw [← SortedMap.find?_erase]
      exact congrArg (fun m : Contents => m.find? i) hm
    by_cases hi : j = i
    · rw [if_pos hi.symm] at hfind
      exact Or.inr (Or.inr ⟨hi ▸ hr, hfind⟩)
    · rw [if_neg (Ne.symm hi)] at hfind
      exact Or.inl ⟨Exchange.not_changes_of_removed? hw hr hi, hfind⟩

/-- An entry is held under the revision that its last write has returned. -/
lemma current_of_find?_after {calls : List Call} {i : Identity} {e : Entry}
    (h : ((operations d).after ∅ calls).find? i = some e) :
    Current ((operations d).history ∅ calls) i e.metadata.revision := by
  -- on the run from its end: the last call has written the entry, or has left it alone
  induction calls using List.reverseRecOn generalizing e with
  | nil => simp at h
  | append_singleton calls c ih =>
    rw [Operations.after_append, Operations.after_cons, Operations.after_nil] at h
    rw [Operations.history_append, Operations.history_cons, Operations.history_nil]
    rcases find?_step (d := d) ((operations d).after ∅ calls) c i with
      ⟨hx, hfind⟩ | ⟨e', hx, hfind⟩ | ⟨-, hfind⟩
    · exact (ih (hfind ▸ h)).append_singleton hx
    · rw [hfind, Option.some.injEq] at h
      exact current_append_write _ (h ▸ hx)
    · rw [hfind] at h
      cases h

/-- An update that has succeeded was submitted with the current revision of its object. -/
lemma current_of_replaced? {calls : List Call} {before after : List Exchange} {x : Exchange}
    {i : Identity} {submitted : String}
    (h : (operations d).history ∅ calls = before ++ x :: after)
    (hx : x.replaced? = some (i, submitted)) : Current before i submitted := by
  obtain ⟨earlier, later, -, rfl, hanswer⟩ := Operations.exists_of_history_eq _ h
  obtain ⟨c, answer⟩ := x
  rw [Exchange.replaced?.eq_def] at hx
  split at hx
  · next drawn e revision heq =>
    cases heq
    cases hx
    rcases hu : ((operations d).after ∅ earlier).update d drawn e with ⟨fault | _, m'⟩
    · rw [Operations.step_update_error (o := operations d) hu] at hanswer
      cases hanswer
    · obtain ⟨-, ⟨current, hfind, hrev⟩, -⟩ := update_eq_ok hu
      rw [← hrev]
      exact current_of_find?_after hfind
  · cases hx

lemma update_eq_error {m : Contents} {revision : String} {e : Entry} {fault : StoreError}
    {m' : Contents} (h : m.update d revision e = (.error fault, m')) (he : d.Accepts e) :
    fault = .notFound e.identity ∨
      ∃ stored, stored ≠ e.metadata.revision ∧
        fault = .conflict e.identity stored e.metadata.revision := by
  obtain ⟨s, hs⟩ := he
  rw [update, hs] at h
  cases hfind : m.find? e.identity with
  | none =>
    rw [hfind] at h
    exact Or.inl (Except.error.inj (congrArg Prod.fst h)).symm
  | some current =>
    simp only [hfind] at h
    split at h
    · cases h
    · next hne => exact Or.inr ⟨_, hne, (Except.error.inj (congrArg Prod.fst h)).symm⟩

end Contents

/-! ## Revisions that are never handed out twice -/

lemma FreshRevisions.of_append {h more : List Exchange} (hf : FreshRevisions (h ++ more)) :
    FreshRevisions h :=
  List.Nodup.sublist ((List.sublist_append_left h more).filterMap _) hf

/-- A revision that is current belongs to the write that has returned it, and nothing has
happened to its object after that. -/
lemma Current.unique {before since : List Exchange} {w : Exchange} {i j : Identity}
    {revision : String} (hf : FreshRevisions (before ++ w :: since))
    (hw : w.written? = some (i, revision)) (hc : Current (before ++ w :: since) j revision) :
    j = i ∧ ∀ y ∈ since, ¬ y.Changes i := by
  -- both writes have returned the revision, so they are one write at one place
  obtain ⟨before', w', since', heq, hw', hsince⟩ := hc
  obtain ⟨-, rfl, rfl⟩ := eq_of_nodup_filterMap hf heq
    (Exchange.handedOut?_of_written? hw) (Exchange.handedOut?_of_written? hw')
  rw [hw, Option.some.injEq, Prod.mk.injEq] at hw'
  obtain ⟨rfl, -⟩ := hw'
  exact ⟨rfl, hsince⟩

/-- What clients may rely on when they update objects. -/
structure NoLostUpdate (d : Descriptor) (h : List Exchange) : Prop where
  /-- An update that succeeds was submitted with the revision that the write before it has
  returned for the same object, which has not been removed since. -/
  latest : ∀ {before x after i submitted}, h = before ++ x :: after →
    x.replaced? = some (i, submitted) → Current before i submitted
  /-- After an update that has succeeded, each one submitted with the same revision fails.  If its
  entry is valid, then because the object is gone or bears another revision. -/
  once : ∀ {before x between drawn e answer after i},
    h = before ++ x :: (between ++ ⟨.update drawn e, answer⟩ :: after) →
    x.replaced? = some (i, e.metadata.revision) →
    ∃ fault, answer = .revision (.error fault) ∧
      (d.Accepts e → fault = .notFound e.identity ∨
        ∃ stored, stored ≠ e.metadata.revision ∧
          fault = .conflict e.identity stored e.metadata.revision)
  /-- A revision handed out before the object was removed does not help to update anything after
  that, be it an object of the same identity. -/
  void : ∀ {before w between x since y after i j revision},
    h = before ++ w :: (between ++ x :: (since ++ y :: after)) →
    w.written? = some (i, revision) → x.removed? = some i → y.replaced? ≠ some (j, revision)

namespace Contents

variable {d : Descriptor} {calls : List Call}

lemma once_of_fresh (hf : FreshRevisions ((operations d).history ∅ calls))
    {before between after : List Exchange} {x : Exchange} {drawn : String} {e : Entry}
    {answer : Answer} {i : Identity}
    (h : (operations d).history ∅ calls =
      before ++ x :: (between ++ ⟨.update drawn e, answer⟩ :: after))
    (hx : x.replaced? = some (i, e.metadata.revision)) :
    ∃ fault, answer = .revision (.error fault) ∧
      (d.Accepts e → fault = .notFound e.identity ∨
        ∃ stored, stored ≠ e.metadata.revision ∧
          fault = .conflict e.identity stored e.metadata.revision) := by
  have hsplit : (operations d).history ∅ calls =
      (before ++ x :: between) ++ ⟨.update drawn e, answer⟩ :: after := by simpa using h
  obtain ⟨earlier, -, -, hbefore, hanswer⟩ := Operations.exists_of_history_eq _ hsplit
  rcases hu : ((operations d).after ∅ earlier).update d drawn e with ⟨fault | _, m'⟩
  · rw [Operations.step_update_error (o := operations d) hu] at hanswer
    exact ⟨fault, hanswer, update_eq_error hu⟩
  · -- the revision would be current once more, although the first update has used it up
    exfalso
    rw [Operations.step_update_ok (o := operations d) hu] at hanswer
    obtain rfl : answer = .revision (.ok drawn) := hanswer
    have hagain : Current (before ++ x :: between) e.identity e.metadata.revision :=
      current_of_replaced? hsplit rfl
    obtain ⟨first, w, since, rfl, hw, -⟩ := current_of_replaced? h hx
    rw [hsplit] at hf
    have hf' := hf.of_append
    simp only [List.append_assoc, List.cons_append] at hagain hf'
    obtain ⟨-, hsince⟩ := hagain.unique hf' hw
    exact hsince x (by simp) (Exchange.changes_of_replaced? hx)

lemma void_of_fresh (hf : FreshRevisions ((operations d).history ∅ calls))
    {before between since after : List Exchange} {w x y : Exchange} {i j : Identity}
    {revision : String}
    (h : (operations d).history ∅ calls =
      before ++ w :: (between ++ x :: (since ++ y :: after)))
    (hw : w.written? = some (i, revision)) (hx : x.removed? = some i) :
    y.replaced? ≠ some (j, revision) := by
  intro hy
  have hsplit : (operations d).history ∅ calls =
      (before ++ w :: (between ++ x :: since)) ++ y :: after := by simpa using h
  -- the removal stands behind the write, so the revision is current no longer
  have hcurrent := current_of_replaced? hsplit hy
  rw [hsplit] at hf
  obtain ⟨-, hsince⟩ := hcurrent.unique hf.of_append hw
  exact hsince x (by simp) (Or.inr hx)

end Contents

/-- **No update is lost.**  Let any number of clients call a store in memory in any order; their
calls, one after another as the store has served them, are the list of calls.  As long as no
revision is handed out twice, an update succeeds only with the latest revision of its object, and
each revision is good for one update at most. -/
theorem noLostUpdate_of_freshRevisions (d : Descriptor) (capacity : ℕ) (calls : List Call)
    (hf : FreshRevisions (MemoryStore.operations.history (.withCapacity d capacity) calls)) :
    NoLostUpdate d (MemoryStore.operations.history (.withCapacity d capacity) calls) := by
  rw [MemoryStore.history_eq_contents_history rfl calls] at hf ⊢
  exact
    { latest := Contents.current_of_replaced?
      once := Contents.once_of_fresh hf
      void := Contents.void_of_fresh hf }

/-- Two clients hold an object at its first revision, and both update it; then one of them removes
it and creates it anew, while the other still tries the revisions that it knows. -/
def Broker.contention : List Call :=
  [.create "1" (Broker.classEntry "" "a" "first" ""),
    .update "2" (Broker.classEntry "" "a" "second" "1"),
    .update "3" (Broker.classEntry "" "a" "late" "1"),
    .delete (Broker.classEntry "" "a" "" "").identity,
    .create "4" (Broker.classEntry "" "a" "third" "2"),
    .update "5" (Broker.classEntry "" "a" "late" "2"),
    .update "6" (Broker.classEntry "" "a" "fourth" "4")]

theorem noLostUpdate_contention :
    (MemoryStore.operations.history (.withCapacity Broker.known 1) Broker.contention).filterMap
        Exchange.handedOut? = ["1", "2", "4", "6"] ∧
      FreshRevisions
        (MemoryStore.operations.history (.withCapacity Broker.known 1) Broker.contention) ∧
      NoLostUpdate Broker.known
        (MemoryStore.operations.history (.withCapacity Broker.known 1) Broker.contention) := by
  have hf : FreshRevisions
      (MemoryStore.operations.history (.withCapacity Broker.known 1) Broker.contention) := by
    decide +kernel
  exact ⟨by decide +kernel, hf, noLostUpdate_of_freshRevisions _ _ _ hf⟩

end ConfigRegistry
