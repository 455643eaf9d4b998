/-
# Calls on different identities

A call that is to change an object looks at what the store holds under the identity of this object
and nowhere else, and it leaves everything else as it is.  So a run of such calls is as many runs
side by side as there are identities in it: the exchanges about one identity are those of the run
from which all other calls have been left out (`Contents.history_filter`).  The calls of a run may
therefore be done in any order that keeps those on one identity in their own order, and this is
true of calls that fail no less than of those that succeed.
-/
import Mathlib.Data.List.Perm.Basic
import ConfigRegistry.Proofs.Catalog.Dependence

namespace ConfigRegistry

/-- The identity that a call is to change. -/
def Call.target? : Call → Option Identity
  | .create _ e => some e.identity
  | .update _ e => some e.identity
  | .delete i => some i
  | .get _ => none
  | .list _ _ => none
  | .size => none

namespace Exchange

variable {x : Exchange} {i : Identity} {revision : String}

lemma target?_of_written? (h : x.written? = some (i, revision)) : x.call.target? = some i := by
  rw [written?.eq_def] at h
  split at h
  · cases h
    rfl
  · cases h
    rfl
  · cases h

lemma target?_of_removed? (h : x.removed? = some i) : x.call.target? = some i := by
  rw [removed?.eq_def] at h
  split at h
  · cases h
    rfl
  · cases h

end Exchange

/-! ## Lists in another order -/

section Rearranged

variable {α ι : Type} [DecidableEq ι]

/-- The lists have the same items, and items with the same label are in the same order. -/
structure Rearranged (label : α → Option ι) (l l' : List α) : Prop where
  perm : l.Perm l'
  filter_eq : ∀ i, (l.filter fun a => label a = some i) = l'.filter fun a => label a = some i

variable {label : α → Option ι} {l l' : List α}

/-- A label that no item bears need not be looked at. -/
lemma rearranged_iff :
    Rearranged label l l' ↔ l.Perm l' ∧ ∀ i ∈ l.filterMap label,
      (l.filter fun a => label a = some i) = l'.filter fun a => label a = some i := by
  constructor
  · rintro ⟨hperm, hfilter⟩
    exact ⟨hperm, fun i _ => hfilter i⟩
  · rintro ⟨hperm, hfilter⟩
    refine ⟨hperm, fun i => ?_⟩
    by_cases hi : i ∈ l.filterMap label
    · exact hfilter i hi
    · have hnone : (l.filter fun a => label a = some i) = [] := by
        simpa [List.filter_eq_nil_iff] using hi
      have hperm' := hperm.filter fun a => label a = some i
      rw [hnone] at hperm' ⊢
      exact hperm'.nil_eq

instance [DecidableEq α] : Decidable (Rearranged label l l') :=
  decidable_of_iff _ rearranged_iff.symm

/-- If each item bears a label, lists have the same items as soon as they have the same items with
each label. -/
lemma rearranged_of_filter_eq (hl : ∀ a ∈ l, (label a).isSome) (hl' : ∀ a ∈ l', (label a).isSome)
    (h : ∀ i, (l.filter fun a => label a = some i) = l'.filter fun a => label a = some i) :
    Rearranged label l l' := by
  classical
  refine ⟨List.perm_iff_count.mpr fun a => ?_, h⟩
  cases ha : label a with
  | none =>
    -- an item without a label is in neither of the lists
    have hnot : ∀ {l : List α}, (∀ b ∈ l, (label b).isSome) → l.count a = 0 := by
      intro l hl
      refine List.count_eq_zero.mpr fun hmem => ?_
      simpa [ha] using hl a hmem
    rw [hnot hl, hnot hl']
  | some i =>
    have hcount : ∀ l : List α, (l.filter fun a => label a = some i).count a = l.count a :=
      fun l => List.count_filter (by simp [ha])
    rw [← hcount l, ← hcount l', h i]

end Rearranged

/-! ## One identity at a time -/

namespace Contents

variable {d : Descriptor} {m m' : Contents} {c : Call} {i : Identity}

/-- What is held under an identity is left as it is by a call on another one. -/
lemma find?_step_of_target?_ne (h : c.target? ≠ some i) :
    ((operations d).step m c).2.find? i = m.find? i := by
  rcases step_cases (d := d) m c with ⟨-, -, hm⟩ | ⟨e, hwritten, -, -, hm⟩ | ⟨j, -, hremoved, hm⟩
  · rw [hm]
  · have hne : i ≠ e.identity := by
      rintro rfl
      exact h (Exchange.target?_of_written? hwritten)
    rw [hm, SortedMap.find?_insert, if_neg hne]
  · have hne : i ≠ j := by
      rintro rfl
      exact h (Exchange.target?_of_removed? hremoved)
    rw [hm, SortedMap.find?_erase, if_neg hne]

/-- What a call on an identity answers, and what it leaves under this identity, is determined by
what has been held under it. -/
lemma step_congr (hc : c.target? = some i) (h : m.find? i = m'.find? i) :
    ((operations d).step m c).1 = ((operations d).step m' c).1 ∧
      ((operations d).step m c).2.find? i = ((operations d).step m' c).2.find? i := by
  cases c with
  | create revision e =>
    obtain rfl : e.identity = i := Option.some.inj hc
    simp only [Operations.step, operations, create, h]
    cases (d.validate e).outcome with
    | error fault => exact ⟨rfl, h⟩
    | ok _ =>
      cases hfind : m'.find? e.identity with
      | some current => exact ⟨rfl, h⟩
      | none => exact ⟨rfl, by simp [SortedMap.find?_insert]⟩
  | update revision e =>
    obtain rfl : e.identity = i := Option.some.inj hc
    simp only [Operations.step, operations, update, h]
    cases (d.validate e).outcome with
    | error fault => exact ⟨rfl, h⟩
    | ok _ =>
      cases hfind : m'.find? e.identity with
      | none => exact ⟨rfl, h⟩
      | some current =>
        by_cases hrevision : current.metadata.revision = e.metadata.revision
        · simp [hrevision, SortedMap.find?_insert]
        · simp [hrevision, hfind, h]
  | delete j =>
    obtain rfl : j = i := Option.some.inj hc
    simp only [Operations.step, operations, delete, h]
    cases d.schemaOfType? j.typeName with
    | none => exact ⟨rfl, h⟩
    | some s =>
      cases hfind : m'.find? j with
      | none => exact ⟨rfl, h⟩
      | some current => exact ⟨rfl, by simp [SortedMap.find?_erase]⟩
  | get j => cases hc
  | list typeName space => cases hc
  | size => cases hc

/-- Of a run, the exchanges about one identity and what is held under it in the end are those of
the calls on this identity alone, begun with any map that holds the same under it. -/
lemma history_filter (calls : List Call) (h : m.find? i = m'.find? i) :
    ((operations d).history m calls).filter (fun x => x.call.target? = some i) =
        (operations d).history m' (calls.filter fun c => c.target? = some i) ∧
      ((operations d).after m calls).find? i =
        ((operations d).after m' (calls.filter fun c => c.target? = some i)).find? i := by
  induction calls generalizing m m' with
  | nil => exact ⟨rfl, h⟩
  | cons c calls ih =>
    rw [Operations.history_cons, Operations.after_cons]
    by_cases hc : c.target? = some i
    · obtain ⟨hanswer, hfind⟩ := step_congr (d := d) hc h
      obtain ⟨hhistory, hafter⟩ := ih hfind
      rw [List.filter_cons_of_pos (by simpa using hc), List.filter_cons_of_pos (by simpa using hc),
        Operations.history_cons, Operations.after_cons, hanswer, hhistory]
      exact ⟨rfl, hafter⟩
    · -- the call is left out on the right, and on the left it makes no difference to `i`
      have hfind := (find?_step_of_target?_ne (d := d) (m := m) hc).trans h
      rw [List.filter_cons_of_neg (by simpa using hc), List.filter_cons_of_neg (by simpa using hc)]
      exact ih hfind

end Contents

/-! ## The store as a whole -/

/-- Nothing that can be asked tells the stores apart. -/
structure MemoryStore.ReadsAlike (s s' : MemoryStore) : Prop where
  get?_eq : ∀ i, s.get? i = s'.get? i
  list_eq : ∀ typeName space, s.list typeName space = s'.list typeName space
  size_eq : s.size = s'.size
  catalog_eq : ∀ config, View.catalog { store := s, config } = View.catalog { store := s', config }

/-- Stores over one descriptor that hold the same cannot be told apart. -/
lemma MemoryStore.readsAlike_of_contents_eq {s s' : MemoryStore}
    (hd : s.descriptor = s'.descriptor) (h : s.contents = s'.contents) : s.ReadsAlike s' := by
  have hlist : ∀ typeName space, s.list typeName space = s'.list typeName space := by
    intro typeName space
    rw [list_eq_contents_list, list_eq_contents_list, hd, h]
  refine ⟨fun i => ?_, hlist, ?_, fun config => ?_⟩
  · rw [← find?_contents, ← find?_contents, h]
  · rw [← size_contents, ← size_contents, h]
  · have hentries : ∀ typeName,
        View.entries { store := s, config } typeName =
          View.entries { store := s', config } typeName := by
      intro typeName
      have hlist' : ConfigStore.list s typeName "" = ConfigStore.list s' typeName "" :=
        hlist typeName ""
      rw [View.entries, View.entries, hlist']
    refine View.catalog_congr ?_ ?_
    · rw [View.serviceClasses, View.serviceClasses, hentries]
    · rw [View.servicePlans, View.servicePlans, hentries]

/-- **Calls on different objects are independent.**  If calls that are to change objects are done
in another order, in which the calls on each single identity are in the order they have been in,
then each call is answered as before, with the same revision or with the same error, and in the end
the two stores cannot be told apart by getting, listing, counting or asking for a catalog.  This is
so for every store to begin with, and whatever revisions the calls bring along. -/
theorem history_rearranged (s : MemoryStore) {calls calls' : List Call}
    (htarget : ∀ c ∈ calls, c.target?.isSome) (h : Rearranged Call.target? calls calls') :
    Rearranged (fun x : Exchange => x.call.target?) (MemoryStore.operations.history s calls)
        (MemoryStore.operations.history s calls') ∧
      (MemoryStore.operations.after s calls).ReadsAlike
        (MemoryStore.operations.after s calls') := by
  have htarget' : ∀ c ∈ calls', c.target?.isSome :=
    fun c hc => htarget c (h.perm.mem_iff.mpr hc)
  -- a label on each exchange, as there is one on each call
  have hlabelled : ∀ {calls : List Call}, (∀ c ∈ calls, c.target?.isSome) →
      ∀ x ∈ MemoryStore.operations.history s calls, x.call.target?.isSome := by
    intro calls htarget x hx
    refine htarget x.call ?_
    rw [← MemoryStore.operations.map_call_history s calls]
    exact List.mem_map_of_mem hx
  have hsplit := fun calls i =>
    Contents.history_filter (d := s.descriptor) (m := s.contents) (i := i) calls rfl
  constructor
  · refine rearranged_of_filter_eq (hlabelled htarget) (hlabelled htarget') fun i => ?_
    rw [MemoryStore.history_eq_contents_history rfl, MemoryStore.history_eq_contents_history rfl,
      (hsplit calls i).1, (hsplit calls' i).1, h.filter_eq]
  · refine MemoryStore.readsAlike_of_contents_eq ?_ (SortedMap.ext_find fun i => ?_)
    · rw [MemoryStore.descriptor_after, MemoryStore.descriptor_after]
    · rw [MemoryStore.contents_after rfl, MemoryStore.contents_after rfl, (hsplit calls i).2,
        (hsplit calls' i).2, h.filter_eq]

/-- Calls on three identities by turns; of those on the class two fail, and the one on an identity
that nobody has created fails as well. -/
def Broker.byTurns : List Call :=
  [.create "2" (Broker.classEntry "n" "a" "one" ""),
    .create "3" (Broker.planEntry "" "p" "small" ["one"] ""),
    .update "4" (Broker.classEntry "n" "a" "two" "1"),
    .delete ⟨Broker.servicePlanType, "", "p"⟩,
    .delete ⟨Broker.serviceClassType, "", "z"⟩,
    .update "5" (Broker.classEntry "n" "a" "three" "1"),
    .create "6" (Broker.planEntry "" "p" "large" ["two"] "")]

/-- The same calls one identity after another. -/
def Broker.oneAfterAnother : List Call :=
  [.delete ⟨Broker.serviceClassType, "", "z"⟩,
    .create "3" (Broker.planEntry "" "p" "small" ["one"] ""),
    .delete ⟨Broker.servicePlanType, "", "p"⟩,
    .create "6" (Broker.planEntry "" "p" "large" ["two"] ""),
    .create "2" (Broker.classEntry "n" "a" "one" ""),
    .update "4" (Broker.classEntry "n" "a" "two" "1"),
    .update "5" (Broker.classEntry "n" "a" "three" "1")]

/-- Four of the calls change the store, in whichever of the two orders. -/
theorem history_byTurns :
    let s := MemoryStore.operations.after (.withCapacity Broker.known 1)
      [.create "1" (Broker.classEntry "n" "a" "zero" "")]
    (∀ c ∈ Broker.byTurns, c.target?.isSome) ∧
      Rearranged Call.target? Broker.byTurns Broker.oneAfterAnother ∧
      (MemoryStore.operations.history s Broker.byTurns).filterMap Exchange.written? =
        [(⟨Broker.servicePlanType, "", "p"⟩, "3"), (⟨Broker.serviceClassType, "n", "a"⟩, "4"),
          (⟨Broker.servicePlanType, "", "p"⟩, "6")] ∧
      Rearranged (fun x : Exchange => x.call.target?)
        (MemoryStore.operations.history s Broker.byTurns)
        (MemoryStore.operations.history s Broker.oneAfterAnother) ∧
      (MemoryStore.operations.after s Broker.byTurns).ReadsAlike
        (MemoryStore.operations.after s Broker.oneAfterAnother) := by
  intro s
  have htarget : ∀ c ∈ Broker.byTurns, c.target?.isSome := by decide +kernel
  have hrearranged : Rearranged Call.target? Broker.byTurns Broker.oneAfterAnother := by
    decide +kernel
  exact ⟨htarget, hrearranged, by decide +kernel,
    history_rearranged s htarget hrearranged⟩

end ConfigRegistry
