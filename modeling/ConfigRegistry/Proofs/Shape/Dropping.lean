/-
# Records with a field less

Two records that pass over fields they do not know may have the same fields, except that one of them
has a further field with any value at all.  Then the other one passes over this field where the
first one reads it, and both find the same values in all other fields (`Fields.Drops`).  Whatever
text of an object the one accepts, the other accepts as well, with the same values
(`Fields.Drops.gives_record`), and what the one is written as is, without the member for the further
field, what the other is written as.

Both records go over the members of the text in the same steps, so it is enough to compare single
members, and of these the only one that they treat differently is read by the one and read over by
the other.
-/
import ConfigRegistry.Proofs.Json.Over
import ConfigRegistry.Proofs.Json.Written
import ConfigRegistry.Proofs.Shape.Members
import ConfigRegistry.Proofs.Shape.Recognition
import ConfigRegistry.Shape.Encode

namespace ConfigRegistry

open Json Json.Reader

namespace Json.Reader

variable {σ τ : Type} {step : String → σ → Reader σ} {step' : String → τ → Reader τ} {f : σ → τ}

/-- Two ways to go over members that take the same text in each step take the same text. -/
lemma gives_membersFrom_of_step
    (hstep : ∀ {k a b s t}, (step k a).Gives s b t → (step' k (f a)).Gives s (f b) t)
    {fuel : Nat} {first : Bool} {a b : σ} {s t : List Char}
    (h : (membersFrom step fuel first a).Gives s b t) :
    (membersFrom step' fuel first (f a)).Gives s (f b) t := by
  induction fuel generalizing first a s with
  | zero => cases h
  | succ fuel ih =>
    rw [membersFrom] at h ⊢
    obtain ⟨key, u, hkey, h⟩ := gives_bind_iff.mp h
    refine Gives.bind hkey ?_
    cases key with
    | none =>
      obtain ⟨rfl, rfl⟩ := gives_pure_iff.mp h
      exact gives_pure _ _
    | some k =>
      obtain ⟨a', v, ha', h⟩ := gives_bind_iff.mp h
      exact Gives.bind (hstep ha') (ih h)

end Json.Reader

namespace Fields

variable {α β β' σ σ' : Type} {name : String} {presence : Presence α} {content : Shape α}
  {depth : Nat} {s t : List Char}

lemma gives_readMember_cons_of_ne_iff {more : Fields β σ} {k : String} (hk : k ≠ name)
    {o o' : Option α} {found found' : σ} :
    ((cons name presence content more).readMember false depth k (o, found)).Gives s (o', found') t ↔
      o' = o ∧ (more.readMember false depth k found).Gives s found' t := by
  rw [readMember, readMember, Fields.member.eq_def]
  dsimp only
  rw [if_neg (by simpa using hk)]
  cases more.member depth k found with
  | some r =>
    dsimp only
    rw [gives_map_iff]
    constructor
    · rintro ⟨x, hx, heq⟩
      cases heq
      exact ⟨rfl, hx⟩
    · rintro ⟨rfl, h⟩
      exact ⟨found', h, rfl⟩
  | none =>
    -- no field has this name, so the member is read over
    simp only [Bool.false_eq_true, if_false]
    constructor
    · intro h
      obtain ⟨a, u, hcolon, h⟩ := gives_bind_iff.mp h
      obtain ⟨b, v, hover, h⟩ := gives_bind_iff.mp h
      obtain ⟨heq, rfl⟩ := gives_pure_iff.mp h
      cases heq
      exact ⟨rfl, hcolon.bind (hover.bind (gives_pure _ _))⟩
    · rintro ⟨rfl, h⟩
      obtain ⟨a, u, hcolon, h⟩ := gives_bind_iff.mp h
      obtain ⟨b, v, hover, h⟩ := gives_bind_iff.mp h
      obtain ⟨rfl, rfl⟩ := gives_pure_iff.mp h
      exact hcolon.bind (hover.bind (gives_pure _ _))

/-- What follows the key of a field is the same for all records that begin with this field. -/
lemma gives_readMember_cons_self_iff {more : Fields β σ} {o o' : Option α} {found found' : σ} :
    ((cons name presence content more).readMember false depth name (o, found)).Gives s
        (o', found') t ↔
      found' = found ∧ o = none ∧
        ∃ a, o' = some a ∧ (do colon; content.reader depth : Reader α).Gives s a t := by
  rw [readMember, Fields.member.eq_def]
  dsimp only
  rw [if_pos (beq_self_eq_true name)]
  cases o with
  | some a => exact ⟨nofun, nofun⟩
  | none =>
    constructor
    · intro h
      obtain ⟨_, u, hcolon, h⟩ := gives_bind_iff.mp h
      obtain ⟨a, ha, heq⟩ := gives_map_iff.mp h
      cases heq
      exact ⟨rfl, rfl, a, rfl, hcolon.bind ha⟩
    · rintro ⟨rfl, -, a, rfl, h⟩
      obtain ⟨_, u, hcolon, ha⟩ := gives_bind_iff.mp h
      exact hcolon.bind (ha.map _)

/-- The fields without the one named `gone`.  What is found of them, and what values they have, is
what the maps leave of all fields. -/
structure Drops (gone : String) (fields : Fields β σ) (fewer : Fields β' σ') (forget : σ → σ')
    (keep : β → β') : Prop where
  /-- Nothing is found at the beginning. -/
  noneFound : forget fields.noneFound = fewer.noneFound
  /-- A member that is read takes as much of the text. -/
  readMember : ∀ {depth : Nat} {k : String} {found found' : σ} {s t : List Char},
    (fields.readMember false depth k found).Gives s found' t →
      (fewer.readMember false depth k (forget found)).Gives s (forget found') t
  /-- The values in the end are the same. -/
  settle : ∀ {found : σ} {b : β}, fields.settle found = .ok b →
    fewer.settle (forget found) = .ok (keep b)
  /-- What is written is the same but for the member that is gone. -/
  encode : ∀ b : β, (fields.encode b).filter (fun m => m.1 != gone) = fewer.encode (keep b)

namespace Drops

variable {gone : String} {forget : σ → σ'} {keep : β → β'}

/-- A last field for any value at all is dropped. -/
lemma last (presence : Presence Json) :
    Drops gone (cons gone presence .tree .nil) .nil (fun _ => ()) (fun _ => ()) where
  noneFound := rfl
  readMember {depth k found found' s t} h := by
    obtain ⟨o, ⟨⟩⟩ := found
    obtain ⟨o', ⟨⟩⟩ := found'
    by_cases hk : k = gone
    · subst hk
      obtain ⟨-, -, a, -, h⟩ := gives_readMember_cons_self_iff.mp h
      obtain ⟨_, u, hcolon, ha⟩ := gives_bind_iff.mp h
      obtain ⟨j, hj, -, -⟩ := exists_spells_of_gives_tree ha
      exact hcolon.bind ((readOver_of_spells hj).bind (gives_pure _ _))
    · exact ((gives_readMember_cons_of_ne_iff hk).mp h).2
  settle _ := rfl
  encode b := by
    obtain ⟨j, ⟨⟩⟩ := b
    rw [Fields.encode.eq_def]
    dsimp only
    split <;> simp [Fields.encode]

/-- A field before the others is kept. -/
lemma cons {fields : Fields β σ} {fewer : Fields β' σ'} (h : Drops gone fields fewer forget keep)
    (hname : name ≠ gone) (presence : Presence α) (content : Shape α) :
    Drops gone (.cons name presence content fields) (.cons name presence content fewer)
      (Prod.map id forget) (Prod.map id keep) where
  noneFound := congrArg (Prod.mk none) h.noneFound
  readMember {depth k found found' s t} hread := by
    obtain ⟨o, found⟩ := found
    obtain ⟨o', found'⟩ := found'
    by_cases hk : k = name
    · subst hk
      obtain ⟨rfl, rfl, a, rfl, ha⟩ := gives_readMember_cons_self_iff.mp hread
      exact gives_readMember_cons_self_iff.mpr ⟨rfl, rfl, a, rfl, ha⟩
    · obtain ⟨rfl, hmore⟩ := (gives_readMember_cons_of_ne_iff hk).mp hread
      exact (gives_readMember_cons_of_ne_iff hk).mpr ⟨rfl, h.readMember hmore⟩
  settle {found b} hsettle := by
    obtain ⟨hfirst, hmore⟩ := settle_cons_iff.mp hsettle
    exact settle_cons_iff.mpr ⟨hfirst, h.settle hmore⟩
  encode b := by
    obtain ⟨a, b⟩ := b
    rw [Prod.map_apply, id, Fields.encode, Fields.encode]
    split
    · exact h.encode b
    · have hkept : (name != gone) = true := bne_iff_ne.mpr hname
      simp only [List.filter_cons, hkept, if_true, h.encode b]

/-- **Of an object that the record with more fields accepts, the other reads the same values.** -/
theorem gives_record {fields : Fields β σ} {fewer : Fields β' σ'}
    (h : Drops gone fields fewer forget keep) {record : String} (record' : String) {b : β}
    {u : List Char}
    (hs : afterBlanks s = '{' :: u)
    (hread : ((Shape.record record false fields).reader depth).Gives s b t) :
    ((Shape.record record' false fewer).reader depth).Gives s (keep b) t := by
  rw [Shape.reader, gives_settle_iff] at hread ⊢
  obtain ⟨c, v, hs', hread⟩ := gives_beginning_bind_iff.mp hread
  cases hs.symm.trans hs'
  change (nested depth _).Gives _ b t at hread
  obtain ⟨hdepth, hread⟩ := gives_nested_iff.mp hread
  rw [gives_skip_bind_iff, gives_closedBy_iff] at hread
  obtain ⟨v, hcontent, hclose⟩ := hread
  obtain ⟨found, w, hmembers, hresult⟩ := gives_bind_iff.mp hcontent
  obtain ⟨hsettle, rfl⟩ := gives_ofExcept_iff.mp hresult
  have hmembers' := gives_membersFrom_of_step (fun hstep => h.readMember hstep) hmembers
  rw [h.noneFound] at hmembers'
  refine gives_beginning_bind_iff.mpr ⟨_, _, hs, ?_⟩
  show (nested depth _).Gives _ (keep b) t
  refine gives_nested_iff.mpr ⟨hdepth, (gives_skip _ _).bind (Gives.closedBy ?_ hclose)⟩
  exact Gives.bind hmembers' (gives_ofExcept (h.settle hsettle) _)

end Drops

end Fields

end ConfigRegistry
