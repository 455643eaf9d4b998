/-
# The catalog endpoint

A request for the catalog is answered with the catalog that a broker makes of the store, and whoever
reads the answer finds this very catalog in it; if there is none, the request fails.  Over a store
of the types of a broker there always is one, whatever has been done to the store.

In a run of a server, requests come between the actions on its store.  They leave no trace there:
the actions have the outcomes, and leave behind the state, that they would have without any request.
-/
import ConfigRegistry.Proofs.Catalog.Views
import ConfigRegistry.Proofs.Shape.Written
import ConfigRegistry.Proofs.Store.Replay
import ConfigRegistry.Server.Http
import ConfigRegistry.Store.Fixed

namespace ConfigRegistry

/-! ## The text of a catalog -/

lemma Presence.lawful_required {α : Type} : (required (α := α)).Lawful := nofun

open Presence (lawful_required)

lemma OfferedPlan.lawful_shape : OfferedPlan.shape.Lawful :=
  ⟨by decide, lawful_required, trivial, lawful_required, trivial, lawful_required, trivial,
    lawful_required, trivial, trivial⟩

lemma OfferedService.lawful_shape : OfferedService.shape.Lawful :=
  ⟨by decide, lawful_required, trivial, lawful_required, trivial, lawful_required, trivial,
    lawful_required, trivial, lawful_required, trivial, lawful_required, OfferedPlan.lawful_shape,
    trivial⟩

lemma Catalog.lawful_shape : Catalog.shape.Lawful :=
  ⟨by decide, lawful_required, OfferedService.lawful_shape, trivial⟩

lemma Catalog.textual_shape : Catalog.shape.Textual := by
  simp [shape, OfferedService.shape, OfferedPlan.shape, Shape.Textual, Fields.Textual]

/-- A catalog is read from its text, as it was written. -/
theorem Catalog.ofText_toText (c : Catalog) : shape.ofText (shape.toText c) = .ok c :=
  Shape.ofText_toText textual_shape lawful_shape (by decide) c

namespace Http

/-! ## Responses -/

/-- The catalog is asked for, perhaps with a query, which does not matter. -/
def Request.IsForCatalog (r : Request) : Prop :=
  r.method = "GET" ∧ pathOf r.target = catalogPath

/-- The response is a success, and a catalog is read from its body. -/
structure Response.Shows (r : Response) (c : Catalog) : Prop where
  status_eq : r.status = 200
  contentType_eq : r.contentType = some "application/json"
  ofText_body : Catalog.shape.ofText r.body = .ok c

section

variable {σ : Type} [ConfigStore σ] {v : View σ}

lemma respond_of_isForCatalog {r : Request} (h : r.IsForCatalog) :
    respond v r = catalogResponse v := by
  simp [respond, h.1, h.2]

lemma catalogResponse_of_ok {c : Catalog} (h : v.catalog = .ok c) :
    (catalogResponse v).Shows c := by
  rw [catalogResponse, h]
  exact ⟨rfl, rfl, c.ofText_toText⟩

lemma catalogResponse_of_error {e : StoreError} (h : v.catalog = .error e) :
    catalogResponse v = { status := 500 } := by
  rw [catalogResponse, h]

end

/-- A response tells what has become of the catalog: it shows the catalog that there is, and if it
fails, for which there is but one way, there is none. -/
structure Response.Tells (r : Response) (catalog : Except StoreError Catalog) : Prop where
  shows_iff : ∀ c, r.Shows c ↔ catalog = .ok c
  status_eq_200_iff : r.status = 200 ↔ ∃ c, catalog = .ok c
  failure_iff : r = { status := 500 } ↔ ∃ e, catalog = .error e

/-- The response to a request for the catalog tells what has become of it. -/
lemma tells_respond {σ : Type} [ConfigStore σ] (v : View σ) {r : Request} (h : r.IsForCatalog) :
    (respond v r).Tells v.catalog := by
  rw [respond_of_isForCatalog h]
  cases hcatalog : v.catalog with
  | ok c =>
    have hshows := catalogResponse_of_ok hcatalog
    constructor
    case shows_iff =>
      intro c'
      constructor
      · intro h'
        -- the body is one text, so only one catalog is read from it
        have hbody := hshows.ofText_body.symm.trans h'.ofText_body
        rw [Except.ok.inj hbody]
      · intro h'
        cases h'
        exact hshows
    case status_eq_200_iff => exact iff_of_true hshows.status_eq ⟨c, rfl⟩
    case failure_iff =>
      refine iff_of_false (fun h' => ?_) nofun
      have hstatus := hshows.status_eq
      rw [h'] at hstatus
      cases hstatus
  | error e =>
    rw [catalogResponse_of_error hcatalog]
    constructor
    case shows_iff => exact fun c => iff_of_false (fun h' => nomatch h'.status_eq) nofun
    case status_eq_200_iff => exact iff_of_false nofun nofun
    case failure_iff => exact iff_of_true rfl ⟨e, rfl⟩

/-! ## Runs of a server -/

/-- What may happen to a server: an action on its store, or a request to a router over the store
with some settings. -/
inductive Turn where
  | action (a : Action)
  | request (config : ViewConfig) (r : Request)

/-- What came of a turn. -/
inductive Outcome where
  | happening (x : Happening)
  | response (r : Response)

namespace Turn

def action? : Turn → Option Action
  | action a => some a
  | request _ _ => none

/-- The actions among the turns. -/
def actions (turns : List Turn) : List Action := turns.filterMap action?

end Turn

namespace Outcome

def happening? : Outcome → Option Happening
  | happening x => some x
  | response _ => none

/-- What has come of the actions. -/
def happenings (outcomes : List Outcome) : List Happening := outcomes.filterMap happening?

end Outcome

end Http

namespace Watched

open Http

/-- What comes of a turn, and the state after it. -/
def take (w : Watched) : Turn → Outcome × Watched
  | .action a => (.happening (w.step a).1, (w.step a).2)
  | .request config r => (.response (respond { store := w.store, config } r), w)

/-- The state after a run of turns. -/
def afterTurns (w : Watched) (turns : List Turn) : Watched :=
  turns.foldl (fun w t => (w.take t).2) w

/-- What has come of each turn of a run. -/
def outcomes (w : Watched) : List Turn → List Outcome
  | [] => []
  | t :: turns => (w.take t).1 :: (w.take t).2.outcomes turns

/-- Without the requests a run is the same for the store and its subscribers. -/
lemma afterTurns_eq (w : Watched) (turns : List Turn) :
    w.afterTurns turns = w.after (Turn.actions turns) ∧
      Outcome.happenings (w.outcomes turns) = w.history (Turn.actions turns) := by
  induction turns generalizing w with
  | nil => exact ⟨rfl, rfl⟩
  | cons t turns ih =>
    obtain ⟨hafter, hhistory⟩ := ih (w.take t).2
    cases t with
    | action a => exact ⟨hafter, congrArg _ hhistory⟩
    | request config r => exact ⟨hafter, hhistory⟩

end Watched

/-- After any actions on a store of the types of a broker, there is a catalog. -/
lemma View.exists_catalog_after (capacity : ℕ) (actions : List Action) (config : ViewConfig) :
    ∃ c, View.catalog
      { store := ((Watched.fresh Broker.known capacity).after actions).store, config } = .ok c := by
  rw [((Watched.fresh Broker.known capacity).store_after actions).1]
  obtain ⟨classEntries, hclasses, -⟩ :=
    MemoryStore.list_after_of_known Broker.known capacity (Action.calls actions)
      Broker.schemaOfType?_serviceClassType ""
  obtain ⟨planEntries, hplans, -⟩ :=
    MemoryStore.list_after_of_known Broker.known capacity (Action.calls actions)
      Broker.schemaOfType?_servicePlanType ""
  exact ⟨_, View.catalog_of_views (View.serviceClasses_of_list hclasses)
    (View.servicePlans_of_list hplans)⟩

namespace Http

/-- **The catalog endpoint agrees with the catalog.**  Over any store and under either policy, a
request for the catalog succeeds exactly if there is a catalog, which can then be read from the
response, text for text and in its order; otherwise the request fails.  Over a store of the types of
a broker it succeeds after every run, under either policy.  No request of a run, for the catalog or
for anything else, makes a difference to the store, to its subscribers, or to what comes of any
action. -/
theorem endpoint_agrees :
    (∀ {σ : Type} [ConfigStore σ] (v : View σ) (r : Request), r.IsForCatalog →
      (respond v r).Tells v.catalog) ∧
    (∃ d, Broker.descriptor = .ok d ∧
      ∀ (capacity : ℕ) (turns : List Turn) (config : ViewConfig) (r : Request), r.IsForCatalog →
        let w := (Watched.fresh d capacity).afterTurns turns
        (respond { store := w.store, config : View MemoryStore } r).status = 200) ∧
    ∀ (w : Watched) (turns : List Turn),
      w.afterTurns turns = w.after (Turn.actions turns) ∧
        Outcome.happenings (w.outcomes turns) = w.history (Turn.actions turns) := by
  refine ⟨fun v r hr => tells_respond v hr, ?_, Watched.afterTurns_eq⟩
  refine ⟨Broker.known, Broker.descriptor_eq_known, ?_⟩
  intro capacity turns config r hr w
  have hw : w = (Watched.fresh Broker.known capacity).after (Turn.actions turns) :=
    (Watched.afterTurns_eq _ turns).1
  rw [hw, (tells_respond _ hr).status_eq_200_iff]
  exact View.exists_catalog_after capacity _ config

/-- A store that cannot be reached: under one policy the catalog is empty, under the other the
request fails. -/
example :
    let response (policy : ListErrorPolicy) : Response :=
      respond { store := (⟨Broker.known, "down"⟩ : FailingStore), config := ⟨policy⟩ }
        { method := "GET", target := "/v2/catalog?refresh" }
    response .suppress = ⟨200, some "application/json", "\x7b\"services\":[]\x7d"⟩ ∧
      response .propagate = { status := 500 } := by
  decide +kernel

end Http

end ConfigRegistry
