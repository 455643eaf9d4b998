/-
# The catalog over HTTP

There is one resource, the catalog.  It can be got, and its head can be asked for, which is the
same without the body.  Requests never change the store.
-/
import ConfigRegistry.Catalog.Builder
import ConfigRegistry.Shape.Encode

namespace ConfigRegistry.Http

/-- A request. -/
structure Request where
  method : String
  /-- The path, perhaps with a query behind it. -/
  target : String
deriving DecidableEq, Repr

/-- A response. -/
structure Response where
  status : Nat
  contentType : Option String := none
  body : String := ""
deriving DecidableEq, Repr

/-- The path of the catalog. -/
def catalogPath : String := "/v2/catalog"

/-- The path of a target. -/
def pathOf (target : String) : String :=
  String.ofList (target.toList.takeWhile fun c => c != '?' && c != '#')

variable {σ : Type} [ConfigStore σ]

/-- The catalog as a response. -/
def catalogResponse (v : View σ) : Response :=
  match v.catalog with
  | .ok catalog =>
    { status := 200, contentType := some "application/json", body := Catalog.shape.toText catalog }
  | .error _ => { status := 500 }

/-- The response to a request. -/
def respond (v : View σ) (r : Request) : Response :=
  if pathOf r.target != catalogPath then { status := 404 }
  else if r.method == "GET" then catalogResponse v
  else if r.method == "HEAD" then { catalogResponse v with body := "" }
  else { status := 405 }

end ConfigRegistry.Http
