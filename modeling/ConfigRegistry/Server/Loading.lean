/-
# Loading configuration into a store

A file holds any number of documents, each an object or nothing.  The objects are created in the
store one after another.  The first document that is no object, or an object that the store
refuses, ends the loading; what has been created before stays.
-/
import ConfigRegistry.Server.Error
import ConfigRegistry.Store.Basic

namespace ConfigRegistry

/-- How far loading has come. -/
structure Loading (σ : Type) where
  store : σ
  /-- How many objects have been created. -/
  created : Nat := 0
  /-- How many times a validator has run. -/
  runs : Nat := 0
  /-- Why loading has ended early, if it has. -/
  failure : Option StartupError := none

namespace Loading

variable {σ : Type}

/-- Loading that ends early. -/
def stop (l : Loading σ) (e : StartupError) : Loading σ := { l with failure := some e }

/-- Goes on with loading unless it has ended. -/
def next (l : Loading σ) (step : Loading σ → Loading σ) : Loading σ :=
  if l.failure.isSome then l else step l

/-- How many objects have been created, unless loading has ended early. -/
def outcome (l : Loading σ) : Except StartupError Nat :=
  match l.failure with
  | some e => .error e
  | none => .ok l.created

variable [ConfigStore σ]

/-- The revisions that objects get as they are created, the first one for the first object. -/
abbrev Revisions : Type := Nat → String

/-- Creates the object of a document. -/
def object (revisions : Revisions) (path : Path) (index : Nat) (o : ConfigObject)
    (l : Loading σ) : Loading σ :=
  let read := (ConfigStore.descriptor l.store).ofObject o
  let l := { l with runs := l.runs + read.runs }
  match read.outcome with
  | .error e => l.stop (.object path index e)
  | .ok entry =>
    let made := ConfigStore.create l.store (revisions l.created) entry
    let l := { l with store := made.store, runs := l.runs + made.runs }
    match made.outcome with
    | .error e => l.stop (.store path entry.key e)
    | .ok () => { l with created := l.created + 1 }

/-- Creates the object of a document, unless there is nothing in it. -/
def document (revisions : Revisions) (path : Path) (index : Nat)
    (d : Except Yaml.Fault Yaml.Document) (l : Loading σ) : Loading σ :=
  match d >>= (Shape.option ConfigObject.shape).ofDocument with
  | .error e => l.stop (.document path index e)
  | .ok none => l
  | .ok (some o) => l.object revisions path index o

/-- Creates the objects of documents, of which the first one has a given number. -/
def documents (revisions : Revisions) (path : Path) (l : Loading σ) :
    Nat → List (Except Yaml.Fault Yaml.Document) → Loading σ
  | _, [] => l
  | index, d :: more =>
    documents revisions path (l.next (document revisions path index d)) (index + 1) more

/-- Creates the objects of a file. -/
def file (revisions : Revisions) (fs : FileSystem) (l : Loading σ) (path : Path) : Loading σ :=
  l.next fun l =>
    match fs.readText path with
    | .error e => l.stop (.file path e)
    | .ok text => l.documents revisions path 0 (Yaml.Document.allOfText text)

/-- Creates the objects of the configuration files in a directory, in the order of their paths. -/
def directory (revisions : Revisions) (fs : FileSystem) (l : Loading σ) (path : Path) :
    Loading σ :=
  match fs.readDirectory path with
  | .error e => l.stop (.directory path e)
  | .ok entries =>
    match configFiles entries with
    | .error e => l.stop (.listing path e)
    | .ok files => (files.filter fs.isFile).foldl (file revisions fs) l

end Loading

end ConfigRegistry
