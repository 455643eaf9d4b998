import ConfigRegistry.Main
import ConfigRegistry.Store.Fixed
import ConfigRegistry.Proofs.SortedMap
import ConfigRegistry.Proofs.Store.Contents
import ConfigRegistry.Proofs.Store.Refinement
import ConfigRegistry.Proofs.Store.Revisions
import ConfigRegistry.Proofs.Store.Feed
import ConfigRegistry.Proofs.Store.Subscribers
import ConfigRegistry.Proofs.Store.Accounting
import ConfigRegistry.Proofs.Store.Replay
import ConfigRegistry.Proofs.Store.Integrity
import ConfigRegistry.Proofs.Model.Key
import ConfigRegistry.Proofs.Catalog.Kinds
import ConfigRegistry.Proofs.Catalog.Views
import ConfigRegistry.Proofs.Catalog.Join
import ConfigRegistry.Proofs.Catalog.Dependence
import ConfigRegistry.Proofs.Catalog.Policy
import ConfigRegistry.Proofs.Catalog.Grammar
import ConfigRegistry.Proofs.Store.Independence
import ConfigRegistry.Proofs.Store.Transfer
import ConfigRegistry.Proofs.Json.Quotation
import ConfigRegistry.Proofs.Json.Reader
import ConfigRegistry.Proofs.Json.Spelling
import ConfigRegistry.Proofs.Json.Structure
import ConfigRegistry.Proofs.Json.Recognition
import ConfigRegistry.Proofs.Json.Tree
import ConfigRegistry.Proofs.Shape.Text
import ConfigRegistry.Proofs.Shape.Members
import ConfigRegistry.Proofs.Shape.Recognition
import ConfigRegistry.Proofs.Json.Sorted
import ConfigRegistry.Proofs.Shape.RoundTrip
import ConfigRegistry.Proofs.Shape.Sorted
import ConfigRegistry.Proofs.Shape.Written
import ConfigRegistry.Proofs.Model.Codec
import ConfigRegistry.Proofs.Store.Erasure
import ConfigRegistry.Proofs.Model.Acceptance
import ConfigRegistry.Proofs.Yaml.Node.Block
import ConfigRegistry.Proofs.Shape.Document
import ConfigRegistry.Proofs.Model.Documents
import ConfigRegistry.Proofs.Yaml.Node.Flow
import ConfigRegistry.Proofs.Model.JsonDocuments
import ConfigRegistry.Proofs.Model.Resolution
import ConfigRegistry.Proofs.Server.Path
import ConfigRegistry.Proofs.Server.Loading
import ConfigRegistry.Proofs.Server.Directory
import ConfigRegistry.Proofs.Server.Endpoint
import ConfigRegistry.Proofs.Server.ValidatorRuns
import ConfigRegistry.Proofs.Json.Written
import ConfigRegistry.Proofs.Model.Registration
import ConfigRegistry.Proofs.Server.Listing
import ConfigRegistry.Proofs.Json.Over
import ConfigRegistry.Proofs.Shape.Dropping
import ConfigRegistry.Proofs.Model.Spellings
import ConfigRegistry.Proofs.Yaml.Scalar.Word
import ConfigRegistry.Proofs.Yaml.Token.Lines
import ConfigRegistry.Proofs.Yaml.Node.Lines
import ConfigRegistry.Proofs.Shape.Entries
import ConfigRegistry.Proofs.Model.Lines
import ConfigRegistry.Proofs.Server.Words
import ConfigRegistry.Proofs.Model.Equality
import ConfigRegistry.Proofs.Model.Label
