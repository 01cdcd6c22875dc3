import MetaCache.Cell
import MetaCache.Config.Basic
import MetaCache.Config.Files
import MetaCache.Config.Path
import MetaCache.Config.Toml
import MetaCache.Descriptor.Basic
import MetaCache.Descriptor.Compile
import MetaCache.Error
import MetaCache.Files.Path
import MetaCache.Files.Tree
import MetaCache.Host
import MetaCache.Host.Registry
import MetaCache.Key
import MetaCache.KeyTable
import MetaCache.Lookup
import MetaCache.Note
import MetaCache.Number.Binary64
import MetaCache.Number.Format
import MetaCache.Number.Shortest
import MetaCache.Proofs.Accounting
import MetaCache.Proofs.Balance
import MetaCache.Proofs.Coherence
import MetaCache.Proofs.Compile.Books
import MetaCache.Proofs.Compile.Captures
import MetaCache.Proofs.Compile.Ledger
import MetaCache.Proofs.Compile.Ongoing
import MetaCache.Proofs.Compile.Outcomes
import MetaCache.Proofs.Compile.Transaction
import MetaCache.Proofs.Custody.Estate
import MetaCache.Proofs.Custody.Exact
import MetaCache.Proofs.Custody.Exchanges
import MetaCache.Proofs.Custody.Hosts
import MetaCache.Proofs.Custody.Lookups
import MetaCache.Proofs.Custody.Operations
import MetaCache.Proofs.Custody.Payloads
import MetaCache.Proofs.Custody.Slots
import MetaCache.Proofs.Custody.Steps
import MetaCache.Proofs.Custody.Table
import MetaCache.Proofs.Dialogue.Basic
import MetaCache.Proofs.Dialogue.Compile
import MetaCache.Proofs.Dialogue.Lookup
import MetaCache.Proofs.Dialogue.Protocol
import MetaCache.Proofs.Governors
import MetaCache.Proofs.History.Activity
import MetaCache.Proofs.History.Answers
import MetaCache.Proofs.History.Commands
import MetaCache.Proofs.History.Later
import MetaCache.Proofs.History.Quiet
import MetaCache.Proofs.History.Registry
import MetaCache.Proofs.Interning
import MetaCache.Proofs.Introspection.Compile
import MetaCache.Proofs.Introspection.Faithful
import MetaCache.Proofs.Introspection.Follows
import MetaCache.Proofs.Introspection.Lookup
import MetaCache.Proofs.Introspection.Plain
import MetaCache.Proofs.Introspection.Protocol
import MetaCache.Proofs.Introspection.View
import MetaCache.Proofs.Names
import MetaCache.Proofs.Ownership.Counts
import MetaCache.Proofs.Ownership.Entries
import MetaCache.Proofs.Ownership.KeyNames
import MetaCache.Proofs.Ownership.Release
import MetaCache.Proofs.Ownership.Share
import MetaCache.Proofs.Ownership.Slot
import MetaCache.Proofs.Ownership.Update
import MetaCache.Proofs.Payloads
import MetaCache.Proofs.Play.Basic
import MetaCache.Proofs.Play.Builds
import MetaCache.Proofs.Play.Counters
import MetaCache.Proofs.Play.Hands
import MetaCache.Proofs.Play.Origins
import MetaCache.Proofs.Play.Runs
import MetaCache.Proofs.Play.Slots
import MetaCache.Proofs.Play.Steps
import MetaCache.Proofs.Play.Times
import MetaCache.Proofs.Sharing
import MetaCache.Proofs.Sharing.Agreement
import MetaCache.Proofs.Sharing.Alike
import MetaCache.Proofs.Sharing.Compilation
import MetaCache.Proofs.Sharing.Evaluation
import MetaCache.Proofs.Sharing.Names
import MetaCache.Proofs.Sharing.Objects
import MetaCache.Proofs.Sharing.Results
import MetaCache.Proofs.Sharing.Runs
import MetaCache.Proofs.Sharing.Steps
import MetaCache.Proofs.Sharing.Stores
import MetaCache.Proofs.Sharing.Twins
import MetaCache.Proofs.Sharing.Views
import MetaCache.Proofs.Storage.Entries
import MetaCache.Proofs.Storage.Keys
import MetaCache.Proofs.Storage.Map
import MetaCache.Proofs.Storage.Refinement
import MetaCache.Proofs.Storage.Writes
import MetaCache.Proofs.Transparency
import MetaCache.Proofs.Weakening
import MetaCache.Proofs.Wholeness
import MetaCache.Script.Eval
import MetaCache.Script.Language
import MetaCache.Script.Report
import MetaCache.Script.Responder
import MetaCache.Script.Result
import MetaCache.Script.Run
import MetaCache.Script.Step
import MetaCache.Script.Steps.Classes
import MetaCache.Script.Steps.Extensions
import MetaCache.Script.Steps.Keys
import MetaCache.Script.Steps.Slots
import MetaCache.Script.Steps.Structures
import MetaCache.Script.Steps.Values
import MetaCache.Script.Transcript
import MetaCache.Script.Variable
import MetaCache.Script.View
import MetaCache.Shadow.Basic
import MetaCache.Shadow.Compile
import MetaCache.Storage
import MetaCache.Store.Basic
import MetaCache.Store.Owned
import MetaCache.Store.Table
import MetaCache.Text.Address
import MetaCache.Text.Printable
import MetaCache.Text.Quoted
import MetaCache.Text.SipHash
import MetaCache.Toml.Document
import MetaCache.Toml.Node
import MetaCache.Toml.Quoted
import MetaCache.Toml.Scalar
import MetaCache.Value
import MetaCache.World
import MetaCache.Proofs.Dialogue.Queries
import MetaCache.Proofs.Interview.Basic
import MetaCache.Proofs.Attributes
import MetaCache.Proofs.InitialValues
import MetaCache.Proofs.Instances
import MetaCache.Proofs.Hashing
import MetaCache.Proofs.Sweeps
import MetaCache.Proofs.Defaults
import MetaCache.Proofs.CleanSlots
import MetaCache.Proofs.Redefinitions
import MetaCache.Proofs.Buckets
import MetaCache.Proofs.Searches
import MetaCache.Proofs.Settings
import MetaCache.Proofs.Shortcuts
