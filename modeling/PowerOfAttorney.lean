import PowerOfAttorney.Command.InPlace
import PowerOfAttorney.Register.Count
import PowerOfAttorney.Proofs.Script.Hits
import PowerOfAttorney.Register.InPlace
import PowerOfAttorney.Register.Service
import PowerOfAttorney.Settings.Basic
import PowerOfAttorney.Proofs.Script.Conservation
import PowerOfAttorney.Proofs.Script.Origin
import PowerOfAttorney.Proofs.Script.Outcome
import PowerOfAttorney.Proofs.Script.Stale
import PowerOfAttorney.Proofs.Script.Layout
import PowerOfAttorney.Proofs.Script.Within
import PowerOfAttorney.Proofs.Script.Yields
import PowerOfAttorney.Proofs.Script.Traces
import PowerOfAttorney.Proofs.Script.Partition
import PowerOfAttorney.Proofs.Text.ByteOrder
import PowerOfAttorney.Proofs.Script.InOrder
import PowerOfAttorney.Proofs.Document.Holds
import PowerOfAttorney.Proofs.Document.Emptied
import PowerOfAttorney.Proofs.Operation.Fields
import PowerOfAttorney.Proofs.Operation.Parts
import PowerOfAttorney.Proofs.Operation.Decisions
import PowerOfAttorney.Proofs.Operation.Entries
import PowerOfAttorney.Proofs.Operation.Corrections
import PowerOfAttorney.Proofs.Operation.Signing
import PowerOfAttorney.Proofs.Operation.Standing
import PowerOfAttorney.Proofs.Operation.Ends
import PowerOfAttorney.Proofs.Operation.Accepted
import PowerOfAttorney.Proofs.Operation.Claims
import PowerOfAttorney.Proofs.Operation.Named
import PowerOfAttorney.Proofs.Operation.Keys
import PowerOfAttorney.Proofs.Operation.Signatures
import PowerOfAttorney.Proofs.Script.Order
import PowerOfAttorney.Proofs.Operation.Order
import PowerOfAttorney.Proofs.Operation.Respelled
import PowerOfAttorney.Proofs.Operation.Signers
import PowerOfAttorney.Proofs.Operation.Reach
import PowerOfAttorney.Proofs.Operation.Moves
import PowerOfAttorney.Proofs.Json.RoundTrip
import PowerOfAttorney.Proofs.Time.Calendar
import PowerOfAttorney.Proofs.Time.Date
import PowerOfAttorney.Proofs.Time.Spelling
import PowerOfAttorney.Proofs.Time.Instant
import PowerOfAttorney.Proofs.Time.Canonical
import PowerOfAttorney.Proofs.Cbor.RoundTrip
import PowerOfAttorney.Proofs.Register.Count
import PowerOfAttorney.Proofs.Json.Record
import PowerOfAttorney.Proofs.Json.Reread
import PowerOfAttorney.Proofs.Json.Length
import PowerOfAttorney.Proofs.Json.Fidelity
import PowerOfAttorney.Proofs.Number.Rounding
import PowerOfAttorney.Proofs.Json.Sameness
import PowerOfAttorney.Proofs.Change.Agreement
import PowerOfAttorney.Proofs.Change.Denotation
import PowerOfAttorney.Proofs.Document.Version
import PowerOfAttorney.Proofs.Document.Fidelity
import PowerOfAttorney.Proofs.Command.Atomic
import PowerOfAttorney.Proofs.Command.Effect
import PowerOfAttorney.Proofs.Register.History
import PowerOfAttorney.Proofs.Register.Lossless
import PowerOfAttorney.Proofs.Register.Written
import PowerOfAttorney.Proofs.Register.Outcome
import PowerOfAttorney.Proofs.Register.Scan
import PowerOfAttorney.Proofs.Register.Contention
import PowerOfAttorney.Proofs.Register.NoLostUpdate
import PowerOfAttorney.Proofs.Register.Growth
import PowerOfAttorney.Proofs.Register.Readable
import PowerOfAttorney.Proofs.Register.Isolation
import PowerOfAttorney.Proofs.Register.CompareAndSet
import PowerOfAttorney.Proofs.Lifecycle.Run
import PowerOfAttorney.Proofs.Lifecycle.Status
import PowerOfAttorney.Proofs.Lifecycle.Parties
import PowerOfAttorney.Proofs.Lifecycle.Perfected
import PowerOfAttorney.Proofs.Lifecycle.Registered
import PowerOfAttorney.Proofs.Lifecycle.Seats
import PowerOfAttorney.Proofs.Lifecycle.Frozen
import PowerOfAttorney.Proofs.Lifecycle.Patch
import PowerOfAttorney.Proofs.Lifecycle.Allowed
import PowerOfAttorney.Proofs.Lifecycle.Noted
import PowerOfAttorney.Proofs.Operation.Target
import PowerOfAttorney.Proofs.Lifecycle.Together
import PowerOfAttorney.Proofs.Lifecycle.OneParty
import PowerOfAttorney.Proofs.Lifecycle.OptOuts
import PowerOfAttorney.Proofs.Lifecycle.Signatures
import PowerOfAttorney.Proofs.Lifecycle.AnyOrder
import PowerOfAttorney.Proofs.Lifecycle.Replay
import PowerOfAttorney.Proofs.Lifecycle.Times
import PowerOfAttorney.Proofs.Lifecycle.Identity
import PowerOfAttorney.Proofs.Lifecycle.Subject
import PowerOfAttorney.Proofs.Lifecycle.Standing
import PowerOfAttorney.Proofs.Lifecycle.Wording
import PowerOfAttorney.Proofs.Register.Explained
import PowerOfAttorney.Proofs.Register.Attribution
