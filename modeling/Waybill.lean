import Waybill.Ordered.Map
import Waybill.Identifier
import Waybill.Word
import Waybill.Packed.Envelope
import Waybill.Packed.Transfer
import Waybill.Packed.Governance
import Waybill.Json.Reader
import Waybill.Json.Writer
import Waybill.Json.Fields
import Waybill.Json.Kept
import Waybill.Event.Json
import Waybill.Network.Json
import Waybill.Settings
import Waybill.Message.Transition
import Waybill.Message.Record
import Waybill.Record.Json
import Waybill.Task.Run
import Waybill.Tracker.Batch
import Waybill.Census
import Waybill.Store.Memory
import Waybill.Store.Database
import Waybill.Tracker.Turns
import Waybill.Tracker.Basic
import Waybill.Signal.Inbox
import Waybill.Signal.Tally
import Waybill.Schema.Migration
import Waybill.Proofs.Text.Hex
import Waybill.Proofs.Text.Identifier
import Waybill.Proofs.Text.Digits
import Waybill.Proofs.Json.Tokens
import Waybill.Proofs.Json.RoundTrip
import Waybill.Proofs.Event.RoundTrip
import Waybill.Proofs.Message.RoundTrip
import Waybill.Proofs.Pending.Lookup
import Waybill.Proofs.Ledger.Account
import Waybill.Proofs.Ledger.Consistency
import Waybill.Proofs.Ledger.Reached
import Waybill.Proofs.Tracker.Branches
import Waybill.Proofs.Tracker.Convergence
import Waybill.Proofs.Tracker.History
import Waybill.Proofs.Tracker.Recovery
import Waybill.Proofs.Tracker.Reconciliation
import Waybill.Proofs.Tracker.Routes
import Waybill.Proofs.Ordered.Handing
import Waybill.Proofs.Tracker.Sends
import Waybill.Proofs.Store.Row
import Waybill.Proofs.Task.Contract
import Waybill.Proofs.Tracker.Looking
import Waybill.Proofs.Tracker.Upkeep
import Waybill.Proofs.Census
import Waybill.Proofs.Store.Database
import Waybill.Proofs.Tracker.Tending
import Waybill.Proofs.Tracker.ReadBack
import Waybill.Proofs.Ledger.Growth
import Waybill.Proofs.Tracker.Journal
import Waybill.Proofs.Tracker.Atomicity
import Waybill.Proofs.Message.Climb
import Waybill.Proofs.Tracker.Notices
import Waybill.Proofs.Ledger.Within
import Waybill.Proofs.Tracker.Backing
import Waybill.Proofs.Message.Reload
import Waybill.Proofs.Tracker.Shape
import Waybill.Proofs.Tracker.Isolation
import Waybill.Proofs.Tracker.Reconfiguration
import Waybill.Proofs.Pending.Buffer
import Waybill.Proofs.Tracker.Matching
import Waybill.Proofs.Store.Mirror
import Waybill.Proofs.Tracker.Redelivery
import Waybill.Proofs.Packed.Formats
import Waybill.Proofs.Message.Classification
import Waybill.Proofs.Tracker.Confirmation
import Waybill.Proofs.Tracker.Attachment
import Waybill.Proofs.Message.ClosedForm
import Waybill.Proofs.Tracker.Scene
import Waybill.Proofs.Tracker.Agreement
import Waybill.Proofs.Text.HexSpelling
import Waybill.Proofs.Text.IdentifierSpelling
import Waybill.Proofs.Text.WordSpelling
import Waybill.Proofs.Message.Foreign
import Waybill.Proofs.Task.Conduct
import Waybill.Proofs.Task.Bookkeeping
import Waybill.Proofs.Tracker.Conduct
import Waybill.Proofs.Tracker.Works
import Waybill.Proofs.Tracker.Statistics
import Waybill.Proofs.Tracker.Buffered
import Waybill.Proofs.Store.Reading
