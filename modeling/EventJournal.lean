import EventJournal.Ambient
import EventJournal.Bus
import EventJournal.Bus.Publish
import EventJournal.Bus.Serve
import EventJournal.Codec
import EventJournal.Command
import EventJournal.Context
import EventJournal.Dispatch
import EventJournal.Engine
import EventJournal.Engine.Builder
import EventJournal.Engine.Controller
import EventJournal.Engine.Error
import EventJournal.Event
import EventJournal.Fiber
import EventJournal.Fiber.Pool
import EventJournal.Handler
import EventJournal.Handler.Feed
import EventJournal.Handler.Once
import EventJournal.Handler.Projection
import EventJournal.Ident
import EventJournal.Json
import EventJournal.Json.Lookup
import EventJournal.Json.Printer
import EventJournal.Json.Reason
import EventJournal.Json.Scanner
import EventJournal.Log
import EventJournal.Main
import EventJournal.Number.Binary64
import EventJournal.Number.Shortest
import EventJournal.Outbox
import EventJournal.Payload
import EventJournal.Proofs.Bus.Aging
import EventJournal.Proofs.Bus.Calls
import EventJournal.Proofs.Bus.Company
import EventJournal.Proofs.Bus.Conduct
import EventJournal.Proofs.Bus.Course
import EventJournal.Proofs.Bus.Courtesy
import EventJournal.Proofs.Bus.Delivery
import EventJournal.Proofs.Bus.Finish
import EventJournal.Proofs.Bus.Flow
import EventJournal.Proofs.Bus.Handout
import EventJournal.Proofs.Bus.Lanes
import EventJournal.Proofs.Bus.Ledger
import EventJournal.Proofs.Bus.Lifecycle
import EventJournal.Proofs.Bus.Notices
import EventJournal.Proofs.Bus.Orderly
import EventJournal.Proofs.Bus.Service
import EventJournal.Proofs.Bus.Staffing
import EventJournal.Proofs.Bus.Tasks
import EventJournal.Proofs.Bus.Traces
import EventJournal.Proofs.Bus.Visits
import EventJournal.Proofs.Bus.Work
import EventJournal.Proofs.Crowd.Accord
import EventJournal.Proofs.Crowd.Alone
import EventJournal.Proofs.Crowd.Composition
import EventJournal.Proofs.Crowd.Keeper
import EventJournal.Proofs.Crowd.Lifting
import EventJournal.Proofs.Crowd.NoteTraces
import EventJournal.Proofs.Crowd.Pact
import EventJournal.Proofs.Crowd.Progress
import EventJournal.Proofs.Crowd.Recast
import EventJournal.Proofs.Crowd.Run
import EventJournal.Proofs.Crowd.Told
import EventJournal.Proofs.Crowd.Turns
import EventJournal.Proofs.Engine.Accounting
import EventJournal.Proofs.Engine.Books
import EventJournal.Proofs.Engine.Branch
import EventJournal.Proofs.Engine.Calls
import EventJournal.Proofs.Engine.Closing
import EventJournal.Proofs.Engine.Conduct
import EventJournal.Proofs.Engine.Custody
import EventJournal.Proofs.Engine.Fanout
import EventJournal.Proofs.Engine.Line
import EventJournal.Proofs.Engine.Order
import EventJournal.Proofs.Engine.Publication
import EventJournal.Proofs.Engine.Published
import EventJournal.Proofs.Engine.Quiet
import EventJournal.Proofs.Engine.Registration
import EventJournal.Proofs.Engine.Replay
import EventJournal.Proofs.Engine.Revision
import EventJournal.Proofs.Engine.Sights
import EventJournal.Proofs.Engine.Strictness
import EventJournal.Proofs.Engine.Targets
import EventJournal.Proofs.Engine.Ways
import EventJournal.Proofs.Firm.Accounts
import EventJournal.Proofs.Firm.BusAccess
import EventJournal.Proofs.Firm.Calm
import EventJournal.Proofs.Firm.Diaries
import EventJournal.Proofs.Firm.Hospitality
import EventJournal.Proofs.Firm.Office
import EventJournal.Proofs.Firm.Once
import EventJournal.Proofs.Firm.Pages
import EventJournal.Proofs.Handler.Abiding
import EventJournal.Proofs.Handler.Diary
import EventJournal.Proofs.Handler.Dispatch
import EventJournal.Proofs.Handler.Redelivery
import EventJournal.Proofs.Handler.Register
import EventJournal.Proofs.Handler.Trace
import EventJournal.Proofs.Handler.Turn
import EventJournal.Proofs.Json.Bounds
import EventJournal.Proofs.Json.Brackets
import EventJournal.Proofs.Json.Exactness
import EventJournal.Proofs.Json.Payloads
import EventJournal.Proofs.Json.Rereading
import EventJournal.Proofs.Json.Tokens
import EventJournal.Proofs.Json.Values
import EventJournal.Proofs.Relay.Draining
import EventJournal.Proofs.Relay.Passes
import EventJournal.Proofs.Relay.Queue
import EventJournal.Proofs.Relay.Rounds
import EventJournal.Proofs.Routing.Hash
import EventJournal.Proofs.Routing.Keys
import EventJournal.Proofs.Settings.Reading
import EventJournal.Proofs.Shop.Carts
import EventJournal.Proofs.Shop.Orders
import EventJournal.Proofs.Shop.Payloads
import EventJournal.Proofs.Store.Drafts
import EventJournal.Proofs.Store.Journal
import EventJournal.Proofs.Store.Laws
import EventJournal.Proofs.Store.Outstanding
import EventJournal.Proofs.Store.Owners
import EventJournal.Proofs.Store.Reactions
import EventJournal.Proofs.Store.Reloading
import EventJournal.Proofs.Store.Resemblance
import EventJournal.Proofs.Store.Snapshots
import EventJournal.Proofs.Stream.Cuts
import EventJournal.Proofs.Stream.Folding
import EventJournal.Proofs.Stream.Numbering
import EventJournal.Proofs.Stream.Ordinals
import EventJournal.Proofs.Text.Hyphenated
import EventJournal.Proofs.Text.Identifiers
import EventJournal.Proofs.Text.Times
import EventJournal.Publisher
import EventJournal.Rehearsal.Company
import EventJournal.Rehearsal.Handlers
import EventJournal.Rehearsal.Performance
import EventJournal.Rehearsal.Script
import EventJournal.Rehearsal.Stage
import EventJournal.Relay
import EventJournal.Report
import EventJournal.Routing
import EventJournal.Settings
import EventJournal.Settings.Lookup
import EventJournal.Shape
import EventJournal.Shape.Coded
import EventJournal.Shape.OfText
import EventJournal.Shop.Cart
import EventJournal.Shop.Line
import EventJournal.Shop.Order
import EventJournal.Shop.Rules
import EventJournal.Shop.Site
import EventJournal.Shop.Tour
import EventJournal.Storage
import EventJournal.Store
import EventJournal.Stream
import EventJournal.Supply
import EventJournal.Tally
import EventJournal.Text.Blank
import EventJournal.Text.Hex
import EventJournal.Text.Printable
import EventJournal.Text.Quoted
import EventJournal.Text.Symbols
import EventJournal.Timestamp
import EventJournal.Timestamp.Parser
import EventJournal.Uuid
import EventJournal.Uuid.Find
import EventJournal.Uuid.Parser
import EventJournal.Version
import EventJournal.Watched
import EventJournal.World
