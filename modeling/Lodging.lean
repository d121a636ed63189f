import Lodging.Text.Blank
import Lodging.Text.Decimal
import Lodging.Text.Hex
import Lodging.Text.Octets
import Lodging.Text.Percent
import Lodging.Calendar.Date
import Lodging.Calendar.Stay
import Lodging.Calendar.Instant
import Lodging.Json.Basic
import Lodging.Json.Node
import Lodging.Json.Reader
import Lodging.Json.Magnitude
import Lodging.Json.Decoder
import Lodging.Identity
import Lodging.Problem
import Lodging.Rooms.Room
import Lodging.Rooms.Inventory
import Lodging.Rooms.Holds
import Lodging.Client.Failure
import Lodging.Client.Retry
import Lodging.Bookings.Booking
import Lodging.Bookings.Failure
import Lodging.Bookings.Ledger
import Lodging.Meter
import Lodging.Timer
import Lodging.Process
import Lodging.Rooms.Keeper
import Lodging.Client.Gateway
import Lodging.Bookings.Desk
import Lodging.Wire
import Lodging.Client.Complaint
import Lodging.Client.Rehearsal
import Lodging.Service.Message
import Lodging.Service.Settings
import Lodging.Service.MediaType
import Lodging.Client.Remote
import Lodging.Service.Exchange
import Lodging.Service.Router
import Lodging.Service.App
import Lodging.World.Mishap
import Lodging.World.World
import Lodging.World.Scene
import Lodging.World.Calls
import Lodging.World.Sample
import Lodging.World.Work
import Lodging.World.Bench
import Lodging.World.Trail
import Lodging.World.Journal
import Lodging.World.Dispatch
import Lodging.World.House
import Lodging.World.Offices
import Lodging.World.Contest
import Lodging.World.Lobby
import Lodging.World.Traffic
import Lodging.World.Likeness
import Lodging.World.Documents
import Lodging.World.Visits
import Lodging.World.Correlation
import Lodging.World.Privacy
import Lodging.World.Beats
import Lodging.Proofs.Text.Numerals
import Lodging.Proofs.Text.Forms
import Lodging.Proofs.Text.Instants
import Lodging.Proofs.Json.Reading
import Lodging.Proofs.Json.Records
import Lodging.Proofs.Json.Bounds
import Lodging.Proofs.Json.Documents
import Lodging.Proofs.Json.Complaints
import Lodging.Proofs.Remote.Requests
import Lodging.Proofs.Remote.Reception
import Lodging.Proofs.Remote.Answers
import Lodging.Proofs.Remote.InStep
import Lodging.Proofs.Remote.Uniform
import Lodging.Proofs.Remote.Agreement
import Lodging.Proofs.Holds
import Lodging.Proofs.Slots
import Lodging.Proofs.Lobby
import Lodging.Proofs.Inventory
import Lodging.Proofs.Ledger
import Lodging.Proofs.Rows
import Lodging.Proofs.Newest
import Lodging.Proofs.Privacy
import Lodging.Proofs.Script
import Lodging.Proofs.Staging
import Lodging.Proofs.Journal
import Lodging.Proofs.Entries
import Lodging.Proofs.Keeper.Course
import Lodging.Proofs.Keeper.Overlap
import Lodging.Proofs.Keeper.Alone
import Lodging.Proofs.Keeper.Effect
import Lodging.Proofs.Keeper.Order
import Lodging.Proofs.Keeper.History
import Lodging.Proofs.Keeper.Actions
import Lodging.Proofs.Keeper.Counts
import Lodging.Proofs.Keeper.Rooms
import Lodging.Proofs.Keeper.Ranking
import Lodging.Proofs.Keeper.Offers
import Lodging.Proofs.Keeper.Scan
import Lodging.Proofs.Keeper.Listing
import Lodging.Proofs.Client.Envelope
import Lodging.Proofs.Desk.Errand
import Lodging.Proofs.Desk.Course
import Lodging.Proofs.Desk.Moves
import Lodging.Proofs.Desk.Accounts
import Lodging.Proofs.Desk.Locks
import Lodging.Proofs.Desk.Confirmed
import Lodging.Proofs.Desk.Faultless
import Lodging.Proofs.Desk.Taken
import Lodging.Proofs.Desk.Failed
import Lodging.Proofs.Desk.Outlet
import Lodging.Proofs.Desk.Parts
import Lodging.Proofs.Desk.Backing
import Lodging.Proofs.Desk.Lifecycle
import Lodging.Proofs.Desk.Requests
import Lodging.Proofs.Desk.Privacy
import Lodging.Proofs.Desk.Alone
import Lodging.Proofs.Desk.Fairest
import Lodging.Proofs.Traffic.Pace
import Lodging.Proofs.Traffic.Strides
import Lodging.Proofs.Traffic.Flow
import Lodging.Proofs.Dispatch.Course
import Lodging.Proofs.Dispatch.Sole
import Lodging.Proofs.Dispatch.Once
import Lodging.Proofs.House
import Lodging.Proofs.Exact
import Lodging.Proofs.Brisk
import Lodging.Proofs.Parted
import Lodging.Proofs.Keeper.Frames
import Lodging.Proofs.Desk.Rejected
import Lodging.Proofs.Desk.Unnoticed
import Lodging.Proofs.Desk.Closing
import Lodging.Proofs.Desk.Foresight
import Lodging.Proofs.Desk.Cancelled
import Lodging.Proofs.Desk.Leftover
import Lodging.Proofs.Desk.Pages
import Lodging.Proofs.Desk.Aside
import Lodging.Proofs.Desk.Blame
import Lodging.Proofs.Desk.Books
import Lodging.Proofs.Desk.Reckoning
import Lodging.Proofs.Desk.Counted
import Lodging.Proofs.Desk.Abandoned
import Lodging.Proofs.Tally
import Lodging.Proofs.Contest.Course
import Lodging.Proofs.Contest.Standing
import Lodging.Proofs.Contest.Rivalry
import Lodging.Proofs.Contest.Releases
import Lodging.Proofs.Contest.Winner
import Lodging.Proofs.Service.Frame
import Lodging.Proofs.Service.Watching
import Lodging.Proofs.Service.Gate
import Lodging.Proofs.Service.Bearing
import Lodging.Proofs.Service.Correlation
import Lodging.World.Nights
import Lodging.Proofs.Calendar.Days
import Lodging.Proofs.Json.Strictness
import Lodging.Proofs.Calendar.Nights
import Lodging.World.Delays
import Lodging.World.Attempts
import Lodging.Proofs.Text.Pieces
import Lodging.Proofs.Text.Spelling
import Lodging.Proofs.Client.Delays
import Lodging.Proofs.Json.Magnitudes
import Lodging.Proofs.Remote.Complaints
import Lodging.World.Layers
import Lodging.Proofs.Service.Layers
import Lodging.Proofs.Service.Attempts
