import ChatBotChat.Interleave.Prog
import ChatBotChat.Interleave.System
import ChatBotChat.Interleave.Runs
import ChatBotChat.Interleave.Newcomers
import ChatBotChat.Interleave.Alone
import ChatBotChat.Interleave.Logs
import ChatBotChat.Interleave.Asking
import ChatBotChat.Rfc3339.Text
import ChatBotChat.Rfc3339.Digits
import ChatBotChat.Rfc3339.Calendar
import ChatBotChat.Rfc3339.Order
import ChatBotChat.Room
import ChatBotChat.Lifecycle
import ChatBotChat.Storage
import ChatBotChat.Calls
import ChatBotChat.Effects
import ChatBotChat.Ids
import ChatBotChat.Protocol
import ChatBotChat.Waiter
import ChatBotChat.Http
import ChatBotChat.Daemon
import ChatBotChat.Database
import ChatBotChat.Discipline
import ChatBotChat.Handlers
import ChatBotChat.Waiting
import ChatBotChat.Reach
import ChatBotChat.Audit
import ChatBotChat.Caps
import ChatBotChat.Extension
import ChatBotChat.CapRange
import ChatBotChat.Feed
import ChatBotChat.Cursors
import ChatBotChat.Delivery
import ChatBotChat.Inbox
import ChatBotChat.Consumed
import ChatBotChat.Wakeup
import ChatBotChat.Consensus
import ChatBotChat.Liveness
import ChatBotChat.Sweeping
import ChatBotChat.SweepRuns
import ChatBotChat.Rejections
import ChatBotChat.Torn
import ChatBotChat.Joining
import ChatBotChat.JoinWindow
import ChatBotChat.Idempotent
import ChatBotChat.Cbc.Words
import ChatBotChat.Cbc.Hook
import ChatBotChat.Cbc.PollLine
import ChatBotChat.Cbc.Relaunch
import ChatBotChat.Cbc.Poll
import ChatBotChat.Ranking
import ChatBotChat.Cbc.PollBound
import ChatBotChat.Parking
import ChatBotChat.Prompt
import ChatBotChat.Refresh
import ChatBotChat.Poller
import ChatBotChat.SoftCap
import ChatBotChat.Migration
import ChatBotChat.Roster
import ChatBotChat.Naming
import ChatBotChat.Nickname
import ChatBotChat.Acting
import ChatBotChat.RoundTrip
import ChatBotChat.Closing
import ChatBotChat.CloseRun
import ChatBotChat.Proposal
import ChatBotChat.Unanimity
import ChatBotChat.Sending
import ChatBotChat.Obtained
import ChatBotChat.Reviving
import ChatBotChat.Backoff
import ChatBotChat.Cbc.Holding
import ChatBotChat.Cbc.Marker
import ChatBotChat.Presence
import ChatBotChat.Culling
import ChatBotChat.Cbc.Stop
import ChatBotChat.Cbc.Reconcile
import ChatBotChat.CommandLine
import ChatBotChat.Cbc.Cli
import ChatBotChat.Cbc.Block
import ChatBotChat.JsonValue
import ChatBotChat.Cbc.Settings
import ChatBotChat.Cbc.Merge
import ChatBotChat.FileTree
import ChatBotChat.Cbc.Skill
import ChatBotChat.Cbc.Install
import ChatBotChat.Busy
import ChatBotChat.RoomIds
import ChatBotChat.JsonCodec
import ChatBotChat.Wire
import ChatBotChat.Guards
import ChatBotChat.Ledger
import ChatBotChat.Interleave.Settled
import ChatBotChat.Ended
import ChatBotChat.Opening
import ChatBotChat.Timestamps
import ChatBotChat.Parks
import ChatBotChat.Peeks
import ChatBotChat.Isolation
import ChatBotChat.Authentic
import ChatBotChat.Refusals
import ChatBotChat.Statuses
import ChatBotChat.JsonRecord
import ChatBotChat.Bodies
import ChatBotChat.Transport
