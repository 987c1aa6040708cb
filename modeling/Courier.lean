import Courier.Broker.Basic
import Courier.Cache
import Courier.Identifier
import Courier.Main
import Courier.Store.Faulty
import Courier.Store.Memory
import Courier.Store.Survey
import Courier.Calendar.Reader
import Courier.Binary64.Literal
import Courier.Proofs.Glob.Language
import Courier.Proofs.Glob.Classes
import Courier.Proofs.Glob.Positions
import Courier.Proofs.Store.View
import Courier.Proofs.Store.Calls
import Courier.Proofs.Queue.Effect
import Courier.Proofs.Queue.Interleaving
import Courier.Proofs.Queue.Promotion
import Courier.Proofs.Calendar.Date
import Courier.Proofs.Calendar.Written
import Courier.Proofs.Json.Tokens
import Courier.Proofs.Json.Values
import Courier.Proofs.Json.Types
import Courier.Proofs.Record.RoundTrip
import Courier.Proofs.Record.Members
import Courier.Proofs.Record.Texts
import Courier.Proofs.Broker.Delivery
import Courier.Proofs.Acceptance
import Courier.Proofs.Queue.Separation
import Courier.Proofs.Queue.Waiting
import Courier.Proofs.Queue.Fifo
import Courier.Proofs.Store.Exchange
import Courier.Proofs.Store.Recorded
import Courier.Proofs.Store.Fanout
import Courier.Proofs.Broker.Stream
import Courier.Proofs.KeyMap
import Courier.Proofs.Store.Locking
import Courier.Proofs.Store.Current
import Courier.Proofs.Store.Expiry
import Courier.Proofs.Text.Order
import Courier.Proofs.Store.Existence
import Courier.Proofs.Store.Lending
import Courier.Proofs.Remote.Confirmation
import Courier.Proofs.Remote.Listening
import Courier.Proofs.Broker.Closing
import Courier.Proofs.Json.Integers
import Courier.Proofs.Cache.Map
import Courier.Proofs.Cache.Counter
import Courier.Proofs.Store.Kinds
import Courier.Proofs.Queue.Scores
import Courier.Proofs.Store.Slots
import Courier.Proofs.Broker.Audience
import Courier.Proofs.Broker.Flow
import Courier.Proofs.Broker.Targets
import Courier.Proofs.Record.Drafts
import Courier.Proofs.Broker.Origin
import Courier.Proofs.Store.Independence
import Courier.Proofs.Binary64.Value
import Courier.Proofs.Queue.Ready
import Courier.Proofs.Promoter.Thread
import Courier.Proofs.Remote.Exchanges
import Courier.Proofs.Remote.Commands
import Courier.Proofs.Calendar.Instant
import Courier.Proofs.Queue.Delay
import Courier.Proofs.Text.Mended
import Courier.Proofs.Json.Suffix
import Courier.Proofs.Record.Fallback
import Courier.Proofs.Json.Texts
import Courier.Proofs.Json.Literals
import Courier.Proofs.Json.Compact
import Courier.Proofs.Json.Kept
import Courier.Proofs.Json.Passed
import Courier.Proofs.Remote.Lifetimes
import Courier.Proofs.Store.Ranges
import Courier.Proofs.Json.Depth
import Courier.Proofs.Record.Normal
import Courier.Proofs.Json.Insertion
import Courier.Proofs.Queue.Distinct
import Courier.Proofs.Text.Blank
import Courier.Proofs.Text.Numeral
import Courier.Proofs.Promoter.Names
import Courier.Proofs.Promoter.Settings
import Courier.Proofs.Remote.Opening
import Courier.Proofs.Remote.Paging
