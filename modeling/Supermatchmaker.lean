import Supermatchmaker.Lib.Lts
import Supermatchmaker.Lib.Log
import Supermatchmaker.Lib.Register
import Supermatchmaker.Lib.Table
import Supermatchmaker.Lib.Tally
import Supermatchmaker.Config
import Supermatchmaker.Matcher.Conserve
import Supermatchmaker.Matcher.Formation
import Supermatchmaker.Matcher.Counters
import Supermatchmaker.Matcher.Custody
import Supermatchmaker.Matcher.Optimal
import Supermatchmaker.Matcher.Tolerance
import Supermatchmaker.Matcher.Order
import Supermatchmaker.Matcher.Attempt
import Supermatchmaker.Matcher.Starvation
import Supermatchmaker.Matcher.Locking
import Supermatchmaker.Matcher.Anchor
import Supermatchmaker.Matcher.Carousel
import Supermatchmaker.Db.Redelivery
import Supermatchmaker.Db.Columns
import Supermatchmaker.Ingest.Delivery
import Supermatchmaker.Sync.Flush
import Supermatchmaker.Sync.Retry
import Supermatchmaker.Sync.Rows
import Supermatchmaker.Service.Booking
import Supermatchmaker.Service.Status
import Supermatchmaker.Service.Capture
import Supermatchmaker.Service.Recovery
import Supermatchmaker.Service.Identity
import Supermatchmaker.Service.Depth
import Supermatchmaker.Service.Arrival
import Supermatchmaker.Service.Survival
import Supermatchmaker.Service.Retention
import Supermatchmaker.Service.Fairness
import Supermatchmaker.Lib.Serial
import Supermatchmaker.Matcher.Eviction
import Supermatchmaker.Auth.Token
import Supermatchmaker.Lib.Cells
import Supermatchmaker.Service.Restore
import Supermatchmaker.Ingest.Stall
import Supermatchmaker.Lib.Utf8
import Supermatchmaker.Redis.Reply
import Supermatchmaker.Lib.Directory
import Supermatchmaker.Snapshots.Store
import Supermatchmaker.Lib.Spec
import Supermatchmaker.Service.Desk
import Supermatchmaker.Sync.Stored
import Supermatchmaker.Service.Pipeline
import Supermatchmaker.Service.Lineage
import Supermatchmaker.Api.Views
import Supermatchmaker.Api.Shown
import Supermatchmaker.Db.Batching
import Supermatchmaker.Lib.Text
import Supermatchmaker.Api.Session
import Supermatchmaker.Api.Polling
import Supermatchmaker.Matcher.Backlog
import Supermatchmaker.Startup
import Supermatchmaker.Lib.Keyspace
import Supermatchmaker.Redis.Wire
import Supermatchmaker.Service.Traffic
