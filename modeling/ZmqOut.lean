import ZmqOut.Runs
import ZmqOut.Accounts
import ZmqOut.Fairness
import ZmqOut.Codec
import ZmqOut.FileTree
import ZmqOut.DataStream
import ZmqOut.Truncation
import ZmqOut.Variant
import ZmqOut.Sockets
import ZmqOut.Server
import ZmqOut.Steps
import ZmqOut.Registry
import ZmqOut.Workers
import ZmqOut.HandlerPointer
import ZmqOut.Broadcast
import ZmqOut.FanOut
import ZmqOut.Replies
import ZmqOut.Truth
import ZmqOut.Delivery
import ZmqOut.Dispatch
import ZmqOut.Threads
import ZmqOut.Operations
import ZmqOut.Turns
import ZmqOut.Ownership
import ZmqOut.Races
import ZmqOut.Quiescent
import ZmqOut.Lanes
import ZmqOut.Intake
import ZmqOut.Progress
import ZmqOut.Shutdown
import ZmqOut.Sessions
import ZmqOut.Subscribing
import ZmqOut.Receiving
import ZmqOut.Configuration
import ZmqOut.Relay
import ZmqOut.Messages
import ZmqOut.Teardown
import ZmqOut.Options
import ZmqOut.SaveImage
import ZmqOut.Saves
