import LiveTest.Rust.Panic
import LiveTest.Rust.PairSort
import LiveTest.Rust.Overflow
import LiveTest.Rust.Parse
import LiveTest.Machine
import LiveTest.Ledger
import LiveTest.OneSlot
import LiveTest.Topics
import LiveTest.Barriers
import LiveTest.Streaks
import LiveTest.Lifetimes
import LiveTest.Queue
import LiveTest.BlockExchange.Basic
import LiveTest.BlockExchange.WellFormed
import LiveTest.BlockExchange.Wants
import LiveTest.BlockExchange.AddBlock
import LiveTest.BlockExchange.Runs
import LiveTest.BlockExchange.Calls
import LiveTest.BlockExchange.Settled
import LiveTest.Service.Basic
import LiveTest.Service.Schedule
import LiveTest.Service.Sends
import LiveTest.Service.Replies
import LiveTest.Service.Gets
import LiveTest.Service.Subscribe
import LiveTest.Service.Outputs
import LiveTest.Service.Outcomes
import LiveTest.Service.Isolation
import LiveTest.Service.Turns
import LiveTest.Service.Waiting
import LiveTest.Service.Serving
import LiveTest.Network.Basic
import LiveTest.Network.Integrity
import LiveTest.VideoPlayer.Basic
import LiveTest.VideoPlayer.Builds
import LiveTest.VideoPlayer.Conservation
import LiveTest.VideoPlayer.CatchUp
import LiveTest.VideoPlayer.Fits
import LiveTest.VideoPlayer.Playback
import LiveTest.VideoPlayer.Stalls
import LiveTest.VideoPlayer.ArrivalOrder
import LiveTest.VideoPlayer.Fetches
import LiveTest.VideoPlayer.Backlog
import LiveTest.Streamer.Blocks
import LiveTest.Viewer.Basic
import LiveTest.Viewer.Fetch
import LiveTest.Viewer.Steps
import LiveTest.Viewer.Progress
import LiveTest.VideoPlayer.Loop
import LiveTest.VideoPlayer.Schedule
import LiveTest.AddressExchange.Basic
import LiveTest.AddressExchange.Complete
import LiveTest.AddressExchange.Start
import LiveTest.AddressExchange.Shutdown
import LiveTest.Streamer.Task
import LiveTest.Broadcast.Basic
import LiveTest.Broadcast.Parts
import LiveTest.Broadcast.Steady
import LiveTest.Broadcast.Announced
import LiveTest.Broadcast.Delivered
import LiveTest.Broadcast.Asked
import LiveTest.Broadcast.Served
import LiveTest.ParallelSorts
import LiveTest.Params
import LiveTest.ParamsRead
