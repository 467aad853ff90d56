import Testbench.Bench
import Testbench.Bench.Running
import Testbench.Bench.Waiting
import Testbench.CommandLine
import Testbench.Console
import Testbench.Decimal.Number
import Testbench.Decimal.Reading
import Testbench.Decimal.Shortest
import Testbench.Environment
import Testbench.Environment.Scripted
import Testbench.Failure
import Testbench.Feed
import Testbench.Feed.Framing
import Testbench.Inbox
import Testbench.Inbox.Exchange
import Testbench.Inbox.Exchange.Ending
import Testbench.Inbox.Slots
import Testbench.Journal
import Testbench.Line
import Testbench.Main
import Testbench.Policy
import Testbench.Program
import Testbench.Settings
import Testbench.Sink
import Testbench.Sink.Writer
import Testbench.Systems.CarAlarm
import Testbench.Systems.Echo
import Testbench.Systems.FishRetailer
import Testbench.Systems.Vendor
import Testbench.Text.Disarmed
import Testbench.Text.Inspect
import Testbench.Text.Quoted
import Testbench.Text.Unprintable
import Testbench.Text.Utf8
import Testbench.Time
import Testbench.Time.Calendar
import Testbench.Time.Published
import Testbench.Time.Written
import Testbench.Proofs.Own
import Testbench.Proofs.Work
import Testbench.Proofs.Trace
import Testbench.Proofs.Scripts
import Testbench.Proofs.Windows
import Testbench.Proofs.WakeUp
import Testbench.Proofs.Pacing
import Testbench.Proofs.Schedules
import Testbench.Proofs.Listeners
import Testbench.Proofs.OnRecord
import Testbench.Proofs.Answers
import Testbench.Proofs.Arrivals
import Testbench.Proofs.Relabelled
import Testbench.Proofs.Roll
import Testbench.Proofs.Settled
import Testbench.Proofs.Course
import Testbench.Proofs.InputOrder
import Testbench.Proofs.VirtualTime
import Testbench.Proofs.Vigils
import Testbench.Proofs.Stages
import Testbench.Proofs.Timeline
import Testbench.Proofs.Dialogue
import Testbench.Proofs.Outcomes
import Testbench.Proofs.AlarmEdges
import Testbench.Proofs.AlarmLanguage
import Testbench.Proofs.Limits
import Testbench.Proofs.RetailUpdates
import Testbench.Proofs.Ranking
import Testbench.Proofs.Cues
import Testbench.Proofs.Termination
import Testbench.Proofs.Rounding
import Testbench.Proofs.FloatOrder
import Testbench.Proofs.Steps
import Testbench.Proofs.Clocks
import Testbench.Proofs.AlarmTiming
import Testbench.Proofs.AlarmDoors
import Testbench.Proofs.RetailDeals
import Testbench.Proofs.RetailService
import Testbench.Proofs.Splitting
import Testbench.Proofs.Directives
import Testbench.Proofs.Contract
import Testbench.Proofs.Rest
import Testbench.Proofs.FailedUpdates
import Testbench.Proofs.FailedWaits
import Testbench.Proofs.BrokenChannels
import Testbench.Proofs.Places
import Testbench.Proofs.Performances
import Testbench.Proofs.AtMostOnce
import Testbench.Proofs.Units
import Testbench.Proofs.WallClock
import Testbench.Proofs.Sampling
import Testbench.Proofs.ClockRange
import Testbench.Proofs.Stamps
import Testbench.Proofs.Chronicle
