import Metering.Binary64
import Metering.Decimal.Layout
import Metering.Decimal.Reading
import Metering.Decimal.Shortest
import Metering.Json.Number
import Metering.Json.Record
import Metering.Json.Text
import Metering.Json.Token
import Metering.Json.Tree
import Metering.Json.Value
import Metering.Level.Calculator
import Metering.Level.Config
import Metering.Level.Document
import Metering.Level.Effect
import Metering.Level.Scale
import Metering.Main
import Metering.Media.Buffer
import Metering.Media.Document
import Metering.Media.Format
import Metering.Media.Pcm
import Metering.Media.Tone
import Metering.Monitor.Arguments
import Metering.Monitor.Meter
import Metering.Pipeline.Event
import Metering.Pipeline.Fault
import Metering.Pipeline.Phase
import Metering.Pipeline.Processor
import Metering.Pipeline.Track
import Metering.Proofs.Keeping
import Metering.Proofs.Run
import Metering.Rig.Call
import Metering.Rig.Chain
import Metering.Rig.Events
import Metering.Rig.Install
import Metering.Rig.Journal
import Metering.Rig.Lifecycle
import Metering.Rig.Perform
import Metering.Rig.Run
import Metering.Rig.Sessions
import Metering.Script.Application
import Metering.Script.Execute
import Metering.Script.Report
import Metering.Script.State
import Metering.Script.Step
import Metering.Session.Basic
import Metering.Session.Device
import Metering.Session.Load
import Metering.Text.Digits
import Metering.Text.Quoted
import Metering.Text.Unprintable
import Metering.Proofs.Answering
import Metering.Proofs.Tending
import Metering.Proofs.Course
import Metering.Proofs.Custody
import Metering.Proofs.Proceeding
import Metering.Proofs.Transitions
import Metering.Proofs.Tellings
import Metering.Proofs.Protocol
import Metering.Proofs.Closing
import Metering.Proofs.Comparing
import Metering.Proofs.Abreast
import Metering.Proofs.Balance
import Metering.Proofs.Upkeep
import Metering.Proofs.Resources
import Metering.Proofs.Capture
import Metering.Proofs.Levels
import Metering.Proofs.Metered
import Metering.Proofs.Orphans
import Metering.Proofs.Stale
import Metering.Proofs.Subscribing
import Metering.Proofs.Preparing
import Metering.Proofs.Readiness
import Metering.Proofs.Entering
import Metering.Proofs.Story
import Metering.Proofs.History
import Metering.Proofs.Driving
import Metering.Proofs.Bringing
import Metering.Proofs.Operating
import Metering.Proofs.Board
import Metering.Proofs.Standing
import Metering.Proofs.Using
import Metering.Proofs.Routing
import Metering.Proofs.Solo
import Metering.Proofs.Apart
import Metering.Proofs.Accounting
import Metering.Proofs.Acting
import Metering.Proofs.Transparency
import Metering.Proofs.Ahead
import Metering.Proofs.Routes
import Metering.Proofs.Exchanging
import Metering.Proofs.Overtaking
import Metering.Proofs.Commuting
import Metering.Proofs.Holdings
import Metering.Proofs.Mirrored
import Metering.Proofs.Mirroring
import Metering.Proofs.Registering
import Metering.Proofs.Clearing
import Metering.Proofs.Renewing
import Metering.Proofs.Vacating
import Metering.Proofs.Scanning
import Metering.Proofs.Parsing
import Metering.Proofs.Writing
import Metering.Proofs.Members
import Metering.Proofs.Finite
import Metering.Proofs.Loading
import Metering.Proofs.Formats
import Metering.Proofs.Succession
import Metering.Proofs.Standby
import Metering.Proofs.Fitting
import Metering.Proofs.SettingUp
import Metering.Proofs.TakingIn
import Metering.Proofs.Unhindered
import Metering.Proofs.Envelope
import Metering.Proofs.Gauging
import Metering.Proofs.Ranging
import Metering.Proofs.Monitoring
import Metering.Proofs.Conversing
import Metering.Proofs.Announcing
import Metering.Proofs.Realizing
import Metering.Proofs.Installing
import Metering.Proofs.Working
import Metering.Proofs.Admission
import Metering.Proofs.Reconnecting
import Metering.Proofs.Passing
import Metering.Proofs.Annotating
import Metering.Proofs.Counting
import Metering.Proofs.Sounding
import Metering.Proofs.Rounding
import Metering.Proofs.Arithmetic
import Metering.Proofs.Words
import Metering.Proofs.Doubles
import Metering.Proofs.Nearing
import Metering.Proofs.Layouts
import Metering.Proofs.Louder
import Metering.Proofs.Spelling
import Metering.Proofs.Overlaying
import Metering.Proofs.Pacing
