import Offload.Channel.InProcess
import Offload.Channel.Pipe
import Offload.Channel.Receive
import Offload.Channel.Session
import Offload.Child.Kernel
import Offload.Child.Machine
import Offload.Child.Pid
import Offload.Child.Supervisor
import Offload.Cli.Help
import Offload.Cli.Line
import Offload.Cli.Request
import Offload.Cli.Run
import Offload.Duration
import Offload.Failure
import Offload.Frame
import Offload.Handle
import Offload.Handle.Script
import Offload.Identity
import Offload.Identity.Construction
import Offload.Limit
import Offload.Limiter
import Offload.Limiters
import Offload.Main
import Offload.Outcome
import Offload.Power
import Offload.Proofs.Admissions
import Offload.Proofs.Callbacks
import Offload.Proofs.Cell
import Offload.Proofs.Child.Calls
import Offload.Proofs.Child.Operations
import Offload.Proofs.Counters
import Offload.Proofs.Frame
import Offload.Proofs.Frame.Parse
import Offload.Proofs.Frame.Reported
import Offload.Proofs.Handle
import Offload.Proofs.Launches
import Offload.Proofs.Limiters
import Offload.Proofs.Lockstep
import Offload.Proofs.Paths
import Offload.Proofs.Pipe
import Offload.Proofs.Script
import Offload.Proofs.Slots
import Offload.Proofs.Source
import Offload.Proofs.StandIn
import Offload.Proofs.Termination
import Offload.Proofs.Traffic
import Offload.Proofs.Waiting
import Offload.Proofs.Watch
import Offload.Proofs.Wire.Codec
import Offload.Proofs.Wire.Decoder
import Offload.Proofs.Wire.Dynamic
import Offload.Proofs.Wire.Form
import Offload.Proofs.Wire.Object
import Offload.Proofs.Wire.Outcome
import Offload.Proofs.Wire.Record
import Offload.Proofs.Wire.Rejects
import Offload.Proofs.Wire.Token
import Offload.Proofs.Wire.Type
import Offload.Proofs.Worker
import Offload.Settings
import Offload.Settings.Document
import Offload.Settings.Environment
import Offload.Source
import Offload.Task
import Offload.Task.Call
import Offload.Task.Session
import Offload.TaskError
import Offload.Termination
import Offload.Termination.Policy
import Offload.Termination.Report
import Offload.Text.Blank
import Offload.Text.Numeral
import Offload.Text.Path
import Offload.Toml.DateTime
import Offload.Toml.Document
import Offload.Toml.Entries
import Offload.Toml.Expression
import Offload.Toml.Number
import Offload.Toml.Quoted
import Offload.Toml.Scan
import Offload.Watch
import Offload.Wire.Ascending
import Offload.Wire.Bytes
import Offload.Wire.Codec
import Offload.Wire.Decoder
import Offload.Wire.Double
import Offload.Wire.Dynamic
import Offload.Wire.Nest
import Offload.Wire.Outcome
import Offload.Wire.Record
import Offload.Wire.Token
import Offload.Wire.Type
import Offload.Worker.Behaviour
import Offload.Worker.Body
import Offload.Worker.Conclusion
import Offload.Worker.Session
import Offload.Proofs.Wire.Exact
import Offload.Proofs.Wire.Delimited
import Offload.Proofs.Frame.Prefix
import Offload.Proofs.Frame.Representation
import Offload.Proofs.Wire.Levels
import Offload.Proofs.Frame.Resent
import Offload.Proofs.Child.BoundedWait
import Offload.Worker.Lingering
import Offload.Proofs.Lingering
import Offload.Proofs.Text
import Offload.Proofs.Toml.Document
import Offload.Proofs.Settings.Document
import Offload.Proofs.Toml.Lines
import Offload.Proofs.Settings.Lines
import Offload.Proofs.Settings.Environment
import Offload.Proofs.Duration
import Offload.Proofs.Settings.Revisions
import Offload.Proofs.TypePath
import Offload.Identity.Feed
import Offload.Proofs.Identity.Construction
import Offload.Proofs.Containment
import Offload.Proofs.Toml.Bounds
