import Workflow.CommandLine.Arguments
import Workflow.CommandLine.Command
import Workflow.CommandLine.Execute
import Workflow.CommandLine.Help
import Workflow.Document.Check
import Workflow.Document.Issue
import Workflow.Executor.Basic
import Workflow.Executor.Chat
import Workflow.Executor.Echo
import Workflow.Executor.Script
import Workflow.Failure
import Workflow.Fields
import Workflow.Flow.Basic
import Workflow.Flow.Document
import Workflow.Json.Reader
import Workflow.Json.Writer
import Workflow.Log.Loggers
import Workflow.Log.Record
import Workflow.Main
import Workflow.Node.Basic
import Workflow.Node.Decode
import Workflow.Node.Encode
import Workflow.Node.Resolve
import Workflow.Number.Basic
import Workflow.Number.Binary64
import Workflow.Number.Shortest
import Workflow.Path.Basic
import Workflow.Path.Localize
import Workflow.Proofs.Agents
import Workflow.Proofs.Annotation
import Workflow.Proofs.Cancellation
import Workflow.Proofs.Concurrency
import Workflow.Proofs.Containers
import Workflow.Proofs.Containment
import Workflow.Proofs.ControlFlow
import Workflow.Proofs.Exposure
import Workflow.Proofs.Fields
import Workflow.Proofs.Freeze
import Workflow.Proofs.Invocations
import Workflow.Proofs.Isolation
import Workflow.Proofs.Json.Float
import Workflow.Proofs.Lifecycle
import Workflow.Proofs.Live.Descend
import Workflow.Proofs.Live.View
import Workflow.Proofs.Live.Yields
import Workflow.Proofs.Logging
import Workflow.Proofs.Mirror
import Workflow.Proofs.Number.Rounding
import Workflow.Proofs.Number.Shortest
import Workflow.Proofs.Path.Format
import Workflow.Proofs.Path.Localized
import Workflow.Proofs.Path.Normal
import Workflow.Proofs.Preparation
import Workflow.Proofs.Promptness
import Workflow.Proofs.Races
import Workflow.Proofs.Run.Moments
import Workflow.Proofs.Run.Omissions
import Workflow.Proofs.Run.Queue
import Workflow.Proofs.Run.View
import Workflow.Proofs.Saved
import Workflow.Proofs.Scope
import Workflow.Proofs.Slots
import Workflow.Proofs.StepOutcomes
import Workflow.Proofs.Template
import Workflow.Proofs.Transparency
import Workflow.Proofs.Tree.Adopted
import Workflow.Proofs.Tree.Assigned
import Workflow.Proofs.Tree.Edit
import Workflow.Proofs.Variables
import Workflow.Proofs.Variables.Undeclared
import Workflow.Proofs.WriteOnce
import Workflow.Result.Basic
import Workflow.Result.Document
import Workflow.Result.Resolve
import Workflow.Run.Context
import Workflow.Run.Execute
import Workflow.Run.Live
import Workflow.Run.Live.Lemmas
import Workflow.Run.Load.Basic
import Workflow.Run.Load.Change
import Workflow.Run.Load.Levels
import Workflow.Run.Load.Start
import Workflow.Run.Load.Step
import Workflow.Run.Notice
import Workflow.Run.Setup
import Workflow.Run.Start
import Workflow.Run.State
import Workflow.Run.Step
import Workflow.Runner
import Workflow.Settings.Basic
import Workflow.Settings.EnvFile
import Workflow.Status
import Workflow.Text.Instant
import Workflow.Text.Percent
import Workflow.Text.Quoted
import Workflow.Tree.Identity
import Workflow.Tree.Label
import Workflow.Unicode.CharClass
import Workflow.Unicode.Letter
import Workflow.Unicode.Mark
import Workflow.Unicode.Numeric
import Workflow.Unicode.Unprintable
import Workflow.Unicode.Uppercase
import Workflow.Value.Basic
import Workflow.Value.Display
import Workflow.Variables.Basic
import Workflow.Variables.Evaluate
import Workflow.Variables.Template
import Workflow.Variables.Url
