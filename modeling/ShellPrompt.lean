import ShellPrompt.Main
import ShellPrompt.Proofs.CommandLine.Marker
import ShellPrompt.Proofs.Config.Loading
import ShellPrompt.Proofs.Config.Members
import ShellPrompt.Proofs.Evaluation.Handover
import ShellPrompt.Proofs.Fields.Lines
import ShellPrompt.Proofs.Fields.Turns
import ShellPrompt.Proofs.Log.SharedFile
import ShellPrompt.Proofs.Pipeline.Accounts
import ShellPrompt.Proofs.Pipeline.Attribution
import ShellPrompt.Proofs.Pipeline.Cancellation
import ShellPrompt.Proofs.Pipeline.DisplayWidth
import ShellPrompt.Proofs.Pipeline.Indifference
import ShellPrompt.Proofs.Pipeline.Pruning
import ShellPrompt.Proofs.Pipeline.SetToken
import ShellPrompt.Proofs.Pipeline.Sharing
import ShellPrompt.Proofs.Pipeline.Styles
import ShellPrompt.Proofs.Registry.History
import ShellPrompt.Proofs.Path.Tilde
import ShellPrompt.Proofs.Module.Duration
import ShellPrompt.Proofs.Module.Jobs
import ShellPrompt.Proofs.Module.Truncation
import ShellPrompt.Proofs.Module.Vcs
import ShellPrompt.Proofs.Style.ColourGroups
import ShellPrompt.Proofs.Style.Override
import ShellPrompt.Proofs.Style.Rendition
import ShellPrompt.Proofs.Style.Writing
import ShellPrompt.Proofs.Json.LongIntegers
import ShellPrompt.Proofs.Json.Nesting
import ShellPrompt.Proofs.Log.Lines
