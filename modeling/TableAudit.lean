import TableAudit.Cell.Document
import TableAudit.Defaults.Scripted
import TableAudit.Embedded.Trial
import TableAudit.Json.Tagged
import TableAudit.Main
import TableAudit.Rehearsal.Stage
import TableAudit.Remote.Trial
import TableAudit.Report.ChunkTimes
import TableAudit.Report.Document
import TableAudit.Report.Progress
import TableAudit.Rule.Document
import TableAudit.Session.Loads
import TableAudit.Session.Seen
import TableAudit.Table.Scripted
import TableAudit.Proofs.Monitor.Provenance
import TableAudit.Proofs.Monitor.Freshness
import TableAudit.Proofs.Monitor.Subscriptions
import TableAudit.Proofs.Monitor.Attachment
import TableAudit.Proofs.Monitor.Additions
import TableAudit.Proofs.Pass.Uniqueness
import TableAudit.Proofs.Pass.Configuration
import TableAudit.Proofs.Session.Loading
import TableAudit.Proofs.Session.Transparency
import TableAudit.Proofs.Pass.Exactness
import TableAudit.Proofs.Cell.Instants
import TableAudit.Proofs.Rule.Syntaxes
import TableAudit.Proofs.Check.Verdict
import TableAudit.Proofs.Monitor.Exclusion
import TableAudit.Proofs.Monitor.Timers
import TableAudit.Proofs.Monitor.Calm
import TableAudit.Proofs.Monitor.Bursts
import TableAudit.Proofs.Monitor.Stopping
import TableAudit.Proofs.Table.Pages
import TableAudit.Proofs.Table.Content
import TableAudit.Proofs.Embedded.Reading
import TableAudit.Proofs.Remote.Exchange
import TableAudit.Proofs.Remote.Reading
import TableAudit.Proofs.Source.Interchange
import TableAudit.Proofs.Cell.Writable
import TableAudit.Proofs.Cell.Texts
import TableAudit.Proofs.Source.Paging
import TableAudit.Proofs.Remote.Replies
import TableAudit.Proofs.Table.Complete
import TableAudit.Proofs.Remote.Soundness
import TableAudit.Proofs.Embedded.Soundness
import TableAudit.Proofs.Report.Summaries
import TableAudit.Proofs.Retry
import TableAudit.Proofs.Cell.RichText
import TableAudit.Proofs.Column.RuleText
import TableAudit.Proofs.Duration.Grammar
import TableAudit.Proofs.Duration.Sums
import TableAudit.Proofs.Defaults.Scripted
import TableAudit.Proofs.Defaults.Resolution
import TableAudit.Proofs.Defaults.Repetition
import TableAudit.Proofs.Report.Merging
import TableAudit.Proofs.Report.Lines
import TableAudit.Proofs.Http.Course
import TableAudit.Proofs.Command.Exit
import TableAudit.Proofs.Yaml.Keys
import TableAudit.Proofs.Settings.Sections
import TableAudit.Proofs.Settings.Usable
import TableAudit.Proofs.Json.Documents
import TableAudit.Proofs.Remote.Servers
import TableAudit.Proofs.Remote.Cells
import TableAudit.Proofs.Pattern.Plain
import TableAudit.Proofs.Check.Addresses
import TableAudit.Proofs.Notice.LastModifier
import TableAudit.Proofs.Notice.Keys
