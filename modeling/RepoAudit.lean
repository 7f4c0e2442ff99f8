import RepoAudit.Aggregate
import RepoAudit.Log
import RepoAudit.Main
import RepoAudit.Proofs.Address.Backtracking
import RepoAudit.Proofs.Address.Canonical
import RepoAudit.Proofs.Address.Segments
import RepoAudit.Proofs.Address.Spelling
import RepoAudit.Proofs.Cancel.Firing
import RepoAudit.Proofs.Checkout.Fetch
import RepoAudit.Proofs.Checkout.Removal
import RepoAudit.Proofs.Crew.Agreement
import RepoAudit.Proofs.Crew.Outcome
import RepoAudit.Proofs.Execution.Attempt
import RepoAudit.Proofs.Files.Order
import RepoAudit.Proofs.FirstReports
import RepoAudit.Proofs.Json.Cut
import RepoAudit.Proofs.Json.Pieces
import RepoAudit.Proofs.Language
import RepoAudit.Proofs.Limiter.Waking
import RepoAudit.Proofs.Logging
import RepoAudit.Proofs.Path.Below
import RepoAudit.Proofs.Redaction.Credentials
import RepoAudit.Proofs.Redaction.Secrets
import RepoAudit.Proofs.Review.CodeBlock
import RepoAudit.Proofs.Review.Elsewhere
import RepoAudit.Proofs.Review.Endpoint
import RepoAudit.Proofs.Review.Excerpt
import RepoAudit.Proofs.Review.Frame
import RepoAudit.Proofs.Review.Ranking
import RepoAudit.Proofs.Review.Shown
import RepoAudit.Proofs.Scanner.Records
import RepoAudit.Proofs.Scanner.ReportFile
import RepoAudit.Proofs.Scanner.Truncation
import RepoAudit.Proofs.Scanner.VersionControl
import RepoAudit.Proofs.Scanner.Wording
import RepoAudit.Proofs.Service.Alone
import RepoAudit.Proofs.Service.Cancellation
import RepoAudit.Proofs.Service.Findings
import RepoAudit.Proofs.Store.Ended
import RepoAudit.Proofs.Store.Reading
import RepoAudit.Proofs.Views
import RepoAudit.Rehearsal.Callbacks
import RepoAudit.Rehearsal.Callers
import RepoAudit.Rehearsal.Shell.Run
import RepoAudit.Service.Assembly
