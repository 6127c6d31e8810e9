import CellRules.Json.Reader
import CellRules.Proofs.RuleSet.Peers
import CellRules.Proofs.Watch.Threads.Late
import CellRules.Proofs.Watch.Threads.Newest
import CellRules.Proofs.Watch.BothModes
import CellRules.Proofs.Watch.FanOut
import CellRules.Proofs.Watch.Debounce
import CellRules.Proofs.Watch.Slots
import CellRules.Proofs.Watch.Pending
import CellRules.Proofs.Watch.Settled
import CellRules.Proofs.Watch.Conserved
import CellRules.Proofs.Watch.UpToDate
import CellRules.Report.Console
import CellRules.Report.Data
import CellRules.Report.Markdown
import CellRules.Row.Json
import CellRules.RuleSet.Draft
import CellRules.Run.Alone
import CellRules.Watch.Session
import CellRules.Proofs.Run.Ending
import CellRules.Proofs.Grid.RowByRow
import CellRules.Proofs.RuleSet.Batches
import CellRules.Proofs.RuleSet.OneByOne
import CellRules.Proofs.Run.Slots
import CellRules.Proofs.Rule.Meaning
import CellRules.Proofs.RuleSet.RunOrder
import CellRules.Proofs.RuleSet.Keeping
import CellRules.Proofs.Watch.Verified
import CellRules.Proofs.Grid.TwoReadings
import CellRules.Proofs.Row.Judged
import CellRules.Proofs.Rule.Template
import CellRules.Proofs.Watch.OneSnapshot
import CellRules.Proofs.Check.Unique
import CellRules.Proofs.Report.Accounts
import CellRules.Proofs.Loading
import CellRules.Proofs.Cell.Blank
import CellRules.Proofs.Check.Email
import CellRules.Proofs.Calendar.Typed
import CellRules.Proofs.Check.DateOrder
import CellRules.Proofs.Check.Phone
import CellRules.Proofs.Row.Saved
import CellRules.Proofs.Rule.Containing
import CellRules.Proofs.Report.Table
import CellRules.Proofs.Report.ReadBack
import CellRules.Proofs.Text.Truncate
