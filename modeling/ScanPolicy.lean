import ScanPolicy.Http
import ScanPolicy.Journal.Line
import ScanPolicy.Moment.Reader
import ScanPolicy.Proofs.Host.Count
import ScanPolicy.Proofs.Host.Tokens
import ScanPolicy.Proofs.Host.Membership
import ScanPolicy.Proofs.Host.Reading
import ScanPolicy.Proofs.Host.Literal
import ScanPolicy.Proofs.Host.Block
import ScanPolicy.Proofs.Host.WellFormed
import ScanPolicy.Proofs.Service.Cap
import ScanPolicy.Proofs.Calendar.Date
import ScanPolicy.Proofs.Calendar.WallTime
import ScanPolicy.Proofs.Recurrence.Increasing
import ScanPolicy.Proofs.Schedule.Enumeration
import ScanPolicy.Proofs.Schedule.Parsed
import ScanPolicy.Proofs.Moment.Universal
import ScanPolicy.Proofs.Schedule.PlainDates
import ScanPolicy.Proofs.Schedule.PlainNext
import ScanPolicy.Proofs.Schedule.Merge
import ScanPolicy.Proofs.Schedule.PlainSchedule
import ScanPolicy.Proofs.Recurrence.SingleRule
import ScanPolicy.Proofs.Recurrence.Run
import ScanPolicy.Proofs.Recurrence.Number
import ScanPolicy.Proofs.Recurrence.Dates
import ScanPolicy.Proofs.Recurrence.Following
import ScanPolicy.Proofs.Recurrence.RunDates
import ScanPolicy.Proofs.Recurrence.Layout
import ScanPolicy.Proofs.Recurrence.CatchUp
import ScanPolicy.Proofs.Recurrence.Meeting
import ScanPolicy.Proofs.Recurrence.Moved
import ScanPolicy.Proofs.Recurrence.Rejoining
import ScanPolicy.Proofs.Recurrence.Drafts
import ScanPolicy.Proofs.Schedule.RuleParts
import ScanPolicy.Proofs.Moment.Utc
import ScanPolicy.Proofs.Schedule.Anchors
import ScanPolicy.Proofs.Schedule.FastForward
import ScanPolicy.Proofs.Text.Upper
import ScanPolicy.Proofs.Moment.Clock
import ScanPolicy.Proofs.Zone.Yearly
import ScanPolicy.Proofs.Zone.Calm
import ScanPolicy.Proofs.Schedule.ClockDates
import ScanPolicy.Proofs.Schedule.ClockNext
import ScanPolicy.Proofs.Schedule.OneRule
import ScanPolicy.Proofs.Schedule.EarliestInstant
import ScanPolicy.Proofs.Recurrence.Search
import ScanPolicy.Proofs.Schedule.PlainOrder
import ScanPolicy.Proofs.Schedule.OrderedDates
import ScanPolicy.Proofs.Schedule.LaterNow
import ScanPolicy.Proofs.Recurrence.WalkOrder
import ScanPolicy.Proofs.Schedule.ComponentRules
import ScanPolicy.Proofs.Schedule.FurtherInstants
import ScanPolicy.Proofs.Moment.Comparison
import ScanPolicy.Proofs.Recurrence.WalkClock
import ScanPolicy.Proofs.Recurrence.RuleFaults
import ScanPolicy.Proofs.Recurrence.Excluding
import ScanPolicy.Proofs.Schedule.SameInstant
import ScanPolicy.Proofs.Schedule.Progress
import ScanPolicy.Proofs.Schedule.Readable
import ScanPolicy.Proofs.Schedule.PlainExclusion
import ScanPolicy.Proofs.Schedule.Exclusion
import ScanPolicy.Proofs.Calendar.Easter
import ScanPolicy.Proofs.Recurrence.TameRules
import ScanPolicy.Proofs.Recurrence.ResolvableRules
import ScanPolicy.Proofs.Schedule.PlainPeriods
import ScanPolicy.Proofs.Schedule.UtcDates
import ScanPolicy.Proofs.Schedule.PlainWalk
import ScanPolicy.Proofs.Schedule.RedundantSecond
import ScanPolicy.Proofs.Schedule.Totality
import ScanPolicy.Proofs.Host.Spelling
import ScanPolicy.Proofs.Host.ShortRange
import ScanPolicy.Proofs.Host.Hostname
import ScanPolicy.Proofs.Zone.Offsets
import ScanPolicy.Proofs.Schedule.LocalForward
import ScanPolicy.Proofs.Schedule.FirstDate
import ScanPolicy.Proofs.Schedule.DateInstants
import ScanPolicy.Proofs.Schedule.Folding
import ScanPolicy.Proofs.Text.Blanks
import ScanPolicy.Proofs.Schedule.RuleAgreement
import ScanPolicy.Proofs.Recurrence.BoundedWalk
import ScanPolicy.Proofs.Schedule.LastMoment
import ScanPolicy.Proofs.Recurrence.Spelling
import ScanPolicy.Proofs.Schedule.Respelled
import ScanPolicy.Proofs.Schedule.FirstEvent
import ScanPolicy.Proofs.Schedule.InstantForms
import ScanPolicy.Proofs.Pattern.Steps
import ScanPolicy.Proofs.Pattern.Breaches
import ScanPolicy.Proofs.Moment.NamedUtc
import ScanPolicy.Proofs.Recurrence.NamedUtc
import ScanPolicy.Proofs.Schedule.AlikeSources
import ScanPolicy.Proofs.Schedule.NamedUtc
import ScanPolicy.Proofs.Host.Skipping
import ScanPolicy.Proofs.Host.Joining
import ScanPolicy.Proofs.Schedule.Passing
import ScanPolicy.Proofs.Zone.DayOrder
import ScanPolicy.Proofs.Schedule.Estimate
