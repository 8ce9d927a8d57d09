import LoggerHierarchy.Decimal.Shortest
import LoggerHierarchy.Document.Json
import LoggerHierarchy.EventText
import LoggerHierarchy.Level.Parse
import LoggerHierarchy.Level.Show
import LoggerHierarchy.Metrics
import LoggerHierarchy.Reporter
import LoggerHierarchy.Session.Attachments
import LoggerHierarchy.Session.HandlerList
import LoggerHierarchy.Session.Run
import LoggerHierarchy.Settings.Load
import LoggerHierarchy.Proofs.Contract
import LoggerHierarchy.Proofs.Tree.Growth
import LoggerHierarchy.Proofs.Tree.WellFormed
import LoggerHierarchy.Proofs.Tree.Inheritance
import LoggerHierarchy.Proofs.Tree.Membership
import LoggerHierarchy.Proofs.Tree.Conduct
import LoggerHierarchy.Proofs.Name
import LoggerHierarchy.Proofs.Tree.Operations
import LoggerHierarchy.Proofs.Tree.Situation
import LoggerHierarchy.Proofs.Attachments
import LoggerHierarchy.Proofs.Tree.Soundness
import LoggerHierarchy.Proofs.Tree.Runs
import LoggerHierarchy.Proofs.Tree.Traversal
import LoggerHierarchy.Proofs.Tree.Removal
import LoggerHierarchy.Proofs.Tree.Prunings
import LoggerHierarchy.Proofs.Tree.Recreation
import LoggerHierarchy.Proofs.Play
import LoggerHierarchy.Proofs.Attachments.PartialMap
import LoggerHierarchy.Proofs.HandlerList.PlainList
import LoggerHierarchy.Proofs.Tree.Reentry
import LoggerHierarchy.Proofs.Tree.Delivery
import LoggerHierarchy.Proofs.Tree.Screening
import LoggerHierarchy.Proofs.Name.FullName
import LoggerHierarchy.Proofs.Tree.Alteration
import LoggerHierarchy.Proofs.Tree.Course
import LoggerHierarchy.Proofs.Tree.Ledger
import LoggerHierarchy.Proofs.Tree.FullNames
import LoggerHierarchy.Proofs.Tree.History
import LoggerHierarchy.Proofs.Settings.Entries
import LoggerHierarchy.Proofs.HandlerList.Snapshots
import LoggerHierarchy.Proofs.Settings.RoundTrip
import LoggerHierarchy.Proofs.Document.Distinct
import LoggerHierarchy.Proofs.Document.Layers
import LoggerHierarchy.Proofs.Settings.Precedence
import LoggerHierarchy.Proofs.Tree.Listing
import LoggerHierarchy.Proofs.Tree.LoggerNames
import LoggerHierarchy.Proofs.Tree.Requests
import LoggerHierarchy.Proofs.Name.Reading
import LoggerHierarchy.Proofs.Tree.Resolution
import LoggerHierarchy.Proofs.Tree.Creation
import LoggerHierarchy.Proofs.Tree.Floors
import LoggerHierarchy.Proofs.Tree.Thresholds
import LoggerHierarchy.Proofs.Tree.Reach
import LoggerHierarchy.Proofs.Decimal
import LoggerHierarchy.Proofs.Text
import LoggerHierarchy.Proofs.Level
import LoggerHierarchy.Proofs.Settings.Validity
import LoggerHierarchy.Proofs.Tree.Orphans
