import OpenVAS.Lib.Run
import OpenVAS.Lib.ChainTable
import OpenVAS.Lib.CString
import OpenVAS.Lib.Channel
import OpenVAS.Lib.Acyclic
import OpenVAS.Lib.Lines
import OpenVAS.Lib.Split
import OpenVAS.Lib.Incremental
import OpenVAS.Lib.Bytes
import OpenVAS.Lib.Inet
import OpenVAS.Lib.Calendar
import OpenVAS.Lib.Table
import OpenVAS.Lib.Reference
import OpenVAS.Lib.Results
import OpenVAS.Lib.Transaction
import OpenVAS.Lib.Merge
import OpenVAS.Lib.LinkedLists
import OpenVAS.Lib.Checksum
import OpenVAS.Lib.StateComp
import OpenVAS.KnowledgeBase.Basic
import OpenVAS.KnowledgeBase.Refinement
import OpenVAS.KnowledgeBase.Duplicates
import OpenVAS.KnowledgeBase.Slashes
import OpenVAS.KnowledgeBase.Messages
import OpenVAS.KnowledgeBase.Agreement
import OpenVAS.KnowledgeBase.Save
import OpenVAS.KnowledgeBase.SavedFrame
import OpenVAS.KnowledgeBase.SavedRoundTrip
import OpenVAS.Scheduler.Basic
import OpenVAS.Scheduler.Processes
import OpenVAS.Scheduler.Slots
import OpenVAS.Scheduler.Init
import OpenVAS.Scheduler.Search
import OpenVAS.Scheduler.Enabling
import OpenVAS.Scheduler.Next
import OpenVAS.Scheduler.Termination
import OpenVAS.Scheduler.Safety
import OpenVAS.Scheduler.Exclusive
import OpenVAS.Scheduler.Launch
import OpenVAS.Scheduler.Tracking
import OpenVAS.Ipc.Basic
import OpenVAS.Ipc.Delivery
import OpenVAS.Hosts.Element
import OpenVAS.Hosts.Basic
import OpenVAS.Hosts.Expansion
import OpenVAS.Hosts.Membership
import OpenVAS.Hosts.Loops
import OpenVAS.Hosts.Exactness
import OpenVAS.Hosts.Collection
import OpenVAS.Hosts.Exclusion
import OpenVAS.Ports.Basic
import OpenVAS.Ports.Lists
import OpenVAS.Ports.Text
import OpenVAS.Ports.Points
import OpenVAS.Ports.Sections
import OpenVAS.Ports.Agreement
import OpenVAS.Ports.Parsing
import OpenVAS.Attack.Network
import OpenVAS.Attack.Access
import OpenVAS.Otp.Basic
import OpenVAS.Otp.Fields
import OpenVAS.Otp.Input
import OpenVAS.Otp.Tokens
import OpenVAS.Otp.Calls
import OpenVAS.Otp.Streams
import OpenVAS.Otp.Messages
import OpenVAS.Otp.Pieces
import OpenVAS.Otp.Legality
import OpenVAS.Otp.Chunks
import OpenVAS.Otp.Effects
import OpenVAS.Otp.Turns
import OpenVAS.Otp.Results
import OpenVAS.Schedules.Basic
import OpenVAS.Schedules.Months
import OpenVAS.Schedules.Rounds
import OpenVAS.Credentials.Basic
import OpenVAS.Credentials.RoundTrip
import OpenVAS.ReportFormats.Basic
import OpenVAS.ReportFormats.Storage
import OpenVAS.ReportFormats.Signing
import OpenVAS.ReportFormats.Boundaries
import OpenVAS.Filters.Basic
import OpenVAS.Filters.Reading
import OpenVAS.Filters.Cleaning
import OpenVAS.Filters.Weights
import OpenVAS.Filters.Exactness
import OpenVAS.Trashcan.Basic
import OpenVAS.Trashcan.Commands
import OpenVAS.Trashcan.Steps
import OpenVAS.Trashcan.Roles
import OpenVAS.Trashcan.Referring
import OpenVAS.Trashcan.Trips
import OpenVAS.Trashcan.PortLists
import OpenVAS.Trashcan.Empty
import OpenVAS.PortLists.Basic
import OpenVAS.PortLists.Transactions
import OpenVAS.PortLists.Merging
import OpenVAS.PortLists.Overlap
import OpenVAS.Tasks.Stopping
import OpenVAS.Preferences.Basic
import OpenVAS.Preferences.Arrival
import OpenVAS.DeltaReports.Basic
import OpenVAS.DeltaReports.Order
import OpenVAS.DeltaReports.Loops
import OpenVAS.DeltaReports.Pages
import OpenVAS.DeltaReports.Classification
import OpenVAS.Packets.Basic
import OpenVAS.Packets.Ip
import OpenVAS.Packets.Edits
import OpenVAS.Packets.Tcp
import OpenVAS.Packets.Payload
import OpenVAS.Packets.Chains
import OpenVAS.Packets.Consistency
import OpenVAS.Interpreter.Basic
import OpenVAS.Interpreter.Related
import OpenVAS.Interpreter.Exit
import OpenVAS.Interpreter.Fuel
import OpenVAS.Interpreter.Flags
import OpenVAS.Interpreter.BigStep
import OpenVAS.Interpreter.Control
import OpenVAS.Interpreter.Agreement
import OpenVAS.Nasl.Variables
import OpenVAS.Nasl.Copying
import OpenVAS.Nasl.Stores
import OpenVAS.Nasl.Assignment
import OpenVAS.Text.Basic
import OpenVAS.Text.Matching
import OpenVAS.Text.Replacement
import OpenVAS.Text.Insertion
import OpenVAS.Text.Escapes
import OpenVAS.Text.Splitting
import OpenVAS.Nasl.Iteration
import OpenVAS.Lib.Sorting
import OpenVAS.Nasl.Comparison
import OpenVAS.Lib.Buffer
import OpenVAS.Network.Buffering
import OpenVAS.Network.Lines
import OpenVAS.Lib.Gregorian
import OpenVAS.Isotime.JulianDays
import OpenVAS.Isotime.Addition
import OpenVAS.Severity.Counts
import OpenVAS.DeltaReports.Ports
import OpenVAS.Tasks.Rc
import OpenVAS.Passwords.Policy
import OpenVAS.Filters.Machine
import OpenVAS.Hosts.Cleaning
import OpenVAS.Lib.Sql
import OpenVAS.Targets.Basic
import OpenVAS.Targets.Limit
import OpenVAS.Targets.Creation
import OpenVAS.Filters.Clause
import OpenVAS.Filters.Scope
import OpenVAS.Acl.Basic
import OpenVAS.Acl.Agreement
import OpenVAS.Schedules.Occurrences
import OpenVAS.Packets.Checksums
import OpenVAS.SqlFunctions.SeverityCache
import OpenVAS.SqlFunctions.CommonCve
import OpenVAS.Lib.Files
import OpenVAS.ReportFormats.OnDisk
import OpenVAS.ReportFormats.Stages
import OpenVAS.ReportFormats.Confinement
import OpenVAS.ReportFormats.Restoring
import OpenVAS.ReportFormats.Refinement
import OpenVAS.Lib.SqlTokens
import OpenVAS.Lib.SqlConditions
import OpenVAS.Lib.SqlMeaning
import OpenVAS.Acl.Statement
import OpenVAS.Acl.Reading
import OpenVAS.Acl.Meaning
import OpenVAS.Acl.Confinement
import OpenVAS.Configs.Basic
import OpenVAS.Configs.Commands
import OpenVAS.Configs.Choices
import OpenVAS.Configs.Shape
import OpenVAS.Configs.Selection
import OpenVAS.Configs.Families
import OpenVAS.Configs.Switching
import OpenVAS.Configs.Nvts
import OpenVAS.Configs.Tracking
import OpenVAS.Configs.Caches
import OpenVAS.Configs.Runs
import OpenVAS.Configs.Growth
