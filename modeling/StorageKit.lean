import StorageKit.Schema.Basic
import StorageKit.Json.OfValue
import StorageKit.Fault.Basic
import StorageKit.Fault.Shape
import StorageKit.Log.Level
import StorageKit.Latch.Script
import StorageKit.Pool.Arrival
import StorageKit.Pool.Ranked
import StorageKit.Pool.Searched
import StorageKit.Replacer.Logger
import StorageKit.Trie.Store
import StorageKit.Settings.Assembly
import StorageKit.Log.Console
import StorageKit.Log.Silent
import StorageKit.Proofs.Keyed
import StorageKit.Proofs.Steps
import StorageKit.Proofs.Course
import StorageKit.Proofs.Runs
import StorageKit.Proofs.Histories
import StorageKit.Proofs.Lists
import StorageKit.Proofs.Sound
import StorageKit.Proofs.LruK
import StorageKit.Proofs.Policy
import StorageKit.Proofs.Pinned
import StorageKit.Proofs.Representation
import StorageKit.Proofs.Contents
import StorageKit.Proofs.Versions
import StorageKit.Proofs.Allocation
import StorageKit.Proofs.Sharing
import StorageKit.Proofs.Canonical
import StorageKit.Proofs.Intact
import StorageKit.Proofs.Interrupted
import StorageKit.Proofs.Ledger
import StorageKit.Proofs.Capacity
import StorageKit.Proofs.Undo
import StorageKit.Proofs.Callbacks
import StorageKit.Proofs.Records
import StorageKit.Proofs.Places
import StorageKit.Proofs.Accounts
import StorageKit.Proofs.Entries
import StorageKit.Proofs.Draining
import StorageKit.Proofs.Failures
import StorageKit.Proofs.Trail
import StorageKit.Proofs.Rounding
import StorageKit.Proofs.Numerals
import StorageKit.Proofs.ReadBack
import StorageKit.Proofs.Plain
import StorageKit.Proofs.OneLogger
import StorageKit.Proofs.RelativeOrder
import StorageKit.Proofs.TakenBack
import StorageKit.Proofs.InOrder
import StorageKit.Proofs.RankOrder
import StorageKit.Proofs.Tickets
import StorageKit.Proofs.Interchange
import StorageKit.Proofs.Priority
import StorageKit.Proofs.SourceOrder
import StorageKit.Proofs.Forms
import StorageKit.Proofs.Held
import StorageKit.Proofs.Carried
import StorageKit.Proofs.Shown
import StorageKit.Proofs.Decoded
import StorageKit.Proofs.Pretty
import StorageKit.Proofs.Sections
import StorageKit.Proofs.Variables
import StorageKit.Proofs.Causes
