import UnifiedBuffer.Lib.AssocMap
import UnifiedBuffer.Lib.Word
import UnifiedBuffer.Lib.Run
import UnifiedBuffer.Lib.ListAt
import UnifiedBuffer.Lib.Ranges
import UnifiedBuffer.Lib.Loop
import UnifiedBuffer.Lib.CappedLog
import UnifiedBuffer.Lib.Fields
import UnifiedBuffer.Lib.Store
import UnifiedBuffer.Lib.Text
import UnifiedBuffer.Core.Types
import UnifiedBuffer.Core.CheckedMath
import UnifiedBuffer.Core.Integrity
import UnifiedBuffer.Core.Checksum
import UnifiedBuffer.Backends.Domain
import UnifiedBuffer.Backends.Native
import UnifiedBuffer.Backends.Ranges
import UnifiedBuffer.Runtime.Ledger
import UnifiedBuffer.Runtime.Pool
import UnifiedBuffer.Runtime.State
import UnifiedBuffer.Runtime.Allocate
import UnifiedBuffer.Runtime.Finalize
import UnifiedBuffer.Runtime.Migrate
import UnifiedBuffer.Runtime.Core
import UnifiedBuffer.Runtime.SizeClass
import UnifiedBuffer.Runtime.Reports
import UnifiedBuffer.Runtime.Info
import UnifiedBuffer.Buffer.Objects
import UnifiedBuffer.Buffer.World
import UnifiedBuffer.Buffer.Transfers
import UnifiedBuffer.Inventory.Stock
import UnifiedBuffer.Inventory.Deals
import UnifiedBuffer.Inventory.Operations
import UnifiedBuffer.Inventory.Custody
import UnifiedBuffer.Inventory.Balance
import UnifiedBuffer.Inventory.Placement
import UnifiedBuffer.Inventory.Layout
import UnifiedBuffer.Safety.Rollback
import UnifiedBuffer.Safety.References
import UnifiedBuffer.Safety.RefCount
import UnifiedBuffer.Safety.Objects
import UnifiedBuffer.Safety.Ownership
import UnifiedBuffer.Safety.Limits
import UnifiedBuffer.Safety.Peaks
import UnifiedBuffer.Safety.Accounting
import UnifiedBuffer.Safety.Shutdown
import UnifiedBuffer.Concurrency.Reservations
import UnifiedBuffer.Safety.Effects
import UnifiedBuffer.Safety.Setup
import UnifiedBuffer.Safety.Generations
import UnifiedBuffer.Safety.Reports
import UnifiedBuffer.Safety.Accesses
import UnifiedBuffer.Safety.Reads
import UnifiedBuffer.Safety.Geometry
import UnifiedBuffer.Safety.Fates
import UnifiedBuffer.Safety.Contents
import UnifiedBuffer.Safety.Counting
import UnifiedBuffer.Safety.Pooling
import UnifiedBuffer.Safety.Recycling
import UnifiedBuffer.Safety.Segments
import UnifiedBuffer.Safety.Readmission
import UnifiedBuffer.Safety.Eligibility
import UnifiedBuffer.Safety.External
import UnifiedBuffer.Safety.Usage
import UnifiedBuffer.Safety.Lifecycle
import UnifiedBuffer.Safety.Exports
import UnifiedBuffer.Safety.RoundTrip
import UnifiedBuffer.Safety.TwoRuntimes
import UnifiedBuffer.Safety.Integrity
import UnifiedBuffer.Safety.Namespaces
import UnifiedBuffer.Safety.Pointers
import UnifiedBuffer.Safety.Permissions
import UnifiedBuffer.Safety.Zeroing
import UnifiedBuffer.Concurrency.Leases
import UnifiedBuffer.Concurrency.Imports
import UnifiedBuffer.Concurrency.Locks
import UnifiedBuffer.Concurrency.Directory
import UnifiedBuffer.Safety.Store
import UnifiedBuffer.Safety.Windows
import UnifiedBuffer.Concurrency.Copies
import UnifiedBuffer.Concurrency.Names
import UnifiedBuffer.Cli.Shell
import UnifiedBuffer.Cli.Session
import UnifiedBuffer.Cli.Exit
import UnifiedBuffer.Cli.Selftest
import UnifiedBuffer.Cli.Transcript
import UnifiedBuffer.Ideal.Machine
import UnifiedBuffer.Ideal.View
import UnifiedBuffer.Ideal.Refinement
import UnifiedBuffer.Ideal.Independence
