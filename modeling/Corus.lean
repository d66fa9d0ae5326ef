import Corus.Capi.Attempts
import Corus.Capi.BlockSettings
import Corus.Capi.Callbacks
import Corus.Capi.CallerNotes
import Corus.Capi.Compressors
import Corus.Capi.Convenience
import Corus.Capi.EntryPoints
import Corus.Capi.Fallback
import Corus.Capi.Parameters
import Corus.Capi.Settings
import Corus.Capi.Suffix
import Corus.Capi.Versioned
import Corus.Compress.Inheritance
import Corus.Compress.Pipeline
import Corus.Compress.Wiring
import Corus.Dump.Ample
import Corus.Dump.Call
import Corus.Dump.Capture
import Corus.Dump.Completeness
import Corus.Dump.Congruence
import Corus.Dump.Degradation
import Corus.Dump.Fidelity
import Corus.Dump.FileTable
import Corus.Dump.History
import Corus.Dump.Honesty
import Corus.Dump.Identity
import Corus.Dump.Instant
import Corus.Dump.LargestFirst
import Corus.Dump.Limited
import Corus.Dump.Outcome
import Corus.Dump.Permission
import Corus.Dump.Priority
import Corus.Dump.Protocol
import Corus.Dump.Replay
import Corus.Dump.Serialize
import Corus.Dump.Sizes
import Corus.Dump.Termination
import Corus.Dump.Written
import Corus.Elf.Contents
import Corus.Elf.Core
import Corus.Elf.Following
import Corus.Elf.Layout
import Corus.Elf.NoteSection
import Corus.Elf.Notes
import Corus.Elf.Payload
import Corus.Elf.Reading
import Corus.Elf.SegmentCopy
import Corus.Elf.Segments
import Corus.Elf.Structs
import Corus.Logical.Action
import Corus.Logical.Bytes
import Corus.Logical.Lockstep
import Corus.Logical.Machine
import Corus.Logical.Numerals
import Corus.Logical.Parser
import Corus.Logical.Progress
import Corus.Logical.Ranges
import Corus.Logical.Transition
import Corus.Logical.Unending
import Corus.Logical.WordMemory
import Corus.Memory.Delivery
import Corus.Memory.LeadingZeros
import Corus.Memory.Loopback
import Corus.Memory.Probe
import Corus.Output.Budget
import Corus.Output.Interruption
import Corus.Output.Metered
import Corus.Output.Truncation
import Corus.Output.Writer
import Corus.Platform.Descriptors
import Corus.Platform.Kernel
import Corus.Platform.Process
import Corus.Proc.Damage
import Corus.Proc.Delivery
import Corus.Proc.Finalize
import Corus.Proc.Kept
import Corus.Proc.Lines
import Corus.Proc.Mapping
import Corus.Proc.Maps
import Corus.Proc.MapsFormat
import Corus.Proc.MapsText
import Corus.Proc.Reader
import Corus.Proc.Smaps
import Corus.Proc.SmapsText
import Corus.Proc.Vdso
import Corus.Reference.Agreement
import Corus.Reference.Assembly
import Corus.Reference.Details
import Corus.Reference.Header
import Corus.Reference.Image
import Corus.Reference.Limits
import Corus.Reference.NoteOrder
import Corus.Reference.SameCore
import Corus.Reference.Segments
import Corus.Reference.Smaps
import Corus.Reference.Writers
import Corus.RustApi.CoreDump
import Corus.Threads.Caller
import Corus.Threads.Contention
import Corus.Threads.Convergence
import Corus.Threads.CrashCleanup
import Corus.Threads.Degradation
import Corus.Threads.DirentFormat
import Corus.Threads.Freeze
import Corus.Threads.Holdings
import Corus.Threads.IdText
import Corus.Threads.Lister
import Corus.Threads.Moves
import Corus.Threads.Population
import Corus.Threads.Restoration
import Corus.Threads.Scan
import Corus.Threads.Suspension
import Corus.Threads.TaskDirectory
import Corus.Trampoline.Aarch64
import Corus.Trampoline.Clone
import Corus.Trampoline.Frame
import Corus.Trampoline.Spawning
import Corus.Trampoline.X86
