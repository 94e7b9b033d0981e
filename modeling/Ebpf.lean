import Ebpf.CommandLine.Directory
import Ebpf.Helper.Text
import Ebpf.Main
import Ebpf.Proofs.Step
import Ebpf.Proofs.StepFaults
import Ebpf.Proofs.Atomicity
import Ebpf.Proofs.Run
import Ebpf.Proofs.Session
import Ebpf.Proofs.Halted
import Ebpf.Proofs.Budget
import Ebpf.Proofs.Listing
import Ebpf.Proofs.Blocks
import Ebpf.Proofs.Coverage
import Ebpf.Proofs.Edges
import Ebpf.Proofs.Codec
import Ebpf.Proofs.Grammar
import Ebpf.Proofs.Encoding
import Ebpf.Proofs.Assembly
import Ebpf.Proofs.Partition
import Ebpf.Proofs.Frame
import Ebpf.Proofs.Lockstep
import Ebpf.Proofs.Numeral
import Ebpf.Proofs.OrderIsolation
import Ebpf.Proofs.Disassembly
import Ebpf.Proofs.JsonText
import Ebpf.Proofs.JsonValue
import Ebpf.Proofs.Snapshot
import Ebpf.Proofs.Reload
import Ebpf.Proofs.Termination
import Ebpf.Proofs.LowHalves
import Ebpf.Proofs.Reachability
import Ebpf.Proofs.Limit
import Ebpf.Proofs.Sweep
import Ebpf.Proofs.Arithmetic
import Ebpf.Proofs.Comparison
import Ebpf.Proofs.Layout
import Ebpf.Proofs.ByteMap
import Ebpf.Proofs.Accumulation
import Ebpf.Proofs.SwapLayout
import Ebpf.Proofs.Observer
import Ebpf.Proofs.WireFormat
import Ebpf.Proofs.Registry
import Ebpf.Proofs.Utf8
import Ebpf.Proofs.Printk
