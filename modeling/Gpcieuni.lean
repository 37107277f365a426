import Gpcieuni.Driver.Mutex
import Gpcieuni.Driver.Slots
import Gpcieuni.Driver.Isolation
import Gpcieuni.Hotplug.Unmapped
import Gpcieuni.BufferList.Lock
import Gpcieuni.BufferList.Linked
import Gpcieuni.BufferList.Destroyed
import Gpcieuni.BufferList.Cyclic
import Gpcieuni.BufferList.Shutdown
import Gpcieuni.BufferList.ClearEnds
import Gpcieuni.BufferList.Blocking
import Gpcieuni.BufferList.Empty
import Gpcieuni.Driver.Assignment
import Gpcieuni.Driver.Addresses
import Gpcieuni.Driver.Balance
import Gpcieuni.Driver.History
import Gpcieuni.Discovery.Chains
import Gpcieuni.Discovery.Bounds
import Gpcieuni.Window
import Gpcieuni.Module
import Gpcieuni.Position
import Gpcieuni.Discovery.Allocations
import Gpcieuni.BufferSpec
import Gpcieuni.Driver.Entries
import Gpcieuni.Driver.BoardNumbers
import Gpcieuni.Hotplug.Progress
import Gpcieuni.BufferList.Pool
import Gpcieuni.BufferList.Refinement
import Gpcieuni.Driver.Wedged
import Gpcieuni.BufferList.Backing
import Gpcieuni.Driver.ProcText
import Gpcieuni.Driver.Registers
import Gpcieuni.Driver.Service
import Gpcieuni.Driver.Answers
import Gpcieuni.Unplug.Reaches
