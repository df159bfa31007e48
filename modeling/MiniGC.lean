import MiniGC.Heap.Lookup
import MiniGC.Heap.Accounts
import MiniGC.Heap.Rebind
import MiniGC.Heap.Frozen
import MiniGC.Heap.FrozenRecords
import MiniGC.Heap.Alignment
import MiniGC.Heap.Pages
import MiniGC.Heap.Retire
import MiniGC.Handle.Store
import MiniGC.Handle.Manager
import MiniGC.Handle.History
import MiniGC.Handle.Laws
import MiniGC.Handle.Capacity
import MiniGC.Handle.Session
import MiniGC.Handle.Guards
import MiniGC.Handle.Duplicate
import MiniGC.Handle.Relocate
import MiniGC.Handle.Races
import MiniGC.Mark.Types
import MiniGC.Mark.Counts
import MiniGC.Mark.Repeating
import MiniGC.Mark.Bits
import MiniGC.Objects
import MiniGC.Process
import MiniGC.Roots
