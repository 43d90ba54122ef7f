import PicoTrustZone.Context.Refinement
import PicoTrustZone.Context.Loaded
import PicoTrustZone.Context.FreedStack
import PicoTrustZone.Context.Switch
import PicoTrustZone.Context.Accesses
import PicoTrustZone.Context.Nested
import PicoTrustZone.Boot.SecureConfig
import PicoTrustZone.Boot.Heap
import PicoTrustZone.Boot.Layout
import PicoTrustZone.SecureContext.Stackless
import PicoTrustZone.Context.Secrecy
import PicoTrustZone.Boot.Exposure
import PicoTrustZone.Context.Confined
import PicoTrustZone.Lib.DownCounter
import PicoTrustZone.NonSecure.SysTick
import PicoTrustZone.NonSecure.TickRate
import PicoTrustZone.Heap.Model
import PicoTrustZone.Lib.Arena
import PicoTrustZone.Lib.BlockChain
import PicoTrustZone.Heap.Nodes
import PicoTrustZone.Heap.Insert
import PicoTrustZone.Heap.Represent
import PicoTrustZone.Heap.Allocate
import PicoTrustZone.Heap.Runs
import PicoTrustZone.Heap.Guarantees
import PicoTrustZone.SecureContext.OnHeap
import PicoTrustZone.SecureContext.Clients
import PicoTrustZone.Lib.BlockTransfer
import PicoTrustZone.Port.Model
import PicoTrustZone.Port.Frames
import PicoTrustZone.Port.Calls
import PicoTrustZone.Port.System
import PicoTrustZone.Port.Invariant
import PicoTrustZone.Lib.Multiplex
import PicoTrustZone.Port.Processors
import PicoTrustZone.Port.Guarantees
