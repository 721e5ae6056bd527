import Components.Allocator.History
import Components.Allocator.Isolation
import Components.Allocator.Info
import Components.Allocator.DoubleFree
import Components.Allocator.Ownership
import Components.LoopQueue.Alone
import Components.LoopQueue.Delivery
import Components.LoopQueue.Inspection
import Components.LoopQueue.Batch
import Components.LoopQueue.TwoPhase
import Components.LinkedList.Wrap
import Components.LinkedList.SafeIteration
import Components.Modem.Dialup
import Components.Modem.Output
import Components.Modem.Reception
import Components.Modem.Chunks
import Components.Ppp.Integrity
import Components.Ppp.Timeouts
import Components.Ppp.Connecting
