import Tas.QmanRun
import Tas.QmanSkiplist

/-! The virtual time of a VM after `flow_poll_skiplist`. -/
namespace Tas

open Outcome Relation

end Tas
