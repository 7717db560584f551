import Tas.FastFlows
import Tas.LibTas

/-! The queues between the fast path and the contexts of applications, `fast_appctx.c`: how the
fast path fetches an update from a queue and applies it to the flow it names. -/
namespace Tas

/-- `struct flextcp_pl_appctx`, without the base addresses. Positions are in bytes. -/
structure Appctx where
  rxLen : U32
  txLen : U32
  rxHead : U32
  txHead : U32
  rxAvail : U32
deriving DecidableEq, Inhabited

/-- `struct flextcp_pl_atx`, as the guest wrote it. -/
structure AtxEntry where
  type : U8
  flowId : U32
  msg : Atx
deriving DecidableEq

def atxConnupdate : U8 := 1

/-- `FLEXNIC_PL_FLOWST_NUM`. -/
def flowIdLimit : U32 := 131072

/-- `sizeof(struct flextcp_pl_atx)`. -/
def atxSize : U32 := 16

/-- The context after an entry was fetched, and the bytes charged to the VM. -/
structure Fetched where
  actx : Appctx
  counted : U32

/-- The position behind the fetched entry. -/
def nextTxHead (actx : Appctx) : U32 :=
  let head := actx.txHead + atxSize
  if head ≥ actx.txLen then head - actx.txLen else head

/-- Fetch the entry `atx` that is at the head of the queue. Nothing is returned if the context is
not in use or the queue is empty. -/
def fastAppctxPollFetch (actx : Appctx) (atx : AtxEntry) (spendBudget : Bool) :
    Checked (Option Fetched) :=
  if actx.txLen = 0 then .done none
  else if atx.type = 0 then .done none
  else if atx.type ≠ atxConnupdate then .abort
  else if atx.flowId ≥ flowIdLimit then .abort
  else
    .done (some {
      actx := { actx with txHead := nextTxHead actx }
      counted := if spendBudget then atx.msg.txBump else 0 })

/-- Apply a fetched entry to the flow it names. The caller then clears the type of the entry. -/
def fastAppctxPollBump (env : U16 → FpEnv) (flowst : U32 → FlowState) (atx : AtxEntry) (ts : U32) :
    (U32 → FlowState) × BumpOut :=
  let fs := flowst atx.flowId
  let r := fastFlowsBump (env fs.vmId) fs atx.flowId atx.msg.bumpSeq atx.msg.rxBump atx.msg.txBump
    atx.msg.flags ts
  (Function.update flowst atx.flowId r.1, r.2)

end Tas
