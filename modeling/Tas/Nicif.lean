import Tas.FlowState

/-! The flow state that `nicif_connection_add` sets up and what the slow path reads of it. -/
namespace Tas

/-- Arguments of `nicif_connection_add`. -/
structure ConnArgs where
  db : U32
  vmId : U16
  appId : U16
  macRemote : U64
  ipLocal : U32
  portLocal : U16
  ipRemote : U32
  portRemote : U16
  rxBase : U64
  rxLen : U32
  txBase : U64
  txLen : U32
  remoteSeq : U32
  localSeq : U32
  appOpaque : U64
  flags : U32
  rate : U32
  flowGroup : U16
deriving Inhabited

def nicifConnEcn : U32 := 4

/-- The assignments of `nicif_connection_add` to the flow state slot, whose prior contents are
`fs`. Registers that are not named keep them. -/
def connectionInit (fs : FlowState) (c : ConnArgs) : FlowState :=
  { fs with
    appOpaque := c.appOpaque
    rxBaseSp := if c.flags &&& nicifConnEcn = nicifConnEcn then c.rxBase ||| flowstEcn else c.rxBase
    txBase := c.txBase
    rxLen := c.rxLen
    txLen := c.txLen
    remoteMac := c.macRemote.setWidth 48
    dbId := c.db.setWidth 16
    appId := c.appId
    vmId := c.vmId
    outLocalIp := c.ipLocal
    outRemoteIp := c.ipRemote
    localPort := c.portLocal
    remotePort := c.portRemote
    flowGroup := c.flowGroup
    bumpSeq := 0
    rxAvail := c.rxLen
    rxNextPos := 0
    rxNextSeq := c.remoteSeq
    rxRemoteAvail := c.rxLen
    txSent := 0
    txNextPos := 0
    txNextSeq := c.localSeq
    txAvail := 0
    txNextTs := 0
    txRate := c.rate
    rttEst := 0 }

/-- Result of `nicif_connection_stats`. -/
structure ConnStats where
  cDrops : U16
  cAcks : U16
  cAckb : U32
  cEcnb : U32
  txp : Bool
  rtt : U32
  cTxNextSeq : U32
  cTxAvail : U32
deriving DecidableEq

def nicifConnectionStats (fs : FlowState) : ConnStats where
  cDrops := fs.cntTxDrops
  cAcks := fs.cntRxAcks
  cAckb := fs.cntRxAckBytes
  cEcnb := fs.cntRxEcnBytes
  txp := fs.txSent ≠ 0
  rtt := fs.rttEst
  cTxNextSeq := fs.txNextSeq
  cTxAvail := fs.txAvail

end Tas
