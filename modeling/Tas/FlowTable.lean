import Tas.Lib.Probe
import Tas.Nicif

/-! The flow lookup table: hopscotch insertion and removal by the slow path, lookup by the fast
path. -/
namespace Tas

open Function

/-- An index modulo `FLEXNIC_PL_FLOWHT_ENTRIES = 2 ^ 18`. -/
abbrev Slot := BitVec 18

/-- `FLEXNIC_PL_FLOWHT_NBSZ`. -/
def flowhtNbsz : ℕ := 4

/-- `struct flextcp_pl_flowhte`. -/
structure FlowHte where
  flowId : U32
  flowHash : U32
deriving DecidableEq

def flowhteValid : U32 := 0x80000000

namespace FlowHte

def valid (e : FlowHte) : Bool := e.flowId &&& flowhteValid != 0

/-- The distance from the slot of the hash, as the entry stores it. -/
def pos (e : FlowHte) : U32 := (e.flowId >>> 29) &&& 3

/-- The flow id without the bits above it. -/
def fid (e : FlowHte) : U32 := e.flowId &&& 0x1fffffff

end FlowHte

/-- `FLEXNIC_PL_FLOWHTE_VALID | (d << FLEXNIC_PL_FLOWHTE_POSSHIFT) | f_id`. -/
def hteWord (d fid : U32) : U32 := flowhteValid ||| (d <<< 29) ||| fid

/-- The slot of a hash. -/
def homeSlot (h : U32) : Slot := h.setWidth 18

/-! ### Insertion -/

/-- Distance to the first free one of the `n` slots from `i` on. -/
def findFree (ht : Slot → FlowHte) (i : Slot) : ℕ → Option ℕ
  | 0 => none
  | n + 1 => if (ht i).valid then (findFree ht (i + 1) n).map (· + 1) else some 0

/-- Outcome of the search for an element to move: a failed assertion, none, or its slot. -/
inductive Movable
  | stuck
  | none
  | at (i : Slot)

/-- Look for an element that can be moved to slot `k`, in the `n` slots before it. -/
def findMovable (ht : Slot → FlowHte) (k : Slot) : ℕ → Movable
  | 0 => .none
  | n + 1 =>
    let i := k - BitVec.ofNat 18 (n + 1)
    if ¬ (ht i).valid then .stuck
    else if (k - i).toNat ≤ flowhtNbsz - 1 - (ht i).pos.toNat then .at i
    else findMovable ht k n

/-- Move the element of slot `i` to slot `k`. -/
def moveUp (ht : Slot → FlowHte) (i k : Slot) : Slot → FlowHte :=
  let moved : FlowHte := ⟨hteWord (ht i).pos (ht i).fid, (ht i).flowHash⟩
  update (update ht k moved) i ⟨0, (ht i).flowHash⟩

/-- Outcome of `flow_slot_alloc`: a slot and its distance, none, or a failed assertion. -/
inductive SlotAlloc
  | found (i : Slot) (d : ℕ)
  | full
  | stuck
deriving DecidableEq

/-- Slot `i` is not yet in the range `[j, l)` of the insertion, in the words of the source. -/
def OutOfRange (j l i : Slot) : Prop :=
  (j > l ∨ (i < j ∨ i ≥ l)) ∧ (j < l ∨ (i ≥ l ∧ i < j))

instance (j l i : Slot) : Decidable (OutOfRange j l i) := by
  unfold OutOfRange; infer_instance

/-- Move the free slot `i` backwards until it is in range for an insertion at slot `j`. Each
round moves it at least by one, so `fuel` bounds the rounds. -/
def moveBack : ℕ → (Slot → FlowHte) → (j i : Slot) → (Slot → FlowHte) × SlotAlloc
  | 0, ht, _, _ => (ht, .stuck)
  | fuel + 1, ht, j, i =>
    if OutOfRange j (j + BitVec.ofNat 18 flowhtNbsz) i then
      match findMovable ht i flowhtNbsz with
      | .stuck => (ht, .stuck)
      | .none => (ht, .full)
      | .at i' => if (ht i).valid then (ht, .stuck) else moveBack fuel (moveUp ht i' i) j i'
    else (ht, .found i (i - j).toNat)

def flowSlotAlloc (ht : Slot → FlowHte) (h : U32) : (Slot → FlowHte) × SlotAlloc :=
  let j := homeSlot h
  match findFree ht j flowhtNbsz with
  | some d => (ht, .found (j + BitVec.ofNat 18 d) d)
  | none =>
    let l := j + BitVec.ofNat 18 flowhtNbsz
    match findFree ht l (4 * flowhtNbsz) with
    | none => (ht, .full)
    | some d => moveBack (5 * flowhtNbsz) ht j (l + BitVec.ofNat 18 d)

/-! ### Removal and lookup -/

/-- Invalidate the entry of `fid` in one of the `n` slots from `k` on. The flag tells whether
there was one. -/
def flowSlotClear (ht : Slot → FlowHte) (h fid : U32) (k : Slot) : ℕ → (Slot → FlowHte) × Bool
  | 0 => (ht, false)
  | n + 1 =>
    if (ht k).valid ∧ (ht k).flowHash = h ∧ (ht k).fid = fid then
      (update ht k ⟨(ht k).flowId &&& ~~~flowhteValid, (ht k).flowHash⟩, true)
    else flowSlotClear ht h fid (k + 1) n

/-- The 4-tuple of a flow. -/
structure FlowKey where
  localIp : U32
  localPort : U16
  remoteIp : U32
  remotePort : U16
deriving DecidableEq

def FlowState.key (fs : FlowState) : FlowKey :=
  ⟨fs.outLocalIp, fs.localPort, fs.outRemoteIp, fs.remotePort⟩

def ConnArgs.key (c : ConnArgs) : FlowKey := ⟨c.ipLocal, c.portLocal, c.ipRemote, c.portRemote⟩

/-- The flow among the `n` slots from `k` on whose hash and 4-tuple match, as
`fast_flows_packet_fss` looks for it. -/
def findFlow (flowst : U32 → FlowState) (ht : Slot → FlowHte) (h : U32) (key : FlowKey)
    (k : Slot) : ℕ → Option U32
  | 0 => none
  | n + 1 =>
    if (ht k).valid ∧ (ht k).flowHash = h ∧ (flowst (ht k).fid).key = key then some (ht k).fid
    else findFlow flowst ht h key (k + 1) n

/-! ### Connections -/

/-- Flow states, lookup table and free list of flow ids. -/
structure FlowTable where
  flowst : U32 → FlowState
  flowht : Slot → FlowHte
  freeIds : List U32

/-- Outcome of `nicif_connection_add`. -/
inductive AddResult
  | ok (fid : U32)
  | failed
  | stuck
deriving DecidableEq

/-- The fast path lookup for a packet with 4-tuple `key`. -/
def fastFlowsPacketFss (hash : FlowKey → U32) (τ : FlowTable) (key : FlowKey) : Option U32 :=
  findFlow τ.flowst τ.flowht (hash key) key (homeSlot (hash key)) flowhtNbsz

def nicifConnectionAdd (hash : FlowKey → U32) (τ : FlowTable) (c : ConnArgs) :
    FlowTable × AddResult :=
  match τ.freeIds with
  | [] => (τ, .failed)
  | fid :: ids =>
    let h := hash c.key
    match flowSlotAlloc τ.flowht h with
    | (ht, .stuck) => ({ τ with flowht := ht }, .stuck)
    | (ht, .full) => ({ τ with flowht := ht }, .failed)
    | (ht, .found i d) =>
      if ¬ d < flowhtNbsz then ({ τ with flowht := ht }, .stuck)
      else
        ({ flowst := update τ.flowst fid (connectionInit (τ.flowst fid) c)
           flowht := update ht i ⟨hteWord (BitVec.ofNat 32 d) fid, h⟩
           freeIds := ids }, .ok fid)

/-- Also returns whether the table entry was found. -/
def nicifConnectionDisable (hash : FlowKey → U32) (τ : FlowTable) (fid : U32) : FlowTable × Bool :=
  let fs := (τ.flowst fid).setFlag flowstSlowpath
  let h := hash fs.key
  let r := flowSlotClear τ.flowht h fid (homeSlot h) flowhtNbsz
  ({ τ with flowst := update τ.flowst fid fs, flowht := r.1 }, r.2)

def nicifConnectionFree (τ : FlowTable) (fid : U32) : FlowTable :=
  { τ with freeIds := fid :: τ.freeIds }

end Tas
