import Tas.Appctx

/-! Contexts of applications, `appif.c` and `nicif.c`: the doorbell that a context is given, and the
slot of the fast path that the doorbell selects. -/
namespace Tas

open Function Relation List

/-- `FLEXNIC_PL_VMST_NUM`. -/
def vmstNum : ℕ := 6

/-- `FLEXNIC_PL_APPST_NUM`. -/
def appstNum : ℕ := 8

/-- `FLEXNIC_PL_APPST_CTX_NUM`. -/
def appstCtxNum : ℕ := 62

/-- `FLEXNIC_PL_APPCTX_NUM`. -/
def appctxNum : ℕ := 32

/-- A write to `appctx[core][vmid][db]`. -/
structure AppctxWrite where
  core : ℕ
  vmid : ℕ
  db : ℕ
deriving DecidableEq

/-- The write is to a slot of the VM. -/
def AppctxWrite.Inside (w : AppctxWrite) : Prop := w.vmid < vmstNum ∧ w.db < appctxNum

/-- The state of the fast path that `nicif_appctx_add` changes: the queues of each core, with the
slots of all VMs one after the other, the contexts of each application, and those that are polled.
Writes to slots are recorded. -/
structure ContextState where
  appctx : ℕ → ℕ → Appctx
  ctxNum : ℕ → ℕ
  ctxIds : ℕ → ℕ → ℕ
  registered : ℕ → List ℕ
  writes : List AppctxWrite

/-- The place of `appctx[core][vmid][db]` in the array of the core. -/
def appctxSlot (vmid db : ℕ) : ℕ := vmid * appctxNum + db

/-- The queues of a context, of the same length for each core. -/
def freshAppctx (rxqLen txqLen : U32) (old : Appctx) : Appctx :=
  { old with rxLen := rxqLen, txLen := txqLen, rxAvail := rxqLen }

def tasRegisterAppctx (n : ContextState) (vmid ctxid : ℕ) : Checked ContextState :=
  if vmid ≥ vmstNum then .abort
  else if ctxid ≥ appctxNum then .abort
  else if ctxid ∈ n.registered vmid then .done n
  else if (n.registered vmid).length ≥ appctxNum then .abort
  else .done { n with
    registered := update n.registered vmid (n.registered vmid ++ [ctxid]) }

/-- The slots of a context are written, on each core. -/
def writeAppctx (cores : ℕ) (n : ContextState) (vmid db : ℕ) (rxqLen txqLen : U32) : ContextState :=
  { n with
    appctx := fun core slot =>
      if core < cores ∧ slot = appctxSlot vmid db then
        freshAppctx rxqLen txqLen (n.appctx core slot)
      else n.appctx core slot
    writes := (List.range cores).map (⟨·, vmid, db⟩) ++ n.writes }

/-- What `nicif_appctx_add` did: it failed, it aborted after it wrote the slots, or it returned. -/
inductive CtxAddResult
  | failed
  | aborted (n : ContextState)
  | added (n : ContextState)

/-- Register a context. The slots are written before the doorbell is checked. -/
def nicifAppctxAdd (cores : ℕ) (n : ContextState) (vmid appid db : ℕ) (rxqLen txqLen : U32) :
    CtxAddResult :=
  if appid ≥ appstNum then .failed
  else if n.ctxNum appid + 1 ≥ appstCtxNum then .failed
  else
    let n := writeAppctx cores n vmid db rxqLen txqLen
    let n := { n with
      ctxIds := update n.ctxIds appid
        (update (n.ctxIds appid) (n.ctxNum appid) db)
      ctxNum := update n.ctxNum appid (n.ctxNum appid + 1) }
    match tasRegisterAppctx n vmid db with
    | .abort => .aborted n
    | .done n => .added n

/-- `struct app_context`: its doorbell, and whether the application was told of it. -/
structure AppContext where
  doorbell : ℕ
  ready : Bool
deriving DecidableEq

/-- `struct application`: its contexts, the latest first, and how far a request has got. -/
inductive RequestState
  | idle
  | needReg (db : ℕ) (rxqLen txqLen : U32)
  | completed (db : ℕ)

structure Application where
  id : ℕ
  vmId : ℕ
  contexts : List AppContext
  request : RequestState

/-- The applications, the doorbells that are left and the ids for the next application and VM. -/
structure Appif where
  apps : ℕ → Option Application
  freeDoorbells : List ℕ
  appIdNext : ℕ
  vmIdNext : ℕ
  nic : ContextState
  aborted : Bool

/-- After `appif_init`. -/
structure AppifStart (s : Appif) : Prop where
  apps : ∀ i, s.apps i = none
  doorbells : s.freeDoorbells = List.range' 1 appstCtxNum
  writes : s.nic.writes = []
  aborted : s.aborted = false

/-- The number of doorbells that were given to contexts. -/
def Appif.taken (s : Appif) : ℕ := appstCtxNum - s.freeDoorbells.length

def Appif.setApp (s : Appif) (i : ℕ) (a : Option Application) : Appif :=
  { s with apps := update s.apps i a }

/-- The context of a completed request is ready. -/
def Application.setReady (a : Application) (db : ℕ) : Application :=
  { a with
    contexts := a.contexts.map fun c => if c.doorbell = db then { c with ready := true } else c
    request := .idle }

/-- Applications connect, request contexts, and disconnect between requests. The slow path gives a
context its doorbell, registers it with the fast path, and answers. -/
inductive AppifStep (cores : ℕ) : Appif → Appif → Prop
  | acceptVm {s : Appif} (hlive : s.aborted = false) (hvm : s.vmIdNext < vmstNum) :
    AppifStep cores s { s with vmIdNext := s.vmIdNext + 1 }
  | acceptAppvm {s : Appif} {i : ℕ} (hlive : s.aborted = false) (hvm : s.vmIdNext < vmstNum)
    (hfree : s.apps i = none) :
    AppifStep cores s
      { s.setApp i (some ⟨0, s.vmIdNext, [], .idle⟩) with vmIdNext := s.vmIdNext + 1 }
  | acceptApp {s : Appif} {i vmId : ℕ} (hlive : s.aborted = false) (hvm : vmId < vmstNum)
    (hfree : s.apps i = none) :
    AppifStep cores s
      { s.setApp i (some ⟨s.appIdNext % 2 ^ 16, vmId, [], .idle⟩) with
        appIdNext := s.appIdNext + 1 }
  | receive {s : Appif} {i db : ℕ} {a : Application} {rest : List ℕ} {rxqLen txqLen : U32}
    (hlive : s.aborted = false) (happ : s.apps i = some a) (hidle : a.request = .idle)
    (hdb : s.freeDoorbells = db :: rest) :
    AppifStep cores s
      { s.setApp i (some { a with
          contexts := ⟨db, false⟩ :: a.contexts
          request := .needReg db rxqLen txqLen }) with freeDoorbells := rest }
  | receiveFailed {s : Appif} {i : ℕ} {a : Application} {rest : List ℕ} (hlive : s.aborted = false)
    (happ : s.apps i = some a) (hidle : a.request = .idle) (hdb : rest <:+ s.freeDoorbells) :
    AppifStep cores s { s.setApp i none with freeDoorbells := rest }
  | register {s : Appif} {i db : ℕ} {a : Application} {rxqLen txqLen : U32} {n : ContextState}
    (hlive : s.aborted = false) (happ : s.apps i = some a)
    (hreq : a.request = .needReg db rxqLen txqLen)
    (hr : nicifAppctxAdd cores s.nic a.vmId a.id db rxqLen txqLen = .added n) :
    AppifStep cores s { s.setApp i (some { a with request := .completed db }) with nic := n }
  | registerFailed {s : Appif} {i db : ℕ} {a : Application} {rxqLen txqLen : U32}
    (hlive : s.aborted = false) (happ : s.apps i = some a)
    (hreq : a.request = .needReg db rxqLen txqLen)
    (hr : nicifAppctxAdd cores s.nic a.vmId a.id db rxqLen txqLen = .failed) :
    AppifStep cores s (s.setApp i none)
  | registerAborted {s : Appif} {i db : ℕ} {a : Application} {rxqLen txqLen : U32}
    {n : ContextState} (hlive : s.aborted = false) (happ : s.apps i = some a)
    (hreq : a.request = .needReg db rxqLen txqLen)
    (hr : nicifAppctxAdd cores s.nic a.vmId a.id db rxqLen txqLen = .aborted n) :
    AppifStep cores s { s with nic := n, aborted := true }
  | notify {s : Appif} {i db : ℕ} {a : Application} (hlive : s.aborted = false)
    (happ : s.apps i = some a) (hreq : a.request = .completed db) :
    AppifStep cores s (s.setApp i (some (a.setReady db)))
  | hangup {s : Appif} {i : ℕ} {a : Application} (hlive : s.aborted = false)
    (happ : s.apps i = some a) (hidle : a.request = .idle) : AppifStep cores s (s.setApp i none)

/-! ### Doorbells -/

variable {cores i j db : ℕ} {s s' s₀ : Appif} {a b : Application} {n n' : ContextState}
  {rxqLen txqLen : U32} {x : Option Application} {k : ℕ}

/-- The doorbells of the contexts of an application, and of the request in progress. -/
structure Application.Ok (a : Application) (taken : ℕ) : Prop where
  vm : a.vmId < vmstNum
  given : ∀ c ∈ a.contexts, c.doorbell ≤ taken
  nodup : (a.contexts.map AppContext.doorbell).Nodup
  pending : ∀ db rxqLen txqLen, a.request = .needReg db rxqLen txqLen → db ≤ taken
  completed : ∀ db, a.request = .completed db → db < appctxNum
  ready : ∀ c ∈ a.contexts, c.ready = true → c.doorbell < appctxNum

/-- Doorbells are given out in order, each to one context. -/
structure AppifInv (s : Appif) : Prop where
  free : s.freeDoorbells <:+ List.range' 1 appstCtxNum
  apps : ∀ i a, s.apps i = some a → a.Ok s.taken
  apart : ∀ i j a b, s.apps i = some a → s.apps j = some b → i ≠ j →
    ∀ c ∈ a.contexts, ∀ d ∈ b.contexts, c.doorbell ≠ d.doorbell
  writes : ∀ w ∈ s.nic.writes, w.vmid < vmstNum ∧ w.db ≤ s.taken

theorem setApp_cases (h : (s.setApp i x).apps j = some b) :
    (j = i ∧ x = some b) ∨ (j ≠ i ∧ s.apps j = some b) := by
  unfold Appif.setApp at h
  by_cases hj : j = i
  · subst hj
    exact .inl ⟨rfl, by simpa using h⟩
  · exact .inr ⟨hj, by simpa [hj] using h⟩

theorem Application.Ok.mono {k' : ℕ} (h : a.Ok k) (hk : k ≤ k') : a.Ok k' :=
  ⟨h.vm, fun c hc => (h.given c hc).trans hk, h.nodup,
    fun db r t hr => (h.pending db r t hr).trans hk, h.completed, h.ready⟩

/-- An application is replaced, or goes, and doorbells may be taken. -/
theorem AppifInv.change {free : List ℕ} {appIdNext vmIdNext : ℕ} {aborted : Bool} (h : AppifInv s)
    (hfree : free <:+ s.freeDoorbells) (hx : ∀ b, x = some b → b.Ok (appstCtxNum - free.length))
    (hnew : ∀ b, x = some b → ∀ c ∈ b.contexts,
      (∃ a, s.apps i = some a ∧ c.doorbell ∈ a.contexts.map AppContext.doorbell) ∨
        s.taken < c.doorbell)
    (hwrites : ∀ w ∈ n.writes, w.vmid < vmstNum ∧ w.db ≤ appstCtxNum - free.length) :
    AppifInv ⟨(s.setApp i x).apps, free, appIdNext, vmIdNext, n, aborted⟩ := by
  have hmore : s.taken ≤ appstCtxNum - free.length :=
    Nat.sub_le_sub_left hfree.length_le _
  -- a doorbell of the application in the place is not one of another application
  have hother (b : Application) (hb : x = some b) (k : ℕ) (a : Application) (hk : k ≠ i)
      (ha : s.apps k = some a) : ∀ c ∈ b.contexts, ∀ d ∈ a.contexts, c.doorbell ≠ d.doorbell := by
    intro c hc d hd heq
    obtain ⟨a', ha', hmem⟩ | hlt := hnew b hb c hc
    · obtain ⟨c', hc', hc'eq⟩ := mem_map.1 hmem
      exact h.apart i k a' a ha' ha hk.symm c' hc' d hd (hc'eq.trans heq)
    · have hle := (h.apps k a ha).given d hd
      omega
  refine ⟨hfree.trans h.free, fun k b hb => ?_, fun k l b c hb hc hkl => ?_, hwrites⟩
  · obtain ⟨rfl, hbx⟩ | ⟨-, hbs⟩ := setApp_cases hb
    · exact hx b hbx
    · exact (h.apps k b hbs).mono hmore
  · obtain ⟨rfl, hbx⟩ | ⟨hk, hbs⟩ := setApp_cases hb
    · obtain ⟨rfl, -⟩ | ⟨hl, hcs⟩ := setApp_cases hc
      · exact absurd rfl hkl
      · exact hother b hbx l c hl hcs
    · obtain ⟨rfl, hcx⟩ | ⟨hl, hcs⟩ := setApp_cases hc
      · intro d hd e he heq
        exact hother c hcx k b hk hbs e he d hd heq.symm
      · exact h.apart k l b c hbs hcs hkl

theorem tasRegisterAppctx_done {vmid ctxid : ℕ} (hr : tasRegisterAppctx n vmid ctxid = .done n') :
    n'.writes = n.writes ∧ ctxid < appctxNum := by
  unfold tasRegisterAppctx at hr
  split_ifs at hr with hvm hctx hold hfull
  all_goals
    cases hr
    exact ⟨rfl, by omega⟩

/-- A context is added or not; if the slots are written then those of the context. -/
theorem nicifAppctxAdd_cases (cores : ℕ) (n : ContextState) (vmid appid db : ℕ)
    (rxqLen txqLen : U32) :
    nicifAppctxAdd cores n vmid appid db rxqLen txqLen = .failed ∨
      (∃ n', nicifAppctxAdd cores n vmid appid db rxqLen txqLen = .aborted n' ∧
        n'.writes = (List.range cores).map (⟨·, vmid, db⟩) ++ n.writes) ∨
      ∃ n', nicifAppctxAdd cores n vmid appid db rxqLen txqLen = .added n' ∧
        n'.writes = (List.range cores).map (⟨·, vmid, db⟩) ++ n.writes ∧ db < appctxNum := by
  unfold nicifAppctxAdd
  dsimp only
  split_ifs with happ hctx
  · exact .inl rfl
  · exact .inl rfl
  · right
    split
    next => exact .inl ⟨_, rfl, rfl⟩
    next n' hreg =>
      obtain ⟨hwrites, hlt⟩ := tasRegisterAppctx_done hreg
      exact .inr ⟨n', rfl, hwrites, hlt⟩

/-- The doorbell that is next is the number of the context. -/
theorem AppifInv.next_doorbell {rest : List ℕ} (h : AppifInv s)
    (hdb : s.freeDoorbells = db :: rest) : db = appstCtxNum - rest.length ∧ s.taken < db := by
  have hsuffix := h.free
  rw [hdb] at hsuffix
  obtain ⟨given, hgiven⟩ := hsuffix
  have hlen := congrArg List.length hgiven
  have hdrop := congrArg (List.drop given.length) hgiven
  rw [drop_left, drop_range'] at hdrop
  have htaken : s.taken = appstCtxNum - (rest.length + 1) := by
    unfold Appif.taken
    rw [hdb, length_cons]
  simp only [length_append, length_cons, length_range'] at hlen
  cases hcount : appstCtxNum - given.length with
  | zero => omega
  | succ k =>
    rw [hcount, List.range'_succ] at hdrop
    have hhead := (List.cons.inj hdrop).1
    omega

theorem application_ok_new {id vmId taken : ℕ} (hvm : vmId < vmstNum) :
    (Application.mk id vmId [] .idle).Ok taken :=
  ⟨hvm, by simp, nodup_nil, fun _ _ _ h => by simp at h, fun _ h => by simp at h, by simp⟩

theorem map_setReady (a : Application) (db : ℕ) :
    (a.setReady db).contexts.map AppContext.doorbell = a.contexts.map AppContext.doorbell := by
  unfold Application.setReady
  rw [List.map_map]
  apply map_congr_left
  intro c _
  by_cases hc : c.doorbell = db
  · simp [hc]
  · simp [hc]

theorem Application.Ok.setReady (h : a.Ok k) (hdb : db < appctxNum) : (a.setReady db).Ok k := by
  have hmem (c : AppContext) (hc : c ∈ (a.setReady db).contexts) :
      ∃ d ∈ a.contexts, c = if d.doorbell = db then { d with ready := true } else d := by
    obtain ⟨d, hd, heq⟩ := mem_map.1 hc
    exact ⟨d, hd, heq.symm⟩
  refine ⟨h.vm, fun c hc => ?_, (map_setReady a db).symm ▸ h.nodup, fun _ _ _ hr => (by cases hr),
    fun _ hr => (by cases hr), fun c hc hready => ?_⟩
  · obtain ⟨d, hd, rfl⟩ := hmem c hc
    split_ifs <;> exact h.given d hd
  · obtain ⟨d, hd, rfl⟩ := hmem c hc
    split_ifs at hready ⊢ with hddb
    · exact hddb ▸ hdb
    · exact h.ready d hd hready

theorem AppifInv.added_writes (h : AppifInv s) (ha : a.Ok k) (hdb : db ≤ s.taken)
    (hn : n.writes = (List.range cores).map (⟨·, a.vmId, db⟩) ++ s.nic.writes) :
    ∀ w ∈ n.writes, w.vmid < vmstNum ∧ w.db ≤ s.taken := by
  intro w hw
  rw [hn] at hw
  obtain hw | hw := mem_append.1 hw
  · obtain ⟨core, -, rfl⟩ := mem_map.1 hw
    exact ⟨ha.vm, hdb⟩
  · exact h.writes w hw

/-- The application keeps its contexts. -/
theorem AppifInv.replace {x : Application} {nic : ContextState} (h : AppifInv s)
    (happ : s.apps i = some a) (hx : x.Ok s.taken)
    (hsame : x.contexts.map AppContext.doorbell = a.contexts.map AppContext.doorbell)
    (hwrites : ∀ w ∈ nic.writes, w.vmid < vmstNum ∧ w.db ≤ s.taken) :
    AppifInv { s.setApp i (some x) with nic := nic } := by
  refine h.change (suffix_refl _) (fun b hb => ?_) (fun b hb c hc => ?_) hwrites
  · cases hb
    exact hx
  · cases hb
    exact .inl ⟨a, happ, hsame ▸ mem_map_of_mem hc⟩

theorem appifInv_step (h : AppifInv s) (hstep : AppifStep cores s s') : AppifInv s' := by
  have hkeep : s.freeDoorbells <:+ s.freeDoorbells := suffix_refl _
  cases hstep with
  | acceptVm hlive hvm => exact { h with }
  | acceptAppvm _ hvm | acceptApp _ hvm =>
    refine h.change hkeep ?_ ?_ h.writes
    · rintro b hb
      cases hb
      exact application_ok_new hvm
    · rintro b hb c hc
      cases hb
      cases hc
  | @receive i db a rest rxqLen txqLen hlive happ hidle hdb =>
    obtain ⟨hlast, hlt⟩ := h.next_doorbell hdb
    have ha := h.apps i a happ
    have hsuffix : rest <:+ s.freeDoorbells := hdb ▸ suffix_cons db rest
    refine h.change hsuffix ?_ ?_ ?_
    · rintro b hb
      cases hb
      refine ⟨ha.vm, fun c hc => ?_, nodup_cons.2 ⟨fun hmem => ?_, ha.nodup⟩, ?_,
        fun _ hr => (by cases hr), fun c hc hready => ?_⟩
      · obtain rfl | hc := mem_cons.1 hc
        · exact hlast.le
        · have hle := ha.given c hc
          omega
      · obtain ⟨c, hc, heq⟩ := mem_map.1 hmem
        have hle := ha.given c hc
        simp only at heq
        omega
      · intro db' _ _ hr
        cases hr
        exact hlast.le
      · obtain rfl | hc := mem_cons.1 hc
        · cases hready
        · exact ha.ready c hc hready
    · rintro b hb c hc
      cases hb
      obtain rfl | hc := mem_cons.1 hc
      · exact .inr hlt
      · exact .inl ⟨a, happ, mem_map_of_mem hc⟩
    · intro w hw
      obtain ⟨hvm, hle⟩ := h.writes w hw
      exact ⟨hvm, by omega⟩
  | @receiveFailed i a rest hlive happ hidle hdb =>
    refine h.change hdb (fun b hb => by cases hb) (fun b hb => by cases hb) fun w hw => ?_
    obtain ⟨hvm, hle⟩ := h.writes w hw
    exact ⟨hvm, hle.trans (Nat.sub_le_sub_left hdb.length_le _)⟩
  | @register i db a rxqLen txqLen n hlive happ hreq hr =>
    have ha := h.apps i a happ
    obtain hcase | ⟨n', hcase, -⟩ | ⟨n', hcase, hwrites, hlt⟩ :=
      nicifAppctxAdd_cases cores s.nic a.vmId a.id db rxqLen txqLen
    · cases hcase.symm.trans hr
    · cases hcase.symm.trans hr
    · cases hcase.symm.trans hr
      refine h.replace happ ⟨ha.vm, ha.given, ha.nodup, fun _ _ _ hr => (by cases hr), ?_,
        ha.ready⟩ rfl (h.added_writes ha (ha.pending db _ _ hreq) hwrites)
      intro db' hdb'
      cases hdb'
      exact hlt
  | registerFailed | hangup =>
    exact h.change hkeep (fun b hb => by cases hb) (fun b hb => by cases hb) h.writes
  | @registerAborted i db a rxqLen txqLen n hlive happ hreq hr =>
    have ha := h.apps i a happ
    obtain hcase | ⟨n', hcase, hwrites⟩ | ⟨n', hcase, -⟩ :=
      nicifAppctxAdd_cases cores s.nic a.vmId a.id db rxqLen txqLen
    · cases hcase.symm.trans hr
    · cases hcase.symm.trans hr
      exact { h with writes := h.added_writes ha (ha.pending db _ _ hreq) hwrites }
    · cases hcase.symm.trans hr
  | @notify i db a hlive happ hreq =>
    have ha := h.apps i a happ
    exact h.replace happ (ha.setReady (ha.completed db hreq)) (map_setReady a db) h.writes

theorem appifInv_of_reachable (hstart : AppifStart s₀)
    (hrun : ReflTransGen (AppifStep cores) s₀ s) : AppifInv s := by
  induction hrun with
  | refl =>
    refine ⟨hstart.doorbells ▸ suffix_refl _, fun i a ha => ?_, fun i j a b ha => ?_, ?_⟩
    · cases (hstart.apps i).symm.trans ha
    · cases (hstart.apps i).symm.trans ha
    · simp [hstart.writes]
  | tail _ hstep ih => exact appifInv_step ih hstep

/-- Contexts that the application was told of have slots of their VM, each its own. -/
structure ContextsOk (s : Appif) : Prop where
  inside : ∀ i a, s.apps i = some a → a.vmId < vmstNum ∧
    ∀ c ∈ a.contexts, c.ready = true → c.doorbell < appctxNum
  distinct : ∀ i j a b, s.apps i = some a → s.apps j = some b → ∀ c ∈ a.contexts,
    ∀ d ∈ b.contexts, c.ready = true → d.ready = true →
    appctxSlot a.vmId c.doorbell = appctxSlot b.vmId d.doorbell → i = j ∧ c = d
  nodup : ∀ i a, s.apps i = some a → a.contexts.Nodup

theorem AppifInv.contextsOk (h : AppifInv s) : ContextsOk s := by
  refine ⟨fun i a ha => ⟨(h.apps i a ha).vm, (h.apps i a ha).ready⟩, ?_, fun i a ha =>
    (h.apps i a ha).nodup.of_map _⟩
  intro i j a b ha hb c hc d hd hcr hdr hslot
  have hclt := (h.apps i a ha).ready c hc hcr
  have hdlt := (h.apps j b hb).ready d hd hdr
  unfold appctxSlot at hslot
  have hdb : c.doorbell = d.doorbell := by
    unfold appctxNum at *
    omega
  by_cases hij : i = j
  · subst hij
    obtain rfl : a = b := Option.some.inj (ha.symm.trans hb)
    exact ⟨rfl, inj_on_of_nodup_map (h.apps i a ha).nodup hc hd hdb⟩
  · exact absurd hdb (h.apart i j a b ha hb hij c hc d hd)

/-- In every run contexts that are live have slots of their own. As long as fewer doorbells were
given out than a VM has slots, nothing else is written. -/
theorem contexts_have_own_slots (hstart : AppifStart s₀)
    (hrun : ReflTransGen (AppifStep cores) s₀ s) (hfew : s.taken < appctxNum) :
    ContextsOk s ∧ ∀ w ∈ s.nic.writes, w.Inside := by
  have h := appifInv_of_reachable hstart hrun
  exact ⟨h.contextsOk, fun w hw => ⟨(h.writes w hw).1, (h.writes w hw).2.trans_lt hfew⟩⟩

/-! ### More contexts than slots -/

def emptyContexts : ContextState :=
  ⟨fun _ _ => ⟨0, 0, 0, 0, 0⟩, fun _ => 0, fun _ _ => 0, fun _ => [], []⟩

/-- Right after `appif_init`. -/
def freshAppif : Appif :=
  ⟨fun _ => none, List.range' 1 appstCtxNum, 0, 0, emptyContexts, false⟩

theorem freshAppif_start : AppifStart freshAppif := ⟨fun _ => rfl, rfl, rfl, rfl⟩

/-- An application in the VM 0 has got `k` contexts. -/
structure ServedContexts (k : ℕ) (s : Appif) : Prop where
  live : s.aborted = false
  free : s.freeDoorbells = List.range' (k + 1) (appstCtxNum - k)
  app : ∃ contexts, s.apps 0 = some ⟨0, 0, contexts, .idle⟩
  count : s.nic.ctxNum 0 = k
  registered : s.nic.registered 0 = List.range' 1 k

theorem served_accept : ∃ s, AppifStep 1 freshAppif s ∧ ServedContexts 0 s :=
  ⟨_, @AppifStep.acceptApp 1 freshAppif 0 0 rfl (by decide) rfl, rfl, rfl, ⟨[], rfl⟩, rfl, rfl⟩

theorem apps_setApp_self (s : Appif) (i : ℕ) (x : Option Application) :
    (s.setApp i x).apps i = x := update_self ..

/-- A further context is given its doorbell. -/
theorem ServedContexts.receive (h : ServedContexts k s) (hk : k < appctxNum) :
    ∃ s₁ contexts, AppifStep 1 s s₁ ∧ s₁.aborted = false ∧
      s₁.apps 0 = some ⟨0, 0, contexts, .needReg (k + 1) 32 256⟩ ∧
      s₁.freeDoorbells = List.range' (k + 2) (appstCtxNum - (k + 1)) ∧ s₁.nic = s.nic := by
  obtain ⟨contexts, happ⟩ := h.app
  have hsplit : appstCtxNum - k = appstCtxNum - (k + 1) + 1 := by
    unfold appctxNum at hk
    unfold appstCtxNum
    omega
  have hfree := h.free
  rw [hsplit, List.range'_succ] at hfree
  exact ⟨_, ⟨k + 1, false⟩ :: contexts, @AppifStep.receive 1 s 0 (k + 1) _ _ 32 256 h.live happ rfl
    hfree, h.live, apps_setApp_self s 0 _, rfl, rfl⟩

/-- The state of the fast path when the context `k + 1` is checked. -/
def afterWrite (n : ContextState) (k : ℕ) : ContextState :=
  let n := writeAppctx 1 n 0 (k + 1) 32 256
  { n with
    ctxIds := update n.ctxIds 0 (update (n.ctxIds 0) (n.ctxNum 0) (k + 1))
    ctxNum := update n.ctxNum 0 (n.ctxNum 0 + 1) }

theorem ServedContexts.add_eq (h : ServedContexts k s) (hk : k < appctxNum) :
    nicifAppctxAdd 1 s.nic 0 0 (k + 1) 32 256 =
      match tasRegisterAppctx (afterWrite s.nic k) 0 (k + 1) with
      | .abort => .aborted (afterWrite s.nic k)
      | .done n => .added n := by
  unfold nicifAppctxAdd
  have hcount : ¬ s.nic.ctxNum 0 + 1 ≥ appstCtxNum := by
    rw [h.count]
    unfold appctxNum at hk
    unfold appstCtxNum
    omega
  rw [if_neg (by decide), if_neg hcount]
  rfl

theorem ServedContexts.registered_eq (h : ServedContexts k s) :
    (afterWrite s.nic k).registered 0 = List.range' 1 k := h.registered

/-- While slots are left the context is registered, and the application is told. -/
theorem ServedContexts.next (h : ServedContexts k s) (hk : k + 1 < appctxNum) :
    ∃ s', ReflTransGen (AppifStep 1) s s' ∧ ServedContexts (k + 1) s' := by
  obtain ⟨s₁, contexts, hreceive, hlive, happ, hfree, hnic⟩ := h.receive (by omega)
  have hreg : tasRegisterAppctx (afterWrite s.nic k) 0 (k + 1) =
      .done { afterWrite s.nic k with
        registered := update (afterWrite s.nic k).registered 0
          ((afterWrite s.nic k).registered 0 ++ [k + 1]) } := by
    unfold tasRegisterAppctx
    have hnew : k + 1 ∉ (afterWrite s.nic k).registered 0 := by
      rw [h.registered_eq]
      simp
      omega
    have hroom : ¬ ((afterWrite s.nic k).registered 0).length ≥ appctxNum := by
      rw [h.registered_eq, length_range']
      omega
    rw [if_neg (by decide), if_neg (by omega), if_neg hnew, if_neg hroom]
  have hadd := h.add_eq (by omega)
  rw [hreg, ← hnic] at hadd
  have hregister := @AppifStep.register 1 s₁ 0 (k + 1) _ 32 256 _ hlive happ rfl hadd
  refine ⟨_, ((ReflTransGen.single hreceive).tail hregister).tail
    (@AppifStep.notify 1 _ 0 (k + 1) _ hlive (apps_setApp_self s₁ 0 _) rfl), hlive, hfree,
    ⟨_, apps_setApp_self _ 0 _⟩, ?_, ?_⟩
  · have hcount := h.count
    rw [← hnic] at hcount
    simp [Appif.setApp, afterWrite, writeAppctx, hcount]
  · have hregd := h.registered
    rw [← hnic] at hregd
    simp [Appif.setApp, afterWrite, writeAppctx, hregd, List.range'_concat, Nat.add_comm]

theorem exists_served (hk : k < appctxNum) :
    ∃ s, ReflTransGen (AppifStep 1) freshAppif s ∧ ServedContexts k s := by
  induction k with
  | zero =>
    obtain ⟨s, hstep, hs⟩ := served_accept
    exact ⟨s, .single hstep, hs⟩
  | succ k ih =>
    obtain ⟨s, hrun, hs⟩ := ih (by omega)
    obtain ⟨s', hrun', hs'⟩ := hs.next hk
    exact ⟨s', hrun.trans hrun', hs'⟩

/-- The context 32 of one application has its slots written behind those of its VM. -/
theorem slot_written_outside :
    ∃ s₀ s : Appif, AppifStart s₀ ∧ ReflTransGen (AppifStep 1) s₀ s ∧
      ∃ w ∈ s.nic.writes, ¬ w.Inside := by
  obtain ⟨s, hrun, hs⟩ := exists_served (by decide : 31 < appctxNum)
  obtain ⟨s₁, contexts, hreceive, hlive, happ, hfree, hnic⟩ := hs.receive (by decide)
  have hadd := hs.add_eq (by decide)
  have hreg : tasRegisterAppctx (afterWrite s.nic 31) 0 (31 + 1) = .abort := by
    unfold tasRegisterAppctx
    rw [if_neg (by decide), if_pos (by decide)]
  rw [hreg, ← hnic] at hadd
  refine ⟨freshAppif, _, freshAppif_start, (hrun.tail hreceive).tail
    (@AppifStep.registerAborted 1 s₁ 0 (31 + 1) _ 32 256 _ hlive happ rfl hadd), ⟨0, 0, 32⟩, ?_, ?_⟩
  · simp [afterWrite, writeAppctx]
  · unfold AppctxWrite.Inside
    decide

/-- The first two contexts of an application. -/
theorem twoContexts_ok : ∃ s, ReflTransGen (AppifStep 1) freshAppif s ∧ ServedContexts 2 s ∧
    s.taken = 2 ∧ ContextsOk s ∧ ∀ w ∈ s.nic.writes, w.Inside := by
  obtain ⟨s, hrun, hs⟩ := exists_served (by decide : 2 < appctxNum)
  have htaken : s.taken = 2 := by
    unfold Appif.taken
    rw [hs.free]
    rfl
  exact ⟨s, hrun, hs, htaken,
    contexts_have_own_slots freshAppif_start hrun (by rw [htaken]; decide)⟩

end Tas
