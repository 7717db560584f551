import Tas.SlowTables
import Tas.Lib.Linked

/-! The lists of connections that congestion control goes through, one for each VM. -/
namespace Tas

open Outcome SlowPath Linked Function List

variable {cfg : SlowCfg} {c d l vm : ℕ} {p : TcpPacket} {s s' : SlowPath} {fuel hd n : ℕ}
  {xs : List ℕ} {next : ℕ → ℕ} {core ls t : U32} {ok room : Bool} {b : ConnBufs} {a : AcceptArgs}
  {fg len : U16} {z : Connection}

/-- The connection is to be in the list of the VM. -/
def Connection.Listed (cfg : SlowCfg) (x : Connection) (vm : ℕ) : Prop :=
  x.live = true ∧ x.ccListed = true ∧ cfg.vmOf x.ctx = vm

/-- The list of each VM, with its cursor, has the connections that are to be in it. -/
def CcLists (cfg : SlowCfg) (s : SlowPath) : Prop :=
  ∀ vm, ∃ xs, Cursored 0 s.ccNexts (s.ccConns vm) (s.nextConn vm) xs ∧
    ∀ c, c ∈ xs ↔ (s.mem c).Listed cfg vm

/-- Whether a connection in this state is in its list, if the state tells. -/
def ConnState.listed : ConnState → Option Bool
  | .synWait | .arpPending | .synSent | .closed => some false
  | .regSynack | .opened => some true
  | _ => none

/-- What the state of a connection says of its list and of the queue it is in. -/
structure ListedOk (x : Connection) : Prop where
  listed : ∀ b, x.status.listed = some b → x.ccListed = b
  comp : x.status = .regSynack → x.compStatus = 0

structure CcInv (cfg : SlowCfg) (s : SlowPath) : Prop where
  lists : CcLists cfg s
  ok : ∀ c, (s.mem c).live = true → ListedOk (s.mem c)
  resolving : ∀ c ∈ s.resolving, (s.mem c).status = .arpPending

/-! ### Changes that leave the lists alone -/

theorem CcLists.congr (h : CcLists cfg s) (hheads : s'.ccConns = s.ccConns)
    (hcursors : s'.nextConn = s.nextConn)
    (hlisted : ∀ c vm, (s'.mem c).Listed cfg vm ↔ (s.mem c).Listed cfg vm)
    (hnext : ∀ c vm, (s.mem c).Listed cfg vm → s'.ccNexts c = s.ccNexts c) : CcLists cfg s' := by
  intro vm
  obtain ⟨xs, hxs, hmem⟩ := h vm
  refine ⟨xs, ?_, fun c => (hmem c).trans (hlisted c vm).symm⟩
  rw [hheads, hcursors]
  exact hxs.congr fun c hc => hnext c vm ((hmem c).1 hc)

theorem CcLists.eq (h : CcLists cfg s) (hheads : s'.ccConns = s.ccConns)
    (hcursors : s'.nextConn = s.nextConn) (hmem : s'.mem = s.mem) : CcLists cfg s' := by
  refine h.congr hheads hcursors (fun c vm => by rw [hmem]) fun c vm _ => ?_
  unfold ccNexts
  rw [hmem]

theorem CcLists.setConn (h : CcLists cfg s)
    (hlisted : ∀ vm, z.Listed cfg vm ↔ (s.mem c).Listed cfg vm)
    (hnext : ∀ vm, (s.mem c).Listed cfg vm → z.ccNext = (s.mem c).ccNext) :
    CcLists cfg (s.setConn c z) :=
  h.congr rfl rfl
    ((forall_update_iff s.mem fun d x => ∀ vm, x.Listed cfg vm ↔ (s.mem d).Listed cfg vm).2
      ⟨hlisted, fun _ _ _ => Iff.rfl⟩)
    ((forall_update_iff s.mem fun d x => ∀ vm, (s.mem d).Listed cfg vm →
      x.ccNext = (s.mem d).ccNext).2 ⟨hnext, fun _ _ _ _ => rfl⟩)

theorem not_listed {x : Connection} (h : x.live = false ∨ x.ccListed = false) (vm : ℕ) :
    ¬ x.Listed cfg vm := by
  rintro ⟨hlive, hlisted, -⟩
  rcases h with h | h
  · simp [h] at hlive
  · simp [h] at hlisted

/-- A connection that is not in a list is replaced by one that is not to be in one. -/
theorem CcLists.setUnlisted (h : CcLists cfg s)
    (hold : (s.mem c).live = false ∨ (s.mem c).ccListed = false)
    (hnew : z.live = false ∨ z.ccListed = false) : CcLists cfg (s.setConn c z) :=
  h.setConn (fun vm => iff_of_false (not_listed hnew vm) (not_listed hold vm))
    fun vm hl => (not_listed hold vm hl).elim

/-- Nothing of the connection changes that the lists depend on. -/
theorem CcLists.setOther (h : CcLists cfg s) (hlive : z.live = (s.mem c).live)
    (hlisted : z.ccListed = (s.mem c).ccListed) (hctx : z.ctx = (s.mem c).ctx)
    (hnext : z.ccNext = (s.mem c).ccNext) : CcLists cfg (s.setConn c z) := by
  refine h.setConn (fun vm => ?_) fun _ _ => hnext
  unfold Connection.Listed
  rw [hlive, hlisted, hctx]

theorem CcInv.congr (h : CcInv cfg s) (hheads : s'.ccConns = s.ccConns)
    (hcursors : s'.nextConn = s.nextConn) (hmem : s'.mem = s.mem)
    (hresolving : s'.resolving = s.resolving) : CcInv cfg s' := by
  refine ⟨h.lists.eq hheads hcursors hmem, ?_, ?_⟩
  · rw [hmem]
    exact h.ok
  · rw [hmem, hresolving]
    exact h.resolving

/-- One connection changes, and it is not one whose address is being resolved. -/
theorem CcInv.touch (h : CcInv cfg s) (hlists : CcLists cfg s')
    (hother : ∀ d, d ≠ c → (s'.mem d).live = (s.mem d).live ∧
      (s'.mem d).ccListed = (s.mem d).ccListed ∧ (s'.mem d).status = (s.mem d).status ∧
      (s'.mem d).compStatus = (s.mem d).compStatus)
    (hself : (s'.mem c).live = true → ListedOk (s'.mem c))
    (hresolving : ∀ d ∈ s'.resolving, d ∈ s.resolving ∧ d ≠ c) : CcInv cfg s' := by
  refine ⟨hlists, fun d hl => ?_, fun d hd => ?_⟩
  · by_cases hdc : d = c
    · subst hdc
      exact hself hl
    · obtain ⟨hlive, hlisted, hstatus, hcomp⟩ := hother d hdc
      have hok := h.ok d (hlive ▸ hl)
      refine ⟨fun b hb => ?_, fun hr => ?_⟩
      · rw [hstatus] at hb
        exact hlisted.trans (hok.listed b hb)
      · rw [hstatus] at hr
        exact hcomp.trans (hok.comp hr)
  · obtain ⟨hres, hdc⟩ := hresolving d hd
    exact (hother d hdc).2.2.1.trans (h.resolving d hres)

/-- All other connections are as before, and those whose address is being resolved are the same. -/
structure OnlyConn (c : ℕ) (s s' : SlowPath) : Prop where
  other : ∀ d, d ≠ c → s'.mem d = s.mem d
  resolving : s'.resolving = s.resolving

theorem OnlyConn.trans {s'' : SlowPath} (h : OnlyConn c s s') (h' : OnlyConn c s' s'') :
    OnlyConn c s s'' :=
  ⟨fun d hd => (h'.other d hd).trans (h.other d hd), h'.resolving.trans h.resolving⟩

theorem onlyConn_setConn : OnlyConn c s (s.setConn c z) :=
  ⟨fun _ hd => mem_setConn_of_ne hd, rfl⟩

theorem onlyConn_ccConnInit : OnlyConn c s (ccConnInit cfg s c) :=
  ⟨fun _ hd => mem_setConn_of_ne hd, rfl⟩

theorem CcInv.only (h : CcInv cfg s) (ho : OnlyConn c s s') (hlists : CcLists cfg s')
    (hself : (s'.mem c).live = true → ListedOk (s'.mem c)) (hc : c ∉ s.resolving) :
    CcInv cfg s' := by
  refine h.touch hlists (fun d hd => ?_) hself fun d hd => ?_
  · rw [ho.other d hd]
    exact ⟨rfl, rfl, rfl, rfl⟩
  · rw [ho.resolving] at hd
    exact ⟨hd, fun he => hc (he ▸ hd)⟩

/-- The same for a change that is one assignment. -/
theorem CcInv.setConn (h : CcInv cfg s) (hlists : CcLists cfg (s.setConn c z))
    (hz : z.live = true → ListedOk z) (hc : c ∉ s.resolving) : CcInv cfg (s.setConn c z) :=
  h.only onlyConn_setConn hlists (by rw [mem_setConn_self]; exact hz) hc

/-! ### The operations on lists -/

theorem ccNexts_setConn (hd : d ≠ c) : (s.setConn c z).ccNexts d = s.ccNexts d :=
  congrArg Connection.ccNext (update_of_ne hd ..)

theorem ccNexts_setOther (hz : z.ccNext = (s.mem c).ccNext) : (s.setConn c z).ccNexts = s.ccNexts :=
  funext ((forall_update_iff s.mem fun d x => x.ccNext = s.ccNexts d).2 ⟨hz, fun _ _ => rfl⟩)

/-- A connection is put in front of its list. -/
theorem ccLists_ccConnInit (h : CcLists cfg s) (hlive : (s.mem c).live = true) (hnull : c ≠ 0)
    (hun : (s.mem c).ccListed = false) : CcLists cfg (ccConnInit cfg s c) := by
  have hself : (ccConnInit cfg s c).ccNexts c = s.ccConns (cfg.vmOf (s.mem c).ctx) :=
    congrArg Connection.ccNext mem_setConn_self
  intro vm
  obtain ⟨xs, hxs, hmem⟩ := h vm
  have hnot : c ∉ xs := fun hc => not_listed (.inr hun) vm ((hmem c).1 hc)
  have hsame : ∀ d ∈ xs, (ccConnInit cfg s c).ccNexts d = s.ccNexts d := fun d hd =>
    ccNexts_setConn fun he => hnot (he ▸ hd)
  change ∃ ys, Cursored 0 _ (update s.ccConns _ c vm) (s.nextConn vm) ys ∧
    ∀ d, d ∈ ys ↔ (update s.mem c _ d).Listed cfg vm
  by_cases hvm : vm = cfg.vmOf (s.mem c).ctx
  · subst hvm
    rw [update_self]
    refine ⟨c :: xs, hxs.push hnull hnot hself hsame, (forall_update_iff s.mem fun d x =>
      d ∈ c :: xs ↔ x.Listed cfg _).2 ⟨?_, fun d hdc => ?_⟩⟩
    · exact iff_of_true mem_cons_self ⟨hlive, rfl, rfl⟩
    · rw [mem_cons, or_iff_right hdc]
      exact hmem d
  · rw [update_of_ne hvm]
    exact ⟨xs, hxs.congr hsame, (forall_update_iff s.mem fun d x => d ∈ xs ↔ x.Listed cfg vm).2
      ⟨iff_of_false hnot fun hl => hvm hl.2.2.symm, fun d _ => hmem d⟩⟩

/-- The search in `cc_conn_remove` ends at the node before the connection. -/
theorem ccPred_ok {mem : ℕ → Connection} {cp : ℕ}
    (hp : Path 0 (fun d => (mem d).ccNext) hd xs) (hok : ccPred mem c fuel hd = .ok cp)
    (hcp : cp ≠ 0) (hc : c ≠ 0) : ∃ as bs, xs = as ++ cp :: c :: bs := by
  induction fuel generalizing hd xs with
  | zero => cases hok
  | succ fuel ih =>
    unfold ccPred at hok
    split_ifs at hok with hstep
    · obtain ⟨ys, rfl, hrest⟩ := hp.exists_cons hstep.1
      obtain ⟨as, bs, rfl⟩ := ih hrest hok
      exact ⟨hd :: as, bs, rfl⟩
    · obtain rfl := Except.ok.inj hok
      obtain ⟨ys, rfl, hrest⟩ := hp.exists_cons hcp
      have hnext : (mem hd).ccNext = c := not_not.1 fun hne => hstep ⟨hcp, hne⟩
      obtain ⟨zs, rfl, -⟩ := hrest.exists_cons (hnext.symm ▸ hc)
      exact ⟨[], zs, by rw [hnext]; rfl⟩

/-- With enough fuel it finds a member that is not the first. -/
theorem ccPred_finds {mem : ℕ → Connection} (hp : Path 0 (fun d => (mem d).ccNext) hd xs)
    (hmem : c ∈ xs) (hfirst : hd ≠ c) (hfuel : xs.length ≤ fuel) :
    ∃ cp, ccPred mem c fuel hd = .ok cp ∧ cp ≠ 0 := by
  induction fuel generalizing hd xs with
  | zero =>
    rw [length_eq_zero_iff.1 (Nat.le_zero.1 hfuel)] at hmem
    cases hmem
  | succ fuel ih =>
    cases xs with
    | nil => cases hmem
    | cons x xs =>
      obtain ⟨rfl, hx, hrest⟩ := hp
      unfold ccPred
      have hmem := (mem_cons.1 hmem).resolve_left (Ne.symm hfirst)
      split_ifs with hstep
      · exact ih hrest hmem hstep.2 (Nat.le_of_succ_le_succ hfuel)
      · exact ⟨hd, rfl, hx⟩

/-- `cc_conn_remove` changes links only. -/
theorem ccConnRemove_mem (hs : ccConnRemove cfg s fuel c = .ok s') (d : ℕ) :
    ∃ n, s'.mem d = { s.mem d with
      ccNext := n
      ccListed := if d = c then false else (s.mem d).ccListed } := by
  have hunlist : ∀ (r : SlowPath) d, (r.ccUnlist c).mem d = { r.mem d with
      ccListed := if d = c then false else (r.mem d).ccListed } := fun r =>
    (forall_update_iff r.mem fun d x => x = { r.mem d with
      ccListed := if d = c then false else (r.mem d).ccListed }).2
      ⟨by rw [if_pos rfl], fun d hd => by rw [if_neg hd]⟩
  obtain ⟨-, rfl⟩ | ⟨-, cp, -, -, rfl⟩ := ccConnRemove_ok hs
  · exact ⟨_, hunlist _ d⟩
  · rw [hunlist]
    by_cases hd : d = cp
    · rw [hd, mem_setConn_self]
      exact ⟨_, rfl⟩
    · rw [mem_setConn_of_ne hd]
      exact ⟨_, rfl⟩

theorem ccConnRemove_fields (hs : ccConnRemove cfg s fuel c = .ok s') :
    s'.table = s.table ∧ s'.listener = s.listener ∧ s'.sent = s.sent ∧ s'.nic = s.nic ∧
      s'.owner = s.owner ∧ s'.resolving = s.resolving := by
  obtain ⟨-, rfl⟩ | ⟨-, cp, -, -, rfl⟩ := ccConnRemove_ok hs <;>
    exact ⟨rfl, rfl, rfl, rfl, rfl, rfl⟩

theorem ccNexts_ccUnlist : (s.ccUnlist c).ccNexts = s.ccNexts := by
  apply ccNexts_setOther
  rfl

/-- The list of one VM loses connection `c`, and only links of its members change. -/
theorem CcLists.remove {xs' : List ℕ} (h : CcLists cfg s)
    (hxs : ∀ d, d ∈ xs ↔ (s.mem d).Listed cfg vm) (hnodup : xs.Nodup) (hperm : xs.Perm (c :: xs'))
    (hlisted : ∀ d v, (s'.mem d).Listed cfg v ↔ d ≠ c ∧ (s.mem d).Listed cfg v)
    (hheads : ∀ v, v ≠ vm → s'.ccConns v = s.ccConns v)
    (hcursors : ∀ v, v ≠ vm → s'.nextConn v = s.nextConn v)
    (hnext : ∀ d, d ∉ xs → s'.ccNexts d = s.ccNexts d)
    (hxs' : Cursored 0 s'.ccNexts (s'.ccConns vm) (s'.nextConn vm) xs') : CcLists cfg s' := by
  intro v
  by_cases hv : v = vm
  · subst hv
    have hnot : c ∉ xs' := (nodup_cons.1 (hperm.nodup_iff.1 hnodup)).1
    refine ⟨xs', hxs', fun d => ?_⟩
    rw [hlisted, ← hxs, hperm.mem_iff, mem_cons]
    constructor
    · exact fun hd => ⟨fun he => hnot (he ▸ hd), .inr hd⟩
    · exact fun hd => hd.2.resolve_left hd.1
  · obtain ⟨ys, hys, hmem⟩ := h v
    have hapart : ∀ d ∈ ys, d ∉ xs := fun d hd hx =>
      hv (((hmem d).1 hd).2.2.symm.trans ((hxs d).1 hx).2.2)
    rw [hheads v hv, hcursors v hv]
    refine ⟨ys, hys.congr fun d hd => hnext d (hapart d hd), fun d => ?_⟩
    rw [hlisted, ← hmem]
    refine (and_iff_right_of_imp fun hd he => ?_).symm
    exact hapart d hd (hperm.mem_iff.2 (he ▸ mem_cons_self))

/-- A connection is taken out of its list. -/
theorem ccLists_ccConnRemove (h : CcLists cfg s) (hlisted : (s.mem c).ccListed = true)
    (hlive : (s.mem c).live = true) (hnull : c ≠ 0)
    (hs : ccConnRemove cfg s fuel c = .ok s') : CcLists cfg s' := by
  have hListed : ∀ d vm, (s'.mem d).Listed cfg vm ↔ d ≠ c ∧ (s.mem d).Listed cfg vm := by
    intro d vm
    obtain ⟨n, hn⟩ := ccConnRemove_mem hs d
    unfold Connection.Listed
    rw [hn]
    by_cases hd : d = c <;> simp [hd]
  set vm₀ := cfg.vmOf (s.mem c).ctx with hvm₀
  obtain ⟨xs, hxs, hmem⟩ := h vm₀
  have hc : c ∈ xs := (hmem c).2 ⟨hlive, hlisted, rfl⟩
  have hcursor : ∀ vm, vm ≠ vm₀ → skipped cfg s c vm = s.nextConn vm := fun vm hvm =>
    update_of_ne hvm ..
  have hcursor₀ : skipped cfg s c vm₀ =
      if s.nextConn vm₀ = c then s.ccNexts c else s.nextConn vm₀ := update_self ..
  obtain ⟨hhead, rfl⟩ | ⟨hhead, cp, hpred, hcp, rfl⟩ := ccConnRemove_ok hs
  · obtain ⟨ys, rfl, -⟩ := hxs.path.exists_cons (hhead.symm ▸ hnull)
    rw [hhead] at hxs hmem
    refine h.remove hmem hxs.nodup (.refl _) hListed (fun v hv => update_of_ne hv ..) hcursor
      (fun d _ => congrFun ccNexts_ccUnlist d) ?_
    rw [ccNexts_ccUnlist]
    change Cursored 0 s.ccNexts (update s.ccConns _ _ _) (skipped cfg s c _) ys
    rw [update_self, hcursor₀]
    exact hxs.pop fun _ _ => rfl
  · obtain ⟨as, bs, rfl⟩ := ccPred_ok hxs.path hpred hcp hnull
    have hnext : ∀ d, d ≠ cp → ({ s with nextConn := skipped cfg s c }.setConn cp
        { s.mem cp with ccNext := s.ccNexts c }).ccNexts d = s.ccNexts d :=
      fun d hd => ccNexts_setConn (s := { s with nextConn := skipped cfg s c }) hd
    have hnextp : ({ s with nextConn := skipped cfg s c }.setConn cp
        { s.mem cp with ccNext := s.ccNexts c }).ccNexts cp = s.ccNexts c := by
      change (SlowPath.mem _ cp).ccNext = _
      rw [mem_setConn_self]
    have hnodup := hxs.nodup
    have hperm : (as ++ cp :: c :: bs).Perm (c :: (as ++ cp :: bs)) := by
      rw [append_cons as cp (c :: bs), append_cons as cp bs]
      exact perm_middle
    refine h.remove hmem hnodup hperm hListed (fun _ _ => rfl) hcursor (fun d hd => ?_) ?_
    · rw [ccNexts_ccUnlist]
      refine hnext d fun he => hd ?_
      simp [he]
    · rw [ccNexts_ccUnlist]
      change Cursored 0 _ (s.ccConns _) (skipped cfg s c _) _
      rw [hcursor₀]
      refine hxs.unlink hnextp fun d hd => hnext d ?_
      rintro rfl
      simp only [nodup_append, nodup_cons] at hnodup
      rcases mem_append.1 hd with hd | hd
      · exact hnodup.2.2 d hd d mem_cons_self rfl
      · exact hnodup.2.1.1 (mem_cons_of_mem _ hd)

/-- `cc_conn_remove` finds a connection that is in its list. -/
theorem ccConnRemove_returns (hxs : Path 0 s.ccNexts (s.ccConns (cfg.vmOf (s.mem c).ctx)) xs)
    (hc : c ∈ xs) (hfuel : xs.length ≤ fuel) : ∃ s', ccConnRemove cfg s fuel c = .ok s' := by
  unfold ccConnRemove
  rw [ccSkip_eq]
  dsimp only
  split_ifs with hhead
  · exact ⟨_, rfl⟩
  · obtain ⟨cp, hpred, hcp⟩ := ccPred_finds hxs hc hhead hfuel
    rw [hpred]
    refine ⟨_, if_neg hcp⟩

/-! ### Going through the lists -/

/-- `cc_next_ts_vm` visits the whole list. -/
theorem ccWalk_path (hp : Path 0 next hd xs)
    (hfuel : xs.length ≤ fuel) : ccWalk next fuel hd = .ok xs := by
  induction xs generalizing hd fuel with
  | nil =>
    obtain rfl : hd = 0 := hp
    cases fuel <;> rfl
  | cons x xs ih =>
    obtain ⟨rfl, hx, hrest⟩ := hp
    cases fuel with
    | zero => exact absurd hfuel (by simp)
    | succ fuel =>
      unfold ccWalk
      rw [if_neg hx, ih hrest (Nat.le_of_succ_le_succ hfuel)]
      rfl

/-- The loop of `cc_poll_vm` stays on the list. -/
theorem ccPollLoop_mem {head first c : ℕ} (hnext : ∀ d ∈ xs, next d = 0 ∨ next d ∈ xs)
    (hhead : head ∈ xs) (hc : c ∈ xs) :
    (∀ d ∈ (ccPollLoop next head first n c).1, d ∈ xs) ∧
      (ccPollLoop next head first n c).2 ∈ xs := by
  induction n generalizing c with
  | zero => exact ⟨nofun, hc⟩
  | succ n ih =>
    have hc' : (if next c ≠ 0 then next c else head) ∈ xs := by
      split_ifs with hz
      · exact (hnext c hc).resolve_left hz
      · exact hhead
    unfold ccPollLoop
    dsimp only
    by_cases hfirst : (if next c ≠ 0 then next c else head) = first
    · rw [if_pos hfirst]
      refine ⟨fun d hd => ?_, hc'⟩
      obtain rfl := mem_singleton.1 hd
      exact hc
    · rw [if_neg hfirst]
      obtain ⟨hvisited, hlast⟩ := ih hc'
      refine ⟨fun d hd => ?_, hlast⟩
      rcases mem_cons.1 hd with rfl | hd
      · exact hc
      · exact hvisited d hd

theorem ccPollVm_mem (hxs : Cursored 0 s.ccNexts (s.ccConns vm) (s.nextConn vm) xs) :
    (∀ d ∈ (ccPollVm s n vm).1, d ∈ xs) ∧
      Cursored 0 s.ccNexts (s.ccConns vm) ((ccPollVm s n vm).2.nextConn vm) xs := by
  unfold ccPollVm
  dsimp only
  by_cases hz : (if s.nextConn vm ≠ 0 then s.nextConn vm else s.ccConns vm) = 0
  · rw [if_pos hz]
    exact ⟨nofun, hxs⟩
  · rw [if_neg hz]
    have hne : xs ≠ [] := by
      rintro rfl
      have hhead : s.ccConns vm = 0 := hxs.path
      have hcursor : s.nextConn vm = 0 := hxs.cursor.resolve_right (by simp)
      exact hz (by simp [hhead, hcursor])
    have hhead : s.ccConns vm ∈ xs := by
      obtain ⟨ys, hys, -⟩ := hxs.path.exists_cons fun he => hne (hxs.path.eq_nil_iff.1 he)
      rw [hys]
      exact mem_cons_self
    have hfirst : (if s.nextConn vm ≠ 0 then s.nextConn vm else s.ccConns vm) ∈ xs := by
      split_ifs with hcur
      · exact hxs.cursor.resolve_left hcur
      · exact hhead
    obtain ⟨hvisited, hlast⟩ := ccPollLoop_mem (n := n)
      (fun d hd => hxs.path.next_mem hd) hhead hfirst
    refine ⟨hvisited, hxs.path, hxs.nodup, .inr ?_⟩
    change update s.nextConn vm _ vm ∈ xs
    rw [update_self]
    exact hlast

/-! ### Operations on one connection -/

/-- `nicif_connection_add` sets the flow id of the connection and nothing else. -/
theorem ccLists_nicAdd (h : CcLists cfg s)
    (hadd : nicAdd cfg s c ls = .ok (s', ok)) : CcLists cfg s' := by
  rcases nicAdd_cases hadd with ⟨-, τ, -, rfl⟩ | ⟨-, τ, f, -, rfl⟩
  · exact h.eq rfl rfl rfl
  · have hset := h.setOther (c := c) (z := { s.mem c with
      flowId := f, installed := some ((s.mem c).args cfg ls) }) rfl rfl rfl rfl
    exact hset.eq rfl rfl rfl

theorem nicAdd_mem (hadd : nicAdd cfg s c ls = .ok (s', ok)) :
    OnlyConn c s s' ∧ ∃ f a, s'.mem c = { s.mem c with flowId := f, installed := a } := by
  rcases nicAdd_cases hadd with ⟨-, τ, -, rfl⟩ | ⟨-, τ, f, -, rfl⟩
  · exact ⟨⟨fun _ _ => rfl, rfl⟩, (s.mem c).flowId, (s.mem c).installed, rfl⟩
  · exact ⟨⟨fun d hd => mem_setConn_of_ne hd, rfl⟩, f, _, mem_setConn_self⟩

/-- A connection is assigned, put into its list and added to the fast path. -/
theorem ccLists_added (h : CcLists cfg s)
    (hlive : (s.mem c).live = true) (hnull : c ≠ 0) (hun : (s.mem c).ccListed = false)
    (hz : z.live = (s.mem c).live ∧ z.ccListed = (s.mem c).ccListed ∧ z.ctx = (s.mem c).ctx ∧
      z.ccNext = (s.mem c).ccNext)
    (hadd : nicAdd cfg (ccConnInit cfg (s.setConn c z) c) c ls = .ok (s', ok)) :
    CcLists cfg s' ∧ OnlyConn c s s' := by
  have hset : CcLists cfg (s.setConn c z) := h.setOther hz.1 hz.2.1 hz.2.2.1 hz.2.2.2
  have hinit : CcLists cfg (ccConnInit cfg (s.setConn c z) c) := by
    refine ccLists_ccConnInit hset ?_ hnull ?_ <;> rw [mem_setConn_self]
    · exact hz.1.trans hlive
    · exact hz.2.1.trans hun
  exact ⟨ccLists_nicAdd hinit hadd,
    (onlyConn_setConn.trans onlyConn_ccConnInit).trans (nicAdd_mem hadd).1⟩

/-! ### Requests -/

theorem listedOk_false {x : Connection} (hlisted : x.ccListed = false)
    (hstatus : x.status.listed = some false) : ListedOk x := by
  refine ⟨fun b hb => ?_, fun hr => ?_⟩
  · rw [hstatus] at hb
    exact hlisted.trans (Option.some.inj hb)
  · rw [hr] at hstatus
    cases hstatus

theorem mem_acceptInit {b : BacklogSlot} : (acceptInit cfg s l c b t).mem c =
    { (s.mem c).acceptSyn cfg (s.listener l).port b t with
      ccNext := s.ccConns (cfg.vmOf (s.mem c).ctx)
      ccRate := cfg.ccRate
      ccListed := true } := by
  unfold acceptInit ccConnInit
  dsimp only
  rw [mem_setConn_self (z := (s.mem c).acceptSyn cfg (s.listener l).port b t)]
  exact mem_setConn_self

/-- The SYN-ACK is taken: the connection is put into its list before it is added to the fast
path. -/
theorem ccLists_establish (h : CcLists cfg s) (hlive : (s.mem c).live = true) (hnull : c ≠ 0)
    (hun : (s.mem c).ccListed = false) (hs : establish cfg s c p t = .ok (s', ok)) :
    CcLists cfg s' ∧ OnlyConn c s s' ∧ (s'.mem c).ccListed = true := by
  obtain ⟨s₁, hadd, rfl⟩ := establish_cases hs
  obtain ⟨hlists, honly⟩ := ccLists_added (z := (s.mem c).synAcked p t) h hlive hnull hun
    ⟨rfl, rfl, rfl, rfl⟩ hadd
  obtain ⟨-, f, a, hmem⟩ := nicAdd_mem hadd
  rw [mem_establishInit] at hmem
  have hlisted : (s₁.mem c).ccListed = true := congrArg Connection.ccListed hmem
  cases ok with
  | false => exact ⟨hlists, honly, hlisted⟩
  | true =>
    have hdone : CcLists cfg (s₁.setConn c { s₁.mem c with status := .opened }) :=
      hlists.setOther rfl rfl rfl rfl
    have honly' := honly.trans (onlyConn_setConn (z := { s₁.mem c with status := .opened }))
    refine ⟨hdone.eq rfl rfl rfl, ⟨honly'.other, honly'.resolving⟩, ?_⟩
    change ((s₁.setConn c { s₁.mem c with status := .opened }).mem c).ccListed = true
    rw [mem_setConn_self]
    exact hlisted

/-- What `tcp_close` does before it removes the connection from its list. -/
theorem disableConn_fields : (disableConn cfg s c).mem = (s.setConn c { s.mem c with
      remoteSeq := (s.nic.flowst (s.mem c).flowId).rxNextSeq
      localSeq := (s.nic.flowst (s.mem c).flowId).txNextSeq }).mem ∧
    (disableConn cfg s c).ccConns = s.ccConns ∧ (disableConn cfg s c).nextConn = s.nextConn ∧
    (disableConn cfg s c).resolving = s.resolving := by
  unfold disableConn
  dsimp only
  split_ifs <;> exact ⟨rfl, rfl, rfl, rfl⟩

section

variable (h : CcInv cfg s)
include h

/-- A new connection is in no list. -/
theorem ccInv_new (hi : s.Ok cfg) (hc : s.fresh c) (hz : z.live = false ∨ z.ccListed = false)
    (hok : z.live = true → ListedOk z) : CcInv cfg (s.setConn c z) := by
  refine h.setConn (h.lists.setUnlisted (.inl hc.2) hz) hok fun hres => ?_
  exact ((hi.placed c).nowhere hc.2).2.2 (mem_append_right _ hres)

theorem ccInv_tcpOpen {o : OpenArgs} {route : Route} (hi : s.Ok cfg)
    (hc : s.fresh c) (hs : tcpOpen cfg s o c b route = .ok s') : CcInv cfg s' := by
  obtain ⟨q, -, rfl⟩ := tcpOpen_ok hs
  set x := (connAlloc cfg b true).openTo cfg o.ctx o.appOpaque o.remoteIp o.remotePort o.dbId q
    with hx
  cases route with
  | failed =>
    have hnew := ccInv_new (z := { x with live := false }) h hi hc (.inl rfl) nofun
    exact hnew.congr rfl rfl rfl rfl
  | done mac =>
    have hnew := ccInv_new (z := { x with remoteMac := mac }.arpDone cfg) h hi hc (.inr rfl)
      fun _ => listedOk_false rfl rfl
    exact hnew.congr rfl rfl (update_idem ..) rfl
  | pending =>
    have hnew := ccInv_new (z := x) h hi hc (.inr rfl) fun _ => listedOk_false rfl rfl
    refine ⟨hnew.lists.eq rfl rfl rfl, hnew.ok, fun d hd => ?_⟩
    rcases mem_cons.1 hd with rfl | hd
    · exact congrArg Connection.status (mem_setConn_self (z := x))
    · exact hnew.resolving d hd

theorem ccInv_tcpListen {ctx : ℕ} {op : U64} {q : U16} {reuse : Bool} :
    CcInv cfg (s.tcpListen ctx op q reuse l) := by
  unfold tcpListen
  dsimp only
  split
  · exact h.congr rfl rfl rfl rfl
  · exact h.congr rfl rfl rfl rfl
  · split_ifs
    · exact h
    · exact h.congr rfl rfl rfl rfl
  · exact h

/-- The connection that takes a SYN has not been given one before, so it is not in its list. -/
theorem ccInv_listenerAccept (hi : s.Ok cfg)
    (hwait : ∀ c ws, (s.listener l).waitConns = c :: ws → (s.mem c).status = .synWait)
    (hs : listenerAccept cfg s l = .ok s') : CcInv cfg s' := by
  obtain ⟨c, ws, b, bs, hw, -, rfl | ⟨t, -, hslot⟩⟩ := listenerAccept_cases hs
  · exact h.congr rfl rfl rfl rfl
  · obtain ⟨s₁, ok, hadd, rfl⟩ := acceptSlot_cases hslot
    have hok := (hi.placed c).wait l (waits_of_head hw)
    have hlive : (s.mem c).live = true := hok.live
    have hun : (s.mem c).ccListed = false :=
      (h.ok c hlive).listed false (by rw [hwait c ws hw]; rfl)
    have hres : c ∉ s.resolving := fun hr =>
      hok.notReg ((hi.placed c).queued (mem_append_right _ hr)).1
    obtain ⟨hlists, honly⟩ := ccLists_added (z := (s.mem c).acceptSyn cfg (s.listener l).port b t)
      h.lists hlive ((hi.placed c).nonnull hlive) hun ⟨rfl, rfl, rfl, rfl⟩ hadd
    obtain ⟨-, f, a, hmem⟩ := nicAdd_mem hadd
    rw [mem_acceptInit] at hmem
    have h₁ : CcInv cfg s₁ := by
      refine h.only honly hlists (fun _ => ?_) hres
      rw [hmem]
      exact ⟨fun b hb => Option.some.inj hb, fun _ => rfl⟩
    cases ok with
    | false => exact h₁.congr rfl rfl rfl rfl
    | true => exact h₁.congr rfl rfl rfl rfl

/-- The connections, other than a new one, that an event may give to `listener_accept`. -/
inductive Accepts (cfg : SlowCfg) (s : SlowPath) : SlowEvent → ℕ → Prop
  | request {a : AcceptArgs} {l c d : ℕ} {ds : List ℕ} {b : ConnBufs}
    (hw : (s.listener l).waitConns = d :: ds) (hb : (s.listener l).backlog.slots ≠ []) :
    Accepts cfg s (.accept a l c b) d
  | syn {p : TcpPacket} {len : U16} {core : U32} {fg : U16} {room : Bool} {l d : ℕ} {ds : List ℕ}
    (hc : connLookup cfg s p = none) (hl : s.listenerLookup p = some l)
    (hw : (s.listener l).waitConns = d :: ds)
    (hsyn : p.flags &&& ~~~(tcpEce ||| tcpCwr) = tcpSyn) :
    Accepts cfg s (.packet p len core fg room) d

omit h in
/-- The connection that takes the first SYN of the backlog is new, or was the first to wait. -/
theorem accept_head {d : ℕ} {ws : List ℕ}
    (hs : listenerAccept cfg (enqueueAccept cfg s a l c b) l = .ok s')
    (hw : ((enqueueAccept cfg s a l c b).listener l).waitConns = d :: ws) :
    d = c ∨ Accepts cfg s (.accept a l c b) d := by
  have hlist : (enqueueAccept cfg s a l c b).listener l = { s.listener l with
      waitConns := (s.listener l).waitConns ++ [c] } := update_self ..
  rw [hlist] at hw
  cases hws : (s.listener l).waitConns with
  | nil =>
    rw [hws] at hw
    exact .inl (List.cons.inj hw).1.symm
  | cons e es =>
    rw [hws] at hw
    obtain rfl := (List.cons.inj hw).1
    refine .inr (.request hws ?_)
    obtain ⟨_, _, _, _, _, hb, _⟩ := listenerAccept_cases hs
    rw [hlist] at hb
    rw [hb]
    simp

omit h in
/-- It has not been given a SYN before. -/
theorem accept_waits (hwait : ∀ d, Accepts cfg s (.accept a l c b) d → (s.mem d).status = .synWait)
    (hs : listenerAccept cfg (enqueueAccept cfg s a l c b) l = .ok s') (d : ℕ) (ws : List ℕ)
    (hw : ((enqueueAccept cfg s a l c b).listener l).waitConns = d :: ws) :
    ((enqueueAccept cfg s a l c b).mem d).status = .synWait := by
  change ((s.setConn c _).mem d).status = .synWait
  by_cases hdc : d = c
  · rw [hdc, mem_setConn_self]
    rfl
  · rw [mem_setConn_of_ne hdc]
    exact hwait d ((accept_head hs hw).resolve_left hdc)

theorem ccInv_tcpAccept (hi : s.Ok cfg) (hl : (s.listener l).live = true)
    (hc : s.fresh c) (hwait : ∀ d, Accepts cfg s (.accept a l c b) d → (s.mem d).status = .synWait)
    (hs : tcpAccept cfg s a l c b = .ok s') : CcInv cfg s' := by
  have hnew := ccInv_new (z := waitConn cfg a b (s.listener l).port) h hi hc (.inr rfl)
    fun _ => listedOk_false rfl rfl
  have hpush : CcInv cfg (enqueueAccept cfg s a l c b) := hnew.congr rfl rfl rfl rfl
  rcases tcpAccept_cases hs with rfl | hs
  · exact hpush
  · exact ccInv_listenerAccept hpush (slowInv_enqueueAccept a b hi hl hc) (accept_waits hwait hs) hs

/-! ### Packets -/

/-- A connection fails that is not in its list, or that is not destroyed. The rest of the step has
touched the connection only. -/
theorem ccInv_connFailed {s₁ : SlowPath} (ho : OnlyConn c s s₁)
    (hlists : CcLists cfg s₁) (hc : c ∉ s.resolving)
    (hroom : room = true → (s₁.mem c).live = false ∨ (s₁.mem c).ccListed = false)
    (hs : connFailed cfg s₁ c room = .ok s') : CcInv cfg s' := by
  obtain ⟨s₂, hu, rfl⟩ := connFailed_ok hs
  obtain ⟨-, rfl⟩ := connUnregister_ok hu
  set z : Connection := { s₁.mem c with
    toArmed := false
    status := .failed
    live := (s₁.mem c).live && !room } with hz
  have hset : CcLists cfg (s₁.setConn c z) := by
    cases room with
    | true => exact hlists.setUnlisted (hroom rfl) (.inl (Bool.and_false _))
    | false => exact hlists.setOther (Bool.and_true _) rfl rfl rfl
  have honly : OnlyConn c s (s₁.setConn c z) := ho.trans onlyConn_setConn
  refine h.only ⟨honly.other, honly.resolving⟩ (hset.eq rfl rfl rfl) (fun _ => ?_) hc
  have hself : (s₁.setConn c z).mem c = z := mem_setConn_self
  change ListedOk ((s₁.setConn c z).mem c)
  rw [hself]
  exact ⟨nofun, nofun⟩

/-- No connection is destroyed that is in its list or was put there in the same step, and
`listener_accept` is not called for a connection for which it has failed before. -/
structure CcSafe (cfg : SlowCfg) (s : SlowPath) (e : SlowEvent) : Prop where
  fails : ∀ c r, ConnFails cfg s e c r → r ≠ .addFailed ∧ r ≠ .synNoTs
  accepts : ∀ c, Accepts cfg s e c → (s.mem c).status = .synWait

theorem ccInv_connPacket {ts : Option U32} (hi : s.Ok cfg)
    (hsafe : CcSafe cfg s (.packet p len core fg room)) (hparse : parseOptions p len = .ok ts)
    (hc : connLookup cfg s p = some c) (hs : connPacket cfg s c p ts core fg room = .ok s') :
    CcInv cfg s' := by
  have hplaced := hi.placed c
  have hreg := hplaced.reg ⟨_, (connLookup_some hc).1⟩
  have hlive : (s.mem c).live = true := hreg.live
  obtain ⟨hsyn, s₁, ok, hpkt, hs'⟩ | ⟨hopen, hflags, rfl, hs'⟩ | ⟨t, -, -, -, rfl⟩ | ⟨-, rfl⟩ |
    rfl := connPacket_cases hs
  · have hres : c ∉ s.resolving := fun hr => nomatch (h.resolving c hr).symm.trans hsyn
    have hun : (s.mem c).ccListed = false := (h.ok c hlive).listed false (by rw [hsyn]; rfl)
    have hfields : CcLists cfg (s.setConn c { s.mem c with fnCore := core, flowGroup := fg }) :=
      h.lists.setOther rfl rfl rfl rfl
    have hself := @mem_setConn_self c s { s.mem c with fnCore := core, flowGroup := fg }
    set s₀ := s.setConn c { s.mem c with fnCore := core, flowGroup := fg } with hs₀
    have hdisarm : CcLists cfg (s₀.setConn c { s₀.mem c with toArmed := false }) :=
      hfields.setOther rfl rfl rfl rfl
    have honly : OnlyConn c s (s₀.setConn c { s₀.mem c with toArmed := false }) :=
      onlyConn_setConn.trans onlyConn_setConn
    have hself' : (s₀.setConn c { s₀.mem c with toArmed := false }).mem c =
        { s.mem c with fnCore := core, flowGroup := fg, toArmed := false } := by
      rw [mem_setConn_self, hself]
    rcases (connSynSentPacket_cases hpkt).2 with ⟨hbad, rfl, rfl⟩ | ⟨hflags, t, rfl, hest⟩
    · refine ccInv_connFailed h honly hdisarm hres (fun _ => .inr ?_) hs'
      rw [hself']
      exact hun
    · obtain ⟨hlists, honly', hlisted⟩ := ccLists_establish hdisarm (by rw [hself']; exact hlive)
        (hplaced.nonnull hlive) (by rw [hself']; exact hun) hest
      have honly := honly.trans honly'
      cases ok with
      | true =>
        obtain rfl := Except.ok.inj hs'
        have hstatus : (s₁.mem c).status = .opened :=
          congrArg ConnCore.status (retouch_synSent hpkt).self
        refine h.only honly hlists (fun _ => ⟨fun b hb => ?_, fun hr => ?_⟩) hres
        · rw [hstatus] at hb
          exact hlisted.trans (Option.some.inj hb)
        · exact nomatch hstatus.symm.trans hr
      | false =>
        refine ccInv_connFailed h honly hlists hres (fun hroom => ?_) hs'
        subst hroom
        rcases synSent_fails hpkt with hbad | ⟨t', ht', hadd⟩
        · rcases hbad with hbad | hbad
          · exact (hbad hflags).elim
          · cases hbad
        · cases ht'
          exact ((hsafe.fails c _ (.addFailed hc hsyn hparse hadd)).1 rfl).elim
  · have hres : c ∉ s.resolving := fun hr => nomatch (h.resolving c hr).symm.trans hopen
    refine ccInv_connFailed h ⟨fun _ _ => rfl, rfl⟩ h.lists hres (fun hroom => ?_) hs'
    subst hroom
    exact ((hsafe.fails c _ (.synNoTs hc hopen hflags hparse)).2 rfl).elim
  all_goals exact h.congr rfl rfl rfl rfl

theorem ccInv_tcpPacket (hi : s.Ok cfg) (hsafe : CcSafe cfg s (.packet p len core fg room))
    (hs : tcpPacket cfg s p len core fg room = .ok s') : CcInv cfg s' := by
  obtain rfl | ⟨ts, rfl⟩ | ⟨c, ts, hparse, hc, hs⟩ | ⟨l, ts, -, hc, hl, hs⟩ := tcpPacket_cases hs
  · exact h
  · exact h.congr rfl rfl rfl rfl
  · exact ccInv_connPacket h hi hsafe hparse hc hs
  · obtain rfl | rfl | ⟨hsyn, -, rfl | hs⟩ := listenerPacket_cases hs
    · exact h
    · exact h.congr rfl rfl rfl rfl
    · exact h.congr rfl rfl rfl rfl
    · have hpush : CcInv cfg (s.pushBacklog l p core fg) := h.congr rfl rfl rfl rfl
      refine ccInv_listenerAccept hpush hi.setBacklog (fun d ws hw => ?_) hs
      change (update s.listener l _ l).waitConns = d :: ws at hw
      rw [update_self] at hw
      exact hsafe.accepts d (.syn hc hl hw hsyn)

/-! ### The queue, closing and timers -/

theorem ccInv_tcpPoll (hi : s.Ok cfg) (hs : tcpPoll cfg s room = .ok s') : CcInv cfg s' := by
  obtain rfl | ⟨c, q, hq, hs⟩ := tcpPoll_cases hs
  · exact h
  obtain ⟨hpop, hnotq, hr, harm⟩ := hi.dequeue hq
  have hlive : (s.mem c).live = true := ((hi.placed c).reg hr).live
  have hres : c ∉ s.resolving := fun hr => hnotq (mem_append_right _ hr)
  have h' : CcInv cfg { s with asyncQ := q } := h.congr rfl rfl rfl rfl
  have hok := h.ok c hlive
  obtain ⟨harp, -, -, rfl⟩ | ⟨hreg, -, rfl⟩ | ⟨hstatus, hcomp, hs⟩ | rfl := hs
  · have hun : (s.mem c).ccListed = false := hok.listed false (by rw [harp]; rfl)
    have hset := h'.setConn (z := (s.mem c).arpDone cfg)
      (h'.lists.setUnlisted (.inr hun) (.inr hun)) (fun _ => listedOk_false hun rfl) hres
    exact hset.congr rfl rfl rfl rfl
  · have hlisted : (s.mem c).ccListed = true := hok.listed true (by rw [hreg]; rfl)
    have hset := h'.setConn (c := c) (z := { s.mem c with status := .opened })
      (h'.lists.setOther rfl rfl rfl rfl)
      (fun _ => ⟨fun b hb => hlisted.trans (Option.some.inj hb), fun hr => by cases hr⟩) hres
    exact hset.congr rfl rfl rfl rfl
  · refine ccInv_connFailed h' ⟨fun _ _ => rfl, rfl⟩ h'.lists hres (fun _ => .inr ?_) hs
    rcases hstatus with harp | hreg
    · exact hok.listed false (by rw [harp]; rfl)
    · exact (hcomp (hok.comp hreg)).elim
  · exact h'

theorem ccInv_resolved {mac : U64} {status : ℤ} (hi : s.Ok cfg)
    (hc : c ∈ s.resolving) : CcInv cfg (s.resolved c mac status) := by
  have harp := h.resolving c hc
  have hlive : (s.mem c).live = true :=
    ((hi.placed c).reg ((hi.placed c).queued (mem_append_right _ hc)).1).live
  have hun : (s.mem c).ccListed = false := (h.ok c hlive).listed false (by rw [harp]; rfl)
  have hset : CcLists cfg (s.setConn c { s.mem c with remoteMac := mac, compStatus := status }) :=
    h.lists.setOther rfl rfl rfl rfl
  have hself : (s.resolved c mac status).mem c = _ := mem_setConn_self
  have hother : ∀ d, d ≠ c → (s.resolved c mac status).mem d = s.mem d := fun d hd =>
    mem_setConn_of_ne hd
  refine h.touch (c := c) (hset.eq rfl rfl rfl) (fun d hd => ?_) (fun _ => ?_) fun d hd => ?_
  · rw [hother d hd]
    exact ⟨rfl, rfl, rfl, rfl⟩
  · rw [hself]
    exact listedOk_false hun (by rw [harp]; rfl)
  · have hnodup : s.resolving.Nodup := (nodup_append.1 hi.tables.queue).2.1
    have hd := (hnodup.mem_erase_iff).1 hd
    exact ⟨hd.2, hd.1⟩

theorem ccInv_tcpClose (hi : s.Ok cfg)
    (hl : (s.mem c).live = true) (hs : tcpClose cfg s fuel c = .ok s') : CcInv cfg s' := by
  obtain rfl | ⟨ho, s₁, hremove, rfl⟩ := tcpClose_cases hs
  · exact h
  have hlisted : (s.mem c).ccListed = true := (h.ok c hl).listed true (by rw [ho]; rfl)
  have hres : c ∉ s.resolving := fun hr => nomatch (h.resolving c hr).symm.trans ho
  set z : Connection := { s.mem c with
    remoteSeq := (s.nic.flowst (s.mem c).flowId).rxNextSeq
    localSeq := (s.nic.flowst (s.mem c).flowId).txNextSeq } with hz
  have hdis : (disableConn cfg s c).mem = (s.setConn c z).mem ∧ _ := disableConn_fields
  have hset : CcLists cfg (s.setConn c z) := h.lists.setOther rfl rfl rfl rfl
  have hself : (disableConn cfg s c).mem c = z := by rw [hdis.1, mem_setConn_self]
  have hlists := ccLists_ccConnRemove (hset.eq hdis.2.1 hdis.2.2.1 hdis.1)
    (by rw [hself]; exact hlisted) (by rw [hself]; exact hl) ((hi.placed c).nonnull hl) hremove
  obtain ⟨-, -, -, -, -, hresolving⟩ := ccConnRemove_fields hremove
  have hun : (s₁.mem c).ccListed = false := by
    obtain ⟨n, hn⟩ := ccConnRemove_mem hremove c
    rw [hn]
    exact if_pos rfl
  refine h.touch (c := c) (hlists.setUnlisted (.inr hun) (.inr hun)) (fun d hd => ?_) (fun _ => ?_)
    fun d hd => ?_
  · obtain ⟨n, hn⟩ := ccConnRemove_mem hremove d
    rw [mem_setConn_of_ne hd, hn, hdis.1, mem_setConn_of_ne hd]
    exact ⟨rfl, if_neg hd, rfl, rfl⟩
  · rw [mem_setConn_self]
    exact listedOk_false hun rfl
  · change d ∈ s₁.resolving at hd
    rw [hresolving, hdis.2.2.2] at hd
    exact ⟨hd, fun he => hres (he ▸ hd)⟩

theorem ccInv_connCloseTimeout (hc : c ∉ s.resolving)
    (hun : (s.mem c).ccListed = false) (hs : connCloseTimeout cfg s c = .ok s') : CcInv cfg s' := by
  obtain ⟨s₁, hu, rfl⟩ := connCloseTimeout_ok hs
  obtain ⟨-, rfl⟩ := connUnregister_ok hu
  have hset := h.setConn (z := { s.mem c with live := false })
    (h.lists.setUnlisted (.inr hun) (.inl rfl)) nofun hc
  rcases freePort_cases (s := { s with table := _ }) (p := (s.mem c).localPort) with he | ⟨-, he⟩
  all_goals
    rw [he]
    exact hset.congr rfl rfl rfl rfl

theorem ccInv_tcpTimeout (hi : s.Ok cfg)
    (hl : (s.mem c).live = true) (hs : tcpTimeout cfg s c room = .ok s') : CcInv cfg s' := by
  have hplaced := hi.placed c
  obtain ⟨harm, hs⟩ := tcpTimeout_cases hs
  have hres : c ∉ s.resolving := fun hr =>
    hplaced.armed_notQueued harm (mem_append_right _ hr)
  have hstatus := (hplaced.armed hl harm).2
  have hunlisted : (s.mem c).status.listed = some false := by
    rcases hstatus with ⟨hst, -⟩ | ⟨hst, -⟩
    · rw [show (s.mem c).status = .synSent from hst]
      rfl
    · rw [show (s.mem c).status = .closed from hst]
      rfl
  have hun : (s.mem c).ccListed = false := (h.ok c hl).listed false hunlisted
  have hset : ∀ z : Connection, z.ccListed = (s.mem c).ccListed → z.status = (s.mem c).status →
      CcInv cfg (s.setConn c z) := by
    intro z hz hst
    refine h.setConn (h.lists.setUnlisted (.inr hun) (.inr (hz.trans hun))) (fun _ => ?_) hres
    exact listedOk_false (hz.trans hun) (by rw [hst]; exact hunlisted)
  obtain ⟨-, hs⟩ | ⟨-, -, -, hs⟩ | ⟨-, -, rfl⟩ := hs
  · refine ccInv_connCloseTimeout (hset (s.mem c).disarmed rfl rfl) hres ?_ hs
    rw [mem_setConn_self]
    exact hun
  · refine ccInv_connFailed h onlyConn_setConn (hset (s.mem c).attempted rfl rfl).lists hres
      (fun _ => .inr ?_) hs
    rw [mem_setConn_self]
    exact hun
  · exact (hset (s.mem c).rearmed rfl rfl).congr rfl rfl rfl rfl

theorem ccInv_ccPoll : CcInv cfg (ccPollVm s n vm).2 := by
  have hmem := (@ccPollVm_tables s n vm).2
  have hkeep : (ccPollVm s n vm).2.ccConns = s.ccConns ∧
      (ccPollVm s n vm).2.resolving = s.resolving ∧
      ∀ v, v ≠ vm → (ccPollVm s n vm).2.nextConn v = s.nextConn v := by
    unfold ccPollVm
    dsimp only
    by_cases hz : (if s.nextConn vm ≠ 0 then s.nextConn vm else s.ccConns vm) = 0
    · rw [if_pos hz]
      exact ⟨rfl, rfl, fun _ _ => rfl⟩
    · rw [if_neg hz]
      exact ⟨rfl, rfl, fun v hv => update_of_ne hv ..⟩
  have hnext : (ccPollVm s n vm).2.ccNexts = s.ccNexts := by
    unfold ccNexts
    rw [hmem]
  refine ⟨fun v => ?_, by rw [hmem]; exact h.ok, by rw [hmem, hkeep.2.1]; exact h.resolving⟩
  obtain ⟨xs, hxs, hlisted⟩ := h.lists v
  rw [hnext, hkeep.1, hmem]
  refine ⟨xs, ?_, hlisted⟩
  by_cases hv : v = vm
  · subst hv
    exact (ccPollVm_mem hxs).2
  · rw [hkeep.2.2 v hv]
    exact hxs

/-! ### Runs -/

theorem ccInv_step {e : SlowEvent} (hi : s.Ok cfg)
    (hsafe : CcSafe cfg s e) (hs : SlowStep cfg s e s') : CcInv cfg s' := by
  obtain ⟨hen, hs⟩ := hs
  cases e with
  | «open» o c b route => exact ccInv_tcpOpen h hi hen hs
  | listen ctx op q reuse l =>
    cases hs
    exact ccInv_tcpListen h
  | accept a l c b => exact ccInv_tcpAccept h hi hen.1 hen.2 hsafe.accepts hs
  | packet p len core fg room => exact ccInv_tcpPacket h hi hsafe hs
  | resolved c mac status =>
    cases hs
    exact ccInv_resolved h hi hen
  | poll room => exact ccInv_tcpPoll h hi hs
  | close fuel c => exact ccInv_tcpClose h hi hen hs
  | timeout c room => exact ccInv_tcpTimeout h hi hen hs
  | ccPoll n vm =>
    cases hs
    exact ccInv_ccPoll h
  | fast f fs =>
    cases hs
    exact h.congr rfl rfl rfl rfl

end

theorem ccInv_start (h : SlowStart s) : CcInv cfg s := by
  refine ⟨fun vm => ⟨[], ?_, fun c => ?_⟩, fun c hl => ?_, fun c hc => ?_⟩
  · rw [h.ccConns vm, h.nextConn vm]
    exact cursored_empty
  · exact iff_of_false (by simp) (not_listed (.inl (h.mem c)) vm)
  · exact nomatch (h.mem c).symm.trans hl
  · rw [h.resolving] at hc
    cases hc

theorem ccInv_run {s₀ : SlowPath} (h₀ : SlowStart s₀) (h : SlowRun cfg (CcSafe cfg) s₀ s) :
    CcInv cfg s :=
  h.invariant h₀ (ccInv_start h₀) fun _ _ _ ih hi hsafe hs => ccInv_step ih hi hsafe hs

/-- The list of a VM is finite and without repetition, has exactly the connections that were put
there and not removed, and is safe to go through and to remove from. -/
structure CcListOk (cfg : SlowCfg) (s : SlowPath) (vm : ℕ) (xs : List ℕ) : Prop where
  path : Path 0 s.ccNexts (s.ccConns vm) xs
  nodup : xs.Nodup
  members : ∀ c, c ∈ xs ↔
    (s.mem c).live = true ∧ (s.mem c).ccListed = true ∧ cfg.vmOf (s.mem c).ctx = vm
  cursor : s.nextConn vm = 0 ∨ s.nextConn vm ∈ xs
  /-- `cc_next_ts` terminates. -/
  walk : ∀ fuel, xs.length ≤ fuel → ccWalk s.ccNexts fuel (s.ccConns vm) = .ok xs
  /-- `cc_poll_vm` visits members only. -/
  visits : ∀ n, ∀ c ∈ (ccPollVm s n vm).1, c ∈ xs
  /-- `tcp_close` finds its connection in the list. -/
  removes : ∀ c fuel, (s.mem c).live = true → (s.mem c).status = .opened →
    cfg.vmOf (s.mem c).ctx = vm → xs.length ≤ fuel →
    ∃ s', ccConnRemove cfg (disableConn cfg s c) fuel c = .ok s'

theorem CcInv.listOk (h : CcInv cfg s) (vm : ℕ) : ∃ xs, CcListOk cfg s vm xs := by
  obtain ⟨xs, hxs, hmem⟩ := h.lists vm
  refine ⟨xs, hxs.path, hxs.nodup, hmem, hxs.cursor, fun fuel hf => ccWalk_path hxs.path hf,
    fun n => (ccPollVm_mem hxs).1, fun c fuel hl ho hvm hf => ?_⟩
  have hlisted : (s.mem c).ccListed = true := (h.ok c hl).listed true (by rw [ho]; rfl)
  obtain ⟨hdis, hheads, -⟩ := @disableConn_fields cfg c s
  have hnext : (disableConn cfg s c).ccNexts = s.ccNexts :=
    (congrArg (fun m d => (m d).ccNext) hdis).trans (by apply ccNexts_setOther; rfl)
  have hctx : cfg.vmOf ((disableConn cfg s c).mem c).ctx = vm := by
    rw [hdis, mem_setConn_self]
    exact hvm
  have hpath : Path 0 (disableConn cfg s c).ccNexts
      ((disableConn cfg s c).ccConns (cfg.vmOf ((disableConn cfg s c).mem c).ctx)) xs := by
    rw [hctx, hnext, hheads]
    exact hxs.path
  exact ccConnRemove_returns hpath ((hmem c).2 ⟨hl, hlisted, hvm⟩) hf

/-- In every run in which no connection is destroyed while it is in its list, and none is taken by
`listener_accept` twice, the lists of congestion control are sound. -/
theorem cc_lists_are_sound {s₀ s : SlowPath} (h₀ : SlowStart s₀)
    (h : SlowRun cfg (CcSafe cfg) s₀ s) (vm : ℕ) : ∃ xs, CcListOk cfg s vm xs :=
  (ccInv_run h₀ h).listOk vm

/-- A SYN is in the backlog of a listener. -/
def synQueued : SlowPath :=
  (idleSlow.after plainCfg (.listen 0 0 80 false 21)).after plainCfg
    (.packet (controlPkt tcpSyn 1 80 true) 66 0 0 true)

/-- It is accepted, and the connection open. -/
def acceptedOpen : SlowPath :=
  (synQueued.after plainCfg (.accept ⟨0, 0, 0⟩ 21 11 noBufs)).after plainCfg (.poll true)

/-- The SYN comes again, without a timestamp. -/
def acceptedFailed : SlowPath :=
  acceptedOpen.after plainCfg (.packet (controlPkt tcpSyn 1 80 false) 66 0 0 true)

theorem slowRun_acceptedOpen {P : SlowPath → SlowEvent → Prop}
    (hlisten : P idleSlow (.listen 0 0 80 false 21))
    (hsyn : P (idleSlow.after plainCfg (.listen 0 0 80 false 21))
      (.packet (controlPkt tcpSyn 1 80 true) 66 0 0 true))
    (haccept : P synQueued (.accept ⟨0, 0, 0⟩ 21 11 noBufs))
    (hpoll : P (synQueued.after plainCfg (.accept ⟨0, 0, 0⟩ 21 11 noBufs)) (.poll true)) :
    SlowRun plainCfg P idleSlow acceptedOpen :=
  (((slowRun_refl.after hlisten (by decide +kernel)).after hsyn (by decide +kernel)).after haccept
    (by decide +kernel)).after hpoll (by decide +kernel)

/-- The connection is freed, and is the first of its list. -/
theorem syn_without_timestamp_frees_listed :
    ∃ s₀ s, SlowStart s₀ ∧ SlowRun plainCfg (fun _ _ => True) s₀ s ∧ s.ccConns 0 = 11 ∧
      (s.mem 11).live = false ∧ ¬ ∃ xs, CcListOk plainCfg s 0 xs := by
  have hfailed : SlowRun plainCfg (fun _ _ => True) idleSlow acceptedFailed :=
    (slowRun_acceptedOpen trivial trivial trivial trivial).after
      (e := .packet (controlPkt tcpSyn 1 80 false) 66 0 0 true) trivial (by decide +kernel)
  have hhead : acceptedFailed.ccConns 0 = 11 := by decide +kernel
  have hdead : (acceptedFailed.mem 11).live = false := by decide +kernel
  refine ⟨idleSlow, acceptedFailed, slowStart_idle, hfailed, hhead, hdead, fun ⟨xs, hxs⟩ => ?_⟩
  have hpath := hxs.path
  rw [hhead] at hpath
  obtain ⟨ys, rfl, -⟩ := hpath.exists_cons (by decide)
  have hlive := ((hxs.members 11).1 mem_cons_self).1
  rw [hdead] at hlive
  cases hlive

theorem ccSafe_syn : CcSafe plainCfg (idleSlow.after plainCfg (.listen 0 0 80 false 21))
    (.packet (controlPkt tcpSyn 1 80 true) 66 0 0 true) := by
  refine ⟨fun c r hf => ?_, fun c ha => ?_⟩
  · cases hf with
    | notSynAck hlookup => cases hlookup
    | addFailed hlookup => cases hlookup
    | synNoTs hlookup => cases hlookup
  · cases ha with
    | syn hc hl hw hsyn =>
      cases hl
      cases hw

theorem ccSafe_accept : CcSafe plainCfg synQueued (.accept ⟨0, 0, 0⟩ 21 11 noBufs) := by
  have hnone : (synQueued.listener 21).waitConns = [] := by decide +kernel
  refine ⟨nofun, fun c ha => ?_⟩
  cases ha with
  | request hw hb =>
    rw [hnone] at hw
    cases hw

theorem ccSafe_poll {room : Bool} : CcSafe cfg s (.poll room) := by
  refine ⟨fun c r hf => ?_, nofun⟩
  cases hf with
  | unresolved => exact ⟨nofun, nofun⟩

theorem acceptedOpen_ccListOk :
    SlowRun plainCfg (CcSafe plainCfg) idleSlow acceptedOpen ∧ acceptedOpen.ccConns 0 = 11 ∧
      ∃ xs, CcListOk plainCfg acceptedOpen 0 xs := by
  have hrun : SlowRun plainCfg (CcSafe plainCfg) idleSlow acceptedOpen :=
    slowRun_acceptedOpen ⟨nofun, nofun⟩ ccSafe_syn ccSafe_accept ccSafe_poll
  exact ⟨hrun, by decide +kernel, cc_lists_are_sound slowStart_idle hrun 0⟩

end Tas
