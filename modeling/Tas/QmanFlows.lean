import Tas.Qman
import Tas.Lib.Linked
import Tas.Lib.Layers

/-! The lists of one VM's flows: the intrusive list without rate limit and the levels of the skip
list hold exactly the flagged flows, whatever the timestamps are. -/
namespace Tas

open Outcome Linked Layers Function List

variable {m m' : FlowQman} {nl : List U32} {lv A B : ℕ → List U32} {s s' : VmCtx} {fuel l k n : ℕ}
  {idx f pred : U32} {le : U32 → Bool} {as bs : List U32} {preds : ℕ → U32} {ss : List U32}
  {level : ℕ} {q : FlowQueue} {g : FlowQueue → FlowQueue}

/-- An index of the array of flow queues. -/
def IsFlow (f : U32) : Prop := f.toNat < flexnicNumQmflowqueues

instance : DecidablePred IsFlow := fun _ => inferInstanceAs (Decidable (_ < _))

theorem IsFlow.ne_inval (h : IsFlow f) : f ≠ idxlistInval := by
  rintro rfl
  exact absurd h (by decide)

/-- A flow's entry without its links. -/
def FlowQueue.unlinked (q : FlowQueue) : FlowQueue := { q with nextIdxs := fun _ => 0 }

/-- Two entries that differ in their links and flags at most. -/
structure FlowQueue.SameParams (q q' : FlowQueue) : Prop where
  nextTs : q.nextTs = q'.nextTs
  rate : q.rate = q'.rate
  avail : q.avail = q'.avail
  maxChunk : q.maxChunk = q'.maxChunk

theorem FlowQueue.SameParams.trans {q q' q'' : FlowQueue} (h : q.SameParams q')
    (h' : q'.SameParams q'') : q.SameParams q'' :=
  ⟨h.nextTs.trans h'.nextTs, h.rate.trans h'.rate, h.avail.trans h'.avail,
    h.maxChunk.trans h'.maxChunk⟩

/-- Two entries that differ in their links at most. -/
structure FlowQueue.Same (q q' : FlowQueue) : Prop extends FlowQueue.SameParams q q' where
  inSkiplist : q.inSkiplist = q'.inSkiplist
  inNolimitl : q.inNolimitl = q'.inNolimitl

theorem FlowQueue.same {q q' : FlowQueue} (h : q.unlinked = q'.unlinked) : q.Same q' := by
  cases q
  cases q'
  obtain ⟨-, h₁, h₂, h₃, h₄, h₅, h₆⟩ := FlowQueue.mk.inj h
  exact ⟨⟨h₁, h₂, h₃, h₄⟩, h₅, h₆⟩

/-- The list without rate limit is `nl`, level `l` of the skip list is `lv l`, and the flags tell
which flows are in them. -/
structure FlowQman.Lists (m : FlowQman) (nl : List U32) (lv : ℕ → List U32) : Prop where
  nolimit : Fifo idxlistInval (m.next 0) m.nolimitHeadIdx m.nolimitTailIdx nl
  level : ∀ l < qmanSkiplistLevels, Path idxlistInval (m.next l) (m.headIdx l) (lv l)
  layered : ∀ l, List.Sublist (lv (l + 1)) (lv l)
  top : lv qmanSkiplistLevels = []
  nodup : (lv 0).Nodup
  mem_nolimit : ∀ f, f ∈ nl ↔ (m.queues f).inNolimitl
  mem_skiplist : ∀ f, f ∈ lv 0 ↔ (m.queues f).inSkiplist
  apart : ∀ f, ¬ ((m.queues f).inNolimitl ∧ (m.queues f).inSkiplist)
  flows : ∀ f, (m.queues f).inNolimitl ∨ (m.queues f).inSkiplist → IsFlow f

section

variable (h : m.Lists nl lv)
include h

theorem FlowQman.Lists.sublist (l : ℕ) : List.Sublist (lv l) (lv 0) := by
  induction l with
  | zero => exact List.Sublist.refl _
  | succ l ih => exact (h.layered l).trans ih

theorem FlowQman.Lists.level_nodup (l : ℕ) : (lv l).Nodup :=
  h.nodup.sublist (h.sublist l)

theorem FlowQman.Lists.isFlow (hf : f ∈ lv l) : IsFlow f :=
  h.flows f (Or.inr ((h.mem_skiplist f).1 ((h.sublist l).subset hf)))

theorem FlowQman.Lists.not_mem_nolimit (hnl : (m.queues f).inNolimitl = false) :
    f ∉ nl := fun hmem =>
  nomatch hnl.symm.trans ((h.mem_nolimit f).1 hmem)

theorem FlowQman.Lists.not_mem_level (hsk : (m.queues f).inSkiplist = false) (l : ℕ) :
    f ∉ lv l := fun hmem =>
  nomatch hsk.symm.trans ((h.mem_skiplist f).1 ((h.sublist l).subset hmem))

omit h in
theorem length_le_of_lt {xs : List U32} (hnodup : xs.Nodup) (hlt : ∀ x ∈ xs, x.toNat < n) :
    xs.length ≤ n := by
  have hmap : (xs.map BitVec.toNat).Nodup := hnodup.map fun a b hab => BitVec.eq_of_toNat_eq hab
  have hsub : (xs.map BitVec.toNat).toFinset ⊆ Finset.range n := by
    intro y hy
    obtain ⟨x, hx, rfl⟩ := mem_map.1 (mem_toFinset.1 hy)
    exact Finset.mem_range.2 (hlt x hx)
  have hcard := Finset.card_le_card hsub
  rwa [toFinset_card_of_nodup hmap, length_map, Finset.card_range] at hcard

theorem FlowQman.Lists.level_length (l : ℕ) : (lv l).length ≤ flexnicNumQmflowqueues :=
  length_le_of_lt (h.level_nodup l) fun _ hf => h.isFlow hf

theorem FlowQman.Lists.nolimit_length : nl.length ≤ flexnicNumQmflowqueues :=
  length_le_of_lt h.nolimit.nodup fun f hf => h.flows f (Or.inl ((h.mem_nolimit f).1 hf))

/-! ### The search for predecessors -/

omit h in
/-- The last node passed, or `pred` if there is none. -/
theorem skipWalk_spec {i : U32} (hpath : Path idxlistInval (m.next l) i ss) :
    Meets (ss.length < fuel) (fun p => p = (ss.takeWhile le).getLast?.getD pred)
      (skipWalk m le l fuel pred i) := by
  induction fuel generalizing pred i ss with
  | zero => exact Nat.not_lt_zero _
  | succ fuel ih =>
    unfold skipWalk
    by_cases hgo : i ≠ idxlistInval ∧ le i
    · rw [if_pos hgo]
      obtain ⟨ws, rfl, hrest⟩ := hpath.exists_cons hgo.1
      refine (ih hrest).mono (by simp) fun p hp => ?_
      rw [hp, takeWhile_cons_of_pos hgo.2]
      cases hlast : (ws.takeWhile le).getLast? <;> simp [List.getLast?_cons, hlast]
    · rw [if_neg hgo]
      refine meets_ok ?_
      cases ss with
      | nil => rfl
      | cons x ws =>
        obtain ⟨rfl, hne, -⟩ := hpath
        rw [takeWhile_cons_of_neg fun hle => hgo ⟨hne, hle⟩]
        rfl

/-- The search stops on each level `k` between `A k` and `B k`, which extend the cut of the level
above, and `preds k` is the last node of `A k`. -/
structure Descent (le : U32 → Bool) (lv A B : ℕ → List U32) (preds : ℕ → U32) (k : ℕ) : Prop where
  cut : Cut le (lv k) (A k) (B k)
  before : List.Sublist (A (k + 1)) (A k)
  behind : List.Sublist (B (k + 1)) (B k)
  pred : preds k = (A k).getLast?.getD idxlistInval

/-- The walk on a level starts in the right place. -/
theorem FlowQman.Lists.start_path (hl : l < qmanSkiplistLevels)
    {cs : List U32} (hsplit : lv l = cs ++ ss) (hnone : as = [] → cs = [])
    (hsome : ∀ a, as.getLast? = some a → ss.head? = some a ∧ ss.takeWhile le ≠ [])
    (hpred : pred = as.getLast?.getD idxlistInval) :
    Path idxlistInval (m.next l) (if pred ≠ idxlistInval then pred else m.headIdx l) ss := by
  have hpath := h.level l hl
  rw [hsplit] at hpath
  cases hlast : as.getLast? with
  | none =>
    rw [hlast] at hpred
    rw [if_neg (by simpa using hpred)]
    rw [hnone (List.getLast?_eq_none_iff.1 hlast)] at hpath
    exact hpath
  | some a =>
    rw [hlast] at hpred
    obtain ⟨hhead, -⟩ := hsome a hlast
    obtain ⟨ws, rfl⟩ : ∃ ws, ss = a :: ws := by
      cases ss with
      | nil => simp at hhead
      | cons x ws => exact ⟨ws, by simpa using hhead⟩
    have hright := hpath.right
    have hpa : pred = a := hpred
    subst hpa
    rwa [if_pos hright.2.1]

theorem skipPreds_spec (hl : l ≤ qmanSkiplistLevels) (hcut : Cut le (lv l) as bs)
    (hpred : pred = as.getLast?.getD idxlistInval) :
    Meets (flexnicNumQmflowqueues < fuel)
      (fun preds => ∃ A B : ℕ → List U32, A l = as ∧ B l = bs ∧ ∀ k < l, Descent le lv A B preds k)
      (skipPreds fuel m le l pred) := by
  induction l generalizing as bs pred with
  | zero => exact meets_ok ⟨fun _ => as, fun _ => bs, rfl, rfl, by simp⟩
  | succ l ih =>
    obtain ⟨cs, ss, hsplit, hnone, hsome, hcut', has, hbs⟩ :=
      hcut.descend (h.layered l) (h.level_nodup l)
    have hlen : ss.length ≤ flexnicNumQmflowqueues := by
      have := h.level_length l
      rw [hsplit, length_append] at this
      omega
    unfold skipPreds
    refine Meets.bind
      ((skipWalk_spec (h.start_path hl hsplit hnone hsome hpred)).mono (by omega) fun _ => id) ?_
    intro p hp
    -- the node found is the last one before the cut
    have hlast : p = (cs ++ ss.takeWhile le).getLast?.getD idxlistInval := by
      by_cases hempty : ss.takeWhile le = []
      · have has_nil : as = [] := by
          by_contra hne
          obtain ⟨a, ha⟩ := Option.ne_none_iff_exists'.1 (List.getLast?_eq_none_iff.not.2 hne)
          exact (hsome a ha).2 hempty
        rw [hp, hpred, has_nil, hnone has_nil, hempty]
        rfl
      · rw [hp, List.getLast?_append_of_ne_nil _ hempty]
        cases hlast : (ss.takeWhile le).getLast? with
        | none => exact (hempty (List.getLast?_eq_none_iff.1 hlast)).elim
        | some a => rfl
    refine Meets.bind (ih (by omega) hcut' hlast) ?_
    rintro preds ⟨A, B, hA, hB, hdesc⟩
    refine meets_ok ⟨update A (l + 1) as, update B (l + 1) bs, by simp, by simp,
      fun k hk => ?_⟩
    by_cases hkl : k = l
    · subst hkl
      refine ⟨?_, ?_, ?_, ?_⟩
      · simpa [hA, hB] using hcut'
      · simpa [hA] using has
      · simpa [hB] using hbs
      · simpa [hA] using hlast
    · have hd := hdesc k (by omega)
      have h₁ : k ≠ l + 1 := by omega
      have h₂ : k + 1 ≠ l + 1 := by omega
      refine ⟨?_, ?_, ?_, ?_⟩
      · simpa [h₁] using hd.cut
      · simpa [h₁, hkl] using hd.before
      · simpa [h₁, hkl] using hd.behind
      · simpa [h₁, hkl] using hd.pred

end

/-! ### Linking and unlinking -/

theorem next_setNext (i : U32) (v : U32) : (m.setNext i l v).next l = update (m.next l) i v := by
  funext j
  by_cases hj : j = i <;> simp [FlowQman.setNext, FlowQman.next, FlowQman.modify, hj]

theorem next_setNext_of_ne {i v : U32} (h : k ≠ l) :
    (m.setNext i l v).next k = m.next k :=
  funext ((forall_update_iff m.queues fun j q => q.nextIdxs k = m.next k j).2
    ⟨update_of_ne h .., fun _ _ => rfl⟩)

theorem unlinked_setNext (i f : U32) (v : U32) :
    ((m.setNext i l v).queues f).unlinked = (m.queues f).unlinked := by
  by_cases hf : f = i <;> simp [FlowQman.setNext, FlowQman.modify, FlowQueue.unlinked, hf]

/-- The level `k` after an insertion. -/
def inserted (level : ℕ) (idx : U32) (lv A B : ℕ → List U32) (k : ℕ) : List U32 :=
  if k ≤ level then A k ++ idx :: B k else lv k

theorem skipLink_next_of_ne (h : k ≠ l) :
    (skipLink idx preds level m l).next k = m.next k ∧
      (skipLink idx preds level m l).headIdx k = m.headIdx k := by
  unfold skipLink
  by_cases hl : l > level
  · rw [if_pos hl]
    exact ⟨next_setNext_of_ne h, rfl⟩
  · rw [if_neg hl]
    by_cases hp : preds l ≠ idxlistInval
    · rw [if_pos hp, next_setNext_of_ne h, next_setNext_of_ne h]
      exact ⟨rfl, rfl⟩
    · rw [if_neg hp]
      exact ⟨next_setNext_of_ne h, by simp [h]⟩

theorem inserted_of_le (h : k ≤ level) : inserted level idx lv A B k = A k ++ idx :: B k :=
  if_pos h

theorem inserted_of_lt (h : level < k) : inserted level idx lv A B k = lv k :=
  if_neg (Nat.not_le.2 h)

/-- Links of other nodes than the flow and its predecessor stay. -/
theorem skipLink_next_other (hidx : f ≠ idx) (hpred : f ≠ preds l ∨ preds l = idxlistInval) :
    (skipLink idx preds level m l).next l f = m.next l f := by
  unfold skipLink
  by_cases hl : l > level
  · rw [if_pos hl, next_setNext]
    simp [hidx]
  · rw [if_neg hl]
    by_cases hp : preds l ≠ idxlistInval
    · rw [if_pos hp, next_setNext, next_setNext]
      simp [hidx, hpred.resolve_right hp]
    · rw [if_neg hp]
      change (m.setNext idx l (m.headIdx l)).next l f = _
      rw [next_setNext]
      simp [hidx]

theorem skipLink_unlinked :
    ((skipLink idx preds level m l).queues f).unlinked = (m.queues f).unlinked := by
  unfold skipLink
  split_ifs
  · exact unlinked_setNext ..
  · rw [unlinked_setNext, unlinked_setNext]
  · exact unlinked_setNext ..

theorem skipLink_nolimit (idx : U32) (preds : ℕ → U32) (level : ℕ) (m : FlowQman) (l : ℕ) :
    (skipLink idx preds level m l).nolimitHeadIdx = m.nolimitHeadIdx ∧
      (skipLink idx preds level m l).nolimitTailIdx = m.nolimitTailIdx ∧
      (skipLink idx preds level m l).nolimitFirst = m.nolimitFirst := by
  unfold skipLink
  split_ifs <;> exact ⟨rfl, rfl, rfl⟩

/-- One level: the flow comes to stand in the cut, or the level stays. -/
theorem skipLink_path (hpath : Path idxlistInval (m.next l) (m.headIdx l) (lv l))
    (hd : Descent le lv A B preds l) (hnodup : (lv l).Nodup) (hidx : idx ≠ idxlistInval)
    (hnew : idx ∉ lv l) :
    Path idxlistInval ((skipLink idx preds level m l).next l)
      ((skipLink idx preds level m l).headIdx l) (inserted level idx lv A B l) := by
  unfold skipLink
  by_cases hl : l > level
  · rw [inserted_of_lt hl, if_pos hl, next_setNext]
    refine hpath.congr fun x hx => ?_
    have hne : x ≠ idx := by rintro rfl; exact hnew hx
    simp [hne]
  · rw [inserted_of_le (by omega), if_neg hl]
    have heq := hd.cut.eq
    rw [heq] at hpath hnodup hnew
    obtain hA | ⟨as, p, hA⟩ := eq_nil_or_concat' (A l)
    · have hp : preds l = idxlistInval := by rw [hd.pred, hA]; rfl
      rw [if_neg (by simpa using hp), hA]
      rw [hA] at hpath hnew
      change Path _ ((m.setNext idx l (m.headIdx l)).next l) (update m.headIdx l idx l) _
      rw [next_setNext, update_self]
      refine hpath.push_front hidx (by simp) fun x hx => ?_
      have hne : x ≠ idx := by rintro rfl; exact hnew hx
      simp [hne]
    · have hp : preds l = p := by rw [hd.pred, hA]; simp
      rw [hA] at hpath hnodup hnew
      have happ : (as ++ [p]) ++ B l = as ++ p :: B l := by simp
      rw [happ] at hpath hnodup hnew
      have hpne : p ≠ idxlistInval := hpath.ne_nil p (by simp)
      have hpidx : p ≠ idx := by rintro rfl; exact hnew (by simp)
      rw [hp, if_pos hpne, hA, next_setNext, next_setNext]
      have hins : Path idxlistInval
          (update (update (m.next l) idx (m.next l p)) p idx) (m.headIdx l)
          (as ++ p :: idx :: B l) := by
        refine hpath.insert hidx (by simp [hpidx.symm]) (by simp) fun x hx => ?_
        have hxidx : x ≠ idx := by
          rintro rfl
          exact hnew (by simp only [mem_append, mem_cons] at hx ⊢; tauto)
        have hxp : x ≠ p := by
          rintro rfl
          have hmid := nodup_middle.1 hnodup
          exact (nodup_cons.1 hmid).1 hx
        simp [hxidx, hxp]
      have hassoc : as ++ [p] ++ idx :: B l = as ++ p :: idx :: B l := by simp
      rw [hassoc]
      exact hins

theorem skipLinks_unlinked (idx : U32) (preds : ℕ → U32) (level n : ℕ) (m : FlowQman) (f : U32) :
    ((skipLinks idx preds level n m).queues f).unlinked = (m.queues f).unlinked := by
  induction n generalizing m with
  | zero => rfl
  | succ n ih => exact (ih _).trans skipLink_unlinked

theorem skipLinks_nolimit (idx : U32) (preds : ℕ → U32) (level n : ℕ) (m : FlowQman) :
    (skipLinks idx preds level n m).nolimitHeadIdx = m.nolimitHeadIdx ∧
      (skipLinks idx preds level n m).nolimitTailIdx = m.nolimitTailIdx ∧
      (skipLinks idx preds level n m).nolimitFirst = m.nolimitFirst := by
  induction n generalizing m with
  | zero => exact ⟨rfl, rfl, rfl⟩
  | succ n ih =>
    obtain ⟨hhead, htail, hfirst⟩ := skipLink_nolimit idx preds level m n
    obtain ⟨hhead', htail', hfirst'⟩ := ih (skipLink idx preds level m n)
    exact ⟨hhead'.trans hhead, htail'.trans htail, hfirst'.trans hfirst⟩

/-- Links of flows outside of the skip list stay. -/
theorem skipLinks_next_other (hdesc : ∀ k < n, Descent le lv A B preds k) (hidx : f ≠ idx)
    (hf : ∀ k < n, f ∉ lv k) : (skipLinks idx preds level n m).next k f = m.next k f := by
  induction n generalizing m with
  | zero => rfl
  | succ n ih =>
    unfold skipLinks
    rw [ih (fun k hk => hdesc k (by omega)) fun k hk => hf k (by omega)]
    by_cases hk : k = n
    · subst hk
      refine skipLink_next_other hidx ?_
      have hd := hdesc k (by omega)
      cases hlast : (A k).getLast? with
      | none => exact Or.inr (by rw [hd.pred, hlast]; rfl)
      | some p =>
        refine Or.inl ?_
        rintro rfl
        have hp : preds k = p := by rw [hd.pred, hlast]; rfl
        refine hf k (by omega) ?_
        rw [hd.cut.eq, hp]
        exact mem_append_left _ (mem_of_getLast? hlast)
    · rw [(skipLink_next_of_ne hk).1]

/-- All levels: those from `n` on are done. -/
theorem skipLinks_path (hpath : ∀ k < qmanSkiplistLevels, Path idxlistInval (m.next k) (m.headIdx k)
      (if k < n then lv k else inserted level idx lv A B k)) (hn : n ≤ qmanSkiplistLevels)
    (hdesc : ∀ k < qmanSkiplistLevels, Descent le lv A B preds k) (hnodup : ∀ k, (lv k).Nodup)
    (hidx : idx ≠ idxlistInval) (hnew : ∀ k, idx ∉ lv k) :
    ∀ k < qmanSkiplistLevels, Path idxlistInval ((skipLinks idx preds level n m).next k)
      ((skipLinks idx preds level n m).headIdx k) (inserted level idx lv A B k) := by
  induction n generalizing m with
  | zero =>
    intro k hk
    have hdone := hpath k hk
    rw [if_neg (Nat.not_lt_zero k)] at hdone
    exact hdone
  | succ n ih =>
    refine ih (fun k hk => ?_) (by omega)
    by_cases hkn : k = n
    · subst hkn
      rw [if_neg (lt_irrefl k)]
      have hold := hpath k hk
      rw [if_pos (Nat.lt_succ_self k)] at hold
      exact skipLink_path hold (hdesc k hk) (hnodup k) hidx (hnew k)
    · rw [(skipLink_next_of_ne hkn).1, (skipLink_next_of_ne hkn).2]
      have hiff : k < n + 1 ↔ k < n := by omega
      simpa [hiff] using hpath k hk

/-- The levels after an insertion are layered as those before. -/
theorem inserted_layered (hlayered : ∀ l, List.Sublist (lv (l + 1)) (lv l))
    (hdesc : ∀ k < qmanSkiplistLevels, Descent le lv A B preds k)
    (hlevel : level < qmanSkiplistLevels) (k : ℕ) :
    List.Sublist (inserted level idx lv A B (k + 1)) (inserted level idx lv A B k) := by
  obtain hlt | heq | hgt := lt_trichotomy k level
  · rw [inserted_of_le (by omega), inserted_of_le (by omega)]
    have hd := hdesc k (by omega)
    exact hd.before.append (hd.behind.cons_cons idx)
  · rw [inserted_of_lt (by omega), inserted_of_le (by omega)]
    have hsub := hlayered k
    rw [(hdesc k (by omega)).cut.eq] at hsub
    exact hsub.trans ((List.Sublist.refl _).append (sublist_cons_self _ _))
  · rw [inserted_of_lt (by omega), inserted_of_lt hgt]
    exact hlayered k

theorem flowQueueLevel_lt (x : U32) : flowQueueLevel x < qmanSkiplistLevels := by
  simp only [flowQueueLevel]
  split
  · assumption
  · decide

/-! ### Activation -/

theorem queues_modify_self (i : U32) : (m.modify i g).queues i = g (m.queues i) := by
  simp [FlowQman.modify]

theorem queues_modify_of_ne (h : f ≠ idx) :
    (m.modify idx g).queues f = m.queues f := by
  simp [FlowQman.modify, h]

/-- A change of an entry that keeps its links. -/
theorem next_modify (m : FlowQman) (i : U32) (g : FlowQueue → FlowQueue)
    (hg : (g (m.queues i)).nextIdxs = (m.queues i).nextIdxs) (l : ℕ) :
    (m.modify i g).next l = m.next l :=
  funext ((forall_update_iff m.queues fun j q => q.nextIdxs l = m.next l j).2
    ⟨congrFun hg l, fun _ _ => rfl⟩)

/-- A flow's entry changed, and the others kept everything but their links. -/
structure FlowChanged (m m' : FlowQman) (idx : U32) (q : FlowQueue) : Prop where
  self : (m'.queues idx).unlinked = q.unlinked
  others : ∀ f ≠ idx, (m'.queues f).unlinked = (m.queues f).unlinked
  first : m'.nolimitFirst = m.nolimitFirst

theorem FlowChanged.same (hc : FlowChanged m m' idx q) :
    ∀ f, (m'.queues f).Same (update m.queues idx q f) :=
  (forall_update_iff m.queues fun f x => (m'.queues f).Same x).2
    ⟨FlowQueue.same hc.self, fun f hf => FlowQueue.same (hc.others f hf)⟩

/-- If the flow's entry changed in links and flags only, so did all. -/
theorem FlowChanged.params (hc : FlowChanged m m' idx q)
    (hq : q.SameParams (m.queues idx)) (f : U32) : (m'.queues f).SameParams (m.queues f) :=
  (hc.same f).toSameParams.trans ((forall_update_iff m.queues
    fun f x => x.SameParams (m.queues f)).2 ⟨hq, fun _ _ => ⟨rfl, rfl, rfl, rfl⟩⟩ f)

/-- Lists after a flow entered or left one of them: the paths are given, and the flags follow from
the change. -/
theorem FlowQman.Lists.of_changed {nl' : List U32}
    {lv' : ℕ → List U32} (h : m.Lists nl lv) (hc : FlowChanged m m' idx q) (hflow : IsFlow idx)
    (hfifo : Fifo idxlistInval (m'.next 0) m'.nolimitHeadIdx m'.nolimitTailIdx nl')
    (hlevel : ∀ l < qmanSkiplistLevels, Path idxlistInval (m'.next l) (m'.headIdx l) (lv' l))
    (hlayered : ∀ l, List.Sublist (lv' (l + 1)) (lv' l)) (htop : lv' qmanSkiplistLevels = [])
    (hnodup : (lv' 0).Nodup)
    (hnl : (idx ∈ nl' ↔ q.inNolimitl = true) ∧ ∀ f ≠ idx, (f ∈ nl' ↔ f ∈ nl))
    (hsk : (idx ∈ lv' 0 ↔ q.inSkiplist = true) ∧ ∀ f ≠ idx, (f ∈ lv' 0 ↔ f ∈ lv 0))
    (hapart : ¬ (q.inNolimitl ∧ q.inSkiplist)) : m'.Lists nl' lv' := by
  have hn : ∀ f, (m'.queues f).inNolimitl = (update m.queues idx q f).inNolimitl := fun f =>
    (hc.same f).inNolimitl
  have hs : ∀ f, (m'.queues f).inSkiplist = (update m.queues idx q f).inSkiplist := fun f =>
    (hc.same f).inSkiplist
  refine ⟨hfifo, hlevel, hlayered, htop, hnodup, ?_, ?_, ?_, ?_⟩ <;> simp only [hn, hs]
  · exact (forall_update_iff m.queues fun f x => f ∈ nl' ↔ x.inNolimitl = true).2
      ⟨hnl.1, fun f hf => (hnl.2 f hf).trans (h.mem_nolimit f)⟩
  · exact (forall_update_iff m.queues fun f x => f ∈ lv' 0 ↔ x.inSkiplist = true).2
      ⟨hsk.1, fun f hf => (hsk.2 f hf).trans (h.mem_skiplist f)⟩
  · exact (forall_update_iff m.queues fun _ x => ¬ (x.inNolimitl ∧ x.inSkiplist)).2
      ⟨hapart, fun f _ => h.apart f⟩
  · exact (forall_update_iff m.queues fun f x => x.inNolimitl ∨ x.inSkiplist → IsFlow f).2
      ⟨fun _ => hflow, fun f _ => h.flows f⟩

/-- Lists in which no flow enters or leaves. -/
theorem FlowQman.Lists.congr (h : m.Lists nl lv)
    (hfifo : Fifo idxlistInval (m'.next 0) m'.nolimitHeadIdx m'.nolimitTailIdx nl)
    (hlevel : ∀ l < qmanSkiplistLevels, Path idxlistInval (m'.next l) (m'.headIdx l) (lv l))
    (hflags : ∀ f, (m'.queues f).inNolimitl = (m.queues f).inNolimitl ∧
      (m'.queues f).inSkiplist = (m.queues f).inSkiplist) : m'.Lists nl lv := by
  refine ⟨hfifo, hlevel, h.layered, h.top, h.nodup, fun f => ?_, fun f => ?_, fun f => ?_,
    fun f => ?_⟩ <;> simp only [(hflags f).1, (hflags f).2]
  · exact h.mem_nolimit f
  · exact h.mem_skiplist f
  · exact h.apart f
  · exact h.flows f

/-- The flow was linked into the skip list, on the levels up to its own, where the search
stopped. -/
structure SkipInserted (s s' : VmCtx) (idx : U32) (nl : List U32) (lv A B : ℕ → List U32) :
    Prop where
  cut : ∀ l < qmanSkiplistLevels,
    Cut (fun i => timestampLessthaneq s.vq (s'.flow i).nextTs (reasonableTs s.vq (s.flow idx)))
      (lv l) (A l) (B l)
  lists : s'.vq.fqman.Lists nl (inserted (flowQueueLevel (s.rng 0)) idx lv A B)
  self : (s'.flow idx).unlinked = { (s.flow idx).unlinked with
    nextTs := reasonableTs s.vq (s.flow idx)
    inSkiplist := true }
  others : ∀ f ≠ idx, (s'.flow f).unlinked = (s.flow f).unlinked
  outer : s'.vq = { s.vq with fqman := s'.vq.fqman }
  first : s'.vq.fqman.nolimitFirst = s.vq.fqman.nolimitFirst
  rng : s'.rng = fun n => s.rng (n + 1)
  trace : s'.trace = s.trace ++
    [.insert idx (reasonableTs s.vq (s.flow idx)) (flowQueueLevel (s.rng 0))]

/-- The lists only see the links and the flags. -/
theorem FlowQman.Lists.modify (h : m.Lists nl lv)
    (hnext : (g (m.queues idx)).nextIdxs = (m.queues idx).nextIdxs)
    (hnl : (g (m.queues idx)).inNolimitl = (m.queues idx).inNolimitl)
    (hsk : (g (m.queues idx)).inSkiplist = (m.queues idx).inSkiplist) :
    (m.modify idx g).Lists nl lv := by
  refine h.congr ?_ (fun l hl => ?_) ((forall_update_iff m.queues fun f x =>
    x.inNolimitl = (m.queues f).inNolimitl ∧ x.inSkiplist = (m.queues f).inSkiplist).2
      ⟨⟨hnl, hsk⟩, fun _ _ => ⟨rfl, rfl⟩⟩)
  · rw [next_modify _ _ _ hnext]
    exact h.nolimit
  · rw [next_modify _ _ _ hnext]
    exact h.level l hl

/-- The lists after the insertion. -/
theorem FlowQman.Lists.skipLinks (h : m.Lists nl lv) (hflow : IsFlow idx)
    (hnl : (m.queues idx).inNolimitl = false) (hsk : (m.queues idx).inSkiplist = false)
    (hdesc : ∀ k < qmanSkiplistLevels, Descent le lv A B preds k)
    (hlevel : level < qmanSkiplistLevels) :
    ((skipLinks idx preds level qmanSkiplistLevels m).modify idx
      fun q => { q with inSkiplist := true }).Lists nl (inserted level idx lv A B) ∧
    FlowChanged m ((skipLinks idx preds level qmanSkiplistLevels m).modify idx
      fun q => { q with inSkiplist := true }) idx { m.queues idx with inSkiplist := true } := by
  have hnew := h.not_mem_level hsk
  have hnotnl := h.not_mem_nolimit hnl
  have hun := skipLinks_unlinked idx preds level qmanSkiplistLevels m
  obtain ⟨hhead, htail, hfirst⟩ := skipLinks_nolimit idx preds level qmanSkiplistLevels m
  have heq := (hdesc 0 (by decide)).cut.eq
  set m' := Tas.skipLinks idx preds level qmanSkiplistLevels m with hm'
  have hchanged : FlowChanged m (m'.modify idx fun q => { q with inSkiplist := true }) idx
      { m.queues idx with inSkiplist := true } := by
    refine ⟨?_, fun f hf => ?_, hfirst⟩
    · rw [queues_modify_self]
      calc FlowQueue.unlinked { m'.queues idx with inSkiplist := true }
          = { (m'.queues idx).unlinked with inSkiplist := true } := rfl
        _ = _ := by rw [hun]; rfl
    · rw [queues_modify_of_ne hf, hun]
  refine ⟨?_, hchanged⟩
  refine h.of_changed hchanged hflow ?_ ?_ (inserted_layered h.layered hdesc hlevel) ?_ ?_ ?_ ?_
    (by simp [hnl])
  · rw [next_modify m' idx _ rfl]
    change Fifo _ _ m'.nolimitHeadIdx m'.nolimitTailIdx nl
    rw [hhead, htail]
    refine h.nolimit.congr fun x hx => ?_
    refine skipLinks_next_other hdesc (by rintro rfl; exact hnotnl hx) fun k _ hk => ?_
    exact h.apart x ⟨(h.mem_nolimit x).1 hx, (h.mem_skiplist x).1 ((h.sublist k).subset hk)⟩
  · intro l hl
    rw [next_modify m' idx _ rfl]
    refine skipLinks_path (fun k hk => ?_) le_rfl hdesc h.level_nodup hflow.ne_inval hnew l hl
    rw [if_pos hk]
    exact h.level k hk
  · rw [inserted_of_lt hlevel]
    exact h.top
  · rw [inserted_of_le (Nat.zero_le _), nodup_middle, nodup_cons, ← heq]
    exact ⟨hnew 0, h.nodup⟩
  · exact ⟨by simp [hnl, hnotnl], fun _ _ => Iff.rfl⟩
  · rw [inserted_of_le (Nat.zero_le _), heq]
    exact ⟨by simp, fun f hf => by simp [hf]⟩

theorem flowQueueActivateSkiplist_spec (h : s.vq.fqman.Lists nl lv) (hflow : IsFlow idx)
    (hnl : (s.flow idx).inNolimitl = false) (hsk : (s.flow idx).inSkiplist = false) :
    Meets (flexnicNumQmflowqueues < fuel) (fun s' => ∃ A B, SkipInserted s s' idx nl lv A B)
      (flowQueueActivateSkiplist fuel s idx) := by
  unfold flowQueueActivateSkiplist
  rw [if_neg (by simp [hnl, hsk])]
  set m := s.vq.fqman.modify idx fun q => { q with nextTs := reasonableTs s.vq (s.flow idx) }
    with hmdef
  have hm : m.Lists nl lv := by
    rw [hmdef]
    exact h.modify rfl rfl rfl
  have hself : m.queues idx = { s.flow idx with nextTs := reasonableTs s.vq (s.flow idx) } :=
    queues_modify_self ..
  have hcut : Cut (fun i => timestampLessthaneq s.vq (m.queues i).nextTs
      (reasonableTs s.vq (s.flow idx))) (lv qmanSkiplistLevels) [] [] := by
    rw [h.top]
    exact cut_nil
  refine Meets.bind (skipPreds_spec hm le_rfl hcut rfl) ?_
  rintro preds ⟨A, B, -, -, hdesc⟩
  obtain ⟨hlists, hchanged⟩ := hm.skipLinks hflow (by rw [hself]; exact hnl)
    (by rw [hself]; exact hsk) hdesc (flowQueueLevel_lt (s.rng 0))
  set m' := (skipLinks idx preds (flowQueueLevel (s.rng 0)) qmanSkiplistLevels m).modify idx
    fun q => { q with inSkiplist := true } with hm'
  have hts : ∀ i, (m'.queues i).nextTs = (m.queues i).nextTs := fun i =>
    (hchanged.params ⟨rfl, rfl, rfl, rfl⟩ i).nextTs
  refine meets_ok ⟨A, B, ?_, hlists, ?_, ?_, rfl, hchanged.first, rfl, rfl⟩
  · intro l hl
    have hle : (fun i => timestampLessthaneq s.vq (m'.queues i).nextTs
        (reasonableTs s.vq (s.flow idx))) = fun i => timestampLessthaneq s.vq (m.queues i).nextTs
        (reasonableTs s.vq (s.flow idx)) := by
      funext i
      rw [hts]
    have hcut := (hdesc l hl).cut
    rw [← hle] at hcut
    exact hcut
  · have hidx := hchanged.self
    rw [hself] at hidx
    exact hidx
  · intro f hf
    have hmf : m.queues f = s.flow f := queues_modify_of_ne hf
    exact (hchanged.others f hf).trans (congrArg FlowQueue.unlinked hmf)

theorem flowQueueActivateNolimit_spec (h : m.Lists nl lv) (hflow : IsFlow idx)
    (hnl : (m.queues idx).inNolimitl = false) (hsk : (m.queues idx).inSkiplist = false) :
    ∃ m', flowQueueActivateNolimit m idx = .ok m' ∧ m'.Lists (nl ++ [idx]) lv ∧
      FlowChanged m m' idx { m.queues idx with inNolimitl := true } := by
  have hnew := h.not_mem_nolimit hnl
  have hnotlv := h.not_mem_level hsk
  have hmem : (idx ∈ nl ++ [idx] ↔ true = true) ∧ ∀ f ≠ idx, (f ∈ nl ++ [idx] ↔ f ∈ nl) :=
    ⟨by simp, fun f hf => by simp [hf]⟩
  have hmemsk : (idx ∈ lv 0 ↔ (m.queues idx).inSkiplist = true) ∧
      ∀ f ≠ idx, (f ∈ lv 0 ↔ f ∈ lv 0) := ⟨h.mem_skiplist idx, fun _ _ => Iff.rfl⟩
  unfold flowQueueActivateNolimit
  rw [if_neg (by simp [hnl, hsk])]
  set g : FlowQueue → FlowQueue := fun q => { q with inNolimitl := true } with hg
  set m₁ := (m.modify idx g).setNext idx 0 idxlistInval with hm₁
  have hnext : m₁.next 0 = update (m.next 0) idx idxlistInval := by
    rw [hm₁, next_setNext, next_modify _ _ _ rfl]
  have hother : ∀ l, l ≠ 0 → m₁.next l = m.next l := fun l hl => by
    rw [hm₁, next_setNext_of_ne hl, next_modify _ _ _ rfl]
  have hchanged : FlowChanged m m₁ idx { m.queues idx with inNolimitl := true } := by
    refine ⟨?_, fun f hf => ?_, rfl⟩
    · rw [hm₁, unlinked_setNext, queues_modify_self]
    · rw [hm₁, unlinked_setNext, queues_modify_of_ne hf]
  have hlevels : ∀ l < qmanSkiplistLevels, Path idxlistInval (m₁.next l) (m₁.headIdx l) (lv l) := by
    intro l hl
    refine (h.level l hl).congr fun x hx => ?_
    have hne : x ≠ idx := by rintro rfl; exact hnotlv l hx
    by_cases hl0 : l = 0
    · subst hl0
      rw [hnext]
      simp [hne]
    · rw [hother l hl0]
  by_cases htail : m₁.nolimitTailIdx = idxlistInval
  · rw [if_pos htail]
    have hempty : nl = [] := h.nolimit.tail_eq_nil_iff.1 htail
    refine ⟨_, rfl, ?_, ⟨hchanged.self, hchanged.others, hchanged.first⟩⟩
    refine h.of_changed ⟨hchanged.self, hchanged.others, hchanged.first⟩ hflow ?_ hlevels
      h.layered h.top h.nodup hmem hmemsk (by simp [hsk])
    rw [hempty]
    refine Fifo.push_empty hflow.ne_inval ?_
    change m₁.next 0 idx = _
    rw [hnext]
    simp
  · rw [if_neg htail]
    have htail' : m.nolimitTailIdx ≠ idxlistInval := htail
    have htmem : m.nolimitTailIdx ∈ nl := h.nolimit.tail_mem htail'
    have htidx : m.nolimitTailIdx ≠ idx := fun he => hnew (he ▸ htmem)
    have hchanged' : FlowChanged m { m₁.setNext m₁.nolimitTailIdx 0 idx with nolimitTailIdx := idx }
        idx { m.queues idx with inNolimitl := true } := by
      refine ⟨?_, fun f hf => ?_, rfl⟩
      · exact (unlinked_setNext ..).trans hchanged.self
      · exact (unlinked_setNext ..).trans (hchanged.others f hf)
    refine ⟨_, rfl, ?_, hchanged'⟩
    refine h.of_changed hchanged' hflow ?_ ?_ h.layered h.top h.nodup hmem hmemsk (by simp [hsk])
    · have hn : (m₁.setNext m₁.nolimitTailIdx 0 idx).next 0 =
          update (update (m.next 0) idx idxlistInval) m.nolimitTailIdx idx := by
        rw [next_setNext, hnext]
        rfl
      change Fifo idxlistInval ((m₁.setNext m₁.nolimitTailIdx 0 idx).next 0) m.nolimitHeadIdx idx _
      rw [hn]
      refine h.nolimit.push htail' hflow.ne_inval hnew (by simp [htidx.symm]) (by simp)
        fun x hx hxt => ?_
      have hxidx : x ≠ idx := by rintro rfl; exact hnew hx
      simp [hxt, hxidx]
    · intro l hl
      refine (hlevels l hl).congr fun x hx => ?_
      change (m₁.setNext m₁.nolimitTailIdx 0 idx).next l x = _
      by_cases hl0 : l = 0
      · subst hl0
        rw [next_setNext]
        have hxt : x ≠ m₁.nolimitTailIdx := by
          rintro rfl
          exact h.apart _ ⟨(h.mem_nolimit _).1 htmem, (h.mem_skiplist _).1 hx⟩
        simp [hxt]
      · rw [next_setNext_of_ne hl0]

/-! ### Taking flows off the lists -/

theorem FlowChanged.of_modify (hq : m'.queues = (m.modify idx g).queues)
    (hfirst : m'.nolimitFirst = m.nolimitFirst) : FlowChanged m m' idx (g (m.queues idx)) := by
  refine ⟨?_, fun f hf => ?_, hfirst⟩
  · rw [hq, queues_modify_self]
  · rw [hq, queues_modify_of_ne hf]

theorem next_of_modify (hq : m'.queues = (m.modify idx g).queues)
    (hg : (g (m.queues idx)).nextIdxs = (m.queues idx).nextIdxs) (l : ℕ) :
    m'.next l = m.next l := by
  rw [← next_modify m idx g hg l]
  unfold FlowQman.next
  rw [hq]

theorem nolimitPop_spec (h : m.Lists nl lv) (hne : m.nolimitHeadIdx ≠ idxlistInval) :
    ∃ rest, nl = m.nolimitHeadIdx :: rest ∧ (nolimitPop m).Lists rest lv ∧
      FlowChanged m (nolimitPop m) m.nolimitHeadIdx
        { m.queues m.nolimitHeadIdx with inNolimitl := false } := by
  obtain ⟨rest, rfl, -⟩ := h.nolimit.path.exists_cons hne
  have hflag := (h.mem_nolimit m.nolimitHeadIdx).1 (by simp)
  have hq : (nolimitPop m).queues =
      (m.modify m.nolimitHeadIdx fun q => { q with inNolimitl := false }).queues := rfl
  have hchanged := FlowChanged.of_modify hq rfl
  have hnext := next_of_modify hq rfl
  refine ⟨rest, rfl, ?_, hchanged⟩
  refine h.of_changed hchanged (h.flows _ (Or.inl hflag)) ?_ ?_ h.layered h.top h.nodup ?_ ?_
    (by simp)
  · rw [hnext]
    exact h.nolimit.pop
  · intro l hl
    rw [hnext]
    exact h.level l hl
  · have hnot := (nodup_cons.1 h.nolimit.nodup).1
    exact ⟨by simp [hnot], fun f hf => by simp [hf]⟩
  · exact ⟨h.mem_skiplist _, fun _ _ => Iff.rfl⟩

/-- If the levels without `idx` as head come last, it is taken off all the others. -/
theorem skipUnlink_eq {head : ℕ → U32}
    (hmono : ∀ k, l ≤ k → k + 1 < l + n → head k ≠ idx → head (k + 1) ≠ idx) :
    skipUnlink q idx n l head k =
      if l ≤ k ∧ k < l + n ∧ head k = idx then q.nextIdxs k else head k := by
  induction n generalizing l head with
  | zero =>
    rw [if_neg (by omega)]
    rfl
  | succ n ih =>
    unfold skipUnlink
    by_cases hl : head l = idx
    · rw [if_pos hl, ih]
      · by_cases hk : k = l
        · subst hk
          simp [hl]
        · rw [update_of_ne hk]
          refine if_congr ?_ rfl rfl
          constructor
          all_goals
            rintro ⟨h₁, h₂, h₃⟩
            exact ⟨by omega, by omega, h₃⟩
      · intro j hj hj' hne
        have h₁ : j ≠ l := by omega
        have h₂ : j + 1 ≠ l := by omega
        simp only [update_of_ne h₁] at hne
        simp only [update_of_ne h₂]
        exact hmono j (by omega) (by omega) hne
    · rw [if_neg hl, if_neg]
      rintro ⟨hlk, hkn, hk⟩
      have hall : ∀ j, l + j < l + (n + 1) → head (l + j) ≠ idx := by
        intro j
        induction j with
        | zero => exact fun _ => hl
        | succ j ihj => exact fun hj => hmono (l + j) (by omega) (by omega) (ihj (by omega))
      obtain ⟨j, rfl⟩ := Nat.exists_eq_add_of_le hlk
      exact hall j hkn hk

/-- The first flow of the skip list leads each level it is on. -/
theorem FlowQman.Lists.head_iff (h : m.Lists nl lv) {rest : List U32} (hrest : lv 0 = idx :: rest)
    (hl : l < qmanSkiplistLevels) : m.headIdx l = idx ↔ idx ∈ lv l := by
  have hpath := h.level l hl
  have hne : idx ≠ idxlistInval := (h.level 0 (by decide)).ne_nil idx (by rw [hrest]; simp)
  constructor
  · intro hhead
    rw [hhead] at hpath
    obtain ⟨ys, hys, -⟩ := hpath.exists_cons hne
    rw [hys]
    simp
  · intro hmem
    have hnodup := h.nodup
    have hsub := h.sublist l
    rw [hrest] at hnodup hsub
    have hhead := head_of_mem hnodup hsub hmem
    cases hlv : lv l with
    | nil => simp [hlv] at hhead
    | cons x xs =>
      rw [hlv] at hpath hhead
      exact hpath.1.trans (by simpa using hhead)

theorem skipPop_spec (h : s.vq.fqman.Lists nl lv) (hidx : s.vq.fqman.headIdx 0 = idx)
    (hne : idx ≠ idxlistInval) :
    (skipPop s).vq.fqman.Lists nl (fun l => (lv l).erase idx) ∧
      FlowChanged s.vq.fqman (skipPop s).vq.fqman idx { s.flow idx with inSkiplist := false } := by
  set m := s.vq.fqman with hm
  obtain ⟨rest, hrest, -⟩ := (h.level 0 (by decide)).exists_cons (hidx ▸ hne)
  rw [hidx] at hrest
  have hmem : idx ∈ lv 0 := by rw [hrest]; simp
  have hflag := (h.mem_skiplist idx).1 hmem
  have hq : (skipPop s).vq.fqman.queues =
      (m.modify idx fun q => { q with inSkiplist := false }).queues := by
    rw [← hidx]
    rfl
  have hchanged := FlowChanged.of_modify hq rfl
  have hnext := next_of_modify hq rfl
  have hheads : ∀ l < qmanSkiplistLevels, (skipPop s).vq.fqman.headIdx l =
      if m.headIdx l = idx then m.next l idx else m.headIdx l := by
    intro l hl
    have hunlink : (skipPop s).vq.fqman.headIdx =
        skipUnlink (m.queues idx) idx qmanSkiplistLevels 0 m.headIdx := by
      rw [← hidx]
      rfl
    rw [hunlink, skipUnlink_eq]
    · simp only [Nat.zero_le, Nat.zero_add, hl, true_and]
      rfl
    · intro k _ hk hne' he
      have hk' : k + 1 < qmanSkiplistLevels := by omega
      rw [h.head_iff hrest hk'] at he
      exact hne' ((h.head_iff hrest (by omega)).2 ((h.layered k).subset he))
  refine ⟨?_, hchanged⟩
  refine h.of_changed hchanged (h.flows _ (Or.inr hflag)) ?_ ?_ (fun l => (h.layered l).erase idx)
    ?_ (h.nodup.erase idx) ?_ ?_ (by simp)
  · rw [hnext]
    exact h.nolimit
  · intro l hl
    rw [hnext, hheads l hl]
    have hpath := h.level l hl
    by_cases hon : m.headIdx l = idx
    · rw [if_pos hon]
      rw [hon] at hpath
      obtain ⟨ys, hys, htail⟩ := hpath.exists_cons hne
      rw [hys, erase_cons_head]
      exact htail
    · rw [if_neg hon, erase_of_not_mem fun hin => hon ((h.head_iff hrest hl).2 hin)]
      exact hpath
  · rw [h.top]
    rfl
  · exact ⟨h.mem_nolimit idx, fun _ _ => Iff.rfl⟩
  · exact ⟨by simp [h.nodup.mem_erase_iff], fun f hf => by simp [h.nodup.mem_erase_iff, hf]⟩

theorem flowcontInit_lists (b : Bool) : (flowcontInit b).Lists [] fun _ => [] := by
  constructor
  · exact fifo_empty
  · exact fun _ _ => rfl
  · exact fun _ => List.Sublist.refl _
  · rfl
  · exact nodup_nil
  all_goals
    intro f
    simp [flowcontInit]

end Tas
