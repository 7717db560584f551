import Tas.LibTas

/-! Context requests and responses over stream sockets, `uxsocket_receive` of the slow path and
`vflextcp_uxsocket_receive` and `vflextcp_write_context_res` of the guest proxy: the kernel may
return a message in pieces, and may take one in pieces. -/
namespace Tas

open List

/-- `sizeof(struct kernel_uxsock_request)`. -/
def uxsockRequestSize : ℕ := 8

/-- What a call of `recvmsg` returns: some bytes, and a descriptor if it came with them. -/
structure Fragment where
  bytes : List Byte
  fd : Option ℕ
deriving DecidableEq

/-- A receive function returns and keeps the number of bytes in `req_rx`, or it goes on with a
request and a descriptor. -/
inductive Receipt
  | incomplete (req : List Byte) (reqRx : ℕ)
  | complete (req : List Byte) (evfd : ℕ)
deriving DecidableEq

/-- One call of a receive function, up to the complete request. Each call reads to the start of the
buffer, and knows of a descriptor only if it came with this call. -/
def receivePiece (req : List Byte) (reqRx : ℕ) (r : Fragment) : Receipt :=
  let req := r.bytes ++ req.drop r.bytes.length
  if r.bytes.length + reqRx < uxsockRequestSize then .incomplete req (reqRx + r.bytes.length)
  else .complete req (r.fd.getD 0)

/-- Calls for one request. The next call reads to the buffer `next req`. -/
def receiveAll (next : List Byte → List Byte) (req : List Byte) (reqRx : ℕ) :
    List Fragment → Option (List Byte × ℕ)
  | [] => none
  | r :: rs =>
    match receivePiece req reqRx r with
    | .complete req evfd => some (req, evfd)
    | .incomplete req reqRx => receiveAll next (next req) reqRx rs

/-- Calls of `uxsocket_receive`, with the buffer in the application. The descriptor is asserted not
to be zero. -/
def uxsocketReceive (req : List Byte) (rs : List Fragment) : Checked (Option (List Byte × ℕ)) :=
  match receiveAll id req 0 rs with
  | some (_, 0) => .abort
  | r => .done r

/-- Calls of `vflextcp_uxsocket_receive`. Each has a request of its own from `malloc`, which may
hold anything. -/
def vflextcpUxsocketReceive := receiveAll

/-- The bytes that `vflextcp_write_context_res` has written from the offset on, with what the calls
of `write` return. -/
def vflextcpWriteContextRes (resp : List Byte) (off : ℕ) : List ℕ → List Byte
  | [] => []
  | sz :: szs =>
    if off < resp.length then resp.take sz ++ vflextcpWriteContextRes resp (off + sz) szs else []

/-! ### Pieces -/

/-- A way to split `n` bytes: the lengths of the pieces, and which one has the descriptor. -/
structure IsCut (n : ℕ) (cut : List (ℕ × Bool)) : Prop where
  pos : ∀ x ∈ cut, 0 < x.1
  sum : (cut.map Prod.fst).sum = n
  fd : (cut.map Prod.snd).count true = 1

/-- The pieces of a message. -/
def fragments (fd : ℕ) : List Byte → List (ℕ × Bool) → List Fragment
  | _, [] => []
  | msg, (n, here) :: cut =>
    ⟨msg.take n, if here then some fd else none⟩ :: fragments fd (msg.drop n) cut

/-- The slow path acts on the request and the descriptor that were sent. -/
def SlowReceives (cut : List (ℕ × Bool)) : Prop :=
  ∀ old msg fd, old.length = uxsockRequestSize → msg.length = uxsockRequestSize → fd ≠ 0 →
    uxsocketReceive old (fragments fd msg cut) = .done (some (msg, fd))

/-- The guest proxy does, whatever its calls get from `malloc`. -/
def GuestReceives (cut : List (ℕ × Bool)) : Prop :=
  ∀ next old msg fd, old.length = uxsockRequestSize → msg.length = uxsockRequestSize →
    vflextcpUxsocketReceive next old 0 (fragments fd msg cut) = some (msg, fd)

/-- The response is written once and in order. -/
def GuestWrites (szs : List ℕ) : Prop :=
  ∀ resp : List Byte, resp.length = szs.sum → vflextcpWriteContextRes resp 0 szs = resp

variable {cut : List (ℕ × Bool)} {szs : List ℕ} {next : List Byte → List Byte} {req : List Byte}
  {reqRx fd n : ℕ}

/-- A message of equal bytes is received as one that starts with that byte, in whatever pieces. -/
theorem receiveAll_head {b : Byte} {m : ℕ} {r : List Byte × ℕ} (hpos : ∀ x ∈ cut, 0 < x.1)
    (hm : (cut.map Prod.fst).sum ≤ m)
    (hr : receiveAll next req reqRx (fragments fd (replicate m b) cut) = some r) :
    r.1.head? = some b := by
  induction cut generalizing req reqRx m with
  | nil => cases hr
  | cons x cut ih =>
    obtain ⟨n, here⟩ := x
    have hn : 0 < n := hpos _ mem_cons_self
    simp only [map_cons, sum_cons] at hm
    simp only [fragments, receiveAll, receivePiece, take_replicate, drop_replicate] at hr
    by_cases hpart : (replicate (min n m) b).length + reqRx < uxsockRequestSize
    · rw [if_pos hpart] at hr
      exact ih (fun y hy => hpos y (mem_cons_of_mem _ hy)) (by omega) hr
    · rw [if_neg hpart] at hr
      cases hr
      obtain ⟨k, hk⟩ := Nat.exists_eq_succ_of_ne_zero (show min n m ≠ 0 by omega)
      simp [hk, replicate_succ]

/-- In two or more pieces the bytes of the last one are in front. -/
theorem receiveAll_ne (next : List Byte → List Byte) (req : List Byte) (fd : ℕ)
    (hcut : IsCut uxsockRequestSize cut) (hlen : cut.length ≠ 1) :
    ∃ msg : List Byte, msg.length = uxsockRequestSize ∧
      receiveAll next req 0 (fragments fd msg cut) ≠ some (msg, fd) := by
  refine ⟨0 :: replicate 7 1, rfl, fun hr => ?_⟩
  match cut, hcut, hlen with
  | [], _, _ => cases hr
  | (n, here) :: y :: cut, hcut, _ =>
    have hpos := hcut.pos
    have hsum := hcut.sum
    simp only [mem_cons, forall_eq_or_imp, map_cons, sum_cons] at hpos hsum
    obtain ⟨k, rfl⟩ := Nat.exists_eq_succ_of_ne_zero hpos.1.ne'
    have hpart : ((0 :: replicate 7 (1 : Byte)).take (k + 1)).length + 0 < uxsockRequestSize := by
      simp
      omega
    rw [fragments, receiveAll, receivePiece] at hr
    simp only [if_pos hpart, drop_succ_cons, drop_replicate] at hr
    have hhead := receiveAll_head (m := 7 - k) (by simpa using hpos.2)
      (by simp only [map_cons, sum_cons]; unfold uxsockRequestSize at hsum; omega) hr
    exact absurd hhead (by simp)

theorem receiveAll_whole {msg : List Byte} (hreq : req.length = uxsockRequestSize)
    (hmsg : msg.length = uxsockRequestSize) :
    receiveAll next req 0 (fragments fd msg [(uxsockRequestSize, true)]) = some (msg, fd) := by
  simp [fragments, receiveAll, receivePiece, ← hmsg, hreq.trans hmsg.symm]

theorem eq_whole_of_length (hcut : IsCut n cut) (hlen : cut.length = 1) : cut = [(n, true)] := by
  obtain ⟨⟨k, here⟩, rfl⟩ := length_eq_one_iff.1 hlen
  have hsum := hcut.sum
  have hfd := hcut.fd
  cases here <;> simp_all

theorem slowReceives_iff (hcut : IsCut uxsockRequestSize cut) :
    SlowReceives cut ↔ cut.length = 1 := by
  constructor
  · intro h
    by_contra hlen
    obtain ⟨msg, hmsg, hne⟩ := receiveAll_ne id (replicate 8 0) 1 hcut hlen
    have hr := h (replicate 8 0) msg 1 rfl hmsg one_ne_zero
    unfold uxsocketReceive at hr
    split at hr
    · cases hr
    · exact hne (Checked.done.inj hr)
  · intro hlen old msg fd hold hmsg hfd
    rw [eq_whole_of_length hcut hlen, uxsocketReceive, receiveAll_whole hold hmsg]
    cases fd with
    | zero => exact absurd rfl hfd
    | succ fd => rfl

theorem guestReceives_iff (hcut : IsCut uxsockRequestSize cut) :
    GuestReceives cut ↔ cut.length = 1 := by
  constructor
  · intro h
    by_contra hlen
    obtain ⟨msg, hmsg, hne⟩ := receiveAll_ne id (replicate 8 0) 1 hcut hlen
    exact hne (h id (replicate 8 0) msg 1 rfl hmsg)
  · intro hlen next old msg fd hold hmsg
    rw [eq_whole_of_length hcut hlen]
    exact receiveAll_whole hold hmsg

/-- After a short write the response starts again. -/
theorem guestWrites_iff (hpos : ∀ sz ∈ szs, 0 < sz) : GuestWrites szs ↔ szs.length ≤ 1 := by
  match szs, hpos with
  | [], _ => simp [GuestWrites, vflextcpWriteContextRes]
  | [sz], hpos =>
    refine iff_of_true (fun resp hresp => ?_) le_rfl
    have hsz := hpos sz mem_cons_self
    simp_all [vflextcpWriteContextRes]
  | sz :: sz' :: szs, hpos =>
    refine iff_of_false (fun h => ?_) (by simp)
    simp only [mem_cons, forall_eq_or_imp] at hpos
    obtain ⟨k, rfl⟩ := Nat.exists_eq_succ_of_ne_zero hpos.1.ne'
    obtain ⟨k', rfl⟩ := Nat.exists_eq_succ_of_ne_zero hpos.2.1.ne'
    have hresp := h (0 :: replicate (k + (k' + 1 + szs.sum)) 1) (by simp; omega)
    have hbyte := congrArg (fun bytes : List Byte => bytes[k + 1]?) hresp
    simp [vflextcpWriteContextRes, show 1 ≤ k' + 1 + szs.sum by omega] at hbyte

/-- Requests and responses survive if and only if the kernel does not split them. -/
theorem messages_survive_iff_whole (hcut : IsCut uxsockRequestSize cut)
    (hpos : ∀ sz ∈ szs, 0 < sz) :
    SlowReceives cut ∧ GuestReceives cut ∧ GuestWrites szs ↔ cut.length = 1 ∧ szs.length ≤ 1 := by
  rw [slowReceives_iff hcut, guestReceives_iff hcut, guestWrites_iff hpos]
  exact ⟨fun h => h.2, fun h => ⟨h.1, h⟩⟩

theorem unsplit_messages_survive :
    SlowReceives [(8, true)] ∧ GuestReceives [(8, true)] ∧ GuestWrites [100] :=
  (messages_survive_iff_whole ⟨by decide, rfl, rfl⟩ (by decide)).2 ⟨rfl, by decide⟩

/-- A request in two pieces, with the descriptor at the first one: the slow path fails its
assertion, and the guest proxy goes on with other bytes and the descriptor zero. A response that is
written in two parts is written from the start twice. -/
theorem split_messages_lost :
    IsCut uxsockRequestSize [(2, true), (6, false)] ∧
      uxsocketReceive (replicate 8 0)
          (fragments 5 [1, 2, 3, 4, 5, 6, 7, 8] [(2, true), (6, false)]) = .abort ∧
      vflextcpUxsocketReceive (fun _ => replicate 8 0) (replicate 8 0) 0
        (fragments 5 [1, 2, 3, 4, 5, 6, 7, 8] [(2, true), (6, false)]) =
        some ([3, 4, 5, 6, 7, 8, 0, 0], 0) ∧
      vflextcpWriteContextRes [1, 2, 3, 4] 0 [3, 1] = [1, 2, 3, 1] :=
  ⟨⟨by decide, rfl, rfl⟩, rfl, rfl, rfl⟩

end Tas
