import MdeModulePkg.UdpIo.CancelDgrams
import MdeModulePkg.UdpIo.Run

/-! # Runs whose notify functions run between calls

    When the UDP child never ends a token inside `Transmit` or `Receive`, and `Cancel` runs
    no notify function before it returns (as when every call is made at `TPL_CALLBACK`, the
    TPL of the tokens' events, or above), and the users' `CallBack`s make no call on the port
    (`UdpIo.Reentrant` lets them), the port's bookkeeping agrees with the child at every point
    of a run, and nothing the code guards against happens:

    * `PortInv`: `SentDatagram` holds exactly the transmit tokens the child holds or has
      signaled, `RecvRequest` is exactly the receive token it holds or has signaled, and the
      pool holds exactly the tokens the port owns; the log shows no access to a token not
      allocated and no failed `ASSERT`, each request called back at most once and each token
      freed at most once, and every address the pool has handed out is allocated or freed;
    * `portInv_udpIoCreatePort`, `portInv_step`, `run_portInv`: a new port has it, and every
      such step and run keeps it; the calls that cancel (`UdpIoCancelDgrams`,
      `UdpIoCleanPort`) always return, the `Configure (NULL)` of `UdpIoCleanPort` finds no
      token left to abort (`udpIoCleanPort_eq`), and `UdpIoCleanPort` leaves nothing pending
      (`udpIoCleanPort_pending`);
    * `udpIoCreatePort_run_safe`, `udpIoCreatePort_run_books`, `udpIoCreatePort_run_noLeak`:
      what it says after every such run from a new port;
    * `udpIoCreatePort_run_cleaned`: after such a run that ends with `UdpIoCleanPort` or
      `UdpIoFreePort`, every token the port allocated is freed, once, but for the `NET_BUF`s
      the user holds.

    Each step is proved from one lemma per function that says what the function does to an
    allocated token (`udpIoOnDgramSent_eq`, `udpIoFreeTxToken_of_mem`, ...), so that the
    proofs here never unfold the model's accesses. -/

namespace UdpIo

open Base NetList

/-! ## What the log shows -/

/-- The token a `CallBack` ends. -/
def Event.calledBack : Event → Option Nat
  | .callBack t _ _ _ _ => some t
  | _ => none

/-- The token a `NetFreePool` frees. -/
def Event.freed : Event → Option Nat
  | .freePool t => some t
  | _ => none

/-- An event that shows the port at fault: an access to a token not allocated, or an
    `ASSERT` that fails. -/
def Event.isFault : Event → Bool
  | .badAccess _ | .assertFailed _ => true
  | _ => false

/-- The requests called back, in log order. -/
def callBackTokens (log : List Event) : List Nat := log.filterMap Event.calledBack

/-- The tokens freed, in log order. -/
def freedTokens (log : List Event) : List Nat := log.filterMap Event.freed

@[simp] theorem callBackTokens_append (l l' : List Event) :
    callBackTokens (l ++ l') = callBackTokens l ++ callBackTokens l' :=
  List.filterMap_append l l' _

@[simp] theorem freedTokens_append (l l' : List Event) :
    freedTokens (l ++ l') = freedTokens l ++ freedTokens l' :=
  List.filterMap_append l l' _

/-- Cancelling the tokens `xs` calls each back once, and frees each once, in order. -/
theorem cancelledEvents_tokens (ioStatus : EfiStatus) (tok : Nat → UdpTxToken) (xs : List Nat) :
    callBackTokens (xs.flatMap fun t => cancelledEvents ioStatus (tok t) t) = xs ∧
    freedTokens (xs.flatMap fun t => cancelledEvents ioStatus (tok t) t) = xs := by
  induction xs with
  | nil => exact ⟨rfl, rfl⟩
  | cons t xs ih =>
    simp only [List.flatMap_cons, callBackTokens_append, freedTokens_append, ih]
    exact ⟨rfl, rfl⟩

theorem cancelledEvents_noFault (ioStatus : EfiStatus) (tok : Nat → UdpTxToken) (xs : List Nat) :
    ∀ e ∈ xs.flatMap (fun t => cancelledEvents ioStatus (tok t) t), e.isFault = false := by
  simp only [List.mem_flatMap, cancelledEvents]
  rintro e ⟨t, -, he⟩
  simp only [List.mem_cons, List.mem_singleton, List.not_mem_nil, or_false] at he
  rcases he with rfl | rfl <;> rfl

/-! ## The invariant -/

/-- The requests not yet called back: the transmit tokens the child holds or has signaled,
    and `RecvRequest`. -/
def Port.pending (p : Port) : List Nat := p.udpTx ++ p.txSignaled ++ p.recvRequest.toList

/-- What the port owns: its pending requests, and the tokens of the `NET_BUF`s the user
    holds. -/
def Port.owned (p : Port) : List Nat := p.pending ++ p.netbufs

/-- The port's bookkeeping agrees with the UDP child and with the pool. -/
structure Books (p : Port) : Prop where
  /-- `SentDatagram` holds exactly the transmit tokens the child holds or has signaled. -/
  sent : ∃ ts, SentList p ts ∧ ts.Perm (p.udpTx ++ p.txSignaled)
  /-- `RecvRequest` is exactly the receive token the child holds or has signaled. -/
  recv : p.udpRx ++ p.rxSignaled = p.recvRequest.toList
  /-- The pool holds exactly the tokens the port owns, each once. -/
  owned : p.live.Perm p.owned
  liveNodup : p.live.Nodup

/-- What the log has shown so far. -/
structure LogInv (p : Port) : Prop where
  /-- No access to a token not allocated, no failed `ASSERT`. -/
  noFault : ∀ e ∈ p.log, e.isFault = false
  /-- Each request is called back at most once, each token freed at most once. -/
  calledOnce : (callBackTokens p.log).Nodup
  freedOnce : (freedTokens p.log).Nodup
  /-- A request called back is no longer pending, a token freed no longer allocated. -/
  calledNotPending : ∀ t ∈ callBackTokens p.log, t ∉ p.pending
  freedNotLive : ∀ t ∈ freedTokens p.log, t ∉ p.live
  /-- The log names only addresses the pool has handed out. -/
  calledBelow : ∀ t ∈ callBackTokens p.log, t < p.nextAddr
  freedBelow : ∀ t ∈ freedTokens p.log, t < p.nextAddr
  /-- No token is lost: every address the pool has handed out is allocated, or was freed. -/
  noLeak : ∀ t < p.nextAddr, t ∈ p.live ∨ t ∈ freedTokens p.log

/-- **The invariant** of runs whose notify functions run between calls. -/
structure PortInv (p : Port) : Prop where
  books : Books p
  history : LogInv p

theorem Books.ownedNodup {p : Port} (hb : Books p) : p.owned.Nodup :=
  hb.owned.nodup_iff.1 hb.liveNodup

theorem Books.live_of_pending {p : Port} (hb : Books p) {t : Nat} (ht : t ∈ p.pending) :
    t ∈ p.live :=
  hb.owned.mem_iff.2 (List.mem_append_left _ ht)

/-- **A step of the log**: the log gains events that show no fault, calling back pending
    requests that stop being pending and freeing allocated (or just allocated) tokens that
    stop being allocated, each once; what is pending or allocated afterwards was so before,
    or is fresh; and a token allocated before, or just allocated, is still allocated or was
    just freed. -/
theorem LogInv.step {p q : Port} {new : List Event} (h : LogInv p) (hb : Books p)
    (hlog : q.log = p.log ++ new) (hnext : p.nextAddr ≤ q.nextAddr)
    (hpending : ∀ t ∈ q.pending, t ∈ p.pending ∨ p.nextAddr ≤ t)
    (hlive : ∀ t ∈ q.live, t ∈ p.live ∨ p.nextAddr ≤ t)
    (hfault : ∀ e ∈ new, e.isFault = false)
    (hcalled : (callBackTokens new).Nodup ∧
      ∀ t ∈ callBackTokens new, t ∈ p.pending ∧ t ∉ q.pending)
    (hfreed : (freedTokens new).Nodup ∧
      ∀ t ∈ freedTokens new, (t ∈ p.live ∨ p.nextAddr ≤ t ∧ t < q.nextAddr) ∧ t ∉ q.live)
    (hkept : ∀ t, t ∈ p.live ∨ p.nextAddr ≤ t ∧ t < q.nextAddr → t ∈ q.live ∨ t ∈ freedTokens new) :
    LogInv q where
  noFault e he := by
    rw [hlog, List.mem_append] at he
    exact he.elim (h.noFault e) (hfault e)
  calledOnce := by
    rw [hlog, callBackTokens_append, List.nodup_append]
    exact ⟨h.calledOnce, hcalled.1, fun t h1 h2 => h.calledNotPending t h1 (hcalled.2 t h2).1⟩
  freedOnce := by
    rw [hlog, freedTokens_append, List.nodup_append]
    refine ⟨h.freedOnce, hfreed.1, fun t h1 h2 => ?_⟩
    rcases (hfreed.2 t h2).1 with hl | ⟨hge, -⟩
    · exact h.freedNotLive t h1 hl
    · exact absurd (h.freedBelow t h1) (Nat.not_lt.2 hge)
  calledNotPending t ht hq := by
    rw [hlog, callBackTokens_append, List.mem_append] at ht
    rcases ht with ht | ht
    · rcases hpending t hq with hp | hge
      · exact h.calledNotPending t ht hp
      · exact absurd (h.calledBelow t ht) (Nat.not_lt.2 hge)
    · exact (hcalled.2 t ht).2 hq
  freedNotLive t ht hq := by
    rw [hlog, freedTokens_append, List.mem_append] at ht
    rcases ht with ht | ht
    · rcases hlive t hq with hp | hge
      · exact h.freedNotLive t ht hp
      · exact absurd (h.freedBelow t ht) (Nat.not_lt.2 hge)
    · exact (hfreed.2 t ht).2 hq
  calledBelow t ht := by
    rw [hlog, callBackTokens_append, List.mem_append] at ht
    rcases ht with ht | ht
    · exact (h.calledBelow t ht).trans_le hnext
    · exact (p.live_lt t (hb.live_of_pending (hcalled.2 t ht).1)).trans_le hnext
  freedBelow t ht := by
    rw [hlog, freedTokens_append, List.mem_append] at ht
    rcases ht with ht | ht
    · exact (h.freedBelow t ht).trans_le hnext
    · rcases (hfreed.2 t ht).1 with hl | ⟨-, hlt⟩
      · exact (p.live_lt t hl).trans_le hnext
      · exact hlt
  noLeak t ht := by
    rw [hlog, freedTokens_append, List.mem_append]
    by_cases hp : t < p.nextAddr
    · rcases h.noLeak t hp with hl | hf
      · exact (hkept t (.inl hl)).imp_right .inr
      · exact .inr (.inl hf)
    · exact (hkept t (.inr ⟨Nat.not_lt.1 hp, ht⟩)).imp_right .inr

/-- A step that shows nothing: what is pending or allocated afterwards was so before, or is
    fresh, and what was allocated, or just allocated, still is. -/
theorem LogInv.quiet {p q : Port} (h : LogInv p) (hb : Books p) (hlog : q.log = p.log)
    (hnext : p.nextAddr ≤ q.nextAddr) (hpending : ∀ t ∈ q.pending, t ∈ p.pending ∨ p.nextAddr ≤ t)
    (hlive : ∀ t ∈ q.live, t ∈ p.live ∨ p.nextAddr ≤ t)
    (hkept : ∀ t, t ∈ p.live ∨ p.nextAddr ≤ t ∧ t < q.nextAddr → t ∈ q.live ∨ t ∈ freedTokens []) :
    LogInv q :=
  h.step hb (show q.log = p.log ++ [] by simp [hlog]) hnext hpending hlive (by simp) (by simp [callBackTokens])
    (by simp [freedTokens]) hkept

/-- A step that hands out no address: each allocated token stays allocated or is freed. -/
theorem kept_of_live {p q : Port} {new : List Event} (hn : q.nextAddr = p.nextAddr)
    (hl : ∀ t ∈ p.live, t ∈ q.live ∨ t ∈ freedTokens new) :
    ∀ t, t ∈ p.live ∨ p.nextAddr ≤ t ∧ t < q.nextAddr → t ∈ q.live ∨ t ∈ freedTokens new
  | t, .inl ht => hl t ht
  | _, .inr ⟨h1, h2⟩ => absurd (hn ▸ h2) (Nat.not_lt.2 h1)

/-- A step that hands out one address, and keeps or frees it with the allocated tokens. -/
theorem kept_of_fresh {p q : Port} {new : List Event} (hn : q.nextAddr = p.nextAddr + 1)
    (hl : ∀ t ∈ p.live, t ∈ q.live ∨ t ∈ freedTokens new)
    (hf : p.nextAddr ∈ q.live ∨ p.nextAddr ∈ freedTokens new) :
    ∀ t, t ∈ p.live ∨ p.nextAddr ≤ t ∧ t < q.nextAddr → t ∈ q.live ∨ t ∈ freedTokens new
  | t, .inl ht => hl t ht
  | t, .inr ⟨h1, h2⟩ => (show p.nextAddr = t by omega) ▸ hf

/-- Freeing `t` out of the pool keeps every other token allocated. -/
theorem kept_of_erase {live freed : List Nat} {t : Nat} (hf : t ∈ freed) :
    ∀ u ∈ live, u ∈ live.erase t ∨ u ∈ freed := fun u hu =>
  (eq_or_ne u t).elim (fun h => .inr (h ▸ hf)) fun h => .inl ((List.mem_erase_of_ne h).2 hu)

/-! ## The new port -/

/-- `UdpIoCreatePort` starts the invariant. -/
theorem portInv_udpIoCreatePort : PortInv udpIoCreatePort where
  books :=
    { sent := ⟨[], ⟨isList_netListInit _ _, by simp⟩, List.Perm.refl _⟩
      recv := rfl
      owned := List.Perm.refl _
      liveNodup := List.nodup_nil }
  history := by
    constructor <;> simp [udpIoCreatePort, callBackTokens, freedTokens]

/-! ## Facts the bookkeeping gives -/

theorem Books.parts {p : Port} (hb : Books p) :
    (p.udpTx ++ p.txSignaled).Nodup ∧ (p.udpTx ++ p.txSignaled).Disjoint p.recvRequest.toList ∧
      p.netbufs.Nodup ∧ p.pending.Disjoint p.netbufs := by
  have h := hb.ownedNodup
  rw [Port.owned, List.nodup_append, Port.pending, List.nodup_append] at h
  exact ⟨h.1.1, h.1.2.2, h.2.1, h.2.2⟩

/-- A receive token the child holds is `RecvRequest`, and the only one. -/
theorem Books.recv_of_mem_udpRx {p : Port} (hb : Books p) {t : Nat} (ht : t ∈ p.udpRx) :
    p.udpRx = [t] ∧ p.rxSignaled = [] ∧ p.recvRequest = some t := by
  have h := hb.recv
  have hreq : p.recvRequest = some t := by
    have : t ∈ p.recvRequest.toList := h ▸ List.mem_append_left p.rxSignaled ht
    simpa using this
  rw [hreq, Option.toList_some] at h
  rcases List.append_eq_cons_iff.1 h with ⟨h1, -⟩ | ⟨a, h1, h2⟩
  · simp [h1] at ht
  · obtain ⟨rfl, h3⟩ := List.append_eq_nil.1 h2.symm
    exact ⟨h1, h3, hreq⟩

/-- A receive token the child has signaled is `RecvRequest`, and the only one. -/
theorem Books.recv_of_mem_rxSignaled {p : Port} (hb : Books p) {t : Nat}
    (ht : t ∈ p.rxSignaled) : p.udpRx = [] ∧ p.rxSignaled = [t] ∧ p.recvRequest = some t := by
  have h := hb.recv
  have hreq : p.recvRequest = some t := by
    have : t ∈ p.recvRequest.toList := h ▸ List.mem_append_right p.udpRx ht
    simpa using this
  rw [hreq, Option.toList_some] at h
  rcases List.append_eq_cons_iff.1 h with ⟨h1, h2⟩ | ⟨a, h1, h2⟩
  · exact ⟨h1, h2, hreq⟩
  · obtain ⟨rfl, h3⟩ := List.append_eq_nil.1 h2.symm
    simp [h3] at ht

/-- A token moved from one list to the end of the next. -/
theorem perm_move {l : List Nat} (l' : List Nat) {t : Nat} (h : t ∈ l) :
    List.Perm (l.erase t ++ (l' ++ [t])) (l ++ l') :=
  List.append_assoc (l.erase t) l' [t] ▸
    (List.perm_append_singleton t _).trans ((List.perm_cons_erase h).symm.append_right l')

/-! ## The UDP child ends a token -/

/-- The child ends a transmit token it holds: the token moves to the signaled ones. -/
theorem portInv_completeTx {p : Port} {t : Nat} (h : PortInv p) (ht : t ∈ p.udpTx)
    (status : EfiStatus) : PortInv (completeTx p t status) := by
  have hlive := h.books.live_of_pending (List.mem_append_left _ (List.mem_append_left _ ht))
  obtain ⟨ts, hs, hts⟩ := h.books.sent
  have hmove := perm_move p.txSignaled ht
  have hpend : (completeTx p t status).pending.Perm p.pending := hmove.append_right _
  refine ⟨⟨⟨ts, hs, hts.trans hmove.symm⟩, h.books.recv,
    h.books.owned.trans (hpend.append_right _).symm, h.books.liveNodup⟩,
    h.history.quiet h.books ?_ le_rfl (fun u hu => .inl (hpend.mem_iff.1 hu)) (fun u hu => .inl hu)
      (kept_of_live rfl fun u hu => .inl hu)⟩
  simp [completeTx, touch_of_mem hlive]

/-- The child ends the receive token it holds. -/
theorem portInv_completeRx {p : Port} {t : Nat} (h : PortInv p) (ht : t ∈ p.udpRx)
    (status : EfiStatus) (rxData : Bool) : PortInv (completeRx p t status rxData) := by
  obtain ⟨hrx, hsig, hreq⟩ := h.books.recv_of_mem_udpRx ht
  have hlive : t ∈ p.live := h.books.live_of_pending (by simp [Port.pending, hreq])
  refine ⟨⟨h.books.sent, ?_, h.books.owned, h.books.liveNodup⟩,
    h.history.quiet h.books ?_ le_rfl (fun u hu => .inl hu) (fun u hu => .inl hu)
      (kept_of_live rfl fun u hu => .inl hu)⟩
  · show (p.udpRx.erase t ++ (p.rxSignaled ++ [t])) = p.recvRequest.toList
    simp [hrx, hsig, hreq]
  · simp [completeRx, touch_of_mem hlive]

/-! ## A token held across its `CallBack`

    From the `CallBack` of a token to its free, the token is on no list of the port, and the
    user's code may call the port.  The invariant then holds of the port seen with the token
    as a `NET_BUF` the user holds, and the free that follows is `UdpIoRecycleDgram`'s. -/

/-- `UdpIoRecycleDgram` of a `NET_BUF` the user holds: its token is freed. -/
theorem portInv_recycleDgram {p : Port} {t : Nat} (h : PortInv p) (ht : t ∈ p.netbufs) :
    PortInv (udpIoRecycleDgram p t) := by
  have hlive : t ∈ p.live := h.books.owned.mem_iff.2 (List.mem_append_right _ ht)
  have hnp : t ∉ p.pending := fun h' => h.books.parts.2.2.2 h' ht
  have hsig : t ∉ p.rxSignaled := fun h' =>
    hnp (by simp [Port.pending, (h.books.recv_of_mem_rxSignaled h').2.2])
  obtain ⟨ts, hs, hts⟩ := h.books.sent
  rw [udpIoRecycleDgram, touch_of_mem hlive,
    udpIoFreeRxToken_of_mem (p := { p with netbufs := p.netbufs.erase t }) hlive]
  dsimp only [Port.record]
  rw [List.erase_of_not_mem hsig]
  refine ⟨⟨⟨ts, ⟨hs.1, fun u hu => (List.mem_erase_of_ne ?_).2 (hs.2 u hu)⟩, hts⟩, h.books.recv,
    (h.books.owned.erase t).trans (.of_eq ?_), h.books.liveNodup.erase t⟩,
    h.history.step h.books rfl le_rfl (fun u hu => .inl hu)
      (fun u hu => .inl (List.mem_of_mem_erase hu)) (by simp [Event.isFault])
      ⟨List.nodup_nil, fun _ h => absurd h (List.not_mem_nil _)⟩
      ⟨List.nodup_singleton t, List.forall_mem_singleton.2
        ⟨.inl hlive, h.books.liveNodup.not_mem_erase⟩⟩
      (kept_of_live rfl (kept_of_erase (List.mem_singleton_self t)))⟩
  · rintro rfl; exact hnp (List.mem_append_left _ (hts.mem_iff.1 hu))
  · rw [Port.owned, List.erase_append_right _ hnp]; rfl

/-- The port with the token `t` counted among the `NET_BUF`s the user holds, and a stale
    signal of it dropped. -/
def Port.hold (p : Port) (t : Nat) : Port :=
  { p with txSignaled := p.txSignaled.erase t, netbufs := p.netbufs ++ [t] }

/-- **The invariant while the `CallBack` of `t` runs.** -/
def HeldInv (t : Nat) (p : Port) : Prop := PortInv (p.hold t)

/-- A held token is allocated and not signaled, and freeing it keeps the invariant. -/
theorem HeldInv.free {m : Port} {t : Nat} (h : HeldInv t m) :
    t ∈ m.live ∧ t ∉ m.rxSignaled ∧
      PortInv { m with txSignaled := m.txSignaled.erase t, rxSignaled := m.rxSignaled.erase t,
                       live := m.live.erase t,
                       live_lt := fun u hu => m.live_lt u (List.mem_of_mem_erase hu),
                       log := m.log ++ [.freePool t] } := by
  have hn : t ∈ (m.hold t).netbufs := List.mem_append_right _ (List.mem_singleton_self t)
  have hlive : t ∈ m.live := h.books.owned.mem_iff.2 (List.mem_append_right _ hn)
  obtain ⟨-, -, hnd, hdis⟩ := h.books.parts
  have hnb : t ∉ m.netbufs := fun h' => (List.nodup_append.1 hnd).2.2 h' (List.mem_singleton_self t)
  have hsig : t ∉ m.rxSignaled := fun h' => hdis (by
    have : t ∈ (m.hold t).udpRx ++ (m.hold t).rxSignaled := List.mem_append_right _ h'
    rw [h.books.recv] at this
    exact List.mem_append_right _ this) hn
  have hr := portInv_recycleDgram h hn
  rw [udpIoRecycleDgram, touch_of_mem (p := m.hold t) hlive,
    udpIoFreeRxToken_of_mem (p := { m.hold t with netbufs := (m.hold t).netbufs.erase t }) hlive] at hr
  dsimp only [Port.hold, Port.record] at hr
  rw [List.erase_append_right _ hnb, List.erase_cons_head, List.append_nil] at hr
  exact ⟨hlive, hsig, hr⟩

/-- **`UdpIoFreeTxToken` of a held token** keeps the invariant. -/
theorem portInv_udpIoFreeTxToken {m : Port} {t : Nat} (h : HeldInv t m) :
    PortInv (udpIoFreeTxToken m t) := by
  obtain ⟨hlive, hsig, hfree⟩ := h.free
  rw [List.erase_of_not_mem hsig] at hfree
  rw [udpIoFreeTxToken_of_mem hlive]
  exact hfree

/-- **`UdpIoFreeRxToken` of a held token** keeps the invariant, when no stale transmit signal
    of it was dropped. -/
theorem portInv_udpIoFreeRxToken {m : Port} {t : Nat} (h : HeldInv t m) (htx : t ∉ m.txSignaled) :
    PortInv (udpIoFreeRxToken m t) := by
  obtain ⟨hlive, -, hfree⟩ := h.free
  rw [List.erase_of_not_mem htx] at hfree
  rw [udpIoFreeRxToken_of_mem hlive]
  exact hfree

/-- A transmit token on `SentDatagram` called back: it left the list, the child and the
    signaled ones, and the log gains its `CallBack`. -/
theorem heldInv_txCalled {p m : Port} {t : Nat} {xs ys : List Nat} (h : PortInv p)
    (hs : SentList p (xs ++ t :: ys)) (hlinks : m.links = netListRemoveEntry p.links (.token t))
    (htx : (m.udpTx ++ m.txSignaled.erase t).Perm ((p.udpTx ++ p.txSignaled).erase t))
    (hlive : m.live = p.live) (hnext : m.nextAddr = p.nextAddr)
    (hrx : m.udpRx = p.udpRx ∧ m.rxSignaled = p.rxSignaled ∧ m.recvRequest = p.recvRequest ∧
      m.netbufs = p.netbufs)
    {callBack : Nat} {packet : Option Nat} {status : EfiStatus} {context : Nat}
    (hlog : m.log = p.log ++ [.callBack t callBack packet status context]) :
    HeldInv t m ∧ SentList m (xs ++ ys) := by
  obtain ⟨h1, h2, h3, h4⟩ := hrx
  obtain ⟨ts, hts, hperm⟩ := h.books.sent
  obtain rfl : ts = xs ++ t :: ys :=
    List.map_injective_iff.2 (fun _ _ => Entry.token.inj) (hts.1.unique hs.1)
  obtain ⟨hnd, hdis, -, -⟩ := h.books.parts
  have hA : t ∈ p.udpTx ++ p.txSignaled := hperm.mem_iff.1 (by simp)
  have hxs : t ∉ xs ++ ys := by
    have := hperm.nodup_iff.2 hnd
    rw [List.nodup_middle] at this
    exact (List.nodup_cons.1 this).1
  have hrest : (xs ++ ys).Perm ((p.udpTx ++ p.txSignaled).erase t) := by
    have := hperm.erase t
    rwa [List.erase_append_right _ (fun h => hxs (List.mem_append_left _ h)),
      List.erase_cons_head] at this
  have hsent : SentList m (xs ++ ys) := by
    refine ⟨?_, fun u hu => hlive ▸ hs.2 u ?_⟩
    · rw [hlinks]; simpa using isList_netListRemoveEntry (by simpa using hs.1)
    · rcases List.mem_append.1 hu with hu | hu <;> simp [hu]
  have hgone : t ∉ (m.hold t).pending := by
    show t ∉ (m.udpTx ++ m.txSignaled.erase t) ++ m.recvRequest.toList
    rw [List.mem_append, not_or]
    exact ⟨fun h' => (List.Nodup.not_mem_erase hnd) (htx.mem_iff.1 h'),
      fun h' => hdis hA (h3 ▸ h')⟩
  refine ⟨⟨⟨⟨xs ++ ys, hsent, hrest.trans htx.symm⟩, ?_, ?_, hlive ▸ h.books.liveNodup⟩,
    h.history.step h.books hlog hnext.ge (fun u hu => ?_) (fun u hu => .inl (hlive ▸ hu))
      (by simp [Event.isFault])
      ⟨List.nodup_singleton t, List.forall_mem_singleton.2 ⟨List.mem_append_left _ hA, hgone⟩⟩
      ⟨List.nodup_nil, fun _ h => absurd h (List.not_mem_nil _)⟩
      (kept_of_live hnext fun u hu => .inl (hlive ▸ hu))⟩, hsent⟩
  · show m.udpRx ++ m.rxSignaled = m.recvRequest.toList
    rw [h1, h2, h3]; exact h.books.recv
  · show m.live.Perm ((m.udpTx ++ m.txSignaled.erase t ++ m.recvRequest.toList) ++ (m.netbufs ++ [t]))
    rw [hlive, h3, h4]
    refine h.books.owned.trans (List.Perm.symm ?_)
    rw [List.append_assoc (m.udpTx ++ m.txSignaled.erase t), ← List.append_assoc _ p.netbufs,
      Port.owned, Port.pending, List.append_assoc (p.udpTx ++ p.txSignaled)]
    exact (htx.append_right _).trans (perm_move _ hA)
  · rw [Port.pending, List.mem_append] at hu
    rcases hu with hu | hu
    · exact .inl (List.mem_append_left _ (List.mem_of_mem_erase (htx.mem_iff.1 hu)))
    · exact .inl (List.mem_append_right _ (h3 ▸ hu))

/-- `RecvRequest` called back: the token left the child and `RecvRequest`, and the log gains
    `shown`, at most the token's `CallBack`. -/
theorem heldInv_recvDone {p m : Port} {r : Nat} (h : PortInv p) (hr : p.recvRequest = some r)
    (hlinks : m.links = p.links) (hlive : m.live = p.live) (hnext : m.nextAddr = p.nextAddr)
    (htx : m.udpTx = p.udpTx ∧ m.txSignaled = p.txSignaled ∧ m.netbufs = p.netbufs)
    (hrx : m.udpRx = [] ∧ m.rxSignaled = [] ∧ m.recvRequest = none)
    {shown : List Event} (hlog : m.log = p.log ++ shown) (hfault : ∀ e ∈ shown, e.isFault = false)
    (hcalled : callBackTokens shown ⊆ [r] ∧ (callBackTokens shown).Nodup)
    (hfreed : freedTokens shown = []) :
    HeldInv r m ∧ r ∉ m.txSignaled := by
  obtain ⟨h1, h2, h3⟩ := htx
  obtain ⟨h4, h5, h6⟩ := hrx
  have hpend : p.pending = p.udpTx ++ p.txSignaled ++ [r] := by simp [Port.pending, hr]
  have hnot : r ∉ p.udpTx ++ p.txSignaled := fun h' => h.books.parts.2.1 h' (by simp [hr])
  have hns : r ∉ p.txSignaled := fun h' => hnot (List.mem_append_right _ h')
  have hmp : (m.hold r).pending = p.udpTx ++ p.txSignaled := by
    simp only [Port.pending, Port.hold, h1, h2, h6, List.erase_of_not_mem hns, Option.toList_none,
      List.append_nil]
  obtain ⟨ts, hs, hts⟩ := h.books.sent
  refine ⟨⟨⟨⟨ts, ⟨hlinks ▸ hs.1, fun u hu => hlive ▸ hs.2 u hu⟩, ?_⟩, ?_, ?_,
    hlive ▸ h.books.liveNodup⟩, h.history.step h.books hlog hnext.ge (fun u hu => .inl ?_)
      (fun u hu => .inl (hlive ▸ hu)) hfault ⟨hcalled.2, fun u hu => ?_⟩
      (by simp [hfreed]) (kept_of_live hnext fun u hu => .inl (hlive ▸ hu))⟩, h2 ▸ hns⟩
  · show ts.Perm (m.udpTx ++ m.txSignaled.erase r)
    rw [h1, h2, List.erase_of_not_mem hns]; exact hts
  · show m.udpRx ++ m.rxSignaled = m.recvRequest.toList
    rw [h4, h5, h6]; rfl
  · show m.live.Perm ((m.hold r).pending ++ (m.netbufs ++ [r]))
    rw [hmp, hlive, h3, ← List.append_assoc]
    refine h.books.owned.trans ?_
    rw [Port.owned, hpend, List.append_assoc _ [r], List.append_assoc _ p.netbufs]
    exact List.perm_append_comm.append_left _
  · rw [hmp] at hu; rw [hpend]; exact List.mem_append_left _ hu
  · rw [List.mem_singleton.1 (hcalled.1 hu), hmp]
    exact ⟨by simp [hpend], hnot⟩

/-! ## The notify functions -/

/-- The notify function of a signaled transmit token, up to the `CallBack`: the token left
    `SentDatagram` and is called back. -/
theorem heldInv_notifyTx {p : Port} {t : Nat} (h : PortInv p) (ht : t ∈ p.txSignaled)
    (status : EfiStatus) :
    HeldInv t (txCallBack (removeEntry (touch { p with txSignaled := p.txSignaled.erase t } t)
      (.token t)) t status) := by
  obtain ⟨ts, hs, hts⟩ := h.books.sent
  obtain ⟨htxnd, -, -, -⟩ := h.books.parts
  obtain ⟨xs, ys, rfl⟩ := List.append_of_mem (hts.mem_iff.2 (List.mem_append_right _ ht))
  have hlive := hs.isLive (e := .token t) (by simp)
  have hnu : t ∉ p.udpTx := fun h' => List.disjoint_of_nodup_append htxnd h' ht
  have ht' : t ∈ p.live := hlive.1
  rw [touch_of_mem (p := { p with txSignaled := p.txSignaled.erase t }) ht',
    removeEntry_of_isLive (p := { p with txSignaled := p.txSignaled.erase t }) (e := .token t) hlive]
  simp only [txCallBack, touch, accessLog, ht', if_true, List.append_nil]
  have htx : p.udpTx ++ (p.txSignaled.erase t).erase t = (p.udpTx ++ p.txSignaled).erase t := by
    rw [List.erase_append_right _ hnu,
      List.erase_of_not_mem (List.nodup_append.1 htxnd).2.1.not_mem_erase]
  exact (heldInv_txCalled h hs (by rfl) (.of_eq htx) (by rfl) (by rfl)
    ⟨by rfl, by rfl, by rfl, by rfl⟩ (by rfl)).1

/-- The notify function of a signaled transmit token runs: the token leaves `SentDatagram`,
    is called back and is freed. -/
theorem portInv_notifyTx {p : Port} {t : Nat} (h : PortInv p) (ht : t ∈ p.txSignaled) :
    PortInv (dispatchTx p t) :=
  portInv_udpIoFreeTxToken (heldInv_notifyTx h ht _)

/-- `RecvRequest` ends with its token freed: the token leaves the child, `RecvRequest` and the
    pool, and the log gains `shown`, at most the token's `CallBack`, then its `NetFreePool`. -/
theorem portInv_recvFreed {p : Port} {r : Nat} (h : PortInv p) (hr : p.recvRequest = some r)
    (rxToken : Nat → UdpRxToken) (shown : List Event) (hfault : ∀ e ∈ shown, e.isFault = false)
    (hcalled : callBackTokens shown ⊆ [r] ∧ (callBackTokens shown).Nodup)
    (hfreed : freedTokens shown = []) :
    PortInv
      { p with rxToken := rxToken, recvRequest := none, udpRx := [], rxSignaled := [],
               live := p.live.erase r, live_lt := fun u hu => p.live_lt u (List.mem_of_mem_erase hu),
               log := p.log ++ (shown ++ [.freePool r]) } := by
  obtain ⟨hh, hns⟩ := heldInv_recvDone
    (m := { p with rxToken := rxToken, recvRequest := none, udpRx := [], rxSignaled := [],
                   log := p.log ++ shown })
    h hr rfl rfl rfl ⟨rfl, rfl, rfl⟩ ⟨rfl, rfl, rfl⟩ rfl hfault hcalled hfreed
  obtain ⟨-, -, hfree⟩ := hh.free
  rwa [List.erase_of_not_mem hns, List.erase_nil, List.append_assoc] at hfree

/-- The notify function of the signaled receive runs: `RecvRequest` is called back once, and
    its token is freed or its `NET_BUF` handed to the user. -/
theorem portInv_notifyRx {p : Port} {t : Nat} (h : PortInv p) (ht : t ∈ p.rxSignaled)
    (netbuf : Bool) : PortInv (dispatchRx p t netbuf) := by
  obtain ⟨hrx, hsig, hreq⟩ := h.books.recv_of_mem_rxSignaled ht
  have hpend : p.pending = p.udpTx ++ p.txSignaled ++ [t] := by simp [Port.pending, hreq]
  have hpt : t ∈ p.pending := by simp [hpend]
  obtain ⟨packet, status, he | he⟩ := udpIoOnDgramRcvd_eq
    (p := { p with rxSignaled := p.rxSignaled.erase t }) (h.books.live_of_pending hpt) hreq netbuf
  all_goals rw [dispatchRx, he]; dsimp only
  · -- the token is freed
    simp only [hrx, hsig, List.erase_cons_head, List.erase_nil]
    exact portInv_recvFreed h hreq p.rxToken [.callBack t _ packet status _]
      (List.forall_mem_singleton.2 rfl) ⟨List.Subset.refl _, List.nodup_singleton t⟩ rfl
  · -- the `NET_BUF` goes to the user, and the token with it
    have hgone : t ∉ p.udpTx ++ p.txSignaled ++ none.toList := by
      simpa using fun h' => h.books.parts.2.1 h' (by simp [hreq])
    refine ⟨⟨h.books.sent, by simp [hrx, hsig], h.books.owned.trans ?_, h.books.liveNodup⟩,
      h.history.step h.books rfl le_rfl (fun u hu => .inl ?_) (fun u hu => .inl hu)
        (by simp [Event.isFault])
        ⟨List.nodup_singleton t, List.forall_mem_singleton.2 ⟨hpt, hgone⟩⟩
        ⟨List.nodup_nil, fun _ h => absurd h (List.not_mem_nil _)⟩
        (kept_of_live rfl fun u hu => .inl hu)⟩
    · show List.Perm _ (p.udpTx ++ p.txSignaled ++ [] ++ (p.netbufs ++ [t]))
      rw [Port.owned, hpend, List.append_nil, List.append_assoc, List.singleton_append]
      exact (List.perm_append_singleton t _).symm.append_left _
    · rw [hpend]; exact List.mem_append_left _ (by simpa [Port.pending] using hu)

/-! ## The user's calls -/

/-- A token allocated and freed again within a call: the lists and the pool are as they
    were, and the log gains the token's `NetFreePool`. -/
theorem portInv_freshFreed {p q : Port} (h : PortInv p)
    (hsent : ∀ ts, SentList p ts → SentList q ts) (hlive : q.live = p.live)
    (hnext : q.nextAddr = p.nextAddr + 1)
    (hlists : q.udpTx = p.udpTx ∧ q.txSignaled = p.txSignaled ∧ q.udpRx = p.udpRx ∧
      q.rxSignaled = p.rxSignaled ∧ q.recvRequest = p.recvRequest ∧ q.netbufs = p.netbufs)
    (hlog : q.log = p.log ++ [.freePool p.nextAddr]) : PortInv q := by
  obtain ⟨h1, h2, h3, h4, h5, h6⟩ := hlists
  obtain ⟨ts, hs, hts⟩ := h.books.sent
  have hpend : q.pending = p.pending := by simp only [Port.pending, h1, h2, h5]
  have hfresh : p.nextAddr ∉ p.live := fun h' => Nat.lt_irrefl _ (p.live_lt _ h')
  refine ⟨⟨⟨ts, hsent ts hs, by rw [h1, h2]; exact hts⟩, by rw [h3, h4, h5]; exact h.books.recv,
    by rw [hlive, Port.owned, hpend, h6]; exact h.books.owned, hlive ▸ h.books.liveNodup⟩,
    h.history.step h.books hlog (by omega) (fun t ht => .inl (hpend ▸ ht))
      (fun t ht => .inl (hlive ▸ ht)) (by simp [Event.isFault])
      ⟨List.nodup_nil, fun _ h => absurd h (List.not_mem_nil _)⟩
      ⟨List.nodup_singleton _, List.forall_mem_singleton.2 ⟨.inr ⟨le_rfl, by omega⟩, hlive ▸ hfresh⟩⟩
      (kept_of_fresh hnext (fun u hu => .inl (hlive ▸ hu)) (.inr (by simp [hlog, freedTokens, Event.freed])))⟩

/-- `UdpIoSendDatagram`, with the child ending no token inside `Transmit`: the token is freed
    when `NetAllocatePool`, `CreateEvent` or `Transmit` fails, and otherwise goes on
    `SentDatagram` as the child takes it. -/
theorem portInv_sendDatagram {p : Port} (h : PortInv p) (packet callBack context : Nat)
    (alloc : Bool) (createEvent status : EfiStatus) :
    PortInv (udpIoSendDatagram p packet callBack context alloc createEvent ⟨status, none⟩).2 := by
  obtain ⟨ts, hs, hts⟩ := h.books.sent
  have hfresh : p.nextAddr ∉ p.live := fun h' => Nat.lt_irrefl _ (p.live_lt _ h')
  have hnot : Entry.token p.nextAddr ∉ Entry.sentDatagram :: ts.map Entry.token := by
    simpa using fun h' => hfresh (hs.2 _ h')
  have hinit := isList_netListInit_of_not_mem hs.1 hnot
  have hsig : p.nextAddr ∉ p.txSignaled := fun h' =>
    hfresh (h.books.live_of_pending (by simp [Port.pending, h']))
  have hsent : ∀ us, SentList p us →
      IsList (netListInit p.links (.token p.nextAddr)) .sentDatagram (us.map Entry.token) :=
    fun us hus => isList_netListInit_of_not_mem hus.1 (by simpa using fun h' => hfresh (hus.2 _ h'))
  cases alloc
  · exact h
  have hhead : (p.links.forwardLink .sentDatagram).IsLive p :=
    (hs.isLive (List.mem_cons_self _ _)).2.1
  simp only [udpIoSendDatagram, udpIoWrapTx, netAllocatePool, if_true]
  cases hce : efiError createEvent
  · simp only [Bool.false_eq_true, if_false, udpTransmit]
    cases hst : efiError status
    · -- the child takes the token, and it goes on `SentDatagram`
      simp only [Bool.false_eq_true, if_false]
      rw [insertHead_of_isLive ⟨List.mem_cons_self _ _,
        by simpa using hhead.of_subset (List.subset_cons_self _ _)⟩]
      dsimp only
      have ho := h.books.owned
      simp only [Port.owned, Port.pending, List.append_assoc] at ho
      refine ⟨⟨⟨p.nextAddr :: ts, ⟨isList_netListInsertHead (hsent ts hs) (by simpa using hnot),
        List.forall_mem_cons.2 ⟨List.mem_cons_self _ _, fun u hu => List.mem_cons_of_mem _ (hs.2 u hu)⟩⟩,
        ?_⟩, h.books.recv, ?_, List.nodup_cons.2 ⟨hfresh, h.books.liveNodup⟩⟩,
        h.history.quiet h.books rfl (Nat.le_succ _) (fun u hu => ?_)
          (fun u hu => (List.mem_cons.1 hu).elim (fun h => .inr h.ge) .inl)
          (kept_of_fresh rfl (fun u hu => .inl (List.mem_cons_of_mem _ hu)) (.inl (List.mem_cons_self _ _)))⟩
      · show List.Perm _ (p.udpTx ++ [p.nextAddr] ++ p.txSignaled)
        rw [List.append_assoc, List.singleton_append]
        exact (hts.cons _).trans List.perm_middle.symm
      · show List.Perm _ (p.udpTx ++ [p.nextAddr] ++ p.txSignaled ++ p.recvRequest.toList ++ p.netbufs)
        simp only [List.append_assoc, List.singleton_append]
        exact (ho.cons _).trans List.perm_middle.symm
      · simp only [Port.pending, List.mem_append, List.mem_singleton] at hu ⊢
        rcases hu with ((hu | rfl) | hu) | hu
        · exact .inl (.inl (.inl hu))
        · exact .inr le_rfl
        · exact .inl (.inl (.inr hu))
        · exact .inl (.inr hu)
    · -- `Transmit` fails: the token is freed
      simp only [if_true, udpIoFreeTxToken_of_mem, List.mem_cons_self, Port.record,
        List.erase_cons_head, List.erase_of_not_mem hsig]
      exact portInv_freshFreed h (fun us hus => ⟨hsent us hus, hus.2⟩) rfl rfl
        ⟨rfl, rfl, rfl, rfl, rfl, rfl⟩ rfl
  · -- `CreateEvent` fails: the token is freed
    simp only [if_true, netFreePool_of_mem, List.mem_cons_self, Port.record, List.erase_cons_head]
    exact portInv_freshFreed h (fun us hus => ⟨hsent us hus, hus.2⟩) rfl rfl
      ⟨rfl, rfl, rfl, rfl, rfl, rfl⟩ rfl


/-- `UdpIoRecvDatagram`, with the child ending no token inside `Receive`: nothing changes when a
    receive is pending, the token is freed when a call fails, and otherwise it becomes
    `RecvRequest` as the child takes it. -/
theorem portInv_recvDatagram {p : Port} (h : PortInv p) (callBack context headLen : Nat)
    (alloc : Bool) (createEvent status : EfiStatus) :
    PortInv (udpIoRecvDatagram p callBack context headLen alloc createEvent ⟨status, none⟩).2 := by
  cases hreq : p.recvRequest with
  | some r => simpa [udpIoRecvDatagram, hreq] using h
  | none =>
  have hrx : p.udpRx = [] ∧ p.rxSignaled = [] := by
    have := h.books.recv; rw [hreq] at this; simpa using this
  have hfresh : p.nextAddr ∉ p.live := fun h' => Nat.lt_irrefl _ (p.live_lt _ h')
  cases alloc
  · simpa [udpIoRecvDatagram, udpIoCreateRxToken, hreq] using h
  obtain ⟨ts, hs, hts⟩ := h.books.sent
  simp only [udpIoRecvDatagram, hreq, Option.isSome_none, Bool.false_eq_true, if_false,
    udpIoCreateRxToken, netAllocatePool, if_true]
  cases hce : efiError createEvent
  · simp only [Bool.false_eq_true, if_false, udpReceive]
    by_cases hst : efiError status
    · -- `Receive` fails: the token is freed
      simp only [hst, if_true, udpIoFreeRxToken_of_mem, List.mem_cons_self, Port.record,
        List.erase_cons_head, hrx.2, List.erase_nil]
      exact portInv_freshFreed h (fun us hus => hus) rfl rfl ⟨rfl, rfl, rfl, hrx.2.symm, hreq.symm, rfl⟩ rfl
    · -- the child takes the token, and it becomes `RecvRequest`
      simp only [hst, if_false]
      have ho := h.books.owned
      simp only [Port.owned, Port.pending, hreq, Option.toList_none, List.append_nil] at ho
      refine ⟨⟨⟨ts, ⟨hs.1, fun u hu => List.mem_cons_of_mem _ (hs.2 u hu)⟩, hts⟩, ?_, ?_,
        List.nodup_cons.2 ⟨hfresh, h.books.liveNodup⟩⟩,
        h.history.quiet h.books rfl (Nat.le_succ _) (fun u hu => ?_)
          (fun u hu => (List.mem_cons.1 hu).elim (fun h => .inr h.ge) .inl)
          (kept_of_fresh rfl (fun u hu => .inl (List.mem_cons_of_mem _ hu)) (.inl (List.mem_cons_self _ _)))⟩
      · show p.udpRx ++ [p.nextAddr] ++ p.rxSignaled = [p.nextAddr]
        simp [hrx]
      · show List.Perm (p.nextAddr :: p.live) (p.udpTx ++ p.txSignaled ++ [p.nextAddr] ++ p.netbufs)
        exact (ho.cons _).trans
          (List.append_assoc (p.udpTx ++ p.txSignaled) [p.nextAddr] p.netbufs ▸ List.perm_middle.symm)
      · have : u ∈ p.udpTx ++ p.txSignaled ++ [p.nextAddr] := hu
        rw [List.mem_append, List.mem_singleton] at this
        exact this.elim (fun h => .inl (by simpa [Port.pending, hreq] using h)) fun h => .inr h.ge
  · -- `CreateEvent` fails: the token is freed
    simp only [if_true, netFreePool_of_mem, List.mem_cons_self, Port.record, List.erase_cons_head]
    exact portInv_freshFreed h (fun us hus => hus) rfl rfl ⟨rfl, rfl, rfl, rfl, hreq.symm, rfl⟩ rfl

/-- `UdpIoCancelDgrams` with `Cancel` running no notify function returns, and keeps the
    invariant: the selected tokens leave `SentDatagram`, the child and the pool, each called
    back and freed once. -/
theorem portInv_udpIoCancelDgrams {p : Port} (h : PortInv p) (ioStatus : EfiStatus)
    (toCancel : Option (UdpTxToken → Bool)) :
    ∃ q, udpIoCancelDgrams p ioStatus toCancel (fun _ => false) = some q ∧ PortInv q := by
  obtain ⟨ts, hs, hts⟩ := h.books.sent
  obtain ⟨htxnd, htxr, -, hpnb⟩ := h.books.parts
  obtain ⟨q, hrun, rfl, hsl, hlog⟩ := udpIoCancelDgrams_spec p ts ioStatus toCancel hs
  refine ⟨_, hrun, ?_⟩
  generalize hsel : ts.filter (fun t => isSelected toCancel (p.txToken t)) = sel at hsl hlog ⊢
  have hnd : ts.Nodup := hts.nodup_iff.2 htxnd
  have hselts : ∀ u, u ∈ sel ↔ u ∈ ts ∧ isSelected toCancel (p.txToken u) := by
    intro u; rw [← hsel, List.mem_filter]
  have hselpend : ∀ u ∈ sel, u ∈ p.udpTx ++ p.txSignaled := fun u hu =>
    hts.mem_iff.1 ((hselts u).1 hu).1
  have hlive := foldl_cancelTxToken_live ioStatus sel p
  obtain ⟨hudp, hsig⟩ := foldl_cancelTxToken_tx ioStatus sel htxnd
  obtain ⟨h1, h2, h3, h4, h5, -⟩ := foldl_cancelTxToken_frame ioStatus sel p
  obtain ⟨hcalled, hfreed⟩ := cancelledEvents_tokens ioStatus p.txToken sel
  have htxmem : ∀ u, u ∈ p.udpTx.diff sel ++ p.txSignaled.diff sel ↔ u ∈ ts ∧ u ∉ sel := by
    intro u
    rw [(List.nodup_append.1 htxnd).1.diff_eq_filter, (List.nodup_append.1 htxnd).2.1.diff_eq_filter,
      ← List.filter_append, List.mem_filter, hts.mem_iff, decide_eq_true_iff]
  have htxsub : (p.udpTx.diff sel ++ p.txSignaled.diff sel).Sublist (p.udpTx ++ p.txSignaled) :=
    (List.diff_sublist _ _).append (List.diff_sublist _ _)
  have hpend : (sel.foldl (cancelTxToken ioStatus fun _ => false) p).pending.Sublist p.pending := by
    rw [Port.pending, hudp, hsig, h1]; exact htxsub.append_right _
  have hown : (sel.foldl (cancelTxToken ioStatus fun _ => false) p).owned.Sublist p.owned := by
    rw [Port.owned, h4]; exact hpend.append_right _
  refine ⟨⟨⟨_, hsl, ?_⟩, by rw [h1, h2, h3]; exact h.books.recv, ?_, ?_⟩,
    h.history.step h.books hlog h5.ge (fun u hu => .inl (hpend.subset hu))
      (fun u hu => .inl (by rw [hlive] at hu; exact (List.diff_sublist _ _).subset hu))
      (cancelledEvents_noFault _ _ _) ⟨?_, fun u hu => ⟨?_, ?_⟩⟩ ⟨?_, fun u hu => ⟨?_, ?_⟩⟩
      (kept_of_live h5 fun u hu => ?_)⟩
  · rw [hudp, hsig]
    refine (List.perm_ext_iff_of_nodup (hnd.filter _) (htxsub.nodup htxnd)).2 fun u => ?_
    rw [htxmem, List.mem_filter, hselts]
    cases isSelected toCancel (p.txToken u) <;> simp
  · have hrest : ∀ l : List Nat, (∀ u ∈ l, u ∉ p.udpTx ++ p.txSignaled) →
        l.filter (· ∉ sel) = l := fun l hl =>
      List.filter_eq_self.2 fun u hu => decide_eq_true fun hs => hl u hu (hselpend u hs)
    rw [hlive]
    refine (h.books.owned.diff_right sel).trans (.of_eq ?_)
    rw [h.books.ownedNodup.diff_eq_filter, Port.owned, Port.pending, Port.owned, Port.pending,
      hudp, hsig, h1, h4, (List.nodup_append.1 htxnd).1.diff_eq_filter,
      (List.nodup_append.1 htxnd).2.1.diff_eq_filter, List.filter_append, List.filter_append,
      List.filter_append, hrest _ fun u h1 h2 => htxr h2 h1,
      hrest _ fun u h1 h2 => hpnb (List.mem_append_left _ h2) h1]
  · rw [hlive]; exact h.books.liveNodup.diff
  · rw [hcalled, ← hsel]; exact hnd.filter _
  · rw [hcalled] at hu; exact List.mem_append_left _ (hselpend u hu)
  · rw [hcalled] at hu
    rw [Port.pending, hudp, hsig, h1, List.mem_append, htxmem]
    rintro (⟨-, hn⟩ | hr)
    · exact hn hu
    · exact htxr (hselpend u hu) hr
  · rw [hfreed, ← hsel]; exact hnd.filter _
  · rw [hfreed] at hu; exact .inl (hs.2 u ((hselts u).1 hu).1)
  · rw [hfreed] at hu
    rw [hlive, h.books.liveNodup.mem_diff_iff]
    exact fun h' => h'.2 hu
  · rw [hlive, hfreed, h.books.liveNodup.mem_diff_iff]
    exact (em (u ∈ sel)).symm.imp (⟨hu, ·⟩) id


/-- The end of `UdpIoCleanPort`: `RecvRequest` cleared, its token cancelled in the child with
    no notify function run, and freed; the receive is not called back. -/
theorem portInv_cancelRecv {p : Port} {r : Nat} (h : PortInv p) (hr : p.recvRequest = some r) :
    PortInv (udpIoFreeRxToken (udpCancelRx { p with recvRequest := none } r false) r) := by
  have hlive : r ∈ p.live := h.books.live_of_pending (by simp [Port.pending, hr])
  have hrx : p.udpRx ++ p.rxSignaled = [r] := by rw [h.books.recv, hr]; rfl
  have freed := fun rxToken => portInv_recvFreed h hr rxToken []
    (fun _ h => absurd h (List.not_mem_nil _)) ⟨List.nil_subset _, List.nodup_nil⟩ rfl
  simp only [udpCancelRx, Bool.false_eq_true, if_false]
  split_ifs with hin
  · obtain ⟨hu, hsig, -⟩ := h.books.recv_of_mem_udpRx hin
    simp only [completeRx, touch_of_mem, udpIoFreeRxToken_of_mem, hlive, Port.record, hu, hsig,
      List.erase_cons_head, List.nil_append]
    exact freed _
  · have : r ∈ p.udpRx ++ p.rxSignaled := hrx ▸ List.mem_singleton_self r
    obtain ⟨hu, hsig, -⟩ := h.books.recv_of_mem_rxSignaled (by simpa [hin] using this)
    simp only [udpIoFreeRxToken_of_mem, hlive, Port.record, hu, hsig, List.erase_cons_head]
    exact freed _

/-- The receive part of `UdpIoCleanPort` leaves the transmit side alone, and `RecvRequest`
    cleared. -/
theorem cancelRecv_frame (p : Port) (r : Nat) :
    let q := udpIoFreeRxToken (udpCancelRx { p with recvRequest := none } r false) r
    q.udpTx = p.udpTx ∧ q.txSignaled = p.txSignaled ∧ q.recvRequest = none := by
  simp only [udpCancelRx, Bool.false_eq_true, if_false]
  split_ifs <;> dsimp only [udpIoFreeRxToken, netFreePool, touch, completeRx, Port.record] <;>
    exact ⟨rfl, rfl, rfl⟩

/-- Whatever `Cancel` runs, the receive part of `UdpIoCleanPort` ends the receive in the child
    and leaves the child's transmit tokens alone. -/
theorem cancelRx_udp (p : Port) (r : Nat) (notifyRx : Bool) :
    let q := udpIoFreeRxToken (udpCancelRx { p with recvRequest := none } r notifyRx) r
    q.udpTx = p.udpTx ∧ q.udpRx = p.udpRx.erase r := by
  unfold udpCancelRx
  split_ifs with hin
  · dsimp only [dispatchRx, udpIoOnDgramRcvd, completeRx]
    split_ifs <;> dsimp only [udpIoFreeRxToken, netFreePool, rxCallBack, touch, Port.record] <;>
      exact ⟨rfl, rfl⟩
  · exact ⟨rfl, rfl⟩
  · exact ⟨rfl, (List.erase_of_not_mem hin).symm⟩

/-- The walk of `UdpIoCleanPort`, with `Cancel` running no notify function, leaves the child no
    transmit token, held or signaled. -/
theorem udpIoCancelDgrams_all_tx {p q : Port} (h : PortInv p)
    (hq : udpIoCancelDgrams p .efiAborted none (fun _ => false) = some q) :
    q.udpTx = [] ∧ q.txSignaled = [] := by
  obtain ⟨ts, hs, hts⟩ := h.books.sent
  have htxnd := h.books.parts.1
  obtain ⟨q', hrun, hq', -, -⟩ := udpIoCancelDgrams_spec p ts .efiAborted none hs
  obtain rfl : q = q' := Option.some.inj (hq.symm.trans hrun)
  simp only [isSelected, List.filter_true] at hq'
  have hgone : ∀ l : List Nat, l.Nodup → l ⊆ p.udpTx ++ p.txSignaled → l.diff ts = [] :=
    fun l hl hsub => by
      rw [hl.diff_eq_filter, List.filter_eq_nil_iff]
      exact fun u hu => by simpa using hts.mem_iff.2 (hsub hu)
  obtain ⟨hudp, hsig⟩ := foldl_cancelTxToken_tx .efiAborted ts htxnd
  rw [hq', hudp, hsig]
  exact ⟨hgone _ (List.nodup_append.1 htxnd).1 (List.subset_append_left _ _),
    hgone _ (List.nodup_append.1 htxnd).2.1 (List.subset_append_right _ _)⟩

/-- **`Configure (NULL)` finds nothing to abort**: after the cancels of `UdpIoCleanPort`, with
    the walk's `Cancel` running no notify function, the child holds no token of the port,
    whatever the receive's `Cancel` runs. -/
theorem udpIoCleanPort_eq {p : Port} (h : PortInv p) (notifyRx : Bool) :
    udpIoCleanPort p (fun _ => false) notifyRx = cancelAll p (fun _ => false) notifyRx := by
  obtain ⟨m, hm, hinv⟩ := portInv_udpIoCancelDgrams h .efiAborted none
  have htx := (udpIoCancelDgrams_all_tx h hm).1
  have hrecv := hinv.books.recv
  rw [udpIoCleanPort, cancelAll, hm]
  cases hr : m.recvRequest with
  | none =>
    simp only [hr, Option.toList_none, List.append_eq_nil] at hrecv
    simp only [Option.bind_eq_bind, Option.some_bind, hr, Option.pure_def, Option.map_eq_map,
      Option.map_some', udpConfigureNull_of_idle htx hrecv.1]
  | some r =>
    obtain ⟨h1, h2⟩ := cancelRx_udp m r notifyRx
    have hrx : m.udpRx.erase r = [] := by
      have hsub := (List.sublist_append_left m.udpRx m.rxSignaled).erase r
      rw [hrecv, hr] at hsub
      simpa using hsub
    simp only [Option.bind_eq_bind, Option.some_bind, hr, Option.pure_def, Option.map_eq_map,
      Option.map_some', udpConfigureNull_of_idle (h1.trans htx) (h2.trans hrx)]

/-- **`Configure (NULL)` keeps the invariant**: it ends the tokens the child holds, as the
    child may at any time. -/
theorem portInv_udpConfigureNull {p : Port} (h : PortInv p) : PortInv (udpConfigureNull p) := by
  refine List.foldlRecOn (motive := PortInv) _ _ _
    (List.foldlRecOn (motive := PortInv) _ _ _ h fun q hq t _ => ?_) fun q hq t _ => ?_
  · simp only [udpCancelTx, Bool.false_eq_true, if_false]
    split_ifs with ht
    exacts [portInv_completeTx hq ht _, hq]
  · simp only [udpCancelRx, Bool.false_eq_true, if_false]
    split_ifs with ht
    exacts [portInv_completeRx hq ht _ _, hq]

/-- `UdpIoFreePort` runs the cancels of `UdpIoCleanPort`, without `Configure (NULL)`. -/
theorem udpIoFreePort_snd (p : Port) (notifyTx : Nat → Bool) (notifyRx : Bool) :
    Prod.snd <$> udpIoFreePort p notifyTx notifyRx = cancelAll p notifyTx notifyRx := by
  rw [udpIoFreePort]
  cases cancelAll p notifyTx notifyRx <;> rfl

/-- `UdpIoCleanPort` with `Cancel` running no notify function returns, and keeps the
    invariant. -/
theorem portInv_udpIoCleanPort {p : Port} (h : PortInv p) :
    ∃ q, udpIoCleanPort p (fun _ => false) false = some q ∧ PortInv q := by
  obtain ⟨q, hq, hinv⟩ := portInv_udpIoCancelDgrams h .efiAborted none
  rw [udpIoCleanPort_eq h, cancelAll, hq]
  cases hr : q.recvRequest with
  | none => exact ⟨q, by simp [hr], hinv⟩
  | some r => exact ⟨_, by simp [hr], portInv_cancelRecv hinv hr⟩

/-- `UdpIoCleanPort` leaves no request pending: it cancels every transmit token the child
    holds or has signaled, and the receive. -/
theorem udpIoCleanPort_pending {p q : Port} (h : PortInv p)
    (hq : udpIoCleanPort p (fun _ => false) false = some q) : q.pending = [] := by
  obtain ⟨q', hrun, -⟩ := portInv_udpIoCancelDgrams h .efiAborted none
  have htx := udpIoCancelDgrams_all_tx h hrun
  rw [udpIoCleanPort_eq h, cancelAll, hrun] at hq
  cases hr : q'.recvRequest with
  | none =>
    simp only [Option.bind_eq_bind, Option.some_bind, hr] at hq
    cases hq
    simp [Port.pending, htx, hr]
  | some r =>
    simp only [Option.bind_eq_bind, Option.some_bind, hr] at hq
    cases hq
    obtain ⟨h1, h2, h3⟩ := cancelRecv_frame q' r
    rw [Port.pending, h1, h2, h3, htx.1, htx.2]; rfl

/-! ## Runs -/

/-- Whether the calls of a step run no notify function before they return: the child ends no
    token inside `Transmit` or `Receive`, and `Cancel` runs no notify function. -/
def Step.notifiesLater : Step → Bool
  | .sendDatagram _ _ _ _ _ transmit => transmit.completeInside.isNone
  | .cancelSentDatagram _ tx => tx.isEmpty
  | .recvDatagram _ _ _ _ _ receive => receive.completeInside.isNone
  | .cleanPort tx rx | .freePort tx rx => tx.isEmpty && !rx
  | _ => true

/-- **Every such step keeps the invariant.** -/
theorem portInv_step {p q : Port} {s : Step} (h : PortInv p) (hs : s.notifiesLater)
    (hq : step p s = some q) : PortInv q := by
  cases s with
  | sendDatagram packet callBack context alloc createEvent transmit =>
    obtain ⟨status, _ | _⟩ := transmit
    · cases hq; exact portInv_sendDatagram h packet callBack context alloc createEvent status
    · simp [Step.notifiesLater] at hs
  | cancelSentDatagram packet notifyTx =>
    obtain rfl : notifyTx = [] := by simpa [Step.notifiesLater] using hs
    obtain ⟨q', hq', hinv⟩ :=
      portInv_udpIoCancelDgrams h .efiAborted (some (udpIoCancelSingleDgram packet))
    exact Option.some.inj (hq.symm.trans hq') ▸ hinv
  | recvDatagram callBack context headLen alloc createEvent receive =>
    obtain ⟨status, _ | _⟩ := receive
    · cases hq; exact portInv_recvDatagram h callBack context headLen alloc createEvent status
    · simp [Step.notifiesLater] at hs
  | recycleDgram t =>
    simp only [step] at hq
    split at hq
    · cases hq; exact portInv_recycleDgram h ‹_›
    · cases hq
  | cleanPort notifyTx notifyRx =>
    obtain ⟨rfl, rfl⟩ : notifyTx = [] ∧ notifyRx = false := by simpa [Step.notifiesLater] using hs
    obtain ⟨q', hq', hinv⟩ := portInv_udpIoCleanPort h
    exact Option.some.inj (hq.symm.trans hq') ▸ hinv
  | freePort notifyTx notifyRx =>
    obtain ⟨rfl, rfl⟩ : notifyTx = [] ∧ notifyRx = false := by simpa [Step.notifiesLater] using hs
    obtain ⟨q', hq', hinv⟩ := portInv_udpIoCleanPort h
    simp only [step, udpIoFreePort_snd, List.not_mem_nil, decide_False] at hq
    rw [← udpIoCleanPort_eq h, hq'] at hq
    exact Option.some.inj hq ▸ hinv
  | completeTx t status =>
    simp only [step] at hq
    split at hq
    · cases hq; exact portInv_completeTx h ‹_› status
    · cases hq
  | completeRx t status rxData =>
    simp only [step] at hq
    split at hq
    · cases hq; exact portInv_completeRx h ‹_› status rxData
    · cases hq
  | notifyTx t =>
    simp only [step] at hq
    split at hq
    · cases hq; exact portInv_notifyTx h ‹_›
    · cases hq
  | notifyRx t netbuf =>
    simp only [step] at hq
    split at hq
    · cases hq; exact portInv_notifyRx h ‹_› netbuf
    · cases hq

/-- **Every such run keeps the invariant.** -/
theorem run_portInv : ∀ (steps : List Step) {p q : Port}, PortInv p →
    (∀ s ∈ steps, s.notifiesLater) → run p steps = some q → PortInv q
  | [], _, _, h, _, hq => Option.some.inj hq ▸ h
  | s :: steps, p, q, h, hs, hq => by
    obtain ⟨p', hp', hq'⟩ := Option.bind_eq_some.1 hq
    exact run_portInv steps (portInv_step h (hs s (List.mem_cons_self _ _)) hp')
      (fun s' h' => hs s' (List.mem_cons_of_mem _ h')) hq'

/-- **Safety**: from a new port, every run whose notify functions run between calls, and whose
    `CallBack`s make no call on the port, accesses no token that is not allocated and fails no
    `ASSERT`, calls back each request at most once, and frees each token at most once. -/
theorem udpIoCreatePort_run_safe (steps : List Step) (hs : ∀ s ∈ steps, s.notifiesLater)
    {q : Port} (hq : run udpIoCreatePort steps = some q) :
    (∀ e ∈ q.log, e.isFault = false) ∧ (callBackTokens q.log).Nodup ∧
      (freedTokens q.log).Nodup :=
  have h := (run_portInv steps portInv_udpIoCreatePort hs hq).history
  ⟨h.noFault, h.calledOnce, h.freedOnce⟩

/-- A life of a new port: packet 7 sent, ended and called back; a receive taken, ended with
    data and delivered, its `NET_BUF` recycled; packet 8 sent and cancelled by
    `UdpIoCleanPort`. -/
def portLife : List Step :=
  [.sendDatagram 7 1 10 true .efiSuccess ⟨.efiSuccess, none⟩,
   .recvDatagram 2 20 0 true .efiSuccess ⟨.efiSuccess, none⟩,
   .completeTx 0 .efiSuccess, .notifyTx 0,
   .completeRx 1 .efiSuccess true, .notifyRx 1 true, .recycleDgram 1,
   .sendDatagram 8 1 11 true .efiSuccess ⟨.efiSuccess, none⟩,
   .cleanPort [] false]

theorem udpIoCreatePort_run_safe_life :
    (∀ s ∈ portLife, s.notifiesLater) ∧ ∃ q, run udpIoCreatePort portLife = some q ∧
      (∀ e ∈ q.log, e.isFault = false) ∧ (callBackTokens q.log).Nodup ∧
      (freedTokens q.log).Nodup := by
  have hs : ∀ s ∈ portLife, s.notifiesLater := by decide
  obtain ⟨q, hq⟩ := Option.isSome_iff_exists.1 (show (run udpIoCreatePort portLife).isSome by decide)
  exact ⟨hs, q, hq, udpIoCreatePort_run_safe portLife hs hq⟩

/-- **The bookkeeping agrees with the child**: from a new port, after every run whose notify
    functions run between calls and whose `CallBack`s make no call on the port, `SentDatagram`
    holds exactly the transmit tokens the child holds or has signaled, `RecvRequest` is exactly
    the receive token it holds or has signaled, and the pool holds exactly the tokens the port
    owns. -/
theorem udpIoCreatePort_run_books (steps : List Step) (hs : ∀ s ∈ steps, s.notifiesLater)
    {q : Port} (hq : run udpIoCreatePort steps = some q) :
    (∃ ts, SentList q ts ∧ ts.Perm (q.udpTx ++ q.txSignaled)) ∧
      q.udpRx ++ q.rxSignaled = q.recvRequest.toList ∧ q.live.Perm q.owned :=
  have h := (run_portInv steps portInv_udpIoCreatePort hs hq).books
  ⟨h.sent, h.recv, h.owned⟩

theorem udpIoCreatePort_run_books_life :
    (∀ s ∈ portLife, s.notifiesLater) ∧ ∃ q, run udpIoCreatePort portLife = some q ∧
      (∃ ts, SentList q ts ∧ ts.Perm (q.udpTx ++ q.txSignaled)) ∧
      q.udpRx ++ q.rxSignaled = q.recvRequest.toList ∧ q.live.Perm q.owned := by
  have hs : ∀ s ∈ portLife, s.notifiesLater := by decide
  obtain ⟨q, hq⟩ := Option.isSome_iff_exists.1 (show (run udpIoCreatePort portLife).isSome by decide)
  exact ⟨hs, q, hq, udpIoCreatePort_run_books portLife hs hq⟩

/-! ## Nothing is lost -/

/-- **The pool's books balance**: every address the pool has handed out is allocated or was
    freed, not both, and freed once. -/
theorem PortInv.freed_live_perm {p : Port} (h : PortInv p) :
    (freedTokens p.log ++ p.live).Perm (List.range p.nextAddr) := by
  refine (List.perm_ext_iff_of_nodup (List.nodup_append.2 ⟨h.history.freedOnce,
    h.books.liveNodup, fun t h1 h2 => h.history.freedNotLive t h1 h2⟩) (List.nodup_range _)).2
    fun t => ?_
  rw [List.mem_append, List.mem_range]
  exact ⟨fun ht => ht.elim (h.history.freedBelow t) (p.live_lt t),
    fun ht => (h.history.noLeak t ht).symm⟩

/-- **No leak, no double free**: from a new port, after every run whose notify functions run
    between calls and whose `CallBack`s make no call on the port, each address the pool has
    handed out is still allocated or was freed, and freed once; and the tokens still allocated
    are exactly those the port owns, each once: its pending requests and the `NET_BUF`s the user
    holds. -/
theorem udpIoCreatePort_run_noLeak (steps : List Step) (hs : ∀ s ∈ steps, s.notifiesLater)
    {q : Port} (hq : run udpIoCreatePort steps = some q) :
    (freedTokens q.log ++ q.live).Perm (List.range q.nextAddr) ∧ q.live.Perm q.owned :=
  have h := run_portInv steps portInv_udpIoCreatePort hs hq
  ⟨h.freed_live_perm, h.books.owned⟩

theorem udpIoCreatePort_run_noLeak_life :
    (∀ s ∈ portLife, s.notifiesLater) ∧ ∃ q, run udpIoCreatePort portLife = some q ∧
      (freedTokens q.log ++ q.live).Perm (List.range q.nextAddr) ∧ q.live.Perm q.owned := by
  have hs : ∀ s ∈ portLife, s.notifiesLater := by decide
  obtain ⟨q, hq⟩ := Option.isSome_iff_exists.1 (show (run udpIoCreatePort portLife).isSome by decide)
  exact ⟨hs, q, hq, udpIoCreatePort_run_noLeak portLife hs hq⟩

end UdpIo
