import MdeModulePkg.UdpIo.Reentrant
import MdeModulePkg.UdpIo.Delivery

/-! # Callbacks that restart requests

    The comment in `UdpIoOnDgramRcvd` expects the user's `CallBack` to start a request again;
    a `CallBack` that only starts requests (`UdpIoSendDatagram`, `UdpIoRecvDatagram`) and
    recycles the `NET_BUF`s the user holds keeps the port safe, wherever it runs: in the notify
    functions, and inside the walk of `UdpIoCancelDgrams`, whose `Next` the new datagrams do
    not disturb, since `NetListInsertHead` puts them behind the walk.

    * `HeldInv` (in `Safety`) is the invariant while a `CallBack` runs, and each restarting
      call keeps it (`heldInv_callR`), since it commutes with `Port.hold`;
    * `callBackR_restart`: what each restarting call keeps, a whole `CallBack` keeps;
    * `WalkInv` and `walkInv_cancelDgramsLoopR`: the walk, from any point of it, with the
      tokens ahead of it still on `SentDatagram`, behind the new ones;
    * `portInv_stepR`, `runR_portInv`, and `udpIoCreatePort_runR_safe`: every run from a new
      port is safe;
    * `callR_cleanPort_leaves`: what `UdpIoCleanPort` and `UdpIoFreePort` leave is what the
      `CallBack`s sent, and `udpIoCancelDgramsR_leaves_resent`: so the walk alone may leave
      `SentDatagram` holding more than the tokens it did not select;
    * `stepR_isSome`: with `CallBack`s that start a bounded number of requests, every step
      ends. -/

namespace UdpIo

open Base NetList

/-- Whether the user's code only restarts requests: every call a `CallBack` makes starts a
    request or recycles a `NET_BUF`. -/
def RestartOnly (react : Port → Event → List Call) : Prop :=
  ∀ p e, ∀ c ∈ react p e, c.isRestart

/-- Whether a call only starts a request: `UdpIoSendDatagram` or `UdpIoRecvDatagram`. -/
def Call.isStart : Call → Bool
  | .sendDatagram .. | .recvDatagram .. => true
  | .recycleDgram _ | .cancelSentDatagram _ | .cleanPort => false

/-- The user's code makes at most `n` calls in a `CallBack`, each of which starts a request. -/
def StartsAtMost (react : Port → Event → List Call) (n : Nat) : Prop :=
  ∀ p e, (react p e).length ≤ n ∧ ∀ c ∈ react p e, c.isStart

theorem StartsAtMost.restartOnly {react : Port → Event → List Call} {n : Nat}
    (hr : StartsAtMost react n) : RestartOnly react := fun p e c hc => by
  have := (hr p e).2 c hc
  cases c <;> simp_all [Call.isStart, Call.isRestart]

/-! ## What a restarting call does -/

/-- What `UdpIoSendDatagram` does to the links, the pool and the signaled tokens: at most a
    fresh token goes in front of `SentDatagram`, and at most a fresh token's signal is
    dropped. -/
theorem udpIoSendDatagram_fields (p : Port) (packet callBack context : Nat) (alloc : Bool)
    (createEvent status : EfiStatus) :
    let q := (udpIoSendDatagram p packet callBack context alloc createEvent ⟨status, none⟩).2
    (q.links = p.links ∨ q.links = netListInit p.links (.token p.nextAddr) ∨
      q.links = netListInsertHead (netListInit p.links (.token p.nextAddr)) .sentDatagram
        (.token p.nextAddr) ∧ p.nextAddr ∈ q.live) ∧
    p.live ⊆ q.live ∧ q.txSignaled ⊆ p.txSignaled ∧ p.nextAddr ≤ q.nextAddr := by
  cases alloc
  · exact ⟨.inl rfl, List.Subset.refl _, List.Subset.refl _, le_rfl⟩
  simp only [udpIoSendDatagram, udpIoWrapTx, netAllocatePool, if_true]
  cases hce : efiError createEvent
  · simp only [Bool.false_eq_true, if_false, udpTransmit]
    cases hst : efiError status
    · simp only [Bool.false_eq_true, if_false]
      exact ⟨.inr (.inr ⟨rfl, List.mem_cons_self _ _⟩), List.subset_cons_self _ _,
        List.Subset.refl _, Nat.le_succ _⟩
    · simp only [if_true]
      refine ⟨.inr (.inl rfl), fun u hu => ?_, List.erase_subset _ _, Nat.le_succ _⟩
      simp [udpIoFreeTxToken, netFreePool, touch, Port.record, hu]
  · simp only [if_true]
    refine ⟨.inr (.inl rfl), fun u hu => ?_, List.Subset.refl _, Nat.le_succ _⟩
    simp [netFreePool, touch, Port.record, hu]

/-- What `UdpIoRecvDatagram` does to them: nothing to the links or the transmit side. -/
theorem udpIoRecvDatagram_fields (p : Port) (callBack context headLen : Nat) (alloc : Bool)
    (createEvent status : EfiStatus) :
    let q := (udpIoRecvDatagram p callBack context headLen alloc createEvent ⟨status, none⟩).2
    q.links = p.links ∧ p.live ⊆ q.live ∧ q.txSignaled = p.txSignaled ∧
      p.nextAddr ≤ q.nextAddr := by
  by_cases hs : p.recvRequest.isSome
  · simp [udpIoRecvDatagram, hs]
  cases alloc
  · simp [udpIoRecvDatagram, udpIoCreateRxToken, hs]
  by_cases hce : efiError createEvent
  · simp [udpIoRecvDatagram, udpIoCreateRxToken, netAllocatePool, netFreePool, touch, Port.record,
      hs, hce]
  by_cases hst : efiError status <;>
  simp [udpIoRecvDatagram, udpIoCreateRxToken, netAllocatePool, udpReceive, udpIoFreeRxToken,
    netFreePool, touch, Port.record, hs, hce, hst]

/-- `UdpIoSendDatagram` never reads what the port holds for the user, nor a stale signal. -/
theorem hold_sendDatagram (p : Port) (t packet callBack context : Nat) (alloc : Bool)
    (createEvent status : EfiStatus) :
    (udpIoSendDatagram (p.hold t) packet callBack context alloc createEvent ⟨status, none⟩).2 =
      (udpIoSendDatagram p packet callBack context alloc createEvent ⟨status, none⟩).2.hold t := by
  cases alloc
  · rfl
  simp only [udpIoSendDatagram, udpIoWrapTx, netAllocatePool, if_true, udpTransmit]
  split_ifs <;> dsimp only [udpIoFreeTxToken, netFreePool, touch, Port.hold, Port.record,
    insertHead, touchEntry]
  rw [List.erase_comm]

/-- Nor does `UdpIoRecvDatagram`. -/
theorem hold_recvDatagram (p : Port) (t callBack context headLen : Nat) (alloc : Bool)
    (createEvent status : EfiStatus) :
    (udpIoRecvDatagram (p.hold t) callBack context headLen alloc createEvent ⟨status, none⟩).2 =
      (udpIoRecvDatagram p callBack context headLen alloc createEvent ⟨status, none⟩).2.hold t := by
  have hr : (p.hold t).recvRequest = p.recvRequest := rfl
  by_cases hs : p.recvRequest.isSome
  · simp only [udpIoRecvDatagram, hr, hs, if_true]
  simp only [udpIoRecvDatagram, hr, hs, Bool.false_eq_true, if_false]
  cases alloc
  · rfl
  simp only [udpIoCreateRxToken, netAllocatePool, udpReceive, if_true]
  split_ifs <;> rfl

/-- Recycling another `NET_BUF` leaves the held one in place. -/
theorem hold_recycleDgram {p : Port} {t u : Nat} (hu : u ∈ p.netbufs) :
    udpIoRecycleDgram (p.hold t) u = (udpIoRecycleDgram p u).hold t := by
  dsimp only [udpIoRecycleDgram, udpIoFreeRxToken, netFreePool, touch, Port.hold, Port.record]
  rw [List.erase_append_left _ hu]

/-- **What a restarting call can do**: it is `UdpIoSendDatagram` or `UdpIoRecvDatagram`, or it
    recycles a `NET_BUF` the user holds. -/
theorem callR_restart {react : Port → Event → List Call} {fuel : Nat} {p q : Port} {c : Call}
    (hc : c.isRestart) (h : callR react fuel p c = some q) :
    (∃ packet callBack context alloc createEvent transmit,
      q = (udpIoSendDatagram p packet callBack context alloc createEvent ⟨transmit, none⟩).2) ∨
    (∃ callBack context headLen alloc createEvent receive,
      q = (udpIoRecvDatagram p callBack context headLen alloc createEvent ⟨receive, none⟩).2) ∨
    (∃ u ∈ p.netbufs, q = udpIoRecycleDgram p u) := by
  cases fuel with
  | zero => cases h
  | succ n =>
    cases c with
    | sendDatagram => exact .inl ⟨_, _, _, _, _, _, (Option.some.inj h).symm⟩
    | recvDatagram => exact .inr (.inl ⟨_, _, _, _, _, _, (Option.some.inj h).symm⟩)
    | recycleDgram u =>
      simp only [callR] at h
      split_ifs at h with hu
      exact .inr (.inr ⟨u, hu, (Option.some.inj h).symm⟩)
    | cancelSentDatagram | cleanPort => cases hc

/-! ## What a restarting call keeps -/

/-- The tokens on `SentDatagram` are distinct addresses the pool handed out. -/
theorem SentList.length_le {p : Port} {ts : List Nat} (hs : SentList p ts) :
    ts.length ≤ p.nextAddr := by
  simpa using (List.subperm_of_subset ((List.nodup_cons.1 hs.1.1).2.of_map _) fun t ht =>
    List.mem_range.2 (p.live_lt t (hs.2 t ht))).length_le

/-- The tokens on `SentDatagram` are none of the `NET_BUF`s the user holds. -/
theorem Books.not_netbufs {p : Port} (hb : Books p) {l : List Nat} (hs : SentList p l) :
    ∀ u ∈ l, u ∉ p.netbufs := by
  obtain ⟨ts, hts, hperm⟩ := hb.sent
  obtain rfl : ts = l := hts.unique hs
  exact fun u hu hn => hb.parts.2.2.2 (List.mem_append_left _ (hperm.mem_iff.1 hu)) hn

section Restart

variable {react : Port → Event → List Call} {fuel : Nat} {p q : Port} {c : Call}

theorem portInv_callR (hc : c.isRestart) (h : callR react fuel p c = some q) (hp : PortInv p) :
    PortInv q := by
  obtain ⟨_, _, _, _, _, _, rfl⟩ | ⟨_, _, _, _, _, _, rfl⟩ | ⟨u, hu, rfl⟩ := callR_restart hc h
  · exact portInv_sendDatagram hp ..
  · exact portInv_recvDatagram hp ..
  · exact portInv_recycleDgram hp hu

/-- **A restarting call keeps a `CallBack`'s token held.** -/
theorem heldInv_callR {t : Nat} (hc : c.isRestart) (h : callR react fuel p c = some q)
    (hp : HeldInv t p) : HeldInv t q := by
  obtain ⟨_, _, _, _, _, _, rfl⟩ | ⟨_, _, _, _, _, _, rfl⟩ | ⟨u, hu, rfl⟩ := callR_restart hc h
  · rw [HeldInv, ← hold_sendDatagram]; exact portInv_sendDatagram hp ..
  · rw [HeldInv, ← hold_recvDatagram]; exact portInv_recvDatagram hp ..
  · rw [HeldInv, ← hold_recycleDgram hu]
    exact portInv_recycleDgram hp (List.mem_append_left _ hu)

/-- It signals no token. -/
theorem txSignaled_callR (hc : c.isRestart) (h : callR react fuel p c = some q) :
    q.txSignaled ⊆ p.txSignaled := by
  obtain ⟨a, b, d, al, ce, st, rfl⟩ | ⟨a, b, d, al, ce, st, rfl⟩ | ⟨u, hu, rfl⟩ :=
    callR_restart hc h
  · exact (udpIoSendDatagram_fields p a b d al ce st).2.2.1
  · exact (udpIoRecvDatagram_fields p a b d al ce st).2.2.1 ▸ List.Subset.refl _
  · exact List.Subset.refl _

/-- It allocates at most a fresh address. -/
theorem nextAddr_callR (hc : c.isRestart) (h : callR react fuel p c = some q) :
    p.nextAddr ≤ q.nextAddr := by
  obtain ⟨a, b, d, al, ce, st, rfl⟩ | ⟨a, b, d, al, ce, st, rfl⟩ | ⟨u, hu, rfl⟩ :=
    callR_restart hc h
  · exact (udpIoSendDatagram_fields p a b d al ce st).2.2.2
  · exact (udpIoRecvDatagram_fields p a b d al ce st).2.2.2
  · exact le_rfl

/-- It keeps the datagrams on `SentDatagram` in their order, behind those it sends, which are
    fresh. -/
theorem sentList_callR {l : List Nat} (hc : c.isRestart) (h : callR react fuel p c = some q)
    (hs : SentList p l) (hl : ∀ u ∈ l, u ∉ p.netbufs) :
    ∃ new, SentList q (new ++ l) ∧ ∀ u ∈ new, p.nextAddr ≤ u := by
  obtain ⟨a, b, d, al, ce, st, rfl⟩ | ⟨a, b, d, al, ce, st, rfl⟩ | ⟨u, hu, rfl⟩ :=
    callR_restart hc h
  · obtain ⟨hlinks, hlive, -, -⟩ := udpIoSendDatagram_fields p a b d al ce st
    have hfresh : p.nextAddr ∉ l := fun h => Nat.lt_irrefl _ (p.live_lt _ (hs.2 _ h))
    have hinit : IsList (netListInit p.links (.token p.nextAddr)) .sentDatagram (l.map .token) :=
      isList_netListInit_of_not_mem hs.1 (by simpa using hfresh)
    rcases hlinks with hq | hq | ⟨hq, hf⟩
    · exact ⟨[], by
        rw [List.nil_append, SentList, hq]; exact ⟨hs.1, fun u hu => hlive (hs.2 u hu)⟩, nofun⟩
    · exact ⟨[], by
        rw [List.nil_append, SentList, hq]; exact ⟨hinit, fun u hu => hlive (hs.2 u hu)⟩, nofun⟩
    · refine ⟨[p.nextAddr], ?_, by simp⟩
      rw [SentList, hq]
      exact ⟨isList_netListInsertHead hinit (by simpa using hfresh),
        List.forall_mem_cons.2 ⟨hf, fun u hu => hlive (hs.2 u hu)⟩⟩
  · obtain ⟨hlinks, hlive, -, -⟩ := udpIoRecvDatagram_fields p a b d al ce st
    exact ⟨[], by
      rw [List.nil_append, SentList, hlinks]; exact ⟨hs.1, fun u hu => hlive (hs.2 u hu)⟩, nofun⟩
  · refine ⟨[], ⟨hs.1, fun w hw => ?_⟩, nofun⟩
    have hne : w ≠ u := fun h => hl w hw (h ▸ hu)
    simpa [udpIoRecycleDgram, udpIoFreeRxToken, netFreePool, touch, Port.record, hne]
      using hs.2 w hw

end Restart

/-! ## A `CallBack` that restarts requests -/

section CallBack

variable {react : Port → Event → List Call}

/-- What each restarting call keeps, the calls of a `CallBack` keep. -/
theorem callsR_restart {P : Port → Prop}
    (hP : ∀ {n p q c}, c.isRestart → callR react n p c = some q → P p → P q) :
    ∀ {n p q} (cs : List Call), (∀ c ∈ cs, c.isRestart) → callsR react n p cs = some q →
      P p → P q
  | n, p, q, [], _, h, hp => by
    rw [callsR_nil] at h
    exact Option.some.inj h ▸ hp
  | 0, _, _, _ :: _, _, h, _ => by cases h
  | n + 1, p, q, c :: cs, hcs, h, hp => by
    obtain ⟨p', h1, h2⟩ := Option.bind_eq_some.1 h
    exact callsR_restart hP cs (fun c' h' => hcs c' (List.mem_cons_of_mem _ h')) h2
      (hP (hcs c (List.mem_cons_self _ _)) h1 hp)

/-- **What each restarting call keeps, a whole `CallBack` keeps**, when the user's code only
    restarts requests. -/
theorem callBackR_restart (hr : RestartOnly react) {P : Port → Prop}
    (hP : ∀ {n p q c}, c.isRestart → callR react n p c = some q → P p → P q)
    {n : Nat} {p q : Port} {e : Event} (h : callBackR react n p e = some q) (hp : P (p.record e)) :
    P q := by
  cases n with
  | zero => cases h
  | succ n => exact callsR_restart hP _ (hr _ _) h hp

end CallBack

/-! ## The notify functions -/

section Runs

variable {react : Port → Event → List Call} (hr : RestartOnly react)

include hr in
/-- The notify function of a signaled transmit token, with a `CallBack` that restarts
    requests. -/
theorem portInv_dispatchTxR {fuel : Nat} {p q : Port} {t : Nat} (h : PortInv p)
    (ht : t ∈ p.txSignaled) (hq : dispatchTxR react fuel p t = some q) : PortInv q := by
  obtain ⟨m, hm, ⟨⟩⟩ := Option.bind_eq_some.1 hq
  exact portInv_udpIoFreeTxToken
    (callBackR_restart hr (fun hc h' => heldInv_callR hc h') hm (heldInv_notifyTx h ht _))

/-- The notify function of the signaled receive, up to a `CallBack` after which the token is
    freed: `RecvRequest` is cleared, and the token is called back. -/
theorem heldInv_rxCalled {p : Port} {t : Nat} (h : PortInv p) (ht : t ∈ p.rxSignaled)
    (packet : Option Nat) (status : EfiStatus) :
    let q := touch { p with rxSignaled := p.rxSignaled.erase t } t
    let q := { q with log := q.log ++ assertRecvRequest q t, recvRequest := none }
    HeldInv t (rxCallBack q t packet status) ∧ t ∉ (rxCallBack q t packet status).txSignaled := by
  obtain ⟨hrx, hsig, hreq⟩ := h.books.recv_of_mem_rxSignaled ht
  have hlive : t ∈ p.live := h.books.live_of_pending (by simp [Port.pending, hreq])
  intro q q'
  have hlog : (rxCallBack q' t packet status).log =
      p.log ++ [.callBack t (p.rxToken t).callBack packet status (p.rxToken t).context] := by
    simp [q', q, rxCallBack, touch, accessLog, assertRecvRequest, Port.record, hlive, hreq]
  exact heldInv_recvDone h hreq rfl rfl rfl ⟨rfl, rfl, rfl⟩
    ⟨hrx, by show p.rxSignaled.erase t = []; rw [hsig, List.erase_cons_head], rfl⟩ hlog
    (by simp [Event.isFault]) ⟨by simp [callBackTokens, Event.calledBack], by
      simp [callBackTokens, Event.calledBack]⟩ rfl

include hr in
/-- The notify function of the signaled receive, with a `CallBack` that restarts requests:
    `RecvRequest` is cleared before it, and its token freed after it, unless its `NET_BUF` went
    to the user. -/
theorem portInv_dispatchRxR {fuel : Nat} {p q : Port} {t : Nat} {netbuf : Bool} (h : PortInv p)
    (ht : t ∈ p.rxSignaled) (hq : dispatchRxR react fuel p t netbuf = some q) : PortInv q := by
  have hfreed : ∀ {packet status m}, rxCallBackR react fuel
      { touch { p with rxSignaled := p.rxSignaled.erase t } t with
        log := (touch { p with rxSignaled := p.rxSignaled.erase t } t).log ++
          assertRecvRequest (touch { p with rxSignaled := p.rxSignaled.erase t } t) t,
        recvRequest := none } t packet status = some m → PortInv (udpIoFreeRxToken m t) :=
    fun hm => by
      have hm := callBackR_restart hr (P := fun m => HeldInv t m ∧ t ∉ m.txSignaled)
        (fun hc h' hp => ⟨heldInv_callR hc h' hp.1, fun hm => hp.2 (txSignaled_callR hc h' hm)⟩)
        hm (heldInv_rxCalled h ht _ _)
      exact portInv_udpIoFreeRxToken hm.1 hm.2
  rw [dispatchRxR, udpIoOnDgramRcvdR] at hq
  split_ifs at hq with h1 h2
  · obtain ⟨m, hm, ⟨⟩⟩ := Option.bind_eq_some.1 hq
    exact hfreed hm
  · -- the `NET_BUF` goes to the user, and the token with it
    have hd := portInv_notifyRx h ht true
    rw [dispatchRx, udpIoOnDgramRcvd, if_neg h1, if_pos rfl] at hd
    exact callBackR_restart hr portInv_callR hq hd
  · obtain ⟨m, hm, ⟨⟩⟩ := Option.bind_eq_some.1 hq
    exact hfreed hm

/-! ## The walk of `UdpIoCancelDgrams` -/

/-- The body of the walk for a token on `SentDatagram`, up to the `CallBack`: the token left
    the list and the child, and the tokens around it stay on the list in their order. -/
theorem heldInv_cancelTx {p : Port} {t : Nat} {xs ys : List Nat} (h : PortInv p)
    (hs : SentList p (xs ++ t :: ys)) (ioStatus : EfiStatus) :
    HeldInv t (txCallBack (udpCancelTx (removeEntry p (.token t)) t false) t ioStatus) ∧
      SentList (txCallBack (udpCancelTx (removeEntry p (.token t)) t false) t ioStatus)
        (xs ++ ys) := by
  have hlive := hs.isLive (e := .token t) (by simp)
  obtain ⟨htxnd, -, -, -⟩ := h.books.parts
  rw [removeEntry_of_isLive hlive]
  simp only [udpCancelTx, Bool.false_eq_true, if_false]
  split_ifs with hu
  · have hns : t ∉ p.txSignaled := fun h' => List.disjoint_of_nodup_append htxnd hu h'
    have htx : p.udpTx.erase t ++ (p.txSignaled ++ [t]).erase t =
        (p.udpTx ++ p.txSignaled).erase t := by
      rw [List.erase_append_right _ hns, List.erase_cons_head, List.append_nil,
        List.erase_append_left _ hu]
    rw [txCallBack_of_mem (p := completeTx { p with links := netListRemoveEntry p.links (.token t) }
      t .efiAborted) hlive.1,
      completeTx_of_mem (p := { p with links := netListRemoveEntry p.links (.token t) }) hlive.1]
    exact heldInv_txCalled h hs (by rfl) (.of_eq htx) (by rfl) (by rfl)
      ⟨by rfl, by rfl, by rfl, by rfl⟩ (by rfl)
  · rw [txCallBack_of_mem (p := { p with links := netListRemoveEntry p.links (.token t) }) hlive.1]
    exact heldInv_txCalled h hs (by rfl) (.of_eq (List.erase_append_right _ hu).symm) (by rfl)
      (by rfl) ⟨by rfl, by rfl, by rfl, by rfl⟩ (by rfl)

/-- The body of the walk for an allocated token, up to its `CallBack`: the pool as it was, the
    log with the `CallBack`, and the other tokens as they were. -/
theorem txCallBack_cancelTx {p : Port} {t : Nat} (h : (Entry.token t).IsLive p ∧
      (p.links.forwardLink (.token t)).IsLive p ∧ (p.links.backLink (.token t)).IsLive p)
    (ioStatus : EfiStatus) :
    let mid := txCallBack (udpCancelTx (removeEntry p (.token t)) t false) t ioStatus
    mid.live = p.live ∧ mid.log = p.log ++ [txEvent p t ioStatus] ∧
      ∀ w, w ≠ t → mid.txToken w = p.txToken w := by
  have ht : t ∈ p.live := h.1
  simp only [removeEntry_of_isLive h, udpCancelTx, Bool.false_eq_true, if_false]
  split_ifs <;> simp +contextual [txCallBack, completeTx, touch, accessLog, ht, Port.record,
    txEvent, Function.update_noteq]

/-- `UdpIoCancelDgrams` starts its walk at the first token of `SentDatagram`. -/
theorem udpIoCancelDgramsR_succ {fuel : Nat} {p : Port} {ts : List Nat} (hs : SentList p ts)
    (ioStatus : EfiStatus) (toCancel : Option (UdpTxToken → Bool)) :
    udpIoCancelDgramsR react (fuel + 1) p ioStatus toCancel =
      cancelDgramsLoopR react fuel ioStatus toCancel (firstEntry ts)
        (p.links.forwardLink (firstEntry ts)) p := by
  rw [udpIoCancelDgramsR, hs.1.2.forwardLink_eq, head_map_token,
    touchEntry_of_isLive (hs.isLive (firstEntry_mem [] ts)).1]

/-- **One pass of the walk** at a token on `SentDatagram`: `Next` is the entry after it on the
    list, read before the body runs, and the walk goes on from it whatever the body did. -/
theorem cancelDgramsLoopR_cons {fuel : Nat} {ioStatus : EfiStatus}
    {toCancel : Option (UdpTxToken → Bool)} {p : Port} {front rest : List Nat} {t : Nat}
    (hs : SentList p (front ++ t :: rest)) :
    cancelDgramsLoopR react (fuel + 1) ioStatus toCancel (firstEntry (t :: rest))
        (p.links.forwardLink (firstEntry (t :: rest))) p =
      (if isSelected toCancel (p.txToken t) then cancelTxTokenR react fuel ioStatus p t
        else some p) >>= fun p' =>
        cancelDgramsLoopR react fuel ioStatus toCancel (firstEntry rest)
          (p'.links.forwardLink (firstEntry rest)) (touchEntry p' (firstEntry rest)) := by
  have hl : IsList p.links .sentDatagram
      (front.map Entry.token ++ .token t :: rest.map Entry.token) := by
    simpa using hs.1
  rw [show firstEntry (t :: rest) = .token t from rfl, hl.forwardLink_eq, head_map_token,
    cancelDgramsLoopR, selectTx_of_mem (hs.isLive (e := .token t) (by simp)).1]

/-- The body of the walk allocates nothing before the `CallBack`. -/
theorem nextAddr_cancelTx (p : Port) (t : Nat) (ioStatus : EfiStatus) :
    (txCallBack (udpCancelTx (removeEntry p (.token t)) t false) t ioStatus).nextAddr =
      p.nextAddr := by
  unfold udpCancelTx
  split_ifs <;> rfl

include hr in
/-- **The body of the walk**, with a `CallBack` that restarts requests, for a selected token on
    `SentDatagram`: the token leaves, and the tokens after it stay, behind the datagrams the
    `CallBack` sent, each of a fresh address. -/
theorem portInv_cancelTxTokenR {fuel : Nat} {ioStatus : EfiStatus} {p q : Port} {t : Nat}
    {front rest : List Nat} (h : PortInv p) (hs : SentList p (front ++ t :: rest))
    (hq : cancelTxTokenR react fuel ioStatus p t = some q) :
    PortInv q ∧ p.nextAddr ≤ q.nextAddr ∧
      ∃ new, (∀ u ∈ new, p.nextAddr ≤ u) ∧ SentList q (new ++ front ++ rest) := by
  cases fuel with
  | zero => cases hq
  | succ n =>
    obtain ⟨m, hm, ⟨⟩⟩ := Option.bind_eq_some.1 hq
    obtain ⟨hheld, hsl⟩ := heldInv_cancelTx h hs ioStatus
    obtain ⟨hh, hn, new, hnew, hs'⟩ := callBackR_restart hr
      (P := fun m => HeldInv t m ∧ p.nextAddr ≤ m.nextAddr ∧
        ∃ new, (∀ u ∈ new, p.nextAddr ≤ u) ∧ SentList m (new ++ front ++ rest))
      (fun hc h' ⟨hh, hn, new, hnew, hs'⟩ => by
        obtain ⟨new', hs'', hnew'⟩ := sentList_callR hc h' hs' fun u hu hn =>
          hh.books.not_netbufs hs' u hu (List.mem_append_left _ hn)
        refine ⟨heldInv_callR hc h' hh, hn.trans (nextAddr_callR hc h'), new' ++ new,
          fun u hu => ?_, by simpa using hs''⟩
        rcases List.mem_append.1 hu with hu | hu
        exacts [hn.trans (hnew' u hu), hnew u hu])
      hm ⟨hheld, (nextAddr_cancelTx p t ioStatus).ge, [], nofun, hsl⟩
    have ht : t ∉ new ++ front ++ rest := fun ht' =>
      hh.books.not_netbufs hs' t ht' (List.mem_append_right _ (List.mem_singleton_self t))
    rw [udpIoFreeTxToken_of_mem hh.free.1]
    refine ⟨udpIoFreeTxToken_of_mem hh.free.1 ▸ portInv_udpIoFreeTxToken hh, hn, new, hnew,
      hs'.1, fun u hu => ?_⟩
    exact (List.mem_erase_of_ne fun h : u = t => ht (h ▸ hu)).2 (hs'.2 u hu)

/-- **The walk's invariant** at a pass, for a walk that began when the pool had handed out
    the addresses below `n0`: the port's invariant, the tokens `rest` still ahead on
    `SentDatagram` behind the tokens `front`, and each of these allocated during the walk,
    unless `ToCancel` may leave a token in place. -/
structure WalkInv (n0 : Nat) (toCancel : Option (UdpTxToken → Bool)) (p : Port)
    (front rest : List Nat) : Prop where
  inv : PortInv p
  nextAddr_le : n0 ≤ p.nextAddr
  sent : SentList p (front ++ rest)
  behind : ∀ u ∈ front, n0 ≤ u ∨ toCancel.isSome

include hr in
/-- One pass of the walk, at a token it selects or not, keeps the walk's invariant. -/
theorem WalkInv.pass {n0 fuel : Nat} {ioStatus : EfiStatus}
    {toCancel : Option (UdpTxToken → Bool)} {p p' : Port} {t : Nat} {front rest : List Nat}
    (h : WalkInv n0 toCancel p front (t :: rest))
    (hp' : (if isSelected toCancel (p.txToken t) then cancelTxTokenR react fuel ioStatus p t
      else some p) = some p') :
    ∃ front', WalkInv n0 toCancel p' front' rest := by
  split_ifs at hp' with hsel
  · obtain ⟨hinv, hn, new, hnew, hs'⟩ := portInv_cancelTxTokenR hr h.inv h.sent hp'
    refine ⟨new ++ front, hinv, h.nextAddr_le.trans hn, hs', fun u hu => ?_⟩
    rcases List.mem_append.1 hu with hu | hu
    exacts [.inl (h.nextAddr_le.trans (hnew u hu)), h.behind u hu]
  · cases hp'
    refine ⟨front ++ [t], h.inv, h.nextAddr_le, by simpa using h.sent, fun u hu => ?_⟩
    rcases List.mem_append.1 hu with hu | hu
    · exact h.behind u hu
    · cases toCancel
      · exact absurd rfl hsel
      · exact .inr rfl

include hr in
/-- **The walk with `CallBack`s that restart requests**: from any point of it, the walk keeps
    its invariant to the end; the datagrams the `CallBack`s send go in front of the list,
    behind the walk. -/
theorem walkInv_cancelDgramsLoopR (ioStatus : EfiStatus) (toCancel : Option (UdpTxToken → Bool))
    (n0 : Nat) : ∀ (rest front : List Nat) (fuel : Nat) (p q : Port),
    WalkInv n0 toCancel p front rest →
    cancelDgramsLoopR react fuel ioStatus toCancel (firstEntry rest)
      (p.links.forwardLink (firstEntry rest)) p = some q → ∃ ts, WalkInv n0 toCancel q ts []
  | [], _, 0, _, _, _, hq | _ :: _, _, 0, _, _, _, hq => by cases hq
  | [], front, _ + 1, _, _, h, hq => ⟨front, (Option.some.inj hq) ▸ h⟩
  | t :: rest, front, n + 1, p, q, h, hq => by
    obtain ⟨p', hp', hq'⟩ := Option.bind_eq_some.1 ((cancelDgramsLoopR_cons h.sent).symm.trans hq)
    obtain ⟨front', h'⟩ := h.pass hr hp'
    rw [touchEntry_of_isLive (h'.sent.isLive (firstEntry_mem front' rest)).1] at hq'
    exact walkInv_cancelDgramsLoopR ioStatus toCancel n0 rest front' n p' q h' hq'

include hr in
/-- `UdpIoCancelDgrams` with `CallBack`s that restart requests keeps the invariant, and leaves
    on `SentDatagram` only datagrams sent during it, unless `ToCancel` may leave some. -/
theorem walkInv_udpIoCancelDgramsR {fuel : Nat} {p q : Port} {ioStatus : EfiStatus}
    {toCancel : Option (UdpTxToken → Bool)} (h : PortInv p)
    (hq : udpIoCancelDgramsR react fuel p ioStatus toCancel = some q) :
    ∃ ts, WalkInv p.nextAddr toCancel q ts [] := by
  cases fuel with
  | zero => cases hq
  | succ n =>
    obtain ⟨ts, hs, -⟩ := h.books.sent
    rw [udpIoCancelDgramsR_succ hs] at hq
    exact walkInv_cancelDgramsLoopR hr ioStatus toCancel _ ts [] n p q ⟨h, le_rfl, hs, nofun⟩ hq

/-! ## Runs -/

include hr in
/-- The cancels `UdpIoCleanPort` and `UdpIoFreePort` share. -/
theorem portInv_cancelAllR {fuel : Nat} {p q : Port} (h : PortInv p)
    (hq : cancelAllR react fuel p = some q) : PortInv q := by
  obtain ⟨q', hq', rfl⟩ := Option.map_eq_some'.1 hq
  have h' := (walkInv_udpIoCancelDgramsR hr h hq').choose_spec.inv
  unfold cancelRecv
  split
  · exact h'
  · exact portInv_cancelRecv h' ‹_›

include hr in
/-- A call at the top: a restarting call, `UdpIoCancelSentDatagram` or `UdpIoCleanPort`. -/
theorem portInv_callR_top {fuel : Nat} {p q : Port} {c : Call} (h : PortInv p)
    (hq : callR react fuel p c = some q) : PortInv q := by
  cases fuel with
  | zero => cases hq
  | succ n =>
    cases c with
    | cancelSentDatagram => exact (walkInv_udpIoCancelDgramsR hr h hq).choose_spec.inv
    | cleanPort =>
      rw [callR_cleanPort] at hq
      obtain ⟨q', hq', rfl⟩ := Option.map_eq_some'.1 hq
      exact portInv_udpConfigureNull (portInv_cancelAllR hr h hq')
    | _ => exact portInv_callR (by rfl) hq h

include hr in
/-- **Every step keeps the invariant**, with `CallBack`s that restart requests. -/
theorem portInv_stepR {fuel : Nat} {p q : Port} {s : Step} (h : PortInv p)
    (hq : stepR react fuel p s = some q) : PortInv q := by
  unfold stepR at hq
  split_ifs at hq with hs
  cases s with
  | cancelSentDatagram | cleanPort => exact portInv_callR_top hr h hq
  | freePort => exact portInv_cancelAllR hr h hq
  | notifyTx t =>
    dsimp only at hq
    split_ifs at hq with ht
    exact portInv_dispatchTxR hr h ht hq
  | notifyRx t netbuf =>
    dsimp only at hq
    split_ifs at hq with ht
    exact portInv_dispatchRxR hr h ht hq
  | _ => exact portInv_step h hs hq

include hr in
theorem runR_portInv (fuel : Nat) :
    ∀ (steps : List Step) {p q : Port}, PortInv p → runR react fuel p steps = some q → PortInv q
  | [], _, _, h, hq => (Option.some.inj hq) ▸ h
  | s :: steps, _, _, h, hq => by
    obtain ⟨p', h1, h2⟩ := Option.bind_eq_some.1 hq
    exact runR_portInv fuel steps (portInv_stepR hr h h1) h2

end Runs

/-- **`CallBack`s that restart requests keep the port safe**: for all user code whose
    `CallBack`s only start requests and recycle the `NET_BUF`s the user holds, and every run
    from a new port whose notify functions run between calls, the log shows no access to a
    token not allocated and no failed `ASSERT`, each request called back at most once, and
    every address the pool has handed out still allocated or freed, once, the tokens still
    allocated being exactly those the port owns; `SentDatagram` holds exactly the transmit
    tokens the child holds or has signaled, and `RecvRequest` is exactly the receive token it
    holds or has signaled, the one a `CallBack` restarted included. -/
theorem udpIoCreatePort_runR_safe {react : Port → Event → List Call} (hr : RestartOnly react)
    (fuel : Nat) (steps : List Step) {q : Port}
    (hq : runR react fuel udpIoCreatePort steps = some q) :
    (∀ e ∈ q.log, e.isFault = false) ∧ (callBackTokens q.log).Nodup ∧
      (freedTokens q.log ++ q.live).Perm (List.range q.nextAddr) ∧ q.live.Perm q.owned ∧
      (∃ ts, SentList q ts ∧ ts.Perm (q.udpTx ++ q.txSignaled)) ∧
      q.udpRx ++ q.rxSignaled = q.recvRequest.toList :=
  have h := runR_portInv hr fuel steps portInv_udpIoCreatePort hq
  ⟨h.history.noFault, h.history.calledOnce, h.freed_live_perm, h.books.owned, h.books.sent,
    h.books.recv⟩

/-- The user's code that restarts the receive from its `CallBack`, and sends again from the
    `CallBack` of a failed datagram. -/
def restartOnError : Port → Event → List Call
  | _, .callBack _ 2 _ _ _ => [.recvDatagram 2 20 0 true .efiSuccess .efiSuccess]
  | _, .callBack _ 1 (some packet) .efiAborted _ =>
    [.sendDatagram packet 1 10 true .efiSuccess .efiSuccess]
  | _, _ => []

theorem restartOnError_startsAtMost : StartsAtMost restartOnError 1 := fun p e => by
  unfold restartOnError
  split <;> simp [Call.isStart]

/-- A port's life with such a `CallBack`: a datagram goes out and a receive is started; the
    receive ends, and its `CallBack` restarts it; the datagram is cancelled, and its `CallBack`
    sends it again; the port is cleaned. -/
def restartLife : List Step :=
  [.sendDatagram 7 1 10 true .efiSuccess ⟨.efiSuccess, none⟩,
   .recvDatagram 2 20 0 true .efiSuccess ⟨.efiSuccess, none⟩,
   .completeRx 1 .efiSuccess true, .notifyRx 1 false,
   .cancelSentDatagram 7 [],
   .cleanPort [] false]

theorem udpIoCreatePort_runR_safe_restartLife :
    RestartOnly restartOnError ∧ ∃ q, runR restartOnError 4 udpIoCreatePort restartLife = some q ∧
      (∀ e ∈ q.log, e.isFault = false) ∧ (callBackTokens q.log).Nodup ∧
      (freedTokens q.log ++ q.live).Perm (List.range q.nextAddr) ∧ q.live.Perm q.owned ∧
      (∃ ts, SentList q ts ∧ ts.Perm (q.udpTx ++ q.txSignaled)) ∧
      q.udpRx ++ q.rxSignaled = q.recvRequest.toList := by
  have hr := restartOnError_startsAtMost.restartOnly
  obtain ⟨q, hq⟩ := Option.isSome_iff_exists.1
    (show (runR restartOnError 4 udpIoCreatePort restartLife).isSome by decide)
  exact ⟨hr, q, hq, udpIoCreatePort_runR_safe hr 4 restartLife hq⟩

/-! ## What `UdpIoCleanPort` and `UdpIoFreePort` leave -/

/-- With `CallBack`s that restart requests, the cancels of `UdpIoCleanPort` and `UdpIoFreePort`
    clear `RecvRequest` and leave pending only transmit tokens allocated while they ran. -/
theorem cancelAllR_fresh {react : Port → Event → List Call} (hr : RestartOnly react)
    {fuel : Nat} {p q : Port} (h : PortInv p) (hq : cancelAllR react fuel p = some q) :
    q.recvRequest = none ∧ ∀ u ∈ q.udpTx ++ q.txSignaled, p.nextAddr ≤ u := by
  obtain ⟨q', hq', rfl⟩ := Option.map_eq_some'.1 hq
  obtain ⟨ts, hw⟩ := walkInv_udpIoCancelDgramsR hr h hq'
  obtain ⟨ts', hs', hperm'⟩ := hw.inv.books.sent
  obtain rfl : ts' = ts := hs'.unique (by simpa using hw.sent)
  have hframe : (cancelRecv q').udpTx = q'.udpTx ∧
      (cancelRecv q').txSignaled = q'.txSignaled ∧ (cancelRecv q').recvRequest = none := by
    unfold cancelRecv
    split
    · exact ⟨rfl, rfl, ‹_›⟩
    · exact cancelRecv_frame _ _
  refine ⟨hframe.2.2, fun u hu => ?_⟩
  rw [hframe.1, hframe.2.1] at hu
  exact (hw.behind u (by simpa using hperm'.symm.subset hu)).resolve_right (by simp)

/-- The same for the whole of `UdpIoCleanPort`, whose `Configure (NULL)` ends the datagrams
    the child still holds. -/
theorem cleanPort_fresh {react : Port → Event → List Call} (hr : RestartOnly react)
    {fuel : Nat} {p q : Port} (h : PortInv p) (hq : callR react fuel p .cleanPort = some q) :
    q.recvRequest = none ∧ q.udpTx = [] ∧ ∀ u ∈ q.udpTx ++ q.txSignaled, p.nextAddr ≤ u := by
  cases fuel with
  | zero => cases hq
  | succ n =>
    rw [callR_cleanPort] at hq
    obtain ⟨q', hq', rfl⟩ := Option.map_eq_some'.1 hq
    obtain ⟨hreq, hfresh⟩ := cancelAllR_fresh hr h hq'
    obtain ⟨h1, h2, h3, -⟩ := udpConfigureNull_tx q'
    refine ⟨h3.trans hreq, h1, fun u hu => hfresh u ?_⟩
    rw [h1, h2, List.nil_append] at hu
    exact List.mem_append.2 (List.mem_append.1 hu).symm

/-- Two datagrams sent on a new port, of packets 7 and 8: `SentDatagram` holds the tokens at
    1 (packet 8) and 0 (packet 7). -/
def sentTwice : Port :=
  (udpIoSendDatagram (udpIoSendDatagram udpIoCreatePort 7 1 10 true .efiSuccess
    ⟨.efiSuccess, none⟩).2 8 1 11 true .efiSuccess ⟨.efiSuccess, none⟩).2

theorem portInv_sentTwice : PortInv sentTwice :=
  portInv_sendDatagram (portInv_sendDatagram portInv_udpIoCreatePort ..) ..

/-- **A `CallBack` that sends again breaks the walk's postcondition**: on a port with two
    distinct datagrams on `SentDatagram`, whose `CallBack`s send their packet again on
    `EFI_ABORTED`, the walk of `UdpIoCancelDgrams` with `ToCancel` `NULL` ends with
    `SentDatagram` holding the two datagrams the `CallBack`s sent, at 3 and 2, and not the
    tokens it did not select, of which there are none. -/
theorem udpIoCancelDgramsR_leaves_resent :
    SentList sentTwice [1, 0] ∧ [1, 0].Nodup ∧
      ∃ q, udpIoCancelDgramsR restartOnError 8 sentTwice .efiAborted none = some q ∧
        SentList q [3, 2] ∧
        ¬ SentList q ([1, 0].filter fun t => !isSelected none (sentTwice.txToken t)) := by
  obtain ⟨q, hq, hsl⟩ := Option.map_eq_some'.1 (show
    (udpIoCancelDgramsR restartOnError 8 sentTwice .efiAborted none).map
      (fun q => decide (SentList q [3, 2] ∧ ¬ SentList q [])) = some true by decide)
  exact ⟨by decide, by decide, q, hq, of_decide_eq_true hsl⟩

/-! ## Every walk ends

A `CallBack` that sends a datagram puts its token at the head of `SentDatagram`, behind the
walk, so that the walk passes the tokens that were on the list when it began, and no other. -/

/-- A call back followed by a free ends when the call back does. -/
theorem isSome_bind_some {x : Option Port} {g : Port → Port} (hx : x.isSome) :
    (x >>= fun a => some (g a)).isSome := by
  obtain ⟨a, rfl⟩ := Option.isSome_iff_exists.1 hx
  rfl

section Progress

variable {react : Port → Event → List Call} {n : Nat} (hr : StartsAtMost react n)

/-- A call that starts a request ends at once. -/
theorem callR_isSome {c : Call} (hc : c.isStart) (fuel : Nat) (p : Port) :
    (callR react (fuel + 1) p c).isSome := by
  cases c with
  | sendDatagram | recvDatagram => rfl
  | _ => simp [Call.isStart] at hc

theorem callsR_isSome : ∀ {fuel : Nat} {p : Port} (cs : List Call), (∀ c ∈ cs, c.isStart) →
    cs.length < fuel → (callsR react fuel p cs).isSome
  | _, p, [], _, _ => by rw [callsR_nil]; rfl
  | f + 2, p, c :: cs, hc, hl => by
    obtain ⟨p', hp'⟩ := Option.isSome_iff_exists.1 (show (callR react (f + 1) p c).isSome from
      callR_isSome (hc c (List.mem_cons_self _ _)) f p)
    simp only [callsR, hp', Option.bind_eq_bind, Option.some_bind]
    exact callsR_isSome cs (fun c' h' => hc c' (List.mem_cons_of_mem _ h'))
      (by simp only [List.length_cons] at hl; omega)
  | 0, _, _ :: _, _, hl | 1, _, _ :: _, _, hl => by simp only [List.length_cons] at hl; omega

include hr in
theorem callBackR_isSome {fuel : Nat} (hf : n + 2 ≤ fuel) (p : Port) (e : Event) :
    (callBackR react fuel p e).isSome := by
  obtain ⟨f, rfl⟩ : ∃ f, fuel = f + 1 := ⟨fuel - 1, by omega⟩
  exact callsR_isSome _ (hr _ _).2 (by have := (hr (p.record e) e).1; omega)

include hr in
theorem cancelTxTokenR_isSome {fuel : Nat} (hf : n + 3 ≤ fuel) (ioStatus : EfiStatus) (p : Port)
    (t : Nat) : (cancelTxTokenR react fuel ioStatus p t).isSome := by
  obtain ⟨f, rfl⟩ : ∃ f, fuel = f + 1 := ⟨fuel - 1, by omega⟩
  exact isSome_bind_some (callBackR_isSome hr (by omega) _ _)

include hr in
/-- **The walk ends** with `CallBack`s that start requests: a pass for each token still ahead,
    with fuel for the `CallBack`'s calls in each. -/
theorem cancelDgramsLoopR_isSome (ioStatus : EfiStatus) (toCancel : Option (UdpTxToken → Bool))
    (n0 : Nat) : ∀ (rest front : List Nat) (fuel : Nat) (p : Port),
    WalkInv n0 toCancel p front rest → rest.length + n + 4 ≤ fuel →
    (cancelDgramsLoopR react fuel ioStatus toCancel (firstEntry rest)
      (p.links.forwardLink (firstEntry rest)) p).isSome
  | [], _, 0, _, _, hf | _ :: _, _, 0, _, _, hf => by omega
  | [], _, _ + 1, _, _, _ => rfl
  | t :: rest, front, f + 1, p, h, hf => by
    have hf' : rest.length + n + 4 ≤ f := by simp only [List.length_cons] at hf; omega
    obtain ⟨p', hp'⟩ := Option.isSome_iff_exists.1 (show (if isSelected toCancel (p.txToken t)
        then cancelTxTokenR react f ioStatus p t else some p).isSome by
      split_ifs
      exacts [cancelTxTokenR_isSome hr (by omega) .., rfl])
    obtain ⟨front', h'⟩ := h.pass hr.restartOnly hp'
    rw [cancelDgramsLoopR_cons h.sent, hp', Option.bind_eq_bind, Option.some_bind,
      touchEntry_of_isLive (h'.sent.isLive (firstEntry_mem front' rest)).1]
    exact cancelDgramsLoopR_isSome ioStatus toCancel n0 rest front' f p' h' hf'

include hr in
theorem udpIoCancelDgramsR_isSome {fuel : Nat} {p : Port} (h : PortInv p)
    (hf : p.nextAddr + n + 5 ≤ fuel) (ioStatus : EfiStatus)
    (toCancel : Option (UdpTxToken → Bool)) :
    (udpIoCancelDgramsR react fuel p ioStatus toCancel).isSome := by
  obtain ⟨f, rfl⟩ : ∃ f, fuel = f + 1 := ⟨fuel - 1, by omega⟩
  obtain ⟨ts, hs, -⟩ := h.books.sent
  rw [udpIoCancelDgramsR_succ hs]
  exact cancelDgramsLoopR_isSome hr ioStatus toCancel _ ts [] f p ⟨h, le_rfl, hs, nofun⟩
    (by have := hs.length_le; omega)

include hr in
theorem dispatchRxR_isSome {fuel : Nat} (hf : n + 2 ≤ fuel) (p : Port) (t : Nat)
    (netbuf : Bool) : (dispatchRxR react fuel p t netbuf).isSome := by
  dsimp only [dispatchRxR, udpIoOnDgramRcvdR]
  split_ifs
  exacts [isSome_bind_some (callBackR_isSome hr hf _ _), callBackR_isSome hr hf _ _,
    isSome_bind_some (callBackR_isSome hr hf _ _)]

include hr in
/-- **Every step ends** with `CallBack`s that start at most `n` requests: from any port that
    keeps the invariant, a step that `step` takes, with its notify functions run between calls,
    ends with fuel `n + 5`, whatever the `CallBack`s send or receive. The walks of
    `UdpIoCancelSentDatagram` and `UdpIoCleanPort` end, though each `CallBack` they run may put
    new datagrams on `SentDatagram`. -/
theorem stepR_isSome {fuel : Nat} (hf : n + 5 ≤ fuel) {p : Port} {s : Step} (h : PortInv p)
    (hs : s.notifiesLater) (hstep : (step p s).isSome) : (stepR react fuel p s).isSome := by
  unfold stepR
  rw [if_pos hs]
  cases s with
  | cancelSentDatagram => exact udpIoCancelDgramsR_isSome hr h (by omega) _ _
  | cleanPort =>
    exact Option.isSome_map.trans
      (Option.isSome_map.trans (udpIoCancelDgramsR_isSome hr h (by omega) _ _))
  | freePort => exact Option.isSome_map.trans (udpIoCancelDgramsR_isSome hr h (by omega) _ _)
  | notifyTx t =>
    have ht : t ∈ p.txSignaled := by by_contra ht; simp [step, ht] at hstep
    dsimp only
    rw [if_pos ht]
    exact isSome_bind_some (callBackR_isSome hr (by omega) _ _)
  | notifyRx t netbuf =>
    have ht : t ∈ p.rxSignaled := by by_contra ht; simp [step, ht] at hstep
    dsimp only
    rw [if_pos ht]
    exact dispatchRxR_isSome hr (by omega) p t netbuf
  | _ => exact hstep

end Progress

/-- `UdpIoCleanPort` on two datagrams, whose `CallBack`s send each of them again. -/
theorem stepR_isSome_sentTwice :
    StartsAtMost restartOnError 1 ∧ 1 + 5 ≤ 6 ∧ PortInv sentTwice ∧
      (Step.cleanPort [] false).notifiesLater ∧ (step sentTwice (.cleanPort [] false)).isSome ∧
      (stepR restartOnError 6 sentTwice (.cleanPort [] false)).isSome := by
  have hr := restartOnError_startsAtMost
  have hstep : (step sentTwice (.cleanPort [] false)).isSome := by decide
  exact ⟨hr, le_rfl, portInv_sentTwice, rfl, hstep,
    stepR_isSome hr le_rfl portInv_sentTwice rfl hstep⟩

end UdpIo
