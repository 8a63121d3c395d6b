import MdeModulePkg.UdpIo.ReentrantSafety

/-! # Every datagram sent is called back, with callbacks that restart requests

    With `CallBack`s that only restart requests, a datagram the port took is still called back
    once: by `UdpIoOnDgramSent`, or by the walk of `UdpIoCancelDgrams`, which calls back every
    token it passes, the `CallBack`s inside it keeping the others pending. Only the datagrams
    the `CallBack`s send during the last `UdpIoCleanPort` or `UdpIoFreePort` are left
    (`cleanPort_fresh`, `cancelAllR_fresh`).

    * `txKept_callBackR`: a `CallBack` that restarts requests keeps the pending tokens;
    * `txKept_cancelTxTokenR` and `txKept_cancelDgramsLoopR`: the walk calls back each token it
      selects;
    * `txKept_stepR`, `txKept_runR`, and `udpIoCreatePort_runR_calledBack`. -/

namespace UdpIo

open Base NetList

/-- While a `CallBack` holds its token, every signaled transmit token is allocated. -/
theorem HeldInv.txSignaled_live {t : Nat} {m : Port} (h : HeldInv t m) :
    ∀ u ∈ m.txSignaled, u ∈ m.live := fun u hu => by
  refine h.books.owned.mem_iff.2 ?_
  by_cases hut : u = t
  · simp [Port.owned, Port.hold, hut]
  · simp [Port.owned, Port.pending, Port.hold, List.mem_erase_of_ne hut, hu]

section CallBack

variable {react : Port → Event → List Call}

/-- A call that restarts a request keeps the pending transmit tokens. -/
theorem txKept_callR {fuel : Nat} {p q : Port} {c : Call} (hc : c.isRestart)
    (h : callR react fuel p c = some q) (hsig : ∀ u ∈ p.txSignaled, u ∈ p.live) : TxKept p q := by
  obtain ⟨a, b, d, al, ce, st, rfl⟩ | ⟨a, b, d, al, ce, st, rfl⟩ | ⟨u, -, rfl⟩ :=
    callR_restart hc h
  · exact txKept_sendDatagram hsig a b d al ce st
  · exact txKept_recvDatagram p a b d al ce st
  · exact txKept_recycleDgram p u

/-- **A `CallBack` that restarts requests keeps the pending transmit tokens**, from the state
    it is called in, under any invariant its calls keep that has every signaled token
    allocated. -/
theorem txKept_callBackR (hr : RestartOnly react) {I : Port → Prop}
    (hI : ∀ {n p q c}, c.isRestart → callR react n p c = some q → I p → I q)
    (hsig : ∀ {m}, I m → ∀ u ∈ m.txSignaled, u ∈ m.live) {n : Nat} {p q : Port} {e : Event}
    (h : callBackR react n p e = some q) (hp : I (p.record e)) : I q ∧ TxKept (p.record e) q :=
  callBackR_restart hr (P := fun m => I m ∧ TxKept (p.record e) m)
    (fun hc h' hm => ⟨hI hc h' hm.1, hm.2.trans (txKept_callR hc h' (hsig hm.1))⟩) h
    ⟨hp, .refl _⟩

end CallBack

section Runs

variable {react : Port → Event → List Call} (hr : RestartOnly react)

include hr in
theorem txKept_dispatchTxR {fuel : Nat} {p q : Port} {t : Nat} (h : PortInv p)
    (ht : t ∈ p.txSignaled) (hq : dispatchTxR react fuel p t = some q) : TxKept p q := by
  obtain ⟨m, hm, ⟨⟩⟩ := Option.bind_eq_some.1 hq
  obtain ⟨hmid, hcalled⟩ := txKept_notifyTx p t (p.txToken t).status
  obtain ⟨hh, hk⟩ := txKept_callBackR hr heldInv_callR HeldInv.txSignaled_live hm
    (heldInv_notifyTx h ht _)
  exact (hmid.trans hk).free ((hk.1.sublist.filterMap _).subset hcalled) hh.free.1

include hr in
theorem txKept_dispatchRxR {fuel : Nat} {p q : Port} {t : Nat} {netbuf : Bool} (h : PortInv p)
    (ht : t ∈ p.rxSignaled) (hq : dispatchRxR react fuel p t netbuf = some q) : TxKept p q := by
  have hpre : ∀ {packet status}, TxKept p (rxCallBack { touch { p with
      rxSignaled := p.rxSignaled.erase t } t with
        log := (touch { p with rxSignaled := p.rxSignaled.erase t } t).log ++
          assertRecvRequest (touch { p with rxSignaled := p.rxSignaled.erase t } t) t,
        recvRequest := none } t packet status) :=
    .of_subset (by simp [rxCallBack, touch, Port.record]) (by
      dsimp only [rxCallBack, touch, Port.record]; exact List.Subset.refl _)
  have hfreed : ∀ {packet status m}, rxCallBackR react fuel
      { touch { p with rxSignaled := p.rxSignaled.erase t } t with
        log := (touch { p with rxSignaled := p.rxSignaled.erase t } t).log ++
          assertRecvRequest (touch { p with rxSignaled := p.rxSignaled.erase t } t) t,
        recvRequest := none } t packet status = some m → TxKept p (udpIoFreeRxToken m t) :=
    fun hm => by
      obtain ⟨-, hk⟩ := txKept_callBackR hr heldInv_callR HeldInv.txSignaled_live hm
        (heldInv_rxCalled h ht _ _).1
      exact (hpre.trans hk).trans (.of_subset
        (by simp [udpIoFreeRxToken, netFreePool, touch, Port.record]) (by
          dsimp only [udpIoFreeRxToken, netFreePool, touch, Port.record]
          exact List.Subset.refl _))
  rw [dispatchRxR, udpIoOnDgramRcvdR] at hq
  split_ifs at hq with h1 h2
  · obtain ⟨m, hm, ⟨⟩⟩ := Option.bind_eq_some.1 hq
    exact hfreed hm
  · -- the `NET_BUF` goes to the user, and the token with it
    have hd := portInv_notifyRx h ht true
    rw [dispatchRx, udpIoOnDgramRcvd, if_neg h1, if_pos rfl] at hd
    obtain ⟨-, hk⟩ := txKept_callBackR hr (I := PortInv) portInv_callR
      (fun hm u hu => hm.books.live_of_pending (by simp [Port.pending, hu])) hq hd
    refine TxKept.trans ?_ hk
    exact .of_subset (by simp [touch, Port.record]) (by
      dsimp only [touch, Port.record]; exact List.Subset.refl _)
  · obtain ⟨m, hm, ⟨⟩⟩ := Option.bind_eq_some.1 hq
    exact hfreed hm

/-! ## The walk -/

/-- The body of the walk, up to the `CallBack`: the token is called back, the others stay. -/
theorem txKept_cancelTx (p : Port) (t : Nat) (ioStatus : EfiStatus) :
    let mid := txCallBack (udpCancelTx (removeEntry p (.token t)) t false) t ioStatus
    TxKept p mid ∧ t ∈ callBackTokens mid.log := by
  have hl : p.log <+: (removeEntry p (.token t)).log := by simp [removeEntry, touchEntry]
  simp only [udpCancelTx, Bool.false_eq_true, if_false]
  split_ifs
  · -- the child held it: `Cancel` ends it, and it is signaled
    refine TxKept.callBack (hl.trans (by simp [completeTx, touch]))
      (fun u hu hut => ?_) ioStatus
    dsimp only [completeTx, removeEntry, touch, touchEntry]
    rcases List.mem_append.1 hu with hu | hu
    exacts [List.mem_append_left _ ((List.mem_erase_of_ne hut).2 hu),
      List.mem_append_right _ (List.mem_append_left _ hu)]
  · exact TxKept.callBack hl (fun u hu _ => by simpa only [removeEntry, touchEntry] using hu)
      ioStatus

include hr in
/-- **The body of the walk calls back its token**, whatever the `CallBack` restarts. -/
theorem txKept_cancelTxTokenR {fuel : Nat} {ioStatus : EfiStatus} {p q : Port} {t : Nat}
    {front rest : List Nat} (h : PortInv p) (hs : SentList p (front ++ t :: rest))
    (hq : cancelTxTokenR react fuel ioStatus p t = some q) : TxKept p q := by
  cases fuel with
  | zero => cases hq
  | succ n =>
    obtain ⟨m, hm, ⟨⟩⟩ := Option.bind_eq_some.1 hq
    obtain ⟨hmid, hcalled⟩ := txKept_cancelTx p t ioStatus
    obtain ⟨hh, hk⟩ := txKept_callBackR hr heldInv_callR HeldInv.txSignaled_live hm
      (heldInv_cancelTx h hs ioStatus).1
    exact (hmid.trans hk).free ((hk.1.sublist.filterMap _).subset hcalled) hh.free.1

include hr in
theorem txKept_cancelDgramsLoopR (ioStatus : EfiStatus) (toCancel : Option (UdpTxToken → Bool))
    (n0 : Nat) : ∀ (rest front : List Nat) (fuel : Nat) (p q : Port),
    WalkInv n0 toCancel p front rest →
    cancelDgramsLoopR react fuel ioStatus toCancel (firstEntry rest)
      (p.links.forwardLink (firstEntry rest)) p = some q → TxKept p q
  | [], _, 0, _, _, _, hq | _ :: _, _, 0, _, _, _, hq => by cases hq
  | [], _, _ + 1, _, _, _, hq => (Option.some.inj hq) ▸ .refl _
  | t :: rest, front, n + 1, p, q, h, hq => by
    obtain ⟨p', hp', hq'⟩ := Option.bind_eq_some.1 ((cancelDgramsLoopR_cons h.sent).symm.trans hq)
    obtain ⟨front', h'⟩ := h.pass hr hp'
    have hk : TxKept p p' := by
      split_ifs at hp'
      · exact txKept_cancelTxTokenR hr h.inv h.sent hp'
      · exact (Option.some.inj hp') ▸ .refl _
    rw [touchEntry_of_isLive (h'.sent.isLive (firstEntry_mem front' rest)).1] at hq'
    exact hk.trans (txKept_cancelDgramsLoopR ioStatus toCancel n0 rest front' n p' q h' hq')

include hr in
theorem txKept_udpIoCancelDgramsR {fuel : Nat} {p q : Port} {ioStatus : EfiStatus}
    {toCancel : Option (UdpTxToken → Bool)} (h : PortInv p)
    (hq : udpIoCancelDgramsR react fuel p ioStatus toCancel = some q) : TxKept p q := by
  cases fuel with
  | zero => cases hq
  | succ n =>
    obtain ⟨ts, hs, -⟩ := h.books.sent
    rw [udpIoCancelDgramsR_succ hs] at hq
    exact txKept_cancelDgramsLoopR hr ioStatus toCancel _ ts [] n p q ⟨h, le_rfl, hs, nofun⟩ hq

/-! ## Runs -/

include hr in
theorem txKept_cancelAllR {fuel : Nat} {p q : Port} (h : PortInv p)
    (hq : cancelAllR react fuel p = some q) : TxKept p q := by
  obtain ⟨q', hq', rfl⟩ := Option.map_eq_some'.1 hq
  refine (txKept_udpIoCancelDgramsR hr h hq').trans ?_
  unfold cancelRecv
  split
  · exact .refl _
  · exact txKept_cancelRx _ _

include hr in
theorem txKept_callR_top {fuel : Nat} {p q : Port} {c : Call} (h : PortInv p)
    (hq : callR react fuel p c = some q) : TxKept p q := by
  cases fuel with
  | zero => cases hq
  | succ n =>
    cases c with
    | cancelSentDatagram => exact txKept_udpIoCancelDgramsR hr h hq
    | cleanPort =>
      rw [callR_cleanPort] at hq
      obtain ⟨q', hq', rfl⟩ := Option.map_eq_some'.1 hq
      exact (txKept_cancelAllR hr h hq').trans (txKept_udpConfigureNull q')
    | _ =>
      exact txKept_callR (by rfl) hq fun u hu =>
        h.books.live_of_pending (by simp [Port.pending, hu])

include hr in
/-- **Every step keeps the pending transmit tokens**, or calls them back, with `CallBack`s
    that restart requests. -/
theorem txKept_stepR {fuel : Nat} {p q : Port} {s : Step} (h : PortInv p)
    (hq : stepR react fuel p s = some q) : TxKept p q := by
  unfold stepR at hq
  split_ifs at hq with hs
  cases s with
  | cancelSentDatagram | cleanPort => exact txKept_callR_top hr h hq
  | freePort => exact txKept_cancelAllR hr h hq
  | notifyTx t =>
    dsimp only at hq
    split_ifs at hq with ht
    exact txKept_dispatchTxR hr h ht hq
  | notifyRx t netbuf =>
    dsimp only at hq
    split_ifs at hq with ht
    exact txKept_dispatchRxR hr h ht hq
  | _ => exact txKept_step h hs hq

include hr in
theorem txKept_runR (fuel : Nat) :
    ∀ (steps : List Step) {p q : Port}, PortInv p → runR react fuel p steps = some q → TxKept p q
  | [], _, _, _, hq => (Option.some.inj hq) ▸ .refl _
  | s :: steps, _, _, h, hq => by
    obtain ⟨p', h1, h2⟩ := Option.bind_eq_some.1 hq
    exact (txKept_stepR hr h h1).trans (txKept_runR fuel steps (portInv_stepR hr h h1) h2)

end Runs

/-- **Every datagram sent is called back, once, with `CallBack`s that restart requests**: in a
    run from a new port whose notify functions run between calls, with `CallBack`s that only
    restart requests, and that ends with `UdpIoCleanPort` or `UdpIoFreePort`, each transmit
    token pending at any point of the run before that last step is called back exactly once
    by its end; and the datagrams still pending at the end were all allocated during the last
    step, sent by the `CallBack`s it ran. -/
theorem udpIoCreatePort_runR_calledBack {react : Port → Event → List Call}
    (hr : RestartOnly react) (fuel : Nat) (pre post : List Step) (last : Step)
    (hlast : last = .cleanPort [] false ∨ last = .freePort [] false) {p q : Port}
    (hp : runR react fuel udpIoCreatePort pre = some p)
    (hq : runR react fuel p (post ++ [last]) = some q) :
    (∀ t ∈ p.udpTx ++ p.txSignaled, (callBackTokens q.log).count t = 1) ∧
      ∃ m, runR react fuel p post = some m ∧ ∀ u ∈ q.udpTx ++ q.txSignaled, m.nextAddr ≤ u := by
  have h := runR_portInv hr fuel pre portInv_udpIoCreatePort hp
  rw [runR_append] at hq
  obtain ⟨m, hm, hq⟩ := Option.bind_eq_some.1 hq
  obtain ⟨q', hq', hq''⟩ := Option.bind_eq_some.1 hq
  obtain rfl : q = q' := (Option.some.inj hq'').symm
  have hmi := runR_portInv hr fuel post h hm
  -- what the last step leaves pending was allocated during it
  have hfresh : ∀ u ∈ q.udpTx ++ q.txSignaled, m.nextAddr ≤ u := by
    rcases hlast with rfl | rfl
    · exact (cleanPort_fresh hr hmi hq').2.2
    · exact (cancelAllR_fresh hr hmi hq').2
  have hkm := txKept_runR hr fuel post h hm
  have hmq := txKept_stepR hr hmi hq'
  refine ⟨fun t ht => ?_, m, hm, hfresh⟩
  refine List.count_eq_one_of_mem (portInv_stepR hr hmi hq').history.calledOnce ?_
  rcases hkm.2 t ht with ht | ht
  · refine (hmq.2 t ht).resolve_left fun ht' => ?_
    exact absurd (hfresh t ht')
      (not_le.2 (m.live_lt t (hmi.books.live_of_pending (List.mem_append_left _ ht))))
  · exact (hmq.1.sublist.filterMap _).subset ht

/-- In `restartLife` the datagram of the first step is cancelled, called back, and sent again
    by its `CallBack`: it is called back once. -/
theorem udpIoCreatePort_runR_calledBack_restartLife :
    RestartOnly restartOnError ∧ ∃ p q,
      runR restartOnError 4 udpIoCreatePort (restartLife.take 1) = some p ∧
      runR restartOnError 4 p ((restartLife.drop 1).dropLast ++ [.cleanPort [] false]) = some q ∧
      0 ∈ p.udpTx ∧ (∀ t ∈ p.udpTx ++ p.txSignaled, (callBackTokens q.log).count t = 1) ∧
      ∃ m, runR restartOnError 4 p (restartLife.drop 1).dropLast = some m ∧
        ∀ u ∈ q.udpTx ++ q.txSignaled, m.nextAddr ≤ u := by
  have hr := restartOnError_startsAtMost.restartOnly
  have hrun : (runR restartOnError 4 udpIoCreatePort
      (restartLife.take 1 ++ ((restartLife.drop 1).dropLast ++ [.cleanPort [] false]))).isSome := by
    decide
  have h0 : (runR restartOnError 4 udpIoCreatePort (restartLife.take 1)).map
      (fun p => decide (0 ∈ p.udpTx)) = some true := by decide
  obtain ⟨p, hp⟩ : ∃ p, runR restartOnError 4 udpIoCreatePort (restartLife.take 1) = some p :=
    ⟨_, rfl⟩
  rw [runR_append, hp] at hrun
  rw [hp] at h0
  obtain ⟨q, hq⟩ := Option.isSome_iff_exists.1 hrun
  exact ⟨hr, p, q, hp, hq, by simpa using h0,
    udpIoCreatePort_runR_calledBack hr 4 _ _ _ (.inl rfl) hp hq⟩

end UdpIo
