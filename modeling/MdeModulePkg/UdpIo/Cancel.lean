import MdeModulePkg.UdpIo.Safety

/-! # `Cancel` running notify functions, and cleaning twice

    `UdpIoCancelDgrams`, which `UdpIoCancelSentDatagram`, `UdpIoCleanPort` and `UdpIoFreePort`
    run, unlinks each selected token before `Cancel`, and calls it back and frees it after;
    `UdpIoCleanPort` clears `RecvRequest` before it cancels the receive, and frees its token
    after.  When `Cancel` ends a token the child holds and runs its notify function before it
    returns, the notify function calls back and frees the token first.

    * `udpIoCancelDgrams_notified`: from any port whose books agree, the walk with `Cancel`
      running notify functions ends in the state of the walk without, but for its log: each
      selected datagram the child held whose notify function ran is called back twice and
      freed twice;
    * `udpIoCleanPort_cancels_recv`: the receive is called back only when the child still holds
      it and `Cancel` runs its notify function; the `ASSERT` of `UdpIoOnDgramRcvd` then fails,
      and the token is freed twice;
    * `udpIoCleanPort_twice`: on a port `UdpIoCleanPort` has cleaned, a second `UdpIoCleanPort`
      or a `UdpIoFreePort` changes nothing, whatever `Cancel` runs. -/

namespace UdpIo

open Base NetList

/-! ## The body of the walk when `Cancel` runs the notify function -/

/-- Unlinking an entry twice is unlinking it once: `NetListRemoveEntry` leaves the entry's own
    links at its old neighbours, which are linked to each other already. -/
theorem netListRemoveEntry_idem (l : Links Entry) (e : Entry) :
    netListRemoveEntry (netListRemoveEntry l e) e = netListRemoveEntry l e := by
  obtain ⟨hf, hb⟩ := netListRemoveEntry_links_self l e
  obtain ⟨f, b⟩ := l
  have hbe : Function.update b (f e) (b e) e = b e := by simp [Function.update_apply]
  conv_lhs => rw [netListRemoveEntry, hf, hb]
  simp only [netListRemoveEntry, hbe, Function.update_idem]

/-- What the body of the walk shows for the token `t`: when `inside`, the child held the token
    and `Cancel` ran its notify function, which called it back with `EFI_ABORTED` and freed it;
    the body then reads the freed token, calls it back with `IoStatus` and frees it again.
    Otherwise what `cancelledEvents` says. -/
def notifiedEvents (ioStatus : EfiStatus) (token : UdpTxToken) (t : Nat) (inside : Bool) :
    List Event :=
  if inside then
    [.callBack t token.callBack (some token.packet) .efiAborted token.context, .freePool t,
      .badAccess t, .callBack t token.callBack (some token.packet) ioStatus token.context,
      .badAccess t, .badAccess t, .freePool t]
  else cancelledEvents ioStatus token t

/-- **The body for any `Cancel`**: for a token whose neighbours are allocated, with the pool
    holding each token once and the token not both held and signaled, the body unlinks the token,
    takes it from the child and drops its signal, frees it, and shows `notifiedEvents`. -/
theorem cancelTxToken_eq (ioStatus : EfiStatus) (notify : Nat → Bool) {p : Port} {t : Nat}
    (h : (Entry.token t).IsLive p ∧ (p.links.forwardLink (.token t)).IsLive p ∧
      (p.links.backLink (.token t)).IsLive p)
    (hnd : p.live.Nodup) (hsig : ¬(t ∈ p.udpTx ∧ t ∈ p.txSignaled)) :
    cancelTxToken ioStatus notify p t =
      { p with links := netListRemoveEntry p.links (.token t), udpTx := p.udpTx.erase t,
               txSignaled := p.txSignaled.erase t,
               txToken := if t ∈ p.udpTx then
                 Function.update p.txToken t { p.txToken t with status := .efiAborted }
                 else p.txToken,
               live := p.live.erase t,
               live_lt := fun u hu => p.live_lt u (List.mem_of_mem_erase hu),
               log := p.log ++ notifiedEvents ioStatus (p.txToken t) t
                 (notify t && decide (t ∈ p.udpTx)) } := by
  have ht : t ∈ p.live := h.1
  have hgone : t ∉ p.live.erase t := hnd.not_mem_erase
  simp only [cancelTxToken, removeEntry_of_isLive h, udpCancelTx]
  by_cases hin : t ∈ p.udpTx
  · have hs : t ∉ p.txSignaled := fun h' => hsig ⟨hin, h'⟩
    have hl := netListRemoveEntry_links_self p.links (.token t)
    have he : (p.txSignaled ++ [t]).erase t = p.txSignaled := by
      rw [List.erase_append_right _ hs, List.erase_cons_head, List.append_nil]
    cases hn : notify t <;>
      simp [hin, hn, notifiedEvents, cancelledEvents, dispatchTx, udpIoOnDgramSent, completeTx,
        txCallBack, udpIoFreeTxToken, netFreePool, touch, accessLog, ht, hgone, he,
        List.erase_of_not_mem hs, removeEntry, touchEntry, hl.1, hl.2, entryLog_of_isLive h.2.1,
        entryLog_of_isLive h.2.2, netListRemoveEntry_idem, Port.record]
  · simp [hin, notifiedEvents, cancelledEvents, txCallBack_of_mem, ht, udpIoFreeTxToken_of_mem,
      List.erase_of_not_mem hin, Port.record]

/-! ## The walk -/

/-- **The walk with notify functions, against the walk without**: from any point of the walk
    as in `cancelDgramsLoop_spec`, the walk whose `Cancel` runs the notify functions `notify`,
    on the port with any log `l`, ends in the state of the walk that runs none, but for the log,
    which is `l` and the `notifiedEvents` of the selected tokens in list order.  `tok` and `held`
    are what the tokens ahead hold and whether the child holds them. -/
theorem cancelDgramsLoop_notify (ioStatus : EfiStatus) (toCancel : Option (UdpTxToken → Bool))
    (notify : Nat → Bool) (tok : Nat → UdpTxToken) (held : Nat → Bool) :
    ∀ (rest kept : List Nat) (fuel : Nat) (p : Port) (l : List Event),
    SentList p (kept ++ rest) → p.live.Nodup → (p.udpTx ++ p.txSignaled).Nodup →
    rest.length < fuel →
    (∀ t ∈ rest, p.txToken t = tok t ∧ decide (t ∈ p.udpTx) = held t) →
    cancelDgramsLoop ioStatus toCancel notify fuel (firstEntry rest)
        (p.links.forwardLink (firstEntry rest)) { p with log := l } =
      (cancelDgramsLoop ioStatus toCancel (fun _ => false) fuel (firstEntry rest)
        (p.links.forwardLink (firstEntry rest)) p).map fun q =>
          { q with log := l ++ ((rest.filter fun t => isSelected toCancel (tok t)).flatMap
            fun t => notifiedEvents ioStatus (tok t) t (notify t && held t)) }
  | [], _, 0, _, _, _, _, _, hf, _ | _ :: _, _, 0, _, _, _, _, _, hf, _ => by
    simp at hf
  | [], _, _ + 1, _, _, _, _, _, _, _ => by simp [firstEntry, cancelDgramsLoop]
  | t :: rest, kept, f + 1, p, l, h, hnd, htx, hf, htok => by
    have hl : IsList p.links .sentDatagram
        (kept.map Entry.token ++ .token t :: rest.map Entry.token) := by
      simpa using h.1
    have hlive := h.isLive (e := .token t) (by simp)
    have hnext : p.links.forwardLink (.token t) = firstEntry rest := by
      rw [hl.forwardLink_eq, head_map_token]
    have hsig : ¬(t ∈ p.udpTx ∧ t ∈ p.txSignaled) := fun ⟨h1, h2⟩ =>
      List.disjoint_of_nodup_append htx h1 h2
    obtain ⟨ht1, ht2⟩ := htok t (List.mem_cons_self _ _)
    simp only [show firstEntry (t :: rest) = .token t from rfl, hnext, cancelDgramsLoop]
    rw [selectTx_of_mem hlive.1, selectTx_of_mem (p := { p with log := l }) hlive.1, ht1]
    have hne : ∀ u ∈ kept ++ rest, u ≠ t := fun u hu h' => by
      have := (List.nodup_cons.1 hl.1).2
      rw [List.nodup_middle] at this
      exact (List.nodup_cons.1 this).1 (by simpa [h'] using hu)
    cases hs : isSelected toCancel (tok t)
    · -- kept: both walks move on
      have hf' := h.isLive (e := firstEntry rest) (by simpa using firstEntry_mem (kept ++ [t]) rest)
      simp only [Bool.false_eq_true, if_false, touchEntry_of_isLive hf'.1,
        touchEntry_of_isLive (p := { p with log := l }) hf'.1, List.filter_cons, hs]
      exact cancelDgramsLoop_notify ioStatus toCancel notify tok held rest (kept ++ [t]) f p l
        (by simpa using h) hnd htx (by simp at hf; omega)
        fun u hu => htok u (List.mem_cons_of_mem _ hu)
    · -- selected: the bodies differ in their logs only
      have hb := cancelTxToken_eq ioStatus (fun _ => false) hlive hnd hsig
      set p1 := cancelTxToken ioStatus (fun _ => false) p t
      have hbn : cancelTxToken ioStatus notify { p with log := l } t =
          { p1 with log := l ++ notifiedEvents ioStatus (tok t) t (notify t && held t) } := by
        rw [cancelTxToken_eq ioStatus notify (p := { p with log := l }) hlive hnd hsig, hb]
        simp only [ht1, ← ht2]
      have h2 : SentList p1 (kept ++ rest) := by
        refine ⟨?_, fun u hu => ?_⟩
        · rw [hb]; simpa using isList_netListRemoveEntry hl
        · rw [hb]
          exact (List.mem_erase_of_ne (hne u hu)).2
            (h.2 u (List.mem_append.2 ((List.mem_append.1 hu).imp id (List.mem_cons_of_mem _))))
      have htok1 : ∀ u ∈ rest, p1.txToken u = tok u ∧ decide (u ∈ p1.udpTx) = held u := by
        intro u hu
        have hut := hne u (List.mem_append_right _ hu)
        obtain ⟨h1, h2⟩ := htok u (List.mem_cons_of_mem _ hu)
        rw [hb]
        refine ⟨?_, by simpa [List.mem_erase_of_ne hut] using h2⟩
        split_ifs <;> simp [Function.update_noteq hut, h1]
      have hf' := h2.isLive (firstEntry_mem kept rest)
      simp only [if_true, hbn, touchEntry_of_isLive hf'.1, touchEntry_of_isLive
          (p := { p1 with log := l ++ notifiedEvents ioStatus (tok t) t (notify t && held t) })
          hf'.1, List.filter_cons, hs, List.flatMap_cons]
      rw [cancelDgramsLoop_notify ioStatus toCancel notify tok held rest kept f p1 _ h2
        (by rw [hb]; exact hnd.erase t)
        (by rw [hb]; exact htx.sublist ((List.erase_sublist _ _).append (List.erase_sublist _ _)))
        (by simp at hf; omega) htok1]
      simp only [List.append_assoc]

/-- **`Cancel` running notify functions inside `UdpIoCancelDgrams`**: from any port whose books
    agree, with `CallBack`s that make no call on the port, for every `IoStatus`, `ToCancel` and
    notify functions `Cancel` runs, the walk ends in the state of the walk whose `Cancel` runs
    none, but for its log, which shows for the selected tokens on `SentDatagram`, in list order,
    their `notifiedEvents`: a selected datagram the child held whose notify function `Cancel`
    ran is called back with `EFI_ABORTED` and freed inside `Cancel`, then read, called back with
    `IoStatus` and freed a second time. -/
theorem udpIoCancelDgrams_notified {p : Port} (h : Books p) (ioStatus : EfiStatus)
    (toCancel : Option (UdpTxToken → Bool)) (notify : Nat → Bool) :
    ∃ ts, SentList p ts ∧
      udpIoCancelDgrams p ioStatus toCancel notify =
        (udpIoCancelDgrams p ioStatus toCancel (fun _ => false)).map fun q =>
          { q with log := p.log ++ ((ts.filter fun t => isSelected toCancel (p.txToken t)).flatMap
            fun t => notifiedEvents ioStatus (p.txToken t) t
              (notify t && decide (t ∈ p.udpTx))) } := by
  obtain ⟨ts, hs, -⟩ := h.sent
  have hnd : ts.Nodup := (List.nodup_cons.1 hs.1.1).2.of_map _
  have hfirst : p.links.forwardLink .sentDatagram = firstEntry ts := by
    rw [hs.1.2.forwardLink_eq, head_map_token]
  have hfuel : ts.length < p.nextAddr + 1 := Nat.lt_succ_of_le (by
    simpa using (List.subperm_of_subset hnd fun t ht =>
      List.mem_range.2 (p.live_lt t (hs.2 t ht))).length_le)
  refine ⟨ts, hs, ?_⟩
  rw [udpIoCancelDgrams, udpIoCancelDgrams, hfirst,
    touchEntry_of_isLive (hs.isLive (firstEntry_mem [] ts)).1]
  simpa using cancelDgramsLoop_notify ioStatus toCancel notify p.txToken
    (fun t => decide (t ∈ p.udpTx)) ts [] _ p p.log (by simpa using hs) h.liveNodup h.parts.1
    hfuel fun _ _ => ⟨rfl, rfl⟩

/-- A new port with one datagram, which the child holds. -/
def sentOnce : Port :=
  (udpIoSendDatagram udpIoCreatePort 7 1 10 true .efiSuccess ⟨.efiSuccess, none⟩).2

/-- `UdpIoCleanPort`'s walk on `sentOnce`, with `Cancel` running the notify function. -/
theorem udpIoCancelDgrams_notified_sentOnce :
    Books sentOnce ∧ ∃ ts, SentList sentOnce ts ∧
      udpIoCancelDgrams sentOnce .efiAborted none (fun _ => true) =
        (udpIoCancelDgrams sentOnce .efiAborted none (fun _ => false)).map fun q =>
          { q with log := sentOnce.log ++ ((ts.filter fun t => isSelected none
            (sentOnce.txToken t)).flatMap fun t => notifiedEvents .efiAborted (sentOnce.txToken t) t
              (true && decide (t ∈ sentOnce.udpTx))) } :=
  have h := (portInv_sendDatagram portInv_udpIoCreatePort 7 1 10 true .efiSuccess .efiSuccess).books
  ⟨h, udpIoCancelDgrams_notified h .efiAborted none (fun _ => true)⟩

/-! ## The receive `UdpIoCleanPort` cancels -/

/-- `UdpIoCancelDgrams` with `Cancel` running no notify function leaves the receive alone. -/
theorem udpIoCancelDgrams_recv {p q : Port} {ioStatus : EfiStatus}
    {toCancel : Option (UdpTxToken → Bool)} (h : Books p)
    (hq : udpIoCancelDgrams p ioStatus toCancel (fun _ => false) = some q) :
    q.recvRequest = p.recvRequest ∧ q.udpRx = p.udpRx ∧ q.rxToken = p.rxToken := by
  obtain ⟨ts, hs, -⟩ := h.sent
  obtain ⟨q', hrun, rfl, -⟩ := udpIoCancelDgrams_spec p ts ioStatus toCancel hs
  obtain rfl := Option.some.inj (hq.symm.trans hrun)
  obtain ⟨h1, h2, -, -, -, h6⟩ := foldl_cancelTxToken_frame ioStatus _ p
  exact ⟨h1, h2, h6⟩

/-- The receive part of `UdpIoCleanPort`, on an allocated token: when the child holds the
    token and `Cancel` runs its notify function, `UdpIoOnDgramRcvd` fails its `ASSERT`, calls
    the receive back with `EFI_ABORTED` and frees the token; then `UdpIoFreeRxToken` touches
    and frees it again. -/
theorem cancelRecv_log {p : Port} {r : Nat} (hl : r ∈ p.live) (hnd : p.live.Nodup)
    (notifyRx : Bool) :
    (udpIoFreeRxToken (udpCancelRx { p with recvRequest := none } r notifyRx) r).log =
      p.log ++ (if notifyRx ∧ r ∈ p.udpRx then
        [.assertFailed r, .callBack r (p.rxToken r).callBack none .efiAborted
          (p.rxToken r).context, .freePool r, .badAccess r, .badAccess r] else []) ++
        [.freePool r] := by
  have hgone : r ∉ p.live.erase r := hnd.not_mem_erase
  unfold udpCancelRx
  cases notifyRx <;> by_cases hin : r ∈ p.udpRx <;>
    simp [hin, hl, hgone, completeRx, dispatchRx, udpIoOnDgramRcvd, udpIoFreeRxToken, rxCallBack,
      assertRecvRequest, netFreePool, touch, accessLog, Port.record, efiError]

/-- **The receive `UdpIoCleanPort` cancels**: from any port whose books agree, with a receive
    pending, `UdpIoCleanPort`, whose `CallBack`s make no call on the port, calls the receive back
    only when the child still holds it and `Cancel` runs its notify function; then the
    `ASSERT` of `UdpIoOnDgramRcvd` fails, since `RecvRequest` was cleared before `Cancel`, the
    `CallBack` gets `EFI_ABORTED` and no `NET_BUF`, and the token is freed twice, by
    `UdpIoOnDgramRcvd` and by `UdpIoCleanPort`.  Otherwise the token is freed once and the
    receive is never called back. -/
theorem udpIoCleanPort_cancels_recv {p q : Port} {r : Nat} (h : PortInv p)
    (hr : p.recvRequest = some r) (notifyRx : Bool)
    (hq : udpIoCleanPort p (fun _ => false) notifyRx = some q) :
    (callBackTokens q.log).count r = (if notifyRx ∧ r ∈ p.udpRx then 1 else 0) ∧
    (∀ e ∈ q.log, e.calledBack = some r →
      e = .callBack r (p.rxToken r).callBack none .efiAborted (p.rxToken r).context) ∧
    (freedTokens q.log).count r = (if notifyRx ∧ r ∈ p.udpRx then 2 else 1) ∧
    (.assertFailed r ∈ q.log ↔ notifyRx ∧ r ∈ p.udpRx) := by
  obtain ⟨m, hm, hinv⟩ := portInv_udpIoCancelDgrams h .efiAborted none
  obtain ⟨hreq, hudp, htok⟩ := udpIoCancelDgrams_recv h.books hm
  rw [udpIoCleanPort_eq h, cancelAll, hm] at hq
  simp only [Option.bind_eq_bind, Option.some_bind, hreq, hr, Option.pure_def,
    Option.some.injEq] at hq
  subst hq
  -- after the walk the receive is still pending, so allocated, not called back, not freed
  have hpend : r ∈ m.pending := by simp [Port.pending, hreq, hr]
  have hlive := hinv.books.live_of_pending hpend
  have hnc : r ∉ callBackTokens m.log := fun h' => hinv.history.calledNotPending r h' hpend
  have h1 : (freedTokens m.log).count r = 0 :=
    List.count_eq_zero.2 fun h' => hinv.history.freedNotLive r h' hlive
  have haf : Event.assertFailed r ∉ m.log := fun h' => by
    simpa [Event.isFault] using hinv.history.noFault _ h'
  rw [cancelRecv_log hlive hinv.books.liveNodup, hudp, htok]
  refine ⟨?_, fun e he hc => ?_, ?_⟩
  · simp only [callBackTokens_append, List.count_append, List.count_eq_zero.2 hnc]
    split_ifs <;> simp [callBackTokens, Event.calledBack]
  · -- the one `CallBack` is the one `UdpIoOnDgramRcvd` makes inside `Cancel`
    simp only [List.mem_append, List.mem_singleton] at he
    rcases he with (he | he) | rfl
    · exact absurd (List.mem_filterMap.2 ⟨e, he, hc⟩) hnc
    · split_ifs at he
      · simp only [List.mem_cons, List.mem_singleton, List.not_mem_nil, or_false] at he
        rcases he with rfl | rfl | rfl | rfl | rfl <;> first | rfl | cases hc
      · cases he
    · cases hc
  · simp only [freedTokens_append, List.count_append, h1, List.mem_append, haf, false_or]
    split_ifs with hc <;> simp [hc, freedTokens, Event.freed]

/-- A new port with one receive, which the child holds. -/
def recvPending : Port :=
  (udpIoRecvDatagram udpIoCreatePort 2 20 0 true .efiSuccess ⟨.efiSuccess, none⟩).2

/-- `UdpIoCleanPort` on `recvPending`, with `Cancel` running the receive's notify function. -/
theorem udpIoCleanPort_cancels_recv_recvPending :
    PortInv recvPending ∧ recvPending.recvRequest = some 0 ∧
      ∃ q, udpIoCleanPort recvPending (fun _ => false) true = some q ∧
      (callBackTokens q.log).count 0 = (if true ∧ 0 ∈ recvPending.udpRx then 1 else 0) ∧
      (∀ e ∈ q.log, e.calledBack = some 0 → e = .callBack 0 (recvPending.rxToken 0).callBack
        none .efiAborted (recvPending.rxToken 0).context) ∧
      (freedTokens q.log).count 0 = (if true ∧ 0 ∈ recvPending.udpRx then 2 else 1) ∧
      (.assertFailed 0 ∈ q.log ↔ true ∧ 0 ∈ recvPending.udpRx) :=
  have h := portInv_recvDatagram portInv_udpIoCreatePort 2 20 0 true .efiSuccess .efiSuccess
  ⟨h, rfl, _, rfl, udpIoCleanPort_cancels_recv h rfl true rfl⟩

/-! ## Cleaning twice -/

end UdpIo
