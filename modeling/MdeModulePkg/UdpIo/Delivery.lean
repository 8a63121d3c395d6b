import MdeModulePkg.UdpIo.Safety

/-! # Every datagram sent is called back

    `UdpIoFreePort` cancels the sent datagrams, and "the callbacks of transmit requests are
    executed to allow the caller to release the resource": a datagram that
    `UdpIoSendDatagram` took is called back by the end of the port's life, once.

    * `TxKept p q`: from `p` to `q` the log only grows, and each transmit token pending at `p`
      (held by the child or signaled) is pending at `q` or has been called back;
    * one lemma per operation, then `txKept_step` and `txKept_run`;
    * `udpIoCreatePort_run_calledBack`: in a run from a new port that ends with
      `UdpIoCleanPort` or `UdpIoFreePort`, each datagram pending at any point of it is called
      back exactly once. -/

namespace UdpIo

open Base NetList

/-- From `p` to `q` the log only grows, and each transmit token pending at `p` is pending at
    `q` or has been called back. -/
def TxKept (p q : Port) : Prop :=
  p.log <+: q.log ∧ ∀ t ∈ p.udpTx ++ p.txSignaled,
    t ∈ q.udpTx ++ q.txSignaled ∨ t ∈ callBackTokens q.log

theorem TxKept.refl (p : Port) : TxKept p p := ⟨List.prefix_refl _, fun _ ht => .inl ht⟩

theorem TxKept.trans {p m q : Port} (h₁ : TxKept p m) (h₂ : TxKept m q) : TxKept p q := by
  refine ⟨h₁.1.trans h₂.1, fun t ht => ?_⟩
  rcases h₁.2 t ht with ht | ht
  · exact h₂.2 t ht
  · exact .inr ((h₂.1.sublist.filterMap _).subset ht)

/-- An operation that keeps every pending transmit token pending. -/
theorem TxKept.of_subset {p q : Port} (hl : p.log <+: q.log)
    (hsub : p.udpTx ++ p.txSignaled ⊆ q.udpTx ++ q.txSignaled) : TxKept p q :=
  ⟨hl, fun _ ht => .inl (hsub ht)⟩

/-- `SentDatagram` holds one list of tokens. -/
theorem SentList.unique {p : Port} {l l' : List Nat} (h : SentList p l) (h' : SentList p l') :
    l = l' :=
  List.map_injective_iff.2 (fun _ _ => Entry.token.inj) (h.1.unique h'.1)

/-- A token on `SentDatagram` is pending. -/
theorem SentList.mem_pending {p : Port} {l : List Nat} (h : PortInv p) (hs : SentList p l)
    {t : Nat} (ht : t ∈ l) : t ∈ p.udpTx ++ p.txSignaled := by
  obtain ⟨ts, hts, hperm⟩ := h.books.sent
  exact hperm.subset (hts.unique hs ▸ ht)

/-! ## One operation -/

/-- `UdpIoSendDatagram` with no token ended inside `Transmit`: the fresh token, if any, joins
    the child's. -/
theorem txKept_sendDatagram {p : Port} (hsig : ∀ u ∈ p.txSignaled, u ∈ p.live)
    (packet callBack context : Nat) (alloc : Bool) (createEvent status : EfiStatus) :
    TxKept p
      (udpIoSendDatagram p packet callBack context alloc createEvent ⟨status, none⟩).2 := by
  cases alloc
  · exact TxKept.refl p
  have hfresh : ∀ u ∈ p.txSignaled, u ≠ p.nextAddr := fun u hu he =>
    Nat.lt_irrefl u (he ▸ p.live_lt u (hsig u hu))
  simp only [udpIoSendDatagram, udpIoWrapTx, netAllocatePool, if_true, udpTransmit]
  split_ifs <;> dsimp only
  -- `CreateEvent` fails, whatever `Transmit` would return
  iterate 2 exact .of_subset (by simp [netFreePool, touch, Port.record]) (by
    dsimp only [netFreePool, touch, Port.record]; exact List.Subset.refl _)
  · refine .of_subset (by simp [udpIoFreeTxToken, netFreePool, touch, Port.record]) ?_
    intro u hu
    rcases List.mem_append.1 hu with hu | hu
    · exact List.mem_append_left _ hu
    · exact List.mem_append_right _ ((List.mem_erase_of_ne (hfresh u hu)).2 hu)
  · refine .of_subset (by simp [insertHead, touchEntry]) fun u hu => ?_
    rcases List.mem_append.1 hu with hu | hu
    · exact List.mem_append_left _ (List.mem_append_left _ hu)
    · exact List.mem_append_right _ hu

/-- `UdpIoRecvDatagram` with no token ended inside `Receive` leaves the transmit side alone. -/
theorem txKept_recvDatagram (p : Port) (callBack context headLen : Nat) (alloc : Bool)
    (createEvent status : EfiStatus) :
    TxKept p
      (udpIoRecvDatagram p callBack context headLen alloc createEvent ⟨status, none⟩).2 := by
  suffices h : ∀ q : Port,
      q = (udpIoRecvDatagram p callBack context headLen alloc createEvent ⟨status, none⟩).2 →
      q.udpTx = p.udpTx ∧ q.txSignaled = p.txSignaled ∧ p.log <+: q.log from
    have ⟨hu, hs, hl⟩ := h _ rfl
    .of_subset hl (by rw [hu, hs]; exact List.Subset.refl _)
  rintro _ rfl
  by_cases hs : p.recvRequest.isSome
  · simp [udpIoRecvDatagram, hs]
  cases alloc
  · simp [udpIoRecvDatagram, udpIoCreateRxToken, hs]
  by_cases hce : efiError createEvent
  · simp [udpIoRecvDatagram, udpIoCreateRxToken, netAllocatePool, netFreePool, touch, Port.record,
      hs, hce]
  by_cases hst : efiError status <;>
  simp [udpIoRecvDatagram, udpIoCreateRxToken, netAllocatePool, udpReceive, udpIoFreeRxToken,
    netFreePool, touch, Port.record, hs, hce, hst]

/-- `UdpIoRecycleDgram` leaves the transmit side alone. -/
theorem txKept_recycleDgram (p : Port) (t : Nat) : TxKept p (udpIoRecycleDgram p t) :=
  .of_subset (by simp [udpIoRecycleDgram, udpIoFreeRxToken, netFreePool, touch, Port.record]) (by
    dsimp only [udpIoRecycleDgram, udpIoFreeRxToken, netFreePool, touch, Port.record]
    exact List.Subset.refl _)

/-- `UdpIoFreeTxToken` of a token called back already. -/
theorem TxKept.free {p m : Port} {t : Nat} (hk : TxKept p m) (ht : t ∈ callBackTokens m.log)
    (hl : t ∈ m.live) : TxKept p (udpIoFreeTxToken m t) := by
  rw [udpIoFreeTxToken_of_mem hl]
  refine ⟨hk.1.trans (by simp [Port.record]), fun u hu => ?_⟩
  rcases hk.2 u hu with hu | hu
  · by_cases hut : u = t
    · exact .inr (by simp [Port.record, hut ▸ ht])
    · refine .inl ?_
      rcases List.mem_append.1 hu with hu | hu
      · exact List.mem_append_left _ hu
      · exact List.mem_append_right _ ((List.mem_erase_of_ne hut).2 hu)
  · exact .inr (by simp [Port.record, hu])

/-- A `CallBack` of `t`, after steps that keep the other pending tokens and grow the log. -/
theorem TxKept.callBack {p m : Port} {t : Nat} (hl : p.log <+: m.log)
    (hsub : ∀ u ∈ p.udpTx ++ p.txSignaled, u ≠ t → u ∈ m.udpTx ++ m.txSignaled)
    (status : EfiStatus) :
    TxKept p (txCallBack m t status) ∧ t ∈ callBackTokens (txCallBack m t status).log := by
  have hcb : t ∈ callBackTokens (txCallBack m t status).log := by
    simp [txCallBack, Port.record, callBackTokens, Event.calledBack]
  refine ⟨⟨hl.trans (by simp [txCallBack, touch, Port.record]), fun u hu => ?_⟩, hcb⟩
  by_cases hut : u = t
  · exact .inr (hut ▸ hcb)
  · exact .inl (hsub u hu hut)

/-- The notify function of a transmit token, up to the `CallBack`: the token is called back,
    the others stay. -/
theorem txKept_notifyTx (p : Port) (t : Nat) (status : EfiStatus) :
    let mid := txCallBack (removeEntry (touch { p with txSignaled := p.txSignaled.erase t } t)
      (.token t)) t status
    TxKept p mid ∧ t ∈ callBackTokens mid.log :=
  TxKept.callBack (by simp [removeEntry, touch, touchEntry]) (fun u hu hut => by
    dsimp only [removeEntry, touch, touchEntry]
    rcases List.mem_append.1 hu with hu | hu
    exacts [List.mem_append_left _ hu, List.mem_append_right _ ((List.mem_erase_of_ne hut).2 hu)])
    status

/-- The notify function of a signaled transmit token calls it back. -/
theorem txKept_dispatchTx {p : Port} {t : Nat} (h : PortInv p) (ht : t ∈ p.txSignaled) :
    TxKept p (dispatchTx p t) := by
  have hl : t ∈ p.live := h.books.live_of_pending (by simp [Port.pending, ht])
  have hn := txKept_notifyTx p t
  exact (hn _).1.free (hn _).2
    (by simpa [txCallBack, removeEntry, touch, touchEntry, Port.record] using hl)

/-- The notify function of a signaled receive token leaves the transmit side alone. -/
theorem txKept_dispatchRx {p : Port} {t : Nat} (h : PortInv p) (ht : t ∈ p.rxSignaled)
    (netbuf : Bool) : TxKept p (dispatchRx p t netbuf) := by
  obtain ⟨-, -, hreq⟩ := h.books.recv_of_mem_rxSignaled ht
  obtain ⟨packet, status, hq | hq⟩ := udpIoOnDgramRcvd_eq
    (p := { p with rxSignaled := p.rxSignaled.erase t })
    (h.books.live_of_pending (by simp [Port.pending, hreq])) hreq netbuf
  all_goals
    exact .of_subset (by rw [dispatchRx, hq]; simp)
      (by rw [dispatchRx, hq]; exact List.Subset.refl _)

/-- `UdpIoCancelDgrams` calls back each token it selects; the others stay. -/
theorem txKept_udpIoCancelDgrams {p q : Port} (h : PortInv p) {ioStatus : EfiStatus}
    {toCancel : Option (UdpTxToken → Bool)}
    (hq : udpIoCancelDgrams p ioStatus toCancel (fun _ => false) = some q) : TxKept p q := by
  obtain ⟨ts, hs, hts⟩ := h.books.sent
  obtain ⟨q', hrun, -, hsl, hlog⟩ := udpIoCancelDgrams_spec p ts ioStatus toCancel hs
  obtain rfl : q = q' := Option.some.inj (hq.symm.trans hrun)
  obtain ⟨q'', hrun', hinv⟩ := portInv_udpIoCancelDgrams h ioStatus toCancel
  obtain rfl : q = q'' := Option.some.inj (hq.symm.trans hrun')
  refine ⟨by simp [hlog], fun u hu => ?_⟩
  have hu' : u ∈ ts := hts.symm.subset hu
  cases hsel : isSelected toCancel (p.txToken u)
  · exact .inl (hsl.mem_pending hinv (List.mem_filter.2 ⟨hu', by simp [hsel]⟩))
  · refine .inr ?_
    rw [hlog, callBackTokens_append, (cancelledEvents_tokens _ _ _).1]
    exact List.mem_append_right _ (List.mem_filter.2 ⟨hu', hsel⟩)

/-- The receive part of `UdpIoCleanPort` leaves the transmit side alone. -/
theorem txKept_cancelRx (p : Port) (r : Nat) :
    TxKept p (udpIoFreeRxToken (udpCancelRx { p with recvRequest := none } r false) r) := by
  obtain ⟨h1, h2, -⟩ := cancelRecv_frame p r
  refine .of_subset ?_ (by rw [h1, h2]; exact List.Subset.refl _)
  simp only [udpCancelRx, Bool.false_eq_true, if_false]
  split_ifs <;> simp [udpIoFreeRxToken, netFreePool, touch, completeRx, Port.record]

/-- `UdpIoCleanPort` calls back every pending transmit token. -/
theorem txKept_udpIoCleanPort {p q : Port} (h : PortInv p)
    (hq : udpIoCleanPort p (fun _ => false) false = some q) : TxKept p q := by
  obtain ⟨q', hq', -⟩ := portInv_udpIoCancelDgrams h .efiAborted none
  rw [udpIoCleanPort_eq h, cancelAll, hq'] at hq
  refine (txKept_udpIoCancelDgrams h hq').trans ?_
  cases hr : q'.recvRequest with
  | none =>
    simp only [Option.bind_eq_bind, Option.some_bind, hr] at hq
    cases hq
    exact TxKept.refl _
  | some r =>
    simp only [Option.bind_eq_bind, Option.some_bind, hr] at hq
    cases hq
    exact txKept_cancelRx q' r

/-- `Configure (NULL)` ends the transmit tokens the child holds: they stay pending, signaled. -/
theorem txKept_udpConfigureNull (p : Port) : TxKept p (udpConfigureNull p) := by
  obtain ⟨h1, h2, -, h4⟩ := udpConfigureNull_tx p
  refine .of_subset h4 fun u hu => ?_
  rw [h1, h2, List.nil_append]
  exact List.mem_append.2 (List.mem_append.1 hu).symm

/-! ## Runs -/

/-- **Every step keeps the pending transmit tokens**, or calls them back. -/
theorem txKept_step {p q : Port} {s : Step} (h : PortInv p) (hs : s.notifiesLater)
    (hq : step p s = some q) : TxKept p q := by
  cases s with
  | sendDatagram packet callBack context alloc createEvent transmit =>
    obtain ⟨status, _ | _⟩ := transmit
    · cases hq
      exact txKept_sendDatagram (fun u hu => h.books.live_of_pending (by simp [Port.pending, hu]))
        packet callBack context alloc createEvent status
    · simp [Step.notifiesLater] at hs
  | cancelSentDatagram packet notifyTx =>
    obtain rfl : notifyTx = [] := by simpa [Step.notifiesLater] using hs
    exact txKept_udpIoCancelDgrams h hq
  | recvDatagram callBack context headLen alloc createEvent receive =>
    obtain ⟨status, _ | _⟩ := receive
    · cases hq; exact txKept_recvDatagram p callBack context headLen alloc createEvent status
    · simp [Step.notifiesLater] at hs
  | recycleDgram t =>
    simp only [step] at hq
    split_ifs at hq
    cases hq
    exact txKept_recycleDgram p t
  | cleanPort notifyTx notifyRx =>
    obtain ⟨rfl, rfl⟩ : notifyTx = [] ∧ notifyRx = false := by
      simpa [Step.notifiesLater] using hs
    exact txKept_udpIoCleanPort h hq
  | freePort notifyTx notifyRx =>
    obtain ⟨rfl, rfl⟩ : notifyTx = [] ∧ notifyRx = false := by
      simpa [Step.notifiesLater] using hs
    simp only [step, udpIoFreePort_snd, List.not_mem_nil, decide_False] at hq
    rw [← udpIoCleanPort_eq h] at hq
    exact txKept_udpIoCleanPort h hq
  | completeTx t status =>
    simp only [step] at hq
    split_ifs at hq with ht
    cases hq
    refine .of_subset (by simp [completeTx, touch]) fun u hu => ?_
    simp only [completeTx, touch, List.mem_append, List.mem_singleton] at hu ⊢
    by_cases hut : u = t
    · exact .inr (.inr hut)
    · rcases hu with hu | hu
      exacts [.inl ((List.mem_erase_of_ne hut).2 hu), .inr (.inl hu)]
  | completeRx t status rxData =>
    simp only [step] at hq
    split_ifs at hq
    cases hq
    exact .of_subset (by simp [completeRx, touch]) (by
      dsimp only [completeRx, touch]; exact List.Subset.refl _)
  | notifyTx t =>
    simp only [step] at hq
    split_ifs at hq with ht
    cases hq
    exact txKept_dispatchTx h ht
  | notifyRx t netbuf =>
    simp only [step] at hq
    split_ifs at hq with ht
    cases hq
    exact txKept_dispatchRx h ht netbuf

theorem txKept_run : ∀ (steps : List Step) {p q : Port}, PortInv p →
    (∀ s ∈ steps, s.notifiesLater) → run p steps = some q → TxKept p q
  | [], _, _, _, _, hq => (Option.some.inj hq) ▸ TxKept.refl _
  | s :: steps, _, _, h, hs, hq => by
    obtain ⟨p', h1, h2⟩ := Option.bind_eq_some.1 hq
    exact (txKept_step h (hs s (List.mem_cons_self _ _)) h1).trans
      (txKept_run steps (portInv_step h (hs s (List.mem_cons_self _ _)) h1)
        (fun s' h' => hs s' (List.mem_cons_of_mem _ h')) h2)

/-- **Every datagram sent is called back, once**: in a run from a new port whose notify
    functions run between calls, whose `CallBack`s make no call on the port, and that ends with
    `UdpIoCleanPort` or `UdpIoFreePort`, each transmit token pending at any point of the run,
    held by the child or signaled, is called back exactly once by its end. -/
theorem udpIoCreatePort_run_calledBack (pre post : List Step)
    (hs : ∀ s ∈ pre ++ post, s.notifiesLater) (last : Step)
    (hlast : last = .cleanPort [] false ∨ last = .freePort [] false) {p q : Port}
    (hp : run udpIoCreatePort pre = some p) (hq : run p (post ++ [last]) = some q) :
    ∀ t ∈ p.udpTx ++ p.txSignaled, (callBackTokens q.log).count t = 1 := by
  have h := run_portInv pre portInv_udpIoCreatePort (fun s h => hs s (List.mem_append_left _ h)) hp
  have hpost : ∀ s ∈ post, s.notifiesLater := fun s h => hs s (List.mem_append_right _ h)
  rw [run_append] at hq
  obtain ⟨m, hm, hq⟩ := Option.bind_eq_some.1 hq
  obtain ⟨q', hq', hq''⟩ := Option.bind_eq_some.1 hq
  obtain rfl : q = q' := (Option.some.inj hq'').symm
  have hmi := run_portInv post h hpost hm
  have hclean : udpIoCleanPort m (fun _ => false) false = some q := by
    rcases hlast with rfl | rfl
    · exact hq'
    · simp only [step, udpIoFreePort_snd, List.not_mem_nil, decide_False] at hq'
      rwa [← udpIoCleanPort_eq hmi] at hq'
  have hkept := (txKept_run post h hpost hm).trans (txKept_udpIoCleanPort hmi hclean)
  have hpend : q.udpTx ++ q.txSignaled = [] :=
    (List.append_eq_nil.1 (udpIoCleanPort_pending hmi hclean)).1
  intro t ht
  refine List.count_eq_one_of_mem
    (portInv_step hmi (by rcases hlast with rfl | rfl <;> rfl) hq').history.calledOnce ?_
  rcases hkept.2 t ht with ht | ht
  · simp [hpend] at ht
  · exact ht

/-- The datagram of `portLife`'s first step, still with the child after it, is called back
    once, when its notify function runs. -/
theorem udpIoCreatePort_run_calledBack_life :
    (∀ s ∈ portLife.take 1 ++ (portLife.drop 1).dropLast, s.notifiesLater) ∧
      ∃ p q, run udpIoCreatePort (portLife.take 1) = some p ∧
        run p ((portLife.drop 1).dropLast ++ [.cleanPort [] false]) = some q ∧ 0 ∈ p.udpTx ∧
        ∀ t ∈ p.udpTx ++ p.txSignaled, (callBackTokens q.log).count t = 1 := by
  have hs : ∀ s ∈ portLife.take 1 ++ (portLife.drop 1).dropLast, s.notifiesLater := by decide
  have hrun : (run udpIoCreatePort
      (portLife.take 1 ++ ((portLife.drop 1).dropLast ++ [.cleanPort [] false]))).isSome := by
    decide
  have h0 : (run udpIoCreatePort (portLife.take 1)).map (fun p => decide (0 ∈ p.udpTx)) =
      some true := by decide
  obtain ⟨p, hp⟩ : ∃ p, run udpIoCreatePort (portLife.take 1) = some p := ⟨_, rfl⟩
  rw [run_append, hp] at hrun
  rw [hp] at h0
  obtain ⟨q, hq⟩ := Option.isSome_iff_exists.1 hrun
  exact ⟨hs, p, q, hp, hq, by simpa using h0,
    udpIoCreatePort_run_calledBack _ _ hs _ (.inl rfl) hp hq⟩

end UdpIo
