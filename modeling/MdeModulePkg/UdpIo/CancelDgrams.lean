import MdeModulePkg.UdpIo.Port

/-! # `UdpIoCancelDgrams` — unlinking and freeing while iterating

    `UdpIoCancelDgrams` walks `SentDatagram` with `NET_LIST_FOR_EACH_SAFE`, which reads
    `Next` before the body runs, and the body unlinks and frees the selected token.  When
    `Udp->Cancel` does not run the token's notify function before it returns, and the
    `CallBack` makes no call on the port, the walk is safe: every selected token is unlinked,
    called back with `IoStatus` and freed, once and in list order, and `SentDatagram` keeps the
    others in their order.  A `CallBack` that sends again leaves its datagrams on the list
    (`udpIoCancelDgramsR_leaves_resent`, in `UdpIo.ReentrantSafety`).

    * `cancelDgramsLoop_spec`: the invariant of the walk, from any point of it;
    * `udpIoCancelDgrams_spec`: the walk from the head, as the body folded over the selected
      tokens;
    * `udpIoCancelDgrams_cancels`: with `ToCancel` `NULL` or `UdpIoCancelSingleDgram`. -/

namespace UdpIo

open Base NetList

/-- What cancelling the token `t` shows the user: its `CallBack` with `IoStatus`, then the
    `NetFreePool` of the token. -/
def cancelledEvents (ioStatus : EfiStatus) (token : UdpTxToken) (t : Nat) : List Event :=
  [.callBack t token.callBack (some token.packet) ioStatus token.context, .freePool t]

/-- Whether `ToCancel` selects a token with these contents; `NULL` selects all. -/
def isSelected (toCancel : Option (UdpTxToken → Bool)) (token : UdpTxToken) : Bool :=
  match toCancel with
  | none => true
  | some f => f token

/-- The entry the walk is at when the tokens `rest` are still ahead of it. -/
def firstEntry : List Nat → Entry
  | [] => .sentDatagram
  | t :: _ => .token t

theorem head_map_token (ys : List Nat) :
    (ys.map Entry.token ++ [Entry.sentDatagram]).head (by simp) = firstEntry ys := by
  cases ys <;> rfl

theorem firstEntry_mem (kept rest : List Nat) :
    firstEntry rest ∈ Entry.sentDatagram :: (kept ++ rest).map Entry.token := by
  cases rest <;> simp [firstEntry]

/-- Selecting an allocated token reads it and changes nothing. -/
theorem selectTx_of_mem {p : Port} {t : Nat} (h : t ∈ p.live)
    (toCancel : Option (UdpTxToken → Bool)) :
    selectTx toCancel p t = (isSelected toCancel (p.txToken t), p) := by
  cases toCancel <;> simp [selectTx, isSelected, touch_of_mem h]

/-- The body for one selected token whose neighbours are allocated, when `Cancel` runs no
    notify function. -/
theorem cancelTxToken_spec (ioStatus : EfiStatus) {p : Port} {t : Nat}
    (h : (Entry.token t).IsLive p ∧ (p.links.forwardLink (.token t)).IsLive p ∧
      (p.links.backLink (.token t)).IsLive p) :
    (cancelTxToken ioStatus (fun _ => false) p t).links = netListRemoveEntry p.links (.token t) ∧
    (cancelTxToken ioStatus (fun _ => false) p t).log =
      p.log ++ cancelledEvents ioStatus (p.txToken t) t ∧
    (cancelTxToken ioStatus (fun _ => false) p t).live = p.live.erase t ∧
    ∀ u, u ≠ t → (cancelTxToken ioStatus (fun _ => false) p t).txToken u = p.txToken u := by
  have ht : t ∈ p.live := h.1
  simp only [cancelTxToken, removeEntry_of_isLive h, udpCancelTx, Bool.false_eq_true, if_false]
  split_ifs
  all_goals simp only [completeTx_of_mem, txCallBack_of_mem, udpIoFreeTxToken_of_mem, ht,
    Port.record]
  all_goals simp +contextual [cancelledEvents, Function.update_noteq]

/-! ## What the body leaves -/

section Body

variable (ioStatus : EfiStatus)

/-- The body frees the token, whatever the state. -/
theorem cancelTxToken_live (p : Port) (t : Nat) :
    (cancelTxToken ioStatus (fun _ => false) p t).live = p.live.erase t := by
  simp only [cancelTxToken, udpCancelTx, Bool.false_eq_true, if_false]
  split_ifs <;> dsimp only [udpIoFreeTxToken, netFreePool, txCallBack, completeTx, touch,
    removeEntry, touchEntry, Port.record]

/-- The body takes the token from the child, whatever the state. -/
theorem cancelTxToken_udpTx (p : Port) (t : Nat) :
    (cancelTxToken ioStatus (fun _ => false) p t).udpTx = p.udpTx.erase t := by
  simp only [cancelTxToken, udpCancelTx, Bool.false_eq_true, if_false]
  split_ifs with h <;> dsimp only [udpIoFreeTxToken, netFreePool, txCallBack, completeTx, touch,
    removeEntry, touchEntry, Port.record]
  exact (List.erase_of_not_mem h).symm

/-- The body drops the token's pending notify, when the child does not both hold the token and
    have signaled it. -/
theorem cancelTxToken_txSignaled {p : Port} {t : Nat} (h : ¬(t ∈ p.udpTx ∧ t ∈ p.txSignaled)) :
    (cancelTxToken ioStatus (fun _ => false) p t).txSignaled = p.txSignaled.erase t := by
  simp only [cancelTxToken, udpCancelTx, Bool.false_eq_true, if_false]
  split_ifs with ht <;> dsimp only [udpIoFreeTxToken, netFreePool, txCallBack, completeTx, touch,
    removeEntry, touchEntry, Port.record]
  have h' : t ∉ p.txSignaled := fun h' => h ⟨ht, h'⟩
  rw [List.erase_append_right _ h', List.erase_cons_head, List.append_nil, List.erase_of_not_mem h']

/-- The body leaves the receive side and the allocator alone. -/
theorem cancelTxToken_frame (p : Port) (t : Nat) :
    let q := cancelTxToken ioStatus (fun _ => false) p t
    q.recvRequest = p.recvRequest ∧ q.udpRx = p.udpRx ∧ q.rxSignaled = p.rxSignaled ∧
      q.netbufs = p.netbufs ∧ q.nextAddr = p.nextAddr ∧ q.rxToken = p.rxToken := by
  simp only [cancelTxToken, udpCancelTx, Bool.false_eq_true, if_false]
  split_ifs <;> dsimp only [udpIoFreeTxToken, netFreePool, txCallBack, completeTx, touch,
    removeEntry, touchEntry, Port.record] <;> exact ⟨rfl, rfl, rfl, rfl, rfl, rfl⟩

/-- The body for the tokens `xs` in turn frees them. -/
theorem foldl_cancelTxToken_live (xs : List Nat) (p : Port) :
    (xs.foldl (cancelTxToken ioStatus (fun _ => false)) p).live = p.live.diff xs := by
  induction xs generalizing p with
  | nil => rfl
  | cons t xs ih => rw [List.foldl_cons, ih, cancelTxToken_live, List.diff_cons]

/-- The body for the tokens `xs` in turn takes them from the child and drops their pending
    notifies, when no token is both held and signaled. -/
theorem foldl_cancelTxToken_tx (xs : List Nat) {p : Port} (h : (p.udpTx ++ p.txSignaled).Nodup) :
    (xs.foldl (cancelTxToken ioStatus (fun _ => false)) p).udpTx = p.udpTx.diff xs ∧
    (xs.foldl (cancelTxToken ioStatus (fun _ => false)) p).txSignaled = p.txSignaled.diff xs := by
  induction xs generalizing p with
  | nil => exact ⟨rfl, rfl⟩
  | cons t xs ih =>
    have hboth : ¬(t ∈ p.udpTx ∧ t ∈ p.txSignaled) := fun ⟨h1, h2⟩ =>
      List.disjoint_of_nodup_append h h1 h2
    have h' := cancelTxToken_txSignaled ioStatus hboth
    have hnd : ((cancelTxToken ioStatus (fun _ => false) p t).udpTx ++
        (cancelTxToken ioStatus (fun _ => false) p t).txSignaled).Nodup := by
      rw [cancelTxToken_udpTx, h']
      exact h.sublist ((List.erase_sublist _ _).append (List.erase_sublist _ _))
    rw [List.foldl_cons, (ih hnd).1, (ih hnd).2, cancelTxToken_udpTx, h', List.diff_cons,
      List.diff_cons]
    exact ⟨rfl, rfl⟩

/-- The body for the tokens `xs` in turn leaves the receive side and the allocator alone. -/
theorem foldl_cancelTxToken_frame (xs : List Nat) (p : Port) :
    let q := xs.foldl (cancelTxToken ioStatus (fun _ => false)) p
    q.recvRequest = p.recvRequest ∧ q.udpRx = p.udpRx ∧ q.rxSignaled = p.rxSignaled ∧
      q.netbufs = p.netbufs ∧ q.nextAddr = p.nextAddr ∧ q.rxToken = p.rxToken := by
  induction xs generalizing p with
  | nil => exact ⟨rfl, rfl, rfl, rfl, rfl, rfl⟩
  | cons t xs ih =>
    obtain ⟨h1, h2, h3, h4, h5, h6⟩ := cancelTxToken_frame ioStatus p t
    obtain ⟨i1, i2, i3, i4, i5, i6⟩ := ih (cancelTxToken ioStatus (fun _ => false) p t)
    exact ⟨i1.trans h1, i2.trans h2, i3.trans h3, i4.trans h4, i5.trans h5, i6.trans h6⟩

end Body

/-! ## The walk -/

/-- **The walk, from any point**: with `kept` the tokens passed and kept and `rest` those
    ahead, `Entry` at the first of `rest` and `Next` read from it, the walk ends, in the state
    the body leaves after the selected tokens of `rest` in list order; it keeps the unselected
    tokens of `rest` after `kept`, and logs the `CallBack` and `NetFreePool` of each selected
    one in order.  `tok` is what the tokens ahead hold: the body of one token writes no
    other. -/
theorem cancelDgramsLoop_spec (ioStatus : EfiStatus) (toCancel : Option (UdpTxToken → Bool))
    (tok : Nat → UdpTxToken) :
    ∀ (rest kept : List Nat) (fuel : Nat) (p : Port), SentList p (kept ++ rest) →
    rest.length < fuel → (∀ t ∈ rest, p.txToken t = tok t) →
    ∃ p', cancelDgramsLoop ioStatus toCancel (fun _ => false) fuel (firstEntry rest)
        (p.links.forwardLink (firstEntry rest)) p = some p' ∧
      p' = (rest.filter (fun t => isSelected toCancel (tok t))).foldl
        (cancelTxToken ioStatus (fun _ => false)) p ∧
      SentList p' (kept ++ rest.filter (fun t => !isSelected toCancel (tok t))) ∧
      p'.log = p.log ++ (rest.filter (fun t => isSelected toCancel (tok t))).flatMap
        (fun t => cancelledEvents ioStatus (tok t) t) := by
  intro rest
  induction rest with
  | nil =>
    intro kept fuel p h hf _
    obtain ⟨f, rfl⟩ : ∃ f, fuel = f + 1 := ⟨fuel - 1, by simp at hf; omega⟩
    exact ⟨p, rfl, rfl, by simpa using h, by simp⟩
  | cons t rest ih =>
    intro kept fuel p h hf htok
    obtain ⟨f, rfl⟩ : ∃ f, fuel = f + 1 := ⟨fuel - 1, by simp at hf; omega⟩
    have hl : IsList p.links .sentDatagram
        (kept.map Entry.token ++ .token t :: rest.map Entry.token) := by
      simpa using h.1
    have hlive := h.isLive (e := .token t) (by simp)
    have hnext : p.links.forwardLink (.token t) = firstEntry rest := by
      rw [hl.forwardLink_eq, head_map_token]
    have hnd : t ∉ kept ++ rest := by
      have := (List.nodup_cons.1 hl.1).2
      rw [List.nodup_middle] at this
      simpa using (List.nodup_cons.1 this).1
    have hsel := selectTx_of_mem hlive.1 toCancel
    rw [htok t (List.mem_cons_self _ _)] at hsel
    rw [show firstEntry (t :: rest) = .token t from rfl, hnext, cancelDgramsLoop, hsel]
    cases hs : isSelected toCancel (tok t)
    · -- kept: the walk moves on
      obtain ⟨p', hrun, hfold, hsl, hlog⟩ := ih (kept ++ [t]) f p (by simpa using h)
        (by simp at hf; omega) fun u hu => htok u (List.mem_cons_of_mem _ hu)
      have hf' := h.isLive (e := firstEntry rest) (by simpa using firstEntry_mem (kept ++ [t]) rest)
      refine ⟨p', ?_, by simpa [hs] using hfold, by simpa [hs] using hsl, by simpa [hs] using hlog⟩
      simpa only [Bool.false_eq_true, if_false, touchEntry_of_isLive hf'.1] using hrun
    · -- selected: unlinked, called back and freed, and `Next` is still on the list
      obtain ⟨hlinks, hlog2, hlive2, htok2⟩ := cancelTxToken_spec ioStatus hlive
      have hne : ∀ u ∈ kept ++ rest, u ≠ t := fun u hu h => hnd (h ▸ hu)
      have h2 : SentList (cancelTxToken ioStatus (fun _ => false) p t) (kept ++ rest) := by
        refine ⟨?_, fun u hu => ?_⟩
        · rw [hlinks]; simpa using isList_netListRemoveEntry hl
        · rw [hlive2]; exact (List.mem_erase_of_ne (hne u hu)).2 (h.2 u (by simp_all))
      obtain ⟨p', hrun, hfold, hsl, hlog⟩ := ih kept f _ h2 (by simp at hf; omega)
        fun u hu => (htok2 u (hne u (by simp [hu]))).trans (htok u (List.mem_cons_of_mem _ hu))
      have hf' := h2.isLive (firstEntry_mem kept rest)
      refine ⟨p', ?_, by simpa [hs] using hfold, by simpa [hs] using hsl, ?_⟩
      · simpa only [if_true, touchEntry_of_isLive hf'.1] using hrun
      · rw [hlog, hlog2, htok t (List.mem_cons_self _ _)]
        simp [hs]

/-- The walk from the head of a `SentDatagram` holding distinct allocated tokens `ts`. -/
theorem udpIoCancelDgrams_spec (p : Port) (ts : List Nat) (ioStatus : EfiStatus)
    (toCancel : Option (UdpTxToken → Bool)) (h : SentList p ts) :
    ∃ p', udpIoCancelDgrams p ioStatus toCancel (fun _ => false) = some p' ∧
      p' = (ts.filter (fun t => isSelected toCancel (p.txToken t))).foldl
        (cancelTxToken ioStatus (fun _ => false)) p ∧
      SentList p' (ts.filter (fun t => !isSelected toCancel (p.txToken t))) ∧
      p'.log = p.log ++ (ts.filter (fun t => isSelected toCancel (p.txToken t))).flatMap
        (fun t => cancelledEvents ioStatus (p.txToken t) t) := by
  have hnd : ts.Nodup := (List.nodup_cons.1 h.1.1).2.of_map _
  have hfirst : p.links.forwardLink .sentDatagram = firstEntry ts := by
    rw [h.1.2.forwardLink_eq, head_map_token]
  have hfuel : ts.length < p.nextAddr + 1 := Nat.lt_succ_of_le (by
    simpa using (List.subperm_of_subset hnd fun t ht =>
      List.mem_range.2 (p.live_lt t (h.2 t ht))).length_le)
  rw [udpIoCancelDgrams, hfirst, touchEntry_of_isLive (h.isLive (firstEntry_mem [] ts)).1]
  simpa using cancelDgramsLoop_spec ioStatus toCancel p.txToken ts [] _ p (by simpa using h) hfuel
    fun _ _ => rfl

/-- **`UdpIoCancelDgrams` cancels what it selects**: for every `SentDatagram` holding distinct
    allocated tokens `ts`, every `IoStatus`, and `ToCancel` `NULL` (`packet = none`) or
    `UdpIoCancelSingleDgram` for `Packet`, with `Cancel` running no notify function and
    `CallBack`s that make no call on the port, the walk ends; `SentDatagram` keeps the
    unselected tokens in their order; the log gains, for each selected token in list order, its
    `CallBack (Packet, NULL, IoStatus, Context)` and its `NetFreePool`; and exactly the selected
    tokens are freed. -/
theorem udpIoCancelDgrams_cancels (p : Port) (ts : List Nat) (ioStatus : EfiStatus)
    (packet : Option Nat) (h : SentList p ts) :
    ∃ p', udpIoCancelDgrams p ioStatus (packet.map udpIoCancelSingleDgram) (fun _ => false) =
        some p' ∧
      SentList p' (ts.filter fun t => !packet.all ((p.txToken t).packet == ·)) ∧
      p'.log = p.log ++ (ts.filter fun t => packet.all ((p.txToken t).packet == ·)).flatMap
        (fun t => cancelledEvents ioStatus (p.txToken t) t) ∧
      p'.live = p.live.diff (ts.filter fun t => packet.all ((p.txToken t).packet == ·)) := by
  have hsel : ∀ t, isSelected (packet.map udpIoCancelSingleDgram) (p.txToken t) =
      packet.all ((p.txToken t).packet == ·) := by
    cases packet <;> simp [isSelected, udpIoCancelSingleDgram]
  obtain ⟨p', hrun, rfl, hsl, hlog⟩ :=
    udpIoCancelDgrams_spec p ts ioStatus (packet.map udpIoCancelSingleDgram) h
  simp only [hsel] at hrun hsl hlog ⊢
  exact ⟨_, hrun, hsl, hlog, foldl_cancelTxToken_live ioStatus _ p⟩

/-- Two datagrams sent on a new port, of packets 7 and 8, both taken by the child. -/
def twoDatagramsSent : Port :=
  let p := (udpIoSendDatagram udpIoCreatePort 7 1 10 true .efiSuccess ⟨.efiSuccess, none⟩).2
  (udpIoSendDatagram p 8 1 11 true .efiSuccess ⟨.efiSuccess, none⟩).2

/-- Cancelling packet 7, the older of the two, at the tail of `SentDatagram`. -/
theorem udpIoCancelDgrams_cancels_tail :
    SentList twoDatagramsSent [1, 0] ∧
    ∃ p', udpIoCancelDgrams twoDatagramsSent .efiAborted ((some 7).map udpIoCancelSingleDgram)
        (fun _ => false) = some p' ∧
      SentList p' ([1, 0].filter fun t => !(some 7).all ((twoDatagramsSent.txToken t).packet == ·)) ∧
      p'.log = twoDatagramsSent.log ++
        ([1, 0].filter fun t => (some 7).all ((twoDatagramsSent.txToken t).packet == ·)).flatMap
          (fun t => cancelledEvents .efiAborted (twoDatagramsSent.txToken t) t) ∧
      p'.live = twoDatagramsSent.live.diff
        ([1, 0].filter fun t => (some 7).all ((twoDatagramsSent.txToken t).packet == ·)) :=
  ⟨by decide, udpIoCancelDgrams_cancels twoDatagramsSent [1, 0] .efiAborted (some 7) (by decide)⟩

end UdpIo
