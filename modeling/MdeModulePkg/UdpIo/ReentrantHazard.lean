import MdeModulePkg.UdpIo.ReentrantSafety

/-! # A `CallBack` that cancels the next datagram

    `NET_LIST_FOR_EACH_SAFE` in `UdpIoCancelDgrams` reads `Next` before the body runs, so that
    the body may unlink and free `Entry`; nothing keeps `Next` from the `CallBack` the body
    calls.  When the `CallBack` of a datagram cancels the datagram after it, with
    `UdpIoCancelSentDatagram`, the walk of `UdpIoCleanPort` goes on from the freed token: it
    reads its links, unlinks it again, calls it back a second time and frees it again.

    * `Quiet`, `cancelTxTokenR_quiet`: a `CallBack` that calls nothing, inside the walk;
    * `cancelDgramsLoopR_unselected`, `udpIoCancelDgramsR_first`: the walk past the tokens it
      does not select, and a walk that selects only the first;
    * `cancelTxToken_freed`: the body of the walk for a token already freed;
    * `udpIoCancelDgramsR_frees_twice`: for every port with two datagrams or more on
      `SentDatagram`, the walk of `UdpIoCleanPort` frees the second one twice when the
      `CallBack` of the first cancels it. -/

namespace UdpIo

open Base NetList

/-- The user's code that, in the `CallBack` of the token at `t`, cancels the datagram
    `packet`. -/
def cancelOnCallBack (t packet : Nat) : Port → Event → List Call
  | _, .callBack u _ _ _ _ => if u = t then [.cancelSentDatagram packet] else []
  | _, _ => []

/-- The user's code calls nothing in the `CallBack` of the token at `t`. -/
def Quiet (react : Port → Event → List Call) (t : Nat) : Prop :=
  ∀ p callBack packet status context, react p (.callBack t callBack packet status context) = []

theorem cancelOnCallBack_quiet {t u : Nat} (packet : Nat) (h : u ≠ t) :
    Quiet (cancelOnCallBack t packet) u := by
  intro p callBack packet status context
  simp [cancelOnCallBack, h]

/-- The body of the walk calls back the token, and the user's code runs there. -/
theorem cancelTxTokenR_succ_succ (react : Port → Event → List Call) (fuel : Nat)
    (ioStatus : EfiStatus) (p : Port) (t : Nat) :
    cancelTxTokenR react (fuel + 2) ioStatus p t =
      let q := udpCancelTx (removeEntry p (.token t)) t false
      callsR react fuel (txCallBack q t ioStatus)
          (react (txCallBack q t ioStatus) (txEvent (touch q t) t ioStatus)) >>=
        fun q => some (udpIoFreeTxToken q t) :=
  rfl

/-- With a `CallBack` that calls nothing, the body of the walk is `cancelTxToken`. -/
theorem cancelTxTokenR_quiet {react : Port → Event → List Call} {t : Nat} (hq : Quiet react t)
    (fuel : Nat) (ioStatus : EfiStatus) (p : Port) :
    cancelTxTokenR react (fuel + 2) ioStatus p t =
      some (cancelTxToken ioStatus (fun _ => false) p t) := by
  rw [cancelTxTokenR_succ_succ]
  dsimp only [txEvent]
  rw [hq, callsR_nil]
  rfl

/-- The walk past tokens it does not select touches each of them, and changes nothing. -/
theorem cancelDgramsLoopR_unselected (react : Port → Event → List Call) (ioStatus : EfiStatus)
    (toCancel : Option (UdpTxToken → Bool)) :
    ∀ (rest kept : List Nat) (fuel : Nat) (p : Port), SentList p (kept ++ rest) →
    rest.length < fuel → (∀ w ∈ rest, isSelected toCancel (p.txToken w) = false) →
    cancelDgramsLoopR react fuel ioStatus toCancel (firstEntry rest)
      (p.links.forwardLink (firstEntry rest)) p = some p
  | [], _, 0, _, _, hf, _ => absurd hf (Nat.lt_irrefl 0)
  | [], _, _ + 1, _, _, _, _ => rfl
  | _ :: _, _, 0, _, _, hf, _ => absurd hf (Nat.not_lt_zero _)
  | w :: rest, kept, f + 1, p, hs, hf, hsel => by
    have hs' : SentList p ((kept ++ [w]) ++ rest) := by simpa using hs
    rw [cancelDgramsLoopR_cons hs, hsel w (List.mem_cons_self _ _)]
    simp only [Bool.false_eq_true, if_false, Option.bind_eq_bind, Option.some_bind]
    rw [touchEntry_of_isLive (hs'.isLive (firstEntry_mem _ rest)).1]
    exact cancelDgramsLoopR_unselected react ioStatus toCancel rest (kept ++ [w]) f p hs'
      (by simp at hf; omega) fun w' hw' => hsel w' (List.mem_cons_of_mem _ hw')

/-- A walk that selects only the first token of `SentDatagram`, with a `CallBack` that calls
    nothing, cancels it as the body does. -/
theorem udpIoCancelDgramsR_first {react : Port → Event → List Call} {ioStatus : EfiStatus}
    {toCancel : Option (UdpTxToken → Bool)} {p : Port} {u : Nat} {rest : List Nat}
    (hs : SentList p (u :: rest)) (hsel : isSelected toCancel (p.txToken u) = true)
    (hrest : ∀ w ∈ rest, isSelected toCancel (p.txToken w) = false) (hq : Quiet react u)
    (fuel : Nat) (hf : rest.length + 3 ≤ fuel) :
    udpIoCancelDgramsR react (fuel + 1) p ioStatus toCancel =
      some (cancelTxToken ioStatus (fun _ => false) p u) := by
  obtain ⟨k, rfl⟩ : ∃ k, fuel = k + 3 := ⟨fuel - 3, by omega⟩
  have hs0 : SentList p ([] ++ u :: rest) := hs
  rw [udpIoCancelDgramsR_succ hs, cancelDgramsLoopR_cons hs0, hsel]
  simp only [if_true, cancelTxTokenR_quiet hq, Option.bind_eq_bind, Option.some_bind]
  obtain ⟨hlinks, -, hlive2, htok⟩ :=
    cancelTxToken_spec ioStatus (hs.isLive (e := .token u) (by simp))
  have hl : IsList p.links .sentDatagram ([] ++ .token u :: rest.map Entry.token) := by
    simpa using hs.1
  have hnd : u ∉ rest := by simpa using (List.nodup_cons.1 (List.nodup_cons.1 hl.1).2).1
  have hs2 : SentList (cancelTxToken ioStatus (fun _ => false) p u) ([] ++ rest) := by
    refine ⟨?_, fun w hw => ?_⟩
    · rw [hlinks]; simpa using isList_netListRemoveEntry hl
    · rw [hlive2]
      exact (List.mem_erase_of_ne fun h : w = u => hnd (h ▸ by simpa using hw)).2
        (hs.2 w (List.mem_cons_of_mem _ (by simpa using hw)))
  rw [touchEntry_of_isLive (hs2.isLive (firstEntry_mem [] rest)).1]
  exact cancelDgramsLoopR_unselected react ioStatus toCancel rest [] _ _ hs2 (by omega)
    fun w hw => (htok w fun h => hnd (h ▸ hw)).symm ▸ hrest w hw

/-- **The body of the walk for a freed token**: unlinking it reads its links, and the body
    calls it back again and frees it again. -/
theorem cancelTxToken_freed (ioStatus : EfiStatus) {p : Port} {u : Nat} (hu : u ∉ p.live)
    (hx : u ∉ p.udpTx) (hf : (p.links.forwardLink (.token u)).IsLive p)
    (hb : (p.links.backLink (.token u)).IsLive p) :
    (cancelTxToken ioStatus (fun _ => false) p u).log = p.log ++
      [.badAccess u, .badAccess u, txEvent p u ioStatus, .badAccess u, .badAccess u,
        .freePool u] := by
  simp [cancelTxToken, removeEntry, touchEntry, udpCancelTx, hx, txCallBack, txEvent,
    udpIoFreeTxToken, netFreePool, touch, accessLog, hu, Port.record, entryLog_of_isLive hf,
    entryLog_of_isLive hb]

/-- The body leaves what a token's `CallBack` shows of it, but the status. -/
theorem cancelTxToken_txEvent (ioStatus status : EfiStatus) (p : Port) (u : Nat) :
    txEvent (cancelTxToken ioStatus (fun _ => false) p u) u status = txEvent p u status := by
  simp only [cancelTxToken, udpCancelTx, Bool.false_eq_true, if_false]
  split_ifs <;> simp [txEvent, udpIoFreeTxToken, netFreePool, txCallBack, completeTx, touch,
    removeEntry, touchEntry, Port.record]

/-- The entry the walk goes on to after `u` is allocated, while the tokens `rest` are. -/
theorem firstEntry_isLive {p : Port} {rest : List Nat} (h : ∀ w ∈ rest, w ∈ p.live) :
    (firstEntry rest).IsLive p := by
  cases rest with
  | nil => trivial
  | cons w _ => exact h w (List.mem_cons_self _ _)

/-- The body of the walk for `t`, whose `CallBack` cancels the packet of the datagram `u` after
    it: inside the `CallBack`, the walk of `UdpIoCancelSentDatagram` cancels `u`; then `t` is
    freed. -/
theorem cancelTxTokenR_cancelOnCallBack {p : Port} {t u : Nat} {rest : List Nat} (h : PortInv p)
    (hs : SentList p (t :: u :: rest))
    (hpk : ∀ w ∈ rest, (p.txToken w).packet ≠ (p.txToken u).packet) (k : Nat)
    (hk : rest.length + 3 ≤ k) :
    let mid := txCallBack (udpCancelTx (removeEntry p (.token t)) t false) t .efiAborted
    cancelTxTokenR (cancelOnCallBack t (p.txToken u).packet) (k + 5) .efiAborted p t =
      some (udpIoFreeTxToken (cancelTxToken .efiAborted (fun _ => false) mid u) t) := by
  intro mid
  have hnd : (t :: u :: rest).Nodup := (List.nodup_cons.1 hs.1.1).2.of_map _
  simp only [List.nodup_cons, List.mem_cons, not_or] at hnd
  have htok : ∀ w, w ≠ t → mid.txToken w = p.txToken w :=
    (txCallBack_cancelTx (hs.isLive (e := .token t) (by simp)) .efiAborted).2.2
  have hsl : SentList mid (u :: rest) := by
    simpa using (heldInv_cancelTx h (show SentList p ([] ++ t :: u :: rest) from hs) _).2
  have hinner : udpIoCancelDgramsR (cancelOnCallBack t (p.txToken u).packet) (k + 1) mid
      .efiAborted (some (udpIoCancelSingleDgram (p.txToken u).packet)) =
        some (cancelTxToken .efiAborted (fun _ => false) mid u) :=
    udpIoCancelDgramsR_first hsl
      (by simp [isSelected, udpIoCancelSingleDgram, htok u (Ne.symm hnd.1.1)])
      (fun w hw => by
        simp [isSelected, udpIoCancelSingleDgram, htok w (fun h => hnd.1.2 (h ▸ hw)), hpk w hw])
      (cancelOnCallBack_quiet _ (Ne.symm hnd.1.1)) k (by omega)
  rw [cancelTxTokenR_succ_succ]
  show callsR _ (k + 3) mid (cancelOnCallBack t _ mid (txEvent _ t .efiAborted)) >>= _ = _
  rw [show cancelOnCallBack t (p.txToken u).packet mid (txEvent _ t .efiAborted) =
    [.cancelSentDatagram (p.txToken u).packet] by simp [cancelOnCallBack, txEvent]]
  show (udpIoCancelDgramsR _ (k + 1) mid .efiAborted (some (udpIoCancelSingleDgram _)) >>=
    fun q => callsR _ (k + 2) q []) >>= _ = _
  rw [hinner]
  simp [callsR_nil]

/-- **A `CallBack` that cancels the next datagram makes `UdpIoCleanPort` free it twice**: for
    every port that keeps the invariant with datagrams `t` then `u` first on `SentDatagram`
    (the others of packets other than `u`'s), when the `CallBack` of `t` cancels `u`'s packet,
    the walk of `UdpIoCancelDgrams (UdpIo, EFI_ABORTED, NULL, NULL)` calls back `t`, inside it
    calls back and frees `u`, frees `t`, then goes on at `Next`, which is `u`: it accesses `u`
    three times, calls it back a second time, accesses it twice more and frees it a second
    time, before it goes on with the rest. -/
theorem udpIoCancelDgramsR_frees_twice {p : Port} {t u : Nat} {rest : List Nat} (h : PortInv p)
    (hs : SentList p (t :: u :: rest))
    (hpk : ∀ w ∈ rest, (p.txToken w).packet ≠ (p.txToken u).packet) (m : Nat)
    (hm : rest.length + 7 ≤ m) :
    ∃ q, udpIoCancelDgramsR (cancelOnCallBack t (p.txToken u).packet) (m + 3) p .efiAborted none =
        cancelDgramsLoopR (cancelOnCallBack t (p.txToken u).packet) m .efiAborted none
          (firstEntry rest) (q.links.forwardLink (firstEntry rest)) (touchEntry q (firstEntry rest)) ∧
      q.log = p.log ++ [txEvent p t .efiAborted, txEvent p u .efiAborted, .freePool u,
        .freePool t, .badAccess u, .badAccess u, .badAccess u, txEvent p u .efiAborted,
        .badAccess u, .badAccess u, .freePool u] := by
  obtain ⟨k, rfl⟩ : ∃ k, m = k + 4 := ⟨m - 4, by omega⟩
  have hnd : (t :: u :: rest).Nodup := (List.nodup_cons.1 hs.1.1).2.of_map _
  simp only [List.nodup_cons, List.mem_cons, not_or] at hnd
  have htl := hs.isLive (e := .token t) (by simp)
  have hbody := cancelTxTokenR_cancelOnCallBack h hs hpk k (by omega)
  dsimp only at hbody
  -- the body for `t`: the `CallBack` of `t` cancels `u`, then `t` is freed
  have hs0 : SentList p ([] ++ t :: u :: rest) := hs
  obtain ⟨hheld, hsl⟩ := heldInv_cancelTx h hs0 .efiAborted
  obtain ⟨hmlive, hmlog, hmtok⟩ := txCallBack_cancelTx htl .efiAborted
  set mid := txCallBack (udpCancelTx (removeEntry p (.token t)) t false) t .efiAborted
  have hsl' : SentList mid (u :: rest) := by simpa using hsl
  obtain ⟨hYlinks, hYlog, hYlive, -⟩ := cancelTxToken_spec .efiAborted (hsl'.isLive (e := .token u)
    (by simp))
  set Y := cancelTxToken .efiAborted (fun _ => false) mid u with hY
  -- the walk goes on at `Next`, which is `u`, freed and still linked as it was
  have htY : t ∈ Y.live := by
    rw [hYlive, hmlive]; exact (List.mem_erase_of_ne hnd.1.1).2 htl.1
  set Z := touchEntry (udpIoFreeTxToken Y t) (.token u) with hZ
  have hZlive : Z.live = (p.live.erase u).erase t := by
    rw [hZ, udpIoFreeTxToken_of_mem htY]; simp only [touchEntry, Port.record, hYlive, hmlive]
  have huZ : u ∉ Z.live := by
    rw [hZlive]; exact fun h' => h.books.liveNodup.not_mem_erase (List.mem_of_mem_erase h')
  have hZlinks : Z.links = netListRemoveEntry mid.links (.token u) := by
    rw [hZ, udpIoFreeTxToken_of_mem htY]; dsimp only [touchEntry, Port.record]; exact hYlinks
  have hmidl : IsList mid.links .sentDatagram ([] ++ .token u :: rest.map Entry.token) := by
    simpa using hsl'.1
  have hfwd : Z.links.forwardLink (.token u) = firstEntry rest := by
    rw [hZlinks, (netListRemoveEntry_links_self _ _).1, hmidl.forwardLink_eq, head_map_token]
  refine ⟨cancelTxToken .efiAborted (fun _ => false) Z u, ?_, ?_⟩
  · rw [udpIoCancelDgramsR_succ hs, cancelDgramsLoopR_cons hs0]
    simp only [isSelected, if_true, hbody, Option.bind_eq_bind, Option.some_bind]
    rw [show firstEntry (u :: rest) = .token u from rfl,
      show (udpIoFreeTxToken Y t).links.forwardLink (.token u) = firstEntry rest from hfwd,
      cancelDgramsLoopR]
    simp only [selectTx, if_true, Option.bind_eq_bind,
      cancelTxTokenR_quiet (cancelOnCallBack_quiet _ (Ne.symm hnd.1.1)) (k + 2), Option.some_bind]
  · -- the second pass over `u` shows five accesses to it, its `CallBack` and its free
    have hfl : (Z.links.forwardLink (.token u)).IsLive Z := by
      rw [hfwd]
      refine firstEntry_isLive fun w hw => ?_
      rw [hZlive]
      exact (List.mem_erase_of_ne fun h : w = t => hnd.1.2 (h ▸ hw)).2
        ((List.mem_erase_of_ne fun h : w = u => hnd.2.1 (h ▸ hw)).2 (hs.2 w (by simp [hw])))
    have hbl : (Z.links.backLink (.token u)).IsLive Z := by
      rw [hZlinks, (netListRemoveEntry_links_self _ _).2, hmidl.2.2.1]; trivial
    have huZtx : u ∉ Z.udpTx := by
      rw [hZ, udpIoFreeTxToken_of_mem htY]
      dsimp only [touchEntry, Port.record]
      rw [hY, cancelTxToken_udpTx]
      exact (List.nodup_append.1 hheld.books.parts.1).1.not_mem_erase
    have hZlog : Z.log = Y.log ++ [.freePool t, .badAccess u] := by
      have huY2 : u ∉ (udpIoFreeTxToken Y t).live := huZ
      rw [hZ]
      simp only [touchEntry, entryLog, accessLog, huY2, if_false]
      rw [udpIoFreeTxToken_of_mem htY]
      simp [Port.record]
    have hZev : txEvent Z u .efiAborted = txEvent p u .efiAborted := by
      have hev := cancelTxToken_txEvent .efiAborted .efiAborted mid u
      rw [← hY] at hev
      rw [hZ, udpIoFreeTxToken_of_mem htY]
      simp only [txEvent, touchEntry, Port.record] at hev ⊢
      rw [hev, hmtok u (Ne.symm hnd.1.1)]
    rw [cancelTxToken_freed .efiAborted huZ huZtx hfl hbl, hZlog, hYlog, hmlog, hZev]
    simp [cancelledEvents, txEvent, hmtok u (Ne.symm hnd.1.1)]

/-- The `CallBack` of packet 8 cancels packet 7, while `UdpIoCleanPort` cancels both. -/
theorem udpIoCancelDgramsR_frees_twice_sentTwice :
    PortInv sentTwice ∧ SentList sentTwice [1, 0] ∧
      (∀ w ∈ ([] : List Nat), (sentTwice.txToken w).packet ≠ (sentTwice.txToken 0).packet) ∧
      ([] : List Nat).length + 7 ≤ 7 ∧
      ∃ q, udpIoCancelDgramsR (cancelOnCallBack 1 (sentTwice.txToken 0).packet) (7 + 3) sentTwice
          .efiAborted none =
        cancelDgramsLoopR (cancelOnCallBack 1 (sentTwice.txToken 0).packet) 7 .efiAborted none
          (firstEntry []) (q.links.forwardLink (firstEntry [])) (touchEntry q (firstEntry [])) ∧
      q.log = sentTwice.log ++ [txEvent sentTwice 1 .efiAborted, txEvent sentTwice 0 .efiAborted,
        .freePool 0, .freePool 1, .badAccess 0, .badAccess 0, .badAccess 0,
        txEvent sentTwice 0 .efiAborted, .badAccess 0, .badAccess 0, .freePool 0] :=
  ⟨portInv_sentTwice, by decide, fun _ h => absurd h (List.not_mem_nil _), le_rfl,
    udpIoCancelDgramsR_frees_twice portInv_sentTwice (by decide)
      (fun _ h => absurd h (List.not_mem_nil _)) 7 le_rfl⟩

end UdpIo
