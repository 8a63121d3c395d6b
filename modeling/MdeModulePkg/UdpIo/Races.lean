import MdeModulePkg.UdpIo.Run

/-! # Completions inside `Transmit`, `Receive` and `Cancel`

    The port updates its own bookkeeping after it hands a token to the UDP child
    (`NetListInsertHead` after `Transmit`, `RecvRequest = Token` after `Receive`), and clears
    it before it cancels (`NetListRemoveEntry` and `RecvRequest = NULL` before `Cancel`).
    When the child ends the token inside the call and its notify function runs before the
    call returns, the notify function sees the bookkeeping in the wrong state.

    * `udpIoSendDatagram_completed_in_transmit`: from any port, the token is freed and called
      back inside `Transmit`, then linked into `SentDatagram` all the same;
    * `udpIoRecvDatagram_completed_in_receive`: from any port with no receive pending, the
      `ASSERT` of `UdpIoOnDgramRcvd` fails and the receive is delivered, then `RecvRequest` is
      set to it all the same. -/

namespace UdpIo

open Base NetList

/-! ## `Transmit` -/

/-- **A completion inside `Transmit`**: for every port whose `SentDatagram` holds `ts`, a send
    whose token the child ends inside `Transmit` returns `EFI_SUCCESS`, and leaves the token,
    already called back and freed, at the head of `SentDatagram`; linking it is the first
    access after the free. -/
theorem udpIoSendDatagram_completed_in_transmit (p : Port) (ts : List Nat) (hs : SentList p ts)
    (packet callBack context : Nat) (status : EfiStatus) :
    (udpIoSendDatagram p packet callBack context true .efiSuccess ⟨.efiSuccess, some status⟩).1 =
      .efiSuccess ∧
    IsList (udpIoSendDatagram p packet callBack context true .efiSuccess
      ⟨.efiSuccess, some status⟩).2.links .sentDatagram ((p.nextAddr :: ts).map Entry.token) ∧
    p.nextAddr ∉ (udpIoSendDatagram p packet callBack context true .efiSuccess
      ⟨.efiSuccess, some status⟩).2.live ∧
    (udpIoSendDatagram p packet callBack context true .efiSuccess
      ⟨.efiSuccess, some status⟩).2.log =
      p.log ++ [.callBack p.nextAddr callBack (some packet) status context,
        .freePool p.nextAddr, .badAccess p.nextAddr] := by
  have hfresh : p.nextAddr ∉ p.live := fun h => Nat.lt_irrefl _ (p.live_lt _ h)
  have hnot : Entry.token p.nextAddr ∉ Entry.sentDatagram :: ts.map Entry.token := by
    simpa using fun h => hfresh (hs.2 _ h)
  have hhead := entryLog_of_isLive (hs.isLive (e := .sentDatagram) (List.mem_cons_self _ _)).2.1
  have hself : netListRemoveEntry (netListInit p.links (.token p.nextAddr)) (.token p.nextAddr) =
      netListInit p.links (.token p.nextAddr) := netListRemoveEntry_self (by simp) (by simp)
  simp only [udpIoSendDatagram, udpIoWrapTx, netAllocatePool, efiError, if_true,
    Bool.false_eq_true, if_false, udpTransmit, dispatchTx, completeTx, udpIoOnDgramSent,
    removeEntry, touch, touchEntry, txCallBack, udpIoFreeTxToken, netFreePool, insertHead,
    Port.record, hself]
  refine ⟨trivial, isList_netListInsertHead (isList_netListInit_of_not_mem hs.1 hnot)
    (by simpa using hnot), by simp [hfresh], ?_⟩
  simp [accessLog, hfresh, hhead]

/-- The failing runs on a new port.  Packet 7 is sent and the child ends its token inside
    `Transmit`: this is `udpIoSendDatagram_completed_in_transmit` at the new port, which gives
    the status and the first three events; `UdpIoCleanPort` then calls the request back a
    second time and frees its token a second time.  Or the child keeps the token, and
    `UdpIoCancelSentDatagram`'s `Cancel` runs the notify function: the same. -/
theorem udpIoSendDatagram_calls_back_twice :
    (udpIoSendDatagram udpIoCreatePort 7 1 10 true .efiSuccess
      ⟨.efiSuccess, some .efiSuccess⟩).1 = .efiSuccess ∧
    (run udpIoCreatePort [.sendDatagram 7 1 10 true .efiSuccess ⟨.efiSuccess, some .efiSuccess⟩,
      .cleanPort [] false]).map Port.log =
      some [.callBack 0 1 (some 7) .efiSuccess 10, .freePool 0, .badAccess 0, .badAccess 0,
        .badAccess 0, .badAccess 0, .callBack 0 1 (some 7) .efiAborted 10, .badAccess 0,
        .badAccess 0, .freePool 0] ∧
    (run udpIoCreatePort [.sendDatagram 7 1 10 true .efiSuccess ⟨.efiSuccess, none⟩,
      .cancelSentDatagram 7 [0]]).map Port.log =
      some [.callBack 0 1 (some 7) .efiAborted 10, .freePool 0, .badAccess 0,
        .callBack 0 1 (some 7) .efiAborted 10, .badAccess 0, .badAccess 0, .freePool 0] :=
  ⟨(udpIoSendDatagram_completed_in_transmit udpIoCreatePort [] (by decide) 7 1 10 .efiSuccess).1,
    by decide, by decide⟩

/-! ## `Receive` -/

/-- **A completion inside `Receive`**: for every port with no receive pending, a receive the
    child ends inside `Receive` fails the `ASSERT` of `UdpIoOnDgramRcvd` and is delivered to its
    `CallBack`; then `UdpIoRecvDatagram` returns `EFI_SUCCESS` and sets `RecvRequest` to it. -/
theorem udpIoRecvDatagram_completed_in_receive (p : Port) (h : p.recvRequest = none)
    (callBack context headLen : Nat) (c : RxCompletion) :
    (udpIoRecvDatagram p callBack context headLen true .efiSuccess ⟨.efiSuccess, some c⟩).1 =
      .efiSuccess ∧
    (udpIoRecvDatagram p callBack context headLen true .efiSuccess
      ⟨.efiSuccess, some c⟩).2.recvRequest = some p.nextAddr ∧
    ∃ packet status rest, (udpIoRecvDatagram p callBack context headLen true .efiSuccess
      ⟨.efiSuccess, some c⟩).2.log = p.log ++ [.assertFailed p.nextAddr] ++
        .callBack p.nextAddr callBack packet status context :: rest := by
  simp only [udpIoRecvDatagram, h, Option.isSome_none, Bool.false_eq_true, if_false,
    udpIoCreateRxToken, netAllocatePool, if_true, udpReceive, dispatchRx, completeRx, touch,
    accessLog, List.mem_cons_self, efiError_iff, ne_eq, not_true_eq_false]
  refine ⟨trivial, trivial, udpIoOnDgramRcvd_log (by simp) ?_ (by simp) (by simp) _⟩
  simp [assertRecvRequest]

/-- The failing runs on a new port.  A receive ends inside `Receive` with a datagram: this is
    `udpIoRecvDatagram_completed_in_receive` at the new port, which gives `RecvRequest`; the
    `ASSERT` fails, `RecvRequest` is left at the delivered token although the child holds no
    receive, and the next `UdpIoRecvDatagram` returns `EFI_ALREADY_STARTED`; once the user
    recycles the `NET_BUF`, `UdpIoCleanPort` frees the token a second time.  Or the child keeps
    the receive and `UdpIoCleanPort`'s `Cancel` runs the notify function: the `ASSERT` fails,
    the receive is called back, and its token is freed twice. -/
theorem udpIoRecvDatagram_completed_in_receive_run :
    (udpIoRecvDatagram udpIoCreatePort 2 20 0 true .efiSuccess
      ⟨.efiSuccess, some ⟨.efiSuccess, true, true⟩⟩).2.recvRequest = some 0 ∧
    (udpIoRecvDatagram udpIoCreatePort 2 20 0 true .efiSuccess
      ⟨.efiSuccess, some ⟨.efiSuccess, true, true⟩⟩).2.udpRx = [] ∧
    (udpIoRecvDatagram udpIoCreatePort 2 20 0 true .efiSuccess
      ⟨.efiSuccess, some ⟨.efiSuccess, true, true⟩⟩).2.rxSignaled = [] ∧
    (udpIoRecvDatagram (udpIoRecvDatagram udpIoCreatePort 2 20 0 true .efiSuccess
      ⟨.efiSuccess, some ⟨.efiSuccess, true, true⟩⟩).2 2 21 0 true .efiSuccess
      ⟨.efiSuccess, none⟩).1 = .efiAlreadyStarted ∧
    (run udpIoCreatePort [.recvDatagram 2 20 0 true .efiSuccess
      ⟨.efiSuccess, some ⟨.efiSuccess, true, true⟩⟩, .recycleDgram 0, .cleanPort [] false]).map
      Port.log =
      some [.assertFailed 0, .callBack 0 2 (some 0) .efiSuccess 20, .freePool 0, .badAccess 0,
        .badAccess 0, .freePool 0] ∧
    (run udpIoCreatePort [.recvDatagram 2 20 0 true .efiSuccess ⟨.efiSuccess, none⟩,
      .cleanPort [] true]).map Port.log =
      some [.assertFailed 0, .callBack 0 2 none .efiAborted 20, .freePool 0, .badAccess 0,
        .badAccess 0, .freePool 0] :=
  ⟨(udpIoRecvDatagram_completed_in_receive udpIoCreatePort rfl 2 20 0 ⟨.efiSuccess, true, true⟩).2.1,
    by decide, by decide, by decide, by decide, by decide⟩

end UdpIo
