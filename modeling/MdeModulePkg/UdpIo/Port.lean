import MdeModulePkg.Base
import MdeModulePkg.UdpIo.NetList

/-! # The UDP IO port of `Udp4Io.c`

    A `UDP_IO_PORT` wraps a UDP child: `UdpIoSendDatagram` hands `UDP_TX_TOKEN`s to
    `Udp->Transmit` and keeps them on `SentDatagram` until the child signals their event;
    `UdpIoRecvDatagram` keeps at most one `UDP_RX_TOKEN` pending in `RecvRequest`.  The
    notify functions `UdpIoOnDgramSent` and `UdpIoOnDgramRcvd` run when the child signals a
    token's event, and `UdpIoCancelDgrams`, `UdpIoCleanPort` and `UdpIoFreePort` cancel what is
    pending.

    The model keeps the memory the port and its tokens use: the links of every list entry,
    the fields of every token the code reads, which addresses are allocated, and a log of
    what the user can observe: each `CallBack`, each `NetFreePool` of a token, each `ASSERT`
    that fails, and each access to a token that is not allocated, with the contents left by
    its last owner.  The UDP child is a state of its own: the tokens it holds, and the
    events signaled whose notify function has not run.

    What the UDP child does inside a call (`Transmit`, `Receive`, `Cancel`) is an argument
    of the call: whether it takes the token, and whether it completes it so early that the
    token's notify function runs before the call returns.  A `CallBack` is the user's code:
    the model records the call and lets it make no call of its own. -/

namespace UdpIo

open Base NetList

/-- A `NET_LIST_ENTRY` of the port: the head `SentDatagram`, or the `Link` of the
    `UDP_TX_TOKEN` at address `t`. -/
inductive Entry
  | sentDatagram
  | token (t : Nat)
  deriving DecidableEq, Repr

/-- The fields of a `UDP_TX_TOKEN` that the port reads. -/
structure UdpTxToken where
  packet : Nat
  callBack : Nat
  context : Nat
  status : EfiStatus
  deriving DecidableEq, Repr

/-- The fields of a `UDP_RX_TOKEN` that the port reads; `rxData` is
    `UdpToken.Packet.RxData != NULL`. -/
structure UdpRxToken where
  callBack : Nat
  context : Nat
  headLen : Nat
  status : EfiStatus
  rxData : Bool
  deriving DecidableEq, Repr

/-- What the port makes observable.  A `CallBack` names the token of the request it ends;
    the `NET_BUF` that `UdpIoOnDgramRcvd` delivers is named by its receive token. -/
inductive Event
  | callBack (token callBack : Nat) (packet : Option Nat) (status : EfiStatus) (context : Nat)
  | freePool (token : Nat)
  | badAccess (token : Nat)
  | assertFailed (token : Nat)
  deriving DecidableEq, Repr

/-- The port, its tokens' memory, the UDP child, and the log. -/
structure Port where
  links : Links Entry
  txToken : Nat → UdpTxToken
  rxToken : Nat → UdpRxToken
  /-- The token addresses allocated and not yet freed. -/
  live : List Nat
  /-- The next address `NetAllocatePool` returns: no address is handed out twice. -/
  nextAddr : Nat
  live_lt : ∀ t ∈ live, t < nextAddr
  recvRequest : Option Nat
  /-- The transmit and receive tokens the UDP child holds. -/
  udpTx : List Nat
  udpRx : List Nat
  /-- The tokens whose event is signaled and whose notify function has not run. -/
  txSignaled : List Nat
  rxSignaled : List Nat
  /-- The receive tokens whose `NET_BUF` the user holds. -/
  netbufs : List Nat
  log : List Event

/-! ## Memory -/

/-- Append an event to the log. -/
def Port.record (p : Port) (e : Event) : Port := { p with log := p.log ++ [e] }

/-- What an access to the token at `t` shows: nothing if it is allocated. -/
def accessLog (live : List Nat) (t : Nat) : List Event :=
  if t ∈ live then [] else [.badAccess t]

/-- The same for a list entry: the head is the port's own. -/
def entryLog (live : List Nat) : Entry → List Event
  | .sentDatagram => []
  | .token t => accessLog live t

/-- An access to the token at `t`. -/
def touch (p : Port) (t : Nat) : Port := { p with log := p.log ++ accessLog p.live t }

/-- An access to a list entry. -/
def touchEntry (p : Port) (e : Entry) : Port := { p with log := p.log ++ entryLog p.live e }

/-- `NetAllocatePool`: a fresh address. -/
def netAllocatePool (p : Port) : Nat × Port :=
  (p.nextAddr, { p with live := p.nextAddr :: p.live, nextAddr := p.nextAddr + 1,
                        live_lt := fun t ht => (List.mem_cons.1 ht).elim (· ▸ Nat.lt_succ_self _)
                          fun ht => Nat.lt_succ_of_lt (p.live_lt t ht) })

/-- `NetFreePool (Token)`. -/
def netFreePool (p : Port) (t : Nat) : Port :=
  let p := touch p t
  { p with live := p.live.erase t,
           live_lt := fun u hu => p.live_lt u (List.mem_of_mem_erase hu) }.record (.freePool t)

/-- `NetListRemoveEntry (Entry)`, which writes the links of `Entry`'s neighbours. -/
def removeEntry (p : Port) (e : Entry) : Port :=
  let p' := touchEntry (touchEntry (touchEntry p e) (p.links.forwardLink e)) (p.links.backLink e)
  { p' with links := netListRemoveEntry p.links e }

/-- `NetListInsertHead (&UdpIo->SentDatagram, Entry)`. -/
def insertHead (p : Port) (e : Entry) : Port :=
  let p' := touchEntry (touchEntry p e) (p.links.forwardLink .sentDatagram)
  { p' with links := netListInsertHead p.links .sentDatagram e }

/-! ## Transmit -/

/-- `UdpIoFreeTxToken (Token)`: `CloseEvent` drops a pending notify, then the pool is freed. -/
def udpIoFreeTxToken (p : Port) (t : Nat) : Port :=
  let p := touch p t
  netFreePool { p with txSignaled := p.txSignaled.erase t } t

/-- `Token->CallBack (Token->Packet, NULL, Status, Token->Context)`. -/
def txCallBack (p : Port) (t : Nat) (status : EfiStatus) : Port :=
  let p := touch p t
  p.record (.callBack t (p.txToken t).callBack (some (p.txToken t).packet) status
    (p.txToken t).context)

/-- `UdpIoOnDgramSent (Event, Token)`: unlink the token, call back with the status the child
    left in it, free it. -/
def udpIoOnDgramSent (p : Port) (t : Nat) : Port :=
  let p := removeEntry (touch p t) (.token t)
  udpIoFreeTxToken (txCallBack p t (p.txToken t).status) t

/-- The event of a transmit token is signaled, and its notify function runs. -/
def dispatchTx (p : Port) (t : Nat) : Port :=
  udpIoOnDgramSent { p with txSignaled := p.txSignaled.erase t } t

/-- The UDP child ends a transmit token it holds: it stores the status in the token and
    signals the token's event. -/
def completeTx (p : Port) (t : Nat) (status : EfiStatus) : Port :=
  let p := touch p t
  { p with udpTx := p.udpTx.erase t, txSignaled := p.txSignaled ++ [t],
           txToken := Function.update p.txToken t { p.txToken t with status } }

/-- What the UDP child does with a token handed to `Transmit`: the status the call returns
    and, if it takes the token, whether it ends it, with a status, before the call returns. -/
structure TxCall where
  status : EfiStatus
  completeInside : Option EfiStatus
  deriving DecidableEq, Repr

/-- `Udp->Transmit (Udp, &Token->UdpToken)`. -/
def udpTransmit (p : Port) (t : Nat) (call : TxCall) : Port :=
  if efiError call.status then p
  else
    let p := { p with udpTx := p.udpTx ++ [t] }
    match call.completeInside with
    | none => p
    | some status => dispatchTx (completeTx p t status) t

/-- `Udp->Cancel (Udp, &Token->UdpToken)` on a transmit token: a token the child holds is
    ended with `EFI_ABORTED`; `notify` says whether its notify function runs before `Cancel`
    returns. -/
def udpCancelTx (p : Port) (t : Nat) (notify : Bool) : Port :=
  if t ∈ p.udpTx then
    let p := completeTx p t .efiAborted
    if notify then dispatchTx p t else p
  else p

/-- `UdpIoWrapTx`: allocate and fill a token, create its event.  `alloc` is whether
    `NetAllocatePool` succeeds, `createEvent` what `CreateEvent` returns. -/
def udpIoWrapTx (p : Port) (packet callBack context : Nat) (alloc : Bool)
    (createEvent : EfiStatus) : Option Nat × Port :=
  if alloc then
    let (t, p) := netAllocatePool p
    let p := { p with links := netListInit p.links (.token t),
                      txToken := Function.update p.txToken t ⟨packet, callBack, context, .efiNotReady⟩ }
    if efiError createEvent then (none, netFreePool p t) else (some t, p)
  else (none, p)

/-- `UdpIoSendDatagram`: wrap the packet, hand it to `Transmit`, and on success put the token
    on `SentDatagram`. -/
def udpIoSendDatagram (p : Port) (packet callBack context : Nat) (alloc : Bool)
    (createEvent : EfiStatus) (transmit : TxCall) : EfiStatus × Port :=
  match udpIoWrapTx p packet callBack context alloc createEvent with
  | (none, p) => (.efiOutOfResources, p)
  | (some t, p) =>
    let p := udpTransmit p t transmit
    if efiError transmit.status then (transmit.status, udpIoFreeTxToken p t)
    else (.efiSuccess, insertHead p (.token t))

/-- The body of `UdpIoCancelDgrams` for a selected token: unlink it, cancel it in the child,
    call back with `IoStatus`, free it. -/
def cancelTxToken (ioStatus : EfiStatus) (notify : Nat → Bool) (p : Port) (t : Nat) : Port :=
  let p := udpCancelTx (removeEntry p (.token t)) t (notify t)
  udpIoFreeTxToken (txCallBack p t ioStatus) t

/-- `ToCancel (Token, Context)`, or every token when `ToCancel` is `NULL`. -/
def selectTx (toCancel : Option (UdpTxToken → Bool)) (p : Port) (t : Nat) : Bool × Port :=
  match toCancel with
  | none => (true, p)
  | some f => (f ((touch p t).txToken t), touch p t)

/-- `NET_LIST_FOR_EACH_SAFE (Entry, Next, &UdpIo->SentDatagram)` in `UdpIoCancelDgrams`, for at
    most `fuel` more tests of `Entry`. -/
def cancelDgramsLoop (ioStatus : EfiStatus) (toCancel : Option (UdpTxToken → Bool))
    (notify : Nat → Bool) : Nat → Entry → Entry → Port → Option Port
  | 0, _, _, _ => none
  | _ + 1, .sentDatagram, _, p => some p
  | fuel + 1, .token t, next, p =>
    let (selected, p) := selectTx toCancel p t
    let p := if selected then cancelTxToken ioStatus notify p t else p
    cancelDgramsLoop ioStatus toCancel notify fuel next (p.links.forwardLink next)
      (touchEntry p next)

/-- `UdpIoCancelDgrams (UdpIo, IoStatus, ToCancel, Context)`.  The loop gets one pass per
    address the pool ever handed out, and one more for the head. -/
def udpIoCancelDgrams (p : Port) (ioStatus : EfiStatus) (toCancel : Option (UdpTxToken → Bool))
    (notify : Nat → Bool) : Option Port :=
  let entry := p.links.forwardLink .sentDatagram
  cancelDgramsLoop ioStatus toCancel notify (p.nextAddr + 1) entry
    (p.links.forwardLink entry) (touchEntry p entry)

/-- `UdpIoCancelSingleDgram (Token, Packet)`. -/
def udpIoCancelSingleDgram (packet : Nat) (token : UdpTxToken) : Bool := token.packet == packet

/-- `UdpIoCancelSentDatagram (UdpIo, Packet)`. -/
def udpIoCancelSentDatagram (p : Port) (packet : Nat) (notify : Nat → Bool) : Option Port :=
  udpIoCancelDgrams p .efiAborted (some (udpIoCancelSingleDgram packet)) notify

/-! ## Receive -/

/-- `UdpIoFreeRxToken (Token)`. -/
def udpIoFreeRxToken (p : Port) (t : Nat) : Port :=
  let p := touch p t
  netFreePool { p with rxSignaled := p.rxSignaled.erase t } t

/-- `Token->CallBack (Packet, Points, Status, Token->Context)` of a receive token. -/
def rxCallBack (p : Port) (t : Nat) (packet : Option Nat) (status : EfiStatus) : Port :=
  let p := touch p t
  p.record (.callBack t (p.rxToken t).callBack packet status (p.rxToken t).context)

/-- What `ASSERT (Token == Token->UdpIo->RecvRequest)` shows. -/
def assertRecvRequest (p : Port) (t : Nat) : List Event :=
  if p.recvRequest = some t then [] else [.assertFailed t]

/-- `UdpIoOnDgramRcvd (Event, Token)`: check the `ASSERT`, clear `RecvRequest`, and deliver
    the datagram, or the error, to the user.  `netbuf` is whether `NetbufFromExt` succeeds. -/
def udpIoOnDgramRcvd (p : Port) (t : Nat) (netbuf : Bool) : Port :=
  let p := touch p t
  let p := { p with log := p.log ++ assertRecvRequest p t, recvRequest := none }
  if efiError (p.rxToken t).status || !(p.rxToken t).rxData then
    udpIoFreeRxToken (rxCallBack p t none (p.rxToken t).status) t
  else if netbuf then
    rxCallBack { p with netbufs := p.netbufs ++ [t] } t (some t) .efiSuccess
  else udpIoFreeRxToken (rxCallBack p t none .efiOutOfResources) t

/-- The event of a receive token is signaled, and its notify function runs. -/
def dispatchRx (p : Port) (t : Nat) (netbuf : Bool) : Port :=
  udpIoOnDgramRcvd { p with rxSignaled := p.rxSignaled.erase t } t netbuf

/-- The UDP child ends a receive token it holds, with a status and with or without data. -/
def completeRx (p : Port) (t : Nat) (status : EfiStatus) (rxData : Bool) : Port :=
  let p := touch p t
  { p with udpRx := p.udpRx.erase t, rxSignaled := p.rxSignaled ++ [t],
           rxToken := Function.update p.rxToken t { p.rxToken t with status, rxData } }

/-- How the UDP child ends a receive token: its status, whether it carries data, and
    whether `NetbufFromExt` then succeeds. -/
structure RxCompletion where
  status : EfiStatus
  rxData : Bool
  netbuf : Bool
  deriving DecidableEq, Repr

/-- What the UDP child does with a token handed to `Receive`. -/
structure RxCall where
  status : EfiStatus
  completeInside : Option RxCompletion
  deriving DecidableEq, Repr

/-- `Udp->Receive (Udp, &Token->UdpToken)`. -/
def udpReceive (p : Port) (t : Nat) (call : RxCall) : Port :=
  if efiError call.status then p
  else
    let p := { p with udpRx := p.udpRx ++ [t] }
    match call.completeInside with
    | none => p
    | some c => dispatchRx (completeRx p t c.status c.rxData) t c.netbuf

/-- `Udp->Cancel (Udp, &Token->UdpToken)` on a receive token. -/
def udpCancelRx (p : Port) (t : Nat) (notify : Bool) : Port :=
  if t ∈ p.udpRx then
    let p := completeRx p t .efiAborted false
    if notify then dispatchRx p t false else p
  else p

/-- `UdpIoCreateRxToken`. -/
def udpIoCreateRxToken (p : Port) (callBack context headLen : Nat) (alloc : Bool)
    (createEvent : EfiStatus) : Option Nat × Port :=
  if alloc then
    let (t, p) := netAllocatePool p
    let p := { p with rxToken := Function.update p.rxToken t
                        ⟨callBack, context, headLen, .efiNotReady, false⟩ }
    if efiError createEvent then (none, netFreePool p t) else (some t, p)
  else (none, p)

/-- `UdpIoRecvDatagram`: at most one receive is pending; `RecvRequest` is set once `Receive`
    has returned. -/
def udpIoRecvDatagram (p : Port) (callBack context headLen : Nat) (alloc : Bool)
    (createEvent : EfiStatus) (receive : RxCall) : EfiStatus × Port :=
  if p.recvRequest.isSome then (.efiAlreadyStarted, p)
  else
    match udpIoCreateRxToken p callBack context headLen alloc createEvent with
    | (none, p) => (.efiOutOfResources, p)
    | (some t, p) =>
      let p := udpReceive p t receive
      if efiError receive.status then (receive.status, udpIoFreeRxToken p t)
      else (.efiSuccess, { p with recvRequest := some t })

/-- `UdpIoRecycleDgram (Token)`: the user frees the delivered `NET_BUF`. -/
def udpIoRecycleDgram (p : Port) (t : Nat) : Port :=
  udpIoFreeRxToken { touch p t with netbufs := p.netbufs.erase t } t

/-! ## Cleaning up -/

/-- The part `UdpIoCleanPort` and `UdpIoFreePort` share: cancel every sent datagram with
    `EFI_ABORTED`, then clear `RecvRequest`, cancel the receive, and free its token. -/
def cancelAll (p : Port) (notifyTx : Nat → Bool) (notifyRx : Bool) : Option Port := do
  let p ← udpIoCancelDgrams p .efiAborted none notifyTx
  match p.recvRequest with
  | none => pure p
  | some t => pure (udpIoFreeRxToken (udpCancelRx { p with recvRequest := none } t notifyRx) t)

/-- `Udp->Configure (Udp, NULL)`: the child is reset, and ends every token it still holds
    with `EFI_ABORTED`, as `Cancel` does; their notify functions run after it returns. -/
def udpConfigureNull (p : Port) : Port :=
  let p := p.udpTx.foldl (fun p t => udpCancelTx p t false) p
  p.udpRx.foldl (fun p t => udpCancelRx p t false) p

/-- `Configure (NULL)` on a child that holds no token does nothing. -/
theorem udpConfigureNull_of_idle {p : Port} (htx : p.udpTx = []) (hrx : p.udpRx = []) :
    udpConfigureNull p = p := by
  simp only [udpConfigureNull, htx, hrx, List.foldl_nil]

/-- `Configure (NULL)` ends the transmit tokens the child holds, in turn: they join the
    signaled ones. -/
theorem foldl_udpCancelTx : ∀ (l : List Nat) (p : Port), p.udpTx = l →
    let q := l.foldl (fun p t => udpCancelTx p t false) p
    q.udpTx = [] ∧ q.txSignaled = p.txSignaled ++ l ∧ q.recvRequest = p.recvRequest ∧
      p.log <+: q.log
  | [], _, h => ⟨h, (List.append_nil _).symm, rfl, List.prefix_refl _⟩
  | t :: l, p, h => by
    have ht : t ∈ p.udpTx := h ▸ List.mem_cons_self t l
    obtain ⟨h1, h2, h3, h4⟩ := foldl_udpCancelTx l (completeTx p t .efiAborted) (by
      simp only [completeTx, touch, h, List.erase_cons_head])
    have hc : udpCancelTx p t false = completeTx p t .efiAborted := by
      simp only [udpCancelTx, ht, if_true, Bool.false_eq_true, if_false]
    rw [List.foldl_cons, hc]
    refine ⟨h1, ?_, h3, (List.prefix_append _ _).trans h4⟩
    rw [h2]; simp [completeTx, touch]

/-- The receive tokens it ends leave the transmit side alone. -/
theorem foldl_udpCancelRx (l : List Nat) (p : Port) :
    let q := l.foldl (fun p t => udpCancelRx p t false) p
    q.udpTx = p.udpTx ∧ q.txSignaled = p.txSignaled ∧ q.recvRequest = p.recvRequest ∧
      p.log <+: q.log := by
  induction l generalizing p with
  | nil => exact ⟨rfl, rfl, rfl, List.prefix_refl _⟩
  | cons t l ih =>
    obtain ⟨h1, h2, h3, h4⟩ := ih (udpCancelRx p t false)
    have hc : (udpCancelRx p t false).udpTx = p.udpTx ∧
        (udpCancelRx p t false).txSignaled = p.txSignaled ∧
        (udpCancelRx p t false).recvRequest = p.recvRequest ∧ p.log <+: (udpCancelRx p t false).log := by
      simp only [udpCancelRx, Bool.false_eq_true, if_false]
      split_ifs
      · exact ⟨rfl, rfl, rfl, List.prefix_append _ _⟩
      · exact ⟨rfl, rfl, rfl, List.prefix_refl _⟩
    rw [List.foldl_cons]
    exact ⟨h1.trans hc.1, h2.trans hc.2.1, h3.trans hc.2.2.1, hc.2.2.2.trans h4⟩

/-- **What `Configure (NULL)` does to the transmit side**: the child holds no transmit token
    afterwards, those it held being signaled after the others; `RecvRequest` stays, and the
    log only grows. -/
theorem udpConfigureNull_tx (p : Port) :
    (udpConfigureNull p).udpTx = [] ∧
      (udpConfigureNull p).txSignaled = p.txSignaled ++ p.udpTx ∧
      (udpConfigureNull p).recvRequest = p.recvRequest ∧ p.log <+: (udpConfigureNull p).log := by
  obtain ⟨h1, h2, h3, h4⟩ := foldl_udpCancelTx p.udpTx p rfl
  obtain ⟨i1, i2, i3, i4⟩ := foldl_udpCancelRx
    (p.udpTx.foldl (fun p t => udpCancelTx p t false) p).udpRx
    (p.udpTx.foldl (fun p t => udpCancelTx p t false) p)
  exact ⟨i1.trans h1, i2.trans h2, i3.trans h3, h4.trans i4⟩

/-- `UdpIoCleanPort`: the cancels, then `Configure (NULL)`. -/
def udpIoCleanPort (p : Port) (notifyTx : Nat → Bool) (notifyRx : Bool) : Option Port :=
  udpConfigureNull <$> cancelAll p notifyTx notifyRx

/-- `UdpIoFreePort`: the cancels, with no `Configure (NULL)`; closing and destroying the child
    and freeing the port follow. -/
def udpIoFreePort (p : Port) (notifyTx : Nat → Bool) (notifyRx : Bool) :
    Option (EfiStatus × Port) :=
  (.efiSuccess, ·) <$> cancelAll p notifyTx notifyRx

/-- The port `UdpIoCreatePort` returns: `SentDatagram` empty, no receive, nothing allocated. -/
def udpIoCreatePort : Port where
  links := netListInit ⟨id, id⟩ .sentDatagram
  txToken := fun _ => ⟨0, 0, 0, .efiNotReady⟩
  rxToken := fun _ => ⟨0, 0, 0, .efiNotReady, false⟩
  live := []
  nextAddr := 0
  live_lt := fun _ h => absurd h (List.not_mem_nil _)
  recvRequest := none
  udpTx := []
  udpRx := []
  txSignaled := []
  rxSignaled := []
  netbufs := []
  log := []

/-! ## Accesses to allocated memory -/

/-- An entry the port may touch: the head, or the link of an allocated token. -/
def Entry.IsLive (p : Port) : Entry → Prop
  | .sentDatagram => True
  | .token t => t ∈ p.live

/-- `SentDatagram` holds the tokens `ts`, in order, and all of them are allocated. -/
def SentList (p : Port) (ts : List Nat) : Prop :=
  IsList p.links .sentDatagram (ts.map .token) ∧ ∀ t ∈ ts, t ∈ p.live

instance (p : Port) (ts : List Nat) : Decidable (SentList p ts) :=
  inferInstanceAs (Decidable (_ ∧ _))

/-- An entry stays allocated while the tokens allocated do. -/
theorem Entry.IsLive.of_subset {p q : Port} {e : Entry} (h : e.IsLive p) (hs : p.live ⊆ q.live) :
    e.IsLive q := by
  cases e with
  | sentDatagram => trivial
  | token t => exact hs h

theorem touch_of_mem {p : Port} {t : Nat} (h : t ∈ p.live) : touch p t = p := by
  simp [touch, accessLog, h]

@[simp] theorem entryLog_token (live : List Nat) (t : Nat) :
    entryLog live (.token t) = accessLog live t := rfl

theorem entryLog_of_isLive {p : Port} : ∀ {e : Entry}, e.IsLive p → entryLog p.live e = []
  | .sentDatagram, _ => rfl
  | .token _, h => if_pos h

theorem touchEntry_of_isLive {p : Port} {e : Entry} (h : e.IsLive p) : touchEntry p e = p := by
  simp [touchEntry, entryLog_of_isLive h]

/-- Every entry of `SentDatagram`, and each of its neighbours, may be touched. -/
theorem SentList.isLive {p : Port} {ts : List Nat} (h : SentList p ts) {e : Entry}
    (he : e ∈ .sentDatagram :: ts.map .token) :
    e.IsLive p ∧ (p.links.forwardLink e).IsLive p ∧ (p.links.backLink e).IsLive p := by
  have live : ∀ e ∈ Entry.sentDatagram :: ts.map .token, e.IsLive p := by
    simp only [List.mem_cons, List.mem_map]
    rintro e (rfl | ⟨t, ht, rfl⟩)
    · trivial
    · exact h.2 t ht
  exact ⟨live e he, live _ (h.1.links_mem he).1, live _ (h.1.links_mem he).2⟩

/-- Unlinking an entry whose neighbours are allocated touches nothing else. -/
theorem removeEntry_of_isLive {p : Port} {e : Entry}
    (h : e.IsLive p ∧ (p.links.forwardLink e).IsLive p ∧ (p.links.backLink e).IsLive p) :
    removeEntry p e = { p with links := netListRemoveEntry p.links e } := by
  simp only [removeEntry, touchEntry_of_isLive h.1, touchEntry_of_isLive h.2.1,
    touchEntry_of_isLive h.2.2]

/-- Linking an allocated entry in front of an allocated first entry touches nothing else. -/
theorem insertHead_of_isLive {p : Port} {e : Entry}
    (h : e.IsLive p ∧ (p.links.forwardLink .sentDatagram).IsLive p) :
    insertHead p e = { p with links := netListInsertHead p.links .sentDatagram e } := by
  simp only [insertHead, touchEntry_of_isLive h.1, touchEntry_of_isLive h.2]

/-- `NetFreePool` of an allocated token. -/
theorem netFreePool_of_mem {p : Port} {t : Nat} (h : t ∈ p.live) :
    netFreePool p t =
      { p with live := p.live.erase t,
               live_lt := fun u hu => p.live_lt u (List.mem_of_mem_erase hu) }.record
        (.freePool t) := by
  simp only [netFreePool, touch, accessLog, h, if_true, List.append_nil]

/-- A completion of an allocated token. -/
theorem completeTx_of_mem {p : Port} {t : Nat} (h : t ∈ p.live) (status : EfiStatus) :
    completeTx p t status =
      { p with udpTx := p.udpTx.erase t, txSignaled := p.txSignaled ++ [t],
               txToken := Function.update p.txToken t { p.txToken t with status } } := by
  rw [completeTx, touch_of_mem h]

/-- A `CallBack` of an allocated token. -/
theorem txCallBack_of_mem {p : Port} {t : Nat} (h : t ∈ p.live) (status : EfiStatus) :
    txCallBack p t status = p.record (.callBack t (p.txToken t).callBack
      (some (p.txToken t).packet) status (p.txToken t).context) := by
  rw [txCallBack, touch_of_mem h]

/-- `UdpIoFreeTxToken` of an allocated token. -/
theorem udpIoFreeTxToken_of_mem {p : Port} {t : Nat} (h : t ∈ p.live) :
    udpIoFreeTxToken p t =
      { p with txSignaled := p.txSignaled.erase t, live := p.live.erase t,
               live_lt := fun u hu => p.live_lt u (List.mem_of_mem_erase hu) }.record
        (.freePool t) := by
  rw [udpIoFreeTxToken, touch_of_mem h]
  exact netFreePool_of_mem h

/-- A `CallBack` of an allocated receive token. -/
theorem rxCallBack_of_mem {p : Port} {t : Nat} (h : t ∈ p.live) (packet : Option Nat)
    (status : EfiStatus) : rxCallBack p t packet status =
      p.record (.callBack t (p.rxToken t).callBack packet status (p.rxToken t).context) := by
  rw [rxCallBack, touch_of_mem h]

/-- What it shows. -/
theorem rxCallBack_log {q : Port} {t : Nat} (h : t ∈ q.live) (packet : Option Nat)
    (status : EfiStatus) : (rxCallBack q t packet status).log =
      q.log ++ [.callBack t (q.rxToken t).callBack packet status (q.rxToken t).context] := by
  rw [rxCallBack_of_mem h]; rfl

@[simp] theorem rxCallBack_live (q : Port) (t : Nat) (packet : Option Nat) (status : EfiStatus) :
    (rxCallBack q t packet status).live = q.live := rfl

/-- `UdpIoFreeRxToken` of an allocated token. -/
theorem udpIoFreeRxToken_of_mem {p : Port} {t : Nat} (h : t ∈ p.live) :
    udpIoFreeRxToken p t =
      { p with rxSignaled := p.rxSignaled.erase t, live := p.live.erase t,
               live_lt := fun u hu => p.live_lt u (List.mem_of_mem_erase hu) }.record
        (.freePool t) := by
  rw [udpIoFreeRxToken, touch_of_mem h]
  exact netFreePool_of_mem h

/-- What it shows. -/
theorem udpIoFreeRxToken_log {q : Port} {t : Nat} (h : t ∈ q.live) :
    (udpIoFreeRxToken q t).log = q.log ++ [.freePool t] := by
  rw [udpIoFreeRxToken_of_mem h]; rfl

/-- What `UdpIoOnDgramRcvd` shows for an allocated token: what the `ASSERT` shows, then the
    token's `CallBack`. -/
theorem udpIoOnDgramRcvd_log {p : Port} {t : Nat} {pre : List Event} {callBack context : Nat}
    (h : t ∈ p.live) (hpre : p.log ++ assertRecvRequest p t = pre)
    (hc : (p.rxToken t).callBack = callBack) (hx : (p.rxToken t).context = context)
    (netbuf : Bool) :
    ∃ packet status rest, (udpIoOnDgramRcvd p t netbuf).log =
      pre ++ .callBack t callBack packet status context :: rest := by
  subst hpre hc hx
  rw [udpIoOnDgramRcvd, touch_of_mem h]
  split_ifs
  · exact ⟨none, (p.rxToken t).status, [.freePool t], by
      simp only [udpIoFreeRxToken_log, rxCallBack_log, rxCallBack_live, h]; simp⟩
  · exact ⟨some t, .efiSuccess, [], by simp only [rxCallBack_log, h]⟩
  · exact ⟨none, .efiOutOfResources, [.freePool t], by
      simp only [udpIoFreeRxToken_log, rxCallBack_log, rxCallBack_live, h]; simp⟩

/-- `UdpIoOnDgramSent` for a token whose neighbours are allocated: it unlinks, calls back and
    frees the token, and touches nothing else. -/
theorem udpIoOnDgramSent_eq {p : Port} {t : Nat}
    (h : (Entry.token t).IsLive p ∧ (p.links.forwardLink (.token t)).IsLive p ∧
      (p.links.backLink (.token t)).IsLive p) :
    udpIoOnDgramSent p t =
      { p with links := netListRemoveEntry p.links (.token t),
               txSignaled := p.txSignaled.erase t, live := p.live.erase t,
               live_lt := fun u hu => p.live_lt u (List.mem_of_mem_erase hu),
               log := p.log ++ [.callBack t (p.txToken t).callBack (some (p.txToken t).packet)
                 (p.txToken t).status (p.txToken t).context, .freePool t] } := by
  have ht : t ∈ p.live := h.1
  simp only [udpIoOnDgramSent, touch_of_mem ht, removeEntry_of_isLive h, txCallBack_of_mem,
    udpIoFreeTxToken_of_mem, ht, Port.record, List.append_assoc, List.singleton_append]

/-- `UdpIoOnDgramRcvd` for the allocated `RecvRequest`: the `ASSERT` holds, `RecvRequest` is
    cleared and the token called back once; then it is freed, or its `NET_BUF` goes to the
    user. -/
theorem udpIoOnDgramRcvd_eq {p : Port} {t : Nat} (h : t ∈ p.live)
    (hreq : p.recvRequest = some t) (netbuf : Bool) :
    ∃ packet status,
      udpIoOnDgramRcvd p t netbuf =
        { p with recvRequest := none, rxSignaled := p.rxSignaled.erase t, live := p.live.erase t,
                 live_lt := fun u hu => p.live_lt u (List.mem_of_mem_erase hu),
                 log := p.log ++ [.callBack t (p.rxToken t).callBack packet status
                   (p.rxToken t).context, .freePool t] } ∨
      udpIoOnDgramRcvd p t netbuf =
        { p with recvRequest := none, netbufs := p.netbufs ++ [t],
                 log := p.log ++ [.callBack t (p.rxToken t).callBack packet status
                   (p.rxToken t).context] } := by
  simp only [udpIoOnDgramRcvd, touch_of_mem h, assertRecvRequest, hreq, if_true, List.append_nil]
  split_ifs
  · exact ⟨none, (p.rxToken t).status, .inl (by simp only [rxCallBack_of_mem, udpIoFreeRxToken_of_mem, h,
      Port.record, List.append_assoc, List.singleton_append])⟩
  · exact ⟨some t, .efiSuccess, .inr (by simp only [rxCallBack_of_mem, h, Port.record])⟩
  · exact ⟨none, .efiOutOfResources, .inl (by simp only [rxCallBack_of_mem, udpIoFreeRxToken_of_mem, h,
      Port.record, List.append_assoc, List.singleton_append])⟩

end UdpIo
