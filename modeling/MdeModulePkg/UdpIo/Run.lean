import MdeModulePkg.UdpIo.Port

/-! # Runs of the UDP IO port

    A run is a sequence of steps, each a call the user makes on the port or an action of
    the UDP child: it ends a token it holds, or the notify function of a signaled event
    runs.  A call's argument says what the child does inside it; in particular a
    completion's notify function may run inside `Transmit`, `Receive` or `Cancel`, before the
    call returns, as it does when the call lowers the TPL on its way out.

    A step the state does not allow (the child ends a token it does not hold, a notify
    function runs for an event not signaled, the user recycles a `NET_BUF` it does not hold)
    has no result, and nor has a run that contains one. -/

namespace UdpIo

open Base

/-- A step of a run.  `notifyTx` lists the transmit tokens whose notify function `Cancel`
    runs before it returns; `notifyRx` says the same of the receive token. -/
inductive Step
  | sendDatagram (packet callBack context : Nat) (alloc : Bool) (createEvent : EfiStatus)
      (transmit : TxCall)
  | cancelSentDatagram (packet : Nat) (notifyTx : List Nat)
  | recvDatagram (callBack context headLen : Nat) (alloc : Bool) (createEvent : EfiStatus)
      (receive : RxCall)
  | recycleDgram (token : Nat)
  | cleanPort (notifyTx : List Nat) (notifyRx : Bool)
  | freePort (notifyTx : List Nat) (notifyRx : Bool)
  | completeTx (token : Nat) (status : EfiStatus)
  | completeRx (token : Nat) (status : EfiStatus) (rxData : Bool)
  | notifyTx (token : Nat)
  | notifyRx (token : Nat) (netbuf : Bool)
  deriving DecidableEq, Repr

/-- One step. -/
def step (p : Port) : Step → Option Port
  | .sendDatagram packet callBack context alloc createEvent transmit =>
    some (udpIoSendDatagram p packet callBack context alloc createEvent transmit).2
  | .cancelSentDatagram packet notifyTx => udpIoCancelSentDatagram p packet (· ∈ notifyTx)
  | .recvDatagram callBack context headLen alloc createEvent receive =>
    some (udpIoRecvDatagram p callBack context headLen alloc createEvent receive).2
  | .recycleDgram t => if t ∈ p.netbufs then some (udpIoRecycleDgram p t) else none
  | .cleanPort notifyTx notifyRx => udpIoCleanPort p (· ∈ notifyTx) notifyRx
  | .freePort notifyTx notifyRx => Prod.snd <$> udpIoFreePort p (· ∈ notifyTx) notifyRx
  | .completeTx t status => if t ∈ p.udpTx then some (completeTx p t status) else none
  | .completeRx t status rxData =>
    if t ∈ p.udpRx then some (completeRx p t status rxData) else none
  | .notifyTx t => if t ∈ p.txSignaled then some (dispatchTx p t) else none
  | .notifyRx t netbuf => if t ∈ p.rxSignaled then some (dispatchRx p t netbuf) else none

/-- A run: the steps one after the other. -/
def run (p : Port) : List Step → Option Port
  | [] => some p
  | s :: ss => step p s >>= (run · ss)

/-- A run of two parts is the second run from where the first ends. -/
theorem run_append (p : Port) (ss ss' : List Step) :
    run p (ss ++ ss') = run p ss >>= (run · ss') := by
  induction ss generalizing p with
  | nil => rfl
  | cons s ss ih =>
    show step p s >>= (run · (ss ++ ss')) = (step p s >>= (run · ss)) >>= (run · ss')
    simp only [ih, bind_assoc]

end UdpIo
