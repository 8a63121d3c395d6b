import MdeModulePkg.UdpIo.Safety

/-! # Callbacks that call the port again

    A request's `CallBack` is the user's code, and it may call the port: `UdpIoOnDgramRcvd`
    clears `RecvRequest` before its `CallBack` "in case that the caller wants to restart the
    receive in the callback", and a transmit `CallBack` may send again.  Such calls run inside
    the port's own code: in `UdpIoOnDgramSent` and `UdpIoOnDgramRcvd` between the `CallBack`
    and the free of its token, and in `UdpIoCancelDgrams` inside the body of the walk, after
    `NET_LIST_FOR_EACH_SAFE` has read `Next`.

    The user's code is the parameter `react`: the calls the code of a `CallBack` makes, given
    the port and the event, each with the environment's answers as in a `Step`.  The functions
    that run a `CallBack` are written again around it, with one `fuel` for the nesting, and a
    run is a run of `Run` whose notify functions run between calls.

    * `callBackR`, `callsR`, `callR`, `udpIoCancelDgramsR`, `cancelDgramsLoopR`,
      `cancelTxTokenR`: the calls and the walk, mutually recursive; `cancelAllR`: the cancels
      `UdpIoCleanPort` and `UdpIoFreePort` share, `UdpIoCleanPort` adding `Configure (NULL)`;
    * `stepR`, `runR`: the runs;
    * `runR_silent`: when no `CallBack` calls the port, a run is the run of `Run`. -/

namespace UdpIo

open Base NetList

/-- A call the code of a `CallBack` makes on the port, with the environment's answers in it;
    no token ends inside the call, and `Cancel` runs no notify function. -/
inductive Call
  | sendDatagram (packet callBack context : Nat) (alloc : Bool) (createEvent transmit : EfiStatus)
  | recvDatagram (callBack context headLen : Nat) (alloc : Bool) (createEvent receive : EfiStatus)
  | recycleDgram (token : Nat)
  | cancelSentDatagram (packet : Nat)
  | cleanPort
  deriving DecidableEq, Repr

/-- Whether a call only starts a request or releases a `NET_BUF`: it runs no `CallBack`. -/
def Call.isRestart : Call → Bool
  | .sendDatagram .. | .recvDatagram .. | .recycleDgram _ => true
  | .cancelSentDatagram _ | .cleanPort => false

/-- The `CallBack` of a transmit token, as `txCallBack` shows it. -/
def txEvent (p : Port) (t : Nat) (status : EfiStatus) : Event :=
  .callBack t (p.txToken t).callBack (some (p.txToken t).packet) status (p.txToken t).context

/-- The `CallBack` of a receive token, as `rxCallBack` shows it. -/
def rxEvent (p : Port) (t : Nat) (packet : Option Nat) (status : EfiStatus) : Event :=
  .callBack t (p.rxToken t).callBack packet status (p.rxToken t).context

theorem txCallBack_eq (p : Port) (t : Nat) (status : EfiStatus) :
    txCallBack p t status = (touch p t).record (txEvent (touch p t) t status) := rfl

theorem rxCallBack_eq (p : Port) (t : Nat) (packet : Option Nat) (status : EfiStatus) :
    rxCallBack p t packet status = (touch p t).record (rxEvent (touch p t) t packet status) := rfl

/-- The end of `UdpIoCleanPort` after the walk: clear `RecvRequest`, cancel its token in the
    child with no notify function run, and free it. -/
def cancelRecv (p : Port) : Port :=
  match p.recvRequest with
  | none => p
  | some t => udpIoFreeRxToken (udpCancelRx { p with recvRequest := none } t false) t

theorem cancelAll_eq (p : Port) :
    cancelAll p (fun _ => false) false = cancelRecv <$> udpIoCancelDgrams p .efiAborted none
      (fun _ => false) := by
  rw [cancelAll]
  cases udpIoCancelDgrams p .efiAborted none (fun _ => false) with
  | none => rfl
  | some q => cases hr : q.recvRequest <;> simp [cancelRecv, hr]

section Calls

variable (react : Port → Event → List Call)

mutual

/-- `Token->CallBack (...)`: the event, then the calls the user's code makes. -/
def callBackR : Nat → Port → Event → Option Port
  | 0, _, _ => none
  | fuel + 1, p, e => callsR fuel (p.record e) (react (p.record e) e)

/-- The user's calls, one after the other. -/
def callsR : Nat → Port → List Call → Option Port
  | _, p, [] => some p
  | 0, _, _ :: _ => none
  | fuel + 1, p, c :: cs => callR fuel p c >>= (callsR fuel · cs)

/-- One call: `UdpIoSendDatagram`, `UdpIoRecvDatagram`, the recycling of a `NET_BUF` the user
    holds, `UdpIoCancelSentDatagram`, or `UdpIoCleanPort`. -/
def callR : Nat → Port → Call → Option Port
  | 0, _, _ => none
  | _ + 1, p, .sendDatagram packet callBack context alloc createEvent transmit =>
    some (udpIoSendDatagram p packet callBack context alloc createEvent ⟨transmit, none⟩).2
  | _ + 1, p, .recvDatagram callBack context headLen alloc createEvent receive =>
    some (udpIoRecvDatagram p callBack context headLen alloc createEvent ⟨receive, none⟩).2
  | _ + 1, p, .recycleDgram t => if t ∈ p.netbufs then some (udpIoRecycleDgram p t) else none
  | fuel + 1, p, .cancelSentDatagram packet =>
    udpIoCancelDgramsR fuel p .efiAborted (some (udpIoCancelSingleDgram packet))
  | fuel + 1, p, .cleanPort =>
    udpConfigureNull <$> (cancelRecv <$> udpIoCancelDgramsR fuel p .efiAborted none)

/-- `UdpIoCancelDgrams (UdpIo, IoStatus, ToCancel, Context)`. -/
def udpIoCancelDgramsR : Nat → Port → EfiStatus → Option (UdpTxToken → Bool) → Option Port
  | 0, _, _, _ => none
  | fuel + 1, p, ioStatus, toCancel =>
    let entry := p.links.forwardLink .sentDatagram
    cancelDgramsLoopR fuel ioStatus toCancel entry (p.links.forwardLink entry) (touchEntry p entry)

/-- `NET_LIST_FOR_EACH_SAFE (Entry, Next, &UdpIo->SentDatagram)`: `Next` is read before the
    body, and the walk goes on from it whatever the body did. -/
def cancelDgramsLoopR : Nat → EfiStatus → Option (UdpTxToken → Bool) → Entry → Entry → Port →
    Option Port
  | 0, _, _, _, _, _ => none
  | _ + 1, _, _, .sentDatagram, _, p => some p
  | fuel + 1, ioStatus, toCancel, .token t, next, p =>
    let (selected, p) := selectTx toCancel p t
    (if selected then cancelTxTokenR fuel ioStatus p t else some p) >>= fun p =>
      cancelDgramsLoopR fuel ioStatus toCancel next (p.links.forwardLink next) (touchEntry p next)

/-- The body for a selected token: unlink it, cancel it in the child, call back with
    `IoStatus` (the user's code runs here), free it. -/
def cancelTxTokenR : Nat → EfiStatus → Port → Nat → Option Port
  | 0, _, _, _ => none
  | fuel + 1, ioStatus, p, t =>
    let p := touch (udpCancelTx (removeEntry p (.token t)) t false) t
    callBackR fuel p (txEvent p t ioStatus) >>= fun p => some (udpIoFreeTxToken p t)

end

/-- The cancels `UdpIoCleanPort` and `UdpIoFreePort` share: the walk, with the user's code
    running in it, then the receive. -/
def cancelAllR (fuel : Nat) (p : Port) : Option Port :=
  cancelRecv <$> udpIoCancelDgramsR react fuel p .efiAborted none

/-- `UdpIoCleanPort` is the cancels, then `Configure (NULL)`. -/
theorem callR_cleanPort (fuel : Nat) (p : Port) :
    callR react (fuel + 1) p .cleanPort = udpConfigureNull <$> cancelAllR react fuel p := rfl

/-- `Token->CallBack (Token->Packet, NULL, Status, Token->Context)` running the user's code. -/
def txCallBackR (fuel : Nat) (p : Port) (t : Nat) (status : EfiStatus) : Option Port :=
  let p := touch p t
  callBackR react fuel p (txEvent p t status)

/-- `Token->CallBack (Packet, Points, Status, Token->Context)` of a receive token running the
    user's code. -/
def rxCallBackR (fuel : Nat) (p : Port) (t : Nat) (packet : Option Nat) (status : EfiStatus) :
    Option Port :=
  let p := touch p t
  callBackR react fuel p (rxEvent p t packet status)

/-- `UdpIoOnDgramSent`: unlink, call back (the user's code runs here), free. -/
def udpIoOnDgramSentR (fuel : Nat) (p : Port) (t : Nat) : Option Port :=
  let p := removeEntry (touch p t) (.token t)
  txCallBackR react fuel p t (p.txToken t).status >>= fun p => some (udpIoFreeTxToken p t)

/-- `UdpIoOnDgramRcvd`: `RecvRequest` is cleared before the `CallBack`, so that the user's code
    may receive again; the token is freed after it, unless its `NET_BUF` went to the user. -/
def udpIoOnDgramRcvdR (fuel : Nat) (p : Port) (t : Nat) (netbuf : Bool) : Option Port :=
  let p := touch p t
  let p := { p with log := p.log ++ assertRecvRequest p t, recvRequest := none }
  if efiError (p.rxToken t).status || !(p.rxToken t).rxData then
    rxCallBackR react fuel p t none (p.rxToken t).status >>= fun p => some (udpIoFreeRxToken p t)
  else if netbuf then
    rxCallBackR react fuel { p with netbufs := p.netbufs ++ [t] } t (some t) .efiSuccess
  else
    rxCallBackR react fuel p t none .efiOutOfResources >>= fun p => some (udpIoFreeRxToken p t)

/-- The notify function of a signaled transmit token runs. -/
def dispatchTxR (fuel : Nat) (p : Port) (t : Nat) : Option Port :=
  udpIoOnDgramSentR react fuel { p with txSignaled := p.txSignaled.erase t } t

/-- The notify function of a signaled receive token runs. -/
def dispatchRxR (fuel : Nat) (p : Port) (t : Nat) (netbuf : Bool) : Option Port :=
  udpIoOnDgramRcvdR react fuel { p with rxSignaled := p.rxSignaled.erase t } t netbuf

/-- One step of a run whose notify functions run between calls; the walks of a call made at
    the top get a pass for every address the pool has handed out, and `fuel` more. -/
def stepR (fuel : Nat) (p : Port) (s : Step) : Option Port :=
  if s.notifiesLater then
    match s with
    | .cancelSentDatagram packet _ =>
      callR react (p.nextAddr + fuel + 1) p (.cancelSentDatagram packet)
    | .cleanPort _ _ => callR react (p.nextAddr + fuel + 1) p .cleanPort
    | .freePort _ _ => cancelAllR react (p.nextAddr + fuel) p
    | .notifyTx t => if t ∈ p.txSignaled then dispatchTxR react fuel p t else none
    | .notifyRx t netbuf => if t ∈ p.rxSignaled then dispatchRxR react fuel p t netbuf else none
    | s => step p s
  else none

/-- A run: the steps one after the other. -/
def runR (fuel : Nat) (p : Port) : List Step → Option Port
  | [] => some p
  | s :: ss => stepR react fuel p s >>= (runR fuel · ss)

end Calls

/-- A run of two parts is the second run from where the first ends. -/
theorem runR_append (react : Port → Event → List Call) (fuel : Nat) (p : Port)
    (ss ss' : List Step) :
    runR react fuel p (ss ++ ss') = runR react fuel p ss >>= (runR react fuel · ss') := by
  induction ss generalizing p with
  | nil => rfl
  | cons s ss ih =>
    show stepR react fuel p s >>= (runR react fuel · (ss ++ ss')) =
      (stepR react fuel p s >>= (runR react fuel · ss)) >>= (runR react fuel · ss')
    simp only [ih, bind_assoc]

/-! ## Callbacks that call nothing -/

theorem callsR_nil (react : Port → Event → List Call) (fuel : Nat) (p : Port) :
    callsR react fuel p [] = some p := by
  cases fuel <;> rfl

/-- A `CallBack` whose code calls nothing only shows its event. -/
theorem callBackR_silent (fuel : Nat) (p : Port) (e : Event) :
    callBackR (fun _ _ => []) (fuel + 1) p e = some (p.record e) :=
  callsR_nil _ fuel _

/-- The body of the walk is `cancelTxToken`. -/
theorem cancelTxTokenR_silent (fuel : Nat) (ioStatus : EfiStatus) (p : Port) (t : Nat) :
    cancelTxTokenR (fun _ _ => []) (fuel + 2) ioStatus p t =
      some (cancelTxToken ioStatus (fun _ => false) p t) := by
  simp only [cancelTxTokenR, callBackR_silent, Option.some_bind]
  rfl

/-- The walk, given two more passes, ends as the walk of `cancelDgramsLoop`. -/
theorem cancelDgramsLoopR_silent (ioStatus : EfiStatus) (toCancel : Option (UdpTxToken → Bool)) :
    ∀ (n : Nat) (entry next : Entry) (p q : Port),
    cancelDgramsLoop ioStatus toCancel (fun _ => false) n entry next p = some q →
    ∀ m, n + 2 ≤ m → cancelDgramsLoopR (fun _ _ => []) m ioStatus toCancel entry next p = some q := by
  intro n
  induction n with
  | zero => intro entry next p q h; simp [cancelDgramsLoop] at h
  | succ n ih =>
    intro entry next p q h m hm
    obtain ⟨k, rfl⟩ : ∃ k, m = k + 1 + 2 := ⟨m - 3, by omega⟩
    cases entry with
    | sentDatagram => simpa [cancelDgramsLoop, cancelDgramsLoopR] using h
    | token t =>
      rw [cancelDgramsLoop] at h
      rw [cancelDgramsLoopR]
      generalize selectTx toCancel p t = r at h ⊢
      obtain ⟨sel, p'⟩ := r
      cases sel
      · exact ih _ _ _ _ h _ (by omega)
      · simp only [if_true, cancelTxTokenR_silent, Option.some_bind] at h ⊢
        exact ih _ _ _ _ h _ (by omega)

theorem udpIoCancelDgramsR_silent {p q : Port} {ioStatus : EfiStatus}
    {toCancel : Option (UdpTxToken → Bool)}
    (h : udpIoCancelDgrams p ioStatus toCancel (fun _ => false) = some q) (fuel : Nat)
    (hf : p.nextAddr + 3 ≤ fuel) :
    udpIoCancelDgramsR (fun _ _ => []) (fuel + 1) p ioStatus toCancel = some q :=
  cancelDgramsLoopR_silent ioStatus toCancel _ _ _ _ _ h fuel hf

theorem txCallBackR_silent (fuel : Nat) (p : Port) (t : Nat) (status : EfiStatus) :
    txCallBackR (fun _ _ => []) (fuel + 1) p t status = some (txCallBack p t status) :=
  callBackR_silent _ _ _

theorem rxCallBackR_silent (fuel : Nat) (p : Port) (t : Nat) (packet : Option Nat)
    (status : EfiStatus) :
    rxCallBackR (fun _ _ => []) (fuel + 1) p t packet status = some (rxCallBack p t packet status) :=
  callBackR_silent _ _ _

/-- A step whose notify functions run between calls is the step of `Run`. -/
theorem stepR_silent {p q : Port} {s : Step} (hs : s.notifiesLater) (h : step p s = some q)
    (fuel : Nat) (hf : 4 ≤ fuel) : stepR (fun _ _ => []) fuel p s = some q := by
  obtain ⟨f, rfl⟩ : ∃ f, fuel = f + 1 := ⟨fuel - 1, by omega⟩
  have hcancel : ∀ {q}, cancelAll p (fun _ => false) false = some q →
      cancelAllR (fun _ _ => []) (p.nextAddr + f + 1) p = some q := fun h => by
    rw [cancelAll_eq] at h
    obtain ⟨q', hq', rfl⟩ := Option.map_eq_some'.1 h
    rw [cancelAllR, udpIoCancelDgramsR_silent hq' _ (by omega)]; rfl
  cases s with
  | cancelSentDatagram packet notifyTx =>
    obtain rfl : notifyTx = [] := by simpa [Step.notifiesLater] using hs
    rw [stepR, if_pos hs]
    exact udpIoCancelDgramsR_silent h (p.nextAddr + f) (by omega)
  | cleanPort notifyTx notifyRx =>
    obtain ⟨rfl, rfl⟩ : notifyTx = [] ∧ notifyRx = false := by simpa [Step.notifiesLater] using hs
    simp only [step, udpIoCleanPort, List.not_mem_nil, decide_False] at h
    obtain ⟨q', hq', rfl⟩ := Option.map_eq_some'.1 h
    rw [stepR, if_pos hs]
    exact congrArg (udpConfigureNull <$> ·) (hcancel hq')
  | freePort notifyTx notifyRx =>
    obtain ⟨rfl, rfl⟩ : notifyTx = [] ∧ notifyRx = false := by simpa [Step.notifiesLater] using hs
    simp only [step, udpIoFreePort_snd, List.not_mem_nil, decide_False] at h
    rw [stepR, if_pos hs]
    exact hcancel h
  | notifyTx t =>
    simp only [step] at h
    split at h
    · cases h
      simp only [stepR, hs, if_true, *, dispatchTxR, udpIoOnDgramSentR, txCallBackR_silent,
        Option.some_bind]
      rfl
    · cases h
  | notifyRx t netbuf =>
    simp only [step] at h
    split at h
    · cases h
      simp only [stepR, hs, if_true, *, dispatchRxR, udpIoOnDgramRcvdR, rxCallBackR_silent,
        Option.some_bind]
      simp only [dispatchRx, udpIoOnDgramRcvd]
      split_ifs <;> rfl
    · cases h
  | _ => simpa [stepR, hs] using h

/-- **No call from a `CallBack`**: when the user's code calls nothing, every run whose notify
    functions run between calls is the run of `Run`. -/
theorem runR_silent : ∀ (steps : List Step) {p q : Port}, (∀ s ∈ steps, s.notifiesLater) →
    run p steps = some q → ∀ fuel, 4 ≤ fuel → runR (fun _ _ => []) fuel p steps = some q
  | [], _, _, _, h, _, _ => h
  | s :: steps, p, q, hs, h, fuel, hf => by
    obtain ⟨p', hp', hq'⟩ := Option.bind_eq_some.1 h
    show stepR _ fuel p s >>= _ = _
    rw [stepR_silent (hs s (List.mem_cons_self _ _)) hp' fuel hf]
    exact runR_silent steps (fun s' h' => hs s' (List.mem_cons_of_mem _ h')) hq' fuel hf

theorem runR_silent_life :
    (∀ s ∈ portLife, s.notifiesLater) ∧ ∃ q, run udpIoCreatePort portLife = some q ∧ 4 ≤ 4 ∧
      runR (fun _ _ => []) 4 udpIoCreatePort portLife = some q := by
  have hs : ∀ s ∈ portLife, s.notifiesLater := by decide
  obtain ⟨q, hq⟩ :=
    Option.isSome_iff_exists.1 (show (run udpIoCreatePort portLife).isSome by decide)
  exact ⟨hs, q, hq, le_rfl, runR_silent portLife hs hq 4 le_rfl⟩

end UdpIo
