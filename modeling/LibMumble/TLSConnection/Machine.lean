import LibMumble.TLSConnection.World

/-! # The functions of `TLSConnectionPrivate`, and its steps

Each function of the source is one definition here, cut where it calls SSL or a handler: what comes
before the call pushes a frame, and what comes after it is the function that runs when the frame is
popped. `step` takes one atomic step: of the thread of the connection (`Act.thread`), of a callback
of libuv (`Act.event`), of the code below a callback (`Act.inner`), or of a call of `Disconnect` or
`Write` on another thread (`Act.call`). What libuv, OpenSSL and the handlers do is in the action, so
that a run is one order of events with one choice of results. -/

namespace LibMumble.TLSConnection

open World

/-! ### Shutting down -/

/-- `uv_close` of one handle after the other: libuv ends the process at one that is closed already. -/
def uvClose : List Handle → World → World
  | [], w => w
  | h :: hs, w =>
    if w.closed h then (w.observe (.uvClose h)).abort (.uvClose h) else uvClose hs (w.observe (.uvClose h))

/-- `Shutdown`. -/
def shutdown (state : ConnState) (w : World) : World :=
  uvClose [.tcpsock, .wqasync, .dcasync] ({ w with state := state }.observe (.shutdown state))

def shutdownError (err : Error) (w : World) : World :=
  shutdown .disconnectedError { w with err := err }

def shutdownRemote (w : World) : World := shutdown .disconnectedRemote w

/-! ### Requests -/

/-- `uv_async_send`: sends coalesce. -/
def uvAsyncSend (h : Handle) (w : World) : World :=
  match h with
  | .tcpsock => w
  | .wqasync => { w with wqPending := true }.observe (.uvAsyncSend .wqasync)
  | .dcasync => { w with dcPending := true }.observe (.uvAsyncSend .dcasync)

inductive Dispatch
  | onLoop | offLoop | dropped
  deriving DecidableEq, Repr

/-- The test at the start of `Disconnect` and of `Write`. -/
def dispatch (us it : ℕ) : Dispatch :=
  if us = it then .onLoop else if 0 < it then .offLoop else .dropped

/-- `Disconnect`. -/
def disconnect (us : ℕ) (w : World) : World :=
  match dispatch us w.threadId with
  | .onLoop => shutdown .disconnectedLocal w
  | .offLoop => uvAsyncSend .dcasync w
  | .dropped => w

/-- `wq_.push` under `wqlock_`. -/
def wqPush (q : Queued) (w : World) : World :=
  { w with wq := w.wq ++ [q], pushes := w.pushes ++ [q] }

/-- `Write`, up to the call of `SSL_write`. -/
def write (us : ℕ) (buf : ByteArray) (queued : Option ℕ) (w : World) : World :=
  match dispatch us w.threadId with
  | .onLoop => (w.observe (.sslWrite buf queued)).push .sslWrite
  | .offLoop => uvAsyncSend .wqasync (wqPush ⟨buf, none, w.gen⟩ w)
  | .dropped => w

/-- `Write`, after `SSL_write`. -/
def sslWriteReturned (ret err : ℤ) (w : World) : World :=
  if ret < 0 then shutdownError (errorFromOpenSSLErrorCode err) w
  else if ret = 0 then shutdownRemote w
  else w

/-! ### Reading and the handshake -/

/-- `SSL_ERROR_WANT_READ` or `SSL_ERROR_WANT_WRITE`. -/
def isWant (err : ℤ) : Bool := err = sslErrorWantRead ∨ err = sslErrorWantWrite

/-- `HandleStarvedConnectState`, up to the call of `SSL_connect`. -/
def handleStarvedConnectState (k : Caller) (w : World) : World := w.push (.sslConnect k)

/-- `OnRead` from its test for `ESTABLISHED` on, up to the first call of `SSL_read`. -/
def onReadEstablished (nread : ℤ) (heap : List UInt8) (w : World) : World :=
  if w.state = .established then
    match ByteArray.ofLength (fun i => heap.getD i 0) (castInt nread) with
    | .ok processed => w.push (.sslRead processed)
    | .error f => w.abort (.fault f)
  else w

/-- What the caller of `HandleStarvedConnectState` does with its result. -/
def handleStarvedDone (k : Caller) (ok : Bool) (w : World) : World :=
  match k with
  | .onConnect => w
  | .onRead nread heap => if ok then onReadEstablished nread heap w else w

/-- `TransitionToConnectionEstablishedState`, up to the call of the handler. -/
def transitionToConnectionEstablishedState (k : Caller) (w : World) : World :=
  let w := { w with state := .established }.observe .transition
  if w.handlers.established then (w.observe .establishedHandler).push (.establishedHandler k)
  else handleStarvedDone k true w

/-- `HandleStarvedConnectState`, after `SSL_connect`. -/
def sslConnectReturned (k : Caller) (ret err : ℤ) (w : World) : World :=
  if ret < 0 then
    if isWant err then handleStarvedDone k false w
    else handleStarvedDone k false (shutdownError (errorFromOpenSSLErrorCode err) w)
  else if ret = 0 then handleStarvedDone k false (shutdownRemote w)
  else if ret = 1 then transitionToConnectionEstablishedState k w
  else w.abort .handleStarvedConnectStateNotReached

/-- The loop of `OnRead`, after `SSL_read` wrote `data` to `processed`. -/
def sslReadReturned (processed : ByteArray) (ret err : ℤ) (data : List UInt8) (w : World) : World :=
  if ret = -1 then
    if isWant err then w else shutdownError (errorFromOpenSSLErrorCode err) w
  else if ret = 0 then shutdownRemote w
  else
    let processed : ByteArray :=
      { processed with buf := processed.buf.map (data ++ ·.drop data.length) }
    match processed.truncate ret with
    | .error f => w.abort (.fault f)
    | .ok processed =>
      if w.handlers.read then
        (w.observe (.readHandler processed.content)).push (.readHandler processed)
      else w.push (.sslRead processed)

/-- `OnRead`, up to the first call of `SSL_connect` or `SSL_read`. -/
def onRead (nread : ℤ) (buf heap : List UInt8) (last : UVErr) (w : World) : World :=
  if w.state ≠ .starvedSSLConnect ∧ w.state ≠ .established then w
  else if nread = -1 then
    if last.code = uvEOF then shutdownRemote w else shutdownError (errorFromUVError last) w
  else if nread = 0 then shutdownRemote w
  else
    match ByteArray.ofBuffer (some buf) (castInt nread) (castInt buf.length) >>=
        w.bio.ptr.putNewBuffer with
    | .error f => w.abort (.fault f)
    | .ok st =>
      let w := { w with bio := { w.bio with ptr := st } }
      if w.state = .starvedSSLConnect then handleStarvedConnectState (.onRead nread heap) w
      else onReadEstablished nread heap w

/-- A BIO read below an SSL function. -/
def bioRead (len : ℤ) (w : World) : World :=
  match w.bio.read len with
  | .ok (_, _, bio) => { w with bio := bio }
  | .error f => w.abort (.fault f)

/-! ### The other callbacks of libuv -/

/-- The loop of `OnDrainWriteQueue`. -/
def drainLoop (w : World) : World :=
  match w.wq with
  | [] => w
  | q :: _ => write w.tid q.buf (some q.gen) (w.push .drain)

def onDrainWriteQueue (w : World) : World :=
  if w.state = .established then drainLoop w else w

/-- The loop of `OnDrainWriteQueue`, after `Write`. -/
def drainReturned (w : World) : World := drainLoop { w with wq := w.wq.tail }

def onDisconnectRequest (w : World) : World := shutdown .disconnectedLocal w

/-- `OnConnect`, up to the call of `SSL_connect`. -/
def onConnect (status readStart : ℤ) (last : UVErr) (w : World) : World :=
  if w.state ≠ .preConnect then w.abort .onConnectState
  else if status = -1 then shutdownError (errorFromUVError last) w
  else if readStart ≠ uvOK then shutdownError (errorFromUVError last) w
  else handleStarvedConnectState .onConnect { w with bio := .create, state := .starvedSSLConnect }

/-! ### `SSLVerifyCallback` -/

/-- A certificate of the peer: what the two calls of `i2d_X509` return, and the bytes written. -/
structure PeerCert where
  buflen : ℤ
  err : ℤ
  der : List UInt8

/-- The loop over the chain: the encoded certificates, if all of them can be encoded. -/
def encodeChain : List PeerCert → Except Fault (Option (List (List UInt8)))
  | [] => .ok (some [])
  | cert :: chain => do
    let _ ← ByteArray.ofLength (fun _ => 0) cert.buflen
    if cert.err = 0 then return none
    let rest ← encodeChain chain
    return rest.map (cert.der :: ·)

/-- The options the system verifier is given. -/
def verifierOptions (now : ℤ) : X509.X509VerifierOptions := ⟨Lib.ascii "www.google.com", now⟩

/-- `SSLVerifyCallback`, up to the call of the handler if one is set. -/
def sslVerifyCallback (chain : List PeerCert) (last : CryptoErr) (system : Bool) (now : ℤ)
    (w : World) : World :=
  match encodeChain chain with
  | .error f => w.abort (.fault f)
  | .ok none =>
    let w := shutdownError (errorFromLastCryptoError last) w
    match w.phase with
    | .aborted _ => w
    | _ => w.observe (.verifyCallback none false)
  | .ok (some ders) =>
    if w.handlers.chainVerify then (w.observe (.chainVerifyHandler ders)).push .verifyHandler
    else w.observe (.verifyCallback (some (.system (verifierOptions now))) system)

/-! ### The thread -/

/-- `TLSConnectionThread` up to `uv_run`. -/
def threadStart (tid : ℕ) (w : World) : World :=
  { w with phase := .running, threadId := tid, tid := tid }

def uvRunReturned (err : ℤ) (last : UVErr) (w : World) : World :=
  let w := { w with phase := .runReturned }
  if err ≠ uvOK then { w with state := .disconnectedError, err := errorFromUVError last } else w

def storeZero (w : World) : World := { w with phase := .idCleared, threadId := 0 }

def loopDelete (w : World) : World := { w with phase := .loopDeleted }.observe .uvLoopDelete

def clearQueue (w : World) : World := { w with phase := .queueCleared, wq := [] }

/-- The switch at the end of `TLSConnectionThread`: what it calls, or `none` for `NotReached`. -/
def finalCall (handlers : Handlers) (state : ConnState) (err : Error) : Option (List Obs) :=
  match state with
  | .disconnectedLocal => some (if handlers.disconnect then [.disconnectHandler true] else [])
  | .disconnectedRemote => some (if handlers.disconnect then [.disconnectHandler false] else [])
  | .disconnectedError => some (if handlers.error then [.errorHandler err] else [])
  | _ => none

def callFinalHandler (w : World) : World :=
  match finalCall w.handlers w.state w.err with
  | some calls => { w with phase := .finished, log := w.log ++ calls }
  | none => w.abort .threadNotReached

/-- What the calls in `Connect` return, and the handlers set by then. -/
structure ConnectResults where
  handlers : Handlers
  tcpInit : ℤ
  tcpConnect : ℤ
  threadCreate : ℤ
  last : UVErr

/-- `Connect`: the error returned, and the connection afterwards. -/
def connect (r : ConnectResults) (w : World) : Error × World :=
  let w := { w with handlers := r.handlers, gen := w.gen + 1, log := [], stack := [],
                    connecting := false, phase := .idle }
  if r.tcpInit ≠ uvOK then (errorFromUVError r.last, w)
  else if r.tcpConnect ≠ uvOK then (errorFromUVError r.last, w)
  else
    let w := { w with connecting := true, wqPending := false, dcPending := false,
                      state := .preConnect }
    if r.threadCreate = -1 then
      (⟨"TLSConnection", 0, "unable to create connection thread"⟩, w)
    else (.noError, { w with phase := .created })

/-! ### Steps -/

inductive ThreadAct
  | start (tid : ℕ)
  | uvRunReturned (err : ℤ) (last : UVErr)
  | storeZero | loopDelete | clearQueue | callFinalHandler

inductive Event
  | onConnect (status readStart : ℤ) (last : UVErr)
  | onRead (nread : ℤ) (buf heap : List UInt8) (last : UVErr)
  | onDrainWriteQueue
  | onDisconnectRequest

inductive Inner
  | bioRead (len : ℤ)
  | sslVerify (chain : List PeerCert) (last : CryptoErr) (system : Bool) (now : ℤ)
  | sslReturn (ret err : ℤ) (data : List UInt8)
  | disconnect
  | write (buf : ByteArray)
  | handlerReturn (ok : Bool)
  | drainReturned

/-- Steps of calls on other threads; `i` counts the calls that began. -/
inductive CallAct
  | begin (us : ℕ) (req : Request)
  | load (i : ℕ)
  | push (i : ℕ)
  | send (i : ℕ)

inductive Act
  | connect (r : ConnectResults)
  | thread (t : ThreadAct)
  | event (e : Event)
  | inner (i : Inner)
  | call (c : CallAct)

def stepThread (w : World) : ThreadAct → Option World
  | .start tid => if w.phase = .created ∧ 0 < tid then some (threadStart tid w) else none
  | .uvRunReturned err last =>
    -- without an error `uv_run` returns when no handle is left
    if w.phase = .running ∧ w.stack = [] ∧
        (err = uvOK → w.closed .tcpsock ∧ w.closed .wqasync ∧ w.closed .dcasync) then
      some (uvRunReturned err last w)
    else none
  | .storeZero => if w.phase = .runReturned then some (storeZero w) else none
  | .loopDelete => if w.phase = .idCleared then some (loopDelete w) else none
  | .clearQueue => if w.phase = .loopDeleted then some (clearQueue w) else none
  | .callFinalHandler => if w.phase = .queueCleared then some (callFinalHandler w) else none

/-- libuv calls no callback of a closed handle, except that closing the socket completes a pending
connect request with status `-1`. -/
def stepEvent (w : World) : Event → Option World
  | .onConnect status readStart last =>
    if w.connecting ∧ (w.closed .tcpsock → status = -1) then
      some (onConnect status readStart last { w with connecting := false })
    else none
  | .onRead nread buf heap last =>
    if ¬ w.closed .tcpsock ∧ nread ≤ buf.length ∧ buf.length < 2 ^ 31 then
      some (onRead nread buf heap last (w.observe (.onRead nread last.code)))
    else none
  | .onDrainWriteQueue =>
    if w.wqPending ∧ ¬ w.closed .wqasync then some (onDrainWriteQueue { w with wqPending := false })
    else none
  | .onDisconnectRequest =>
    if w.dcPending ∧ ¬ w.closed .dcasync then
      some (onDisconnectRequest { w with dcPending := false })
    else none

/-- An SSL function is running. -/
def Frame.isSSL : Frame → Bool
  | .sslConnect _ | .sslRead _ | .sslWrite => true
  | _ => false

/-- A handler of the user is running. -/
def Frame.isHandler : Frame → Bool
  | .verifyHandler | .establishedHandler _ | .readHandler _ => true
  | _ => false

def sslReturn (w : World) (ret err : ℤ) (data : List UInt8) : Option World :=
  match w.stack with
  | .sslConnect k :: stack =>
    some (sslConnectReturned k ret err
      ({ w with stack := stack }.observe (.sslReturn .connect ret err)))
  | .sslRead processed :: stack =>
    -- as documented, `SSL_read` writes as many bytes as it says, and not more than it may
    if (data.length : ℤ) = max ret 0 ∧ ret ≤ processed.capacity then
      some (sslReadReturned processed ret err data
        ({ w with stack := stack }.observe (.sslReturn .read ret err)))
    else none
  | .sslWrite :: stack =>
    some (sslWriteReturned ret err ({ w with stack := stack }.observe (.sslReturn .write ret err)))
  | _ => none

def handlerReturn (w : World) (ok : Bool) : Option World :=
  match w.stack with
  | .verifyHandler :: stack =>
    some ({ w with stack := stack }.observe (.verifyCallback (some .handler) ok))
  | .establishedHandler k :: stack => some (handleStarvedDone k true { w with stack := stack })
  | .readHandler processed :: stack =>
    some (({ w with stack := stack } : World).push (.sslRead processed))
  | _ => none

def stepInner (w : World) : Inner → Option World
  | .bioRead len =>
    match w.stack with
    | f :: _ => if f.isSSL ∧ 0 < len then some (bioRead len w) else none
    | [] => none
  | .sslVerify chain last system now =>
    -- on an established connection OpenSSL calls it when the peer renegotiates
    match w.stack with
    | f :: _ => if f.isSSL then some (sslVerifyCallback chain last system now w) else none
    | [] => none
  | .sslReturn ret err data => sslReturn w ret err data
  | .disconnect =>
    match w.stack with
    | f :: _ => if f.isHandler then some (disconnect w.tid w) else none
    | [] => none
  | .write buf =>
    match w.stack with
    | f :: _ => if f.isHandler then some (write w.tid buf none w) else none
    | [] => none
  | .handlerReturn ok => handlerReturn w ok
  | .drainReturned =>
    match w.stack with
    | .drain :: stack => some (drainReturned { w with stack := stack })
    | _ => none

def setPc (i : ℕ) (c : Call) (pc : Pc) (w : World) : World :=
  { w with calls := w.calls.set i { c with pc := pc } }

def stepCall (w : World) : CallAct → Option World
  | .begin us req => some { w with calls := w.calls ++ [⟨us, req, w.up, .entry⟩] }
  | .load i =>
    match w.calls[i]? with
    | some c =>
      if c.pc = .entry then
        match dispatch c.us w.threadId with
        | .onLoop => none -- not another thread
        | .offLoop => some (setPc i c (.loaded w.gen) w)
        | .dropped => some (setPc i c .returned w)
      else none
    | none => none
  | .push i =>
    match w.calls[i]? with
    | some ⟨us, .write buf, early, .loaded gen⟩ =>
      -- `OnDrainWriteQueue` holds the lock over its loop
      if .drain ∉ w.stack then
        some (setPc i ⟨us, .write buf, early, .loaded gen⟩ (.pushed gen)
          (wqPush ⟨buf, some i, gen⟩ w))
      else none
    | _ => none
  | .send i =>
    match w.calls[i]? with
    | some ⟨us, .disconnect, early, .loaded gen⟩ =>
      some (setPc i ⟨us, .disconnect, early, .loaded gen⟩ .returned (uvAsyncSend .dcasync w))
    | some ⟨us, .write buf, early, .pushed gen⟩ =>
      some (setPc i ⟨us, .write buf, early, .pushed gen⟩ .returned (uvAsyncSend .wqasync w))
    | _ => none

/-- **One step.** -/
def step (w : World) : Act → Option World
  | .connect r =>
    -- again from the error handler on
    if w.phase = .idle ∨ w.phase = .finished then some (connect r w).2 else none
  | .thread t => stepThread w t
  | .event e => if w.phase = .running ∧ w.stack = [] then stepEvent w e else none
  | .inner i => if w.phase = .running then stepInner w i else none
  | .call c =>
    match w.phase with
    | .aborted _ => none
    | _ => stepCall w c

end LibMumble.TLSConnection
