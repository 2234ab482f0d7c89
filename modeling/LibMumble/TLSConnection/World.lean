import LibMumble.Error
import LibMumble.UVBio
import LibMumble.X509.Certificate

/-! # The state of a `TLSConnection`

The members of `TLSConnectionPrivate`, and of its environment what the code acts on: the libuv
handles, the thread of the connection and the calls other threads are in. Code that waits for an
external call (OpenSSL, a handler of the user) is a frame of `stack`, so that a handler can call
back into the connection. `log` records what crossed the boundary of the class since `Connect`. -/

namespace LibMumble.TLSConnection

/-- `TLSConnectionState`. -/
inductive ConnState
  | invalid | preConnect | starvedSSLConnect | established
  | disconnectedError | disconnectedRemote | disconnectedLocal
  deriving DecidableEq, Repr

/-- The `DISCONNECTED` states. -/
def ConnState.disconnected : ConnState → Bool
  | .disconnectedError | .disconnectedRemote | .disconnectedLocal => true
  | _ => false

/-- The handles of a connection. -/
inductive Handle
  | tcpsock | wqasync | dcasync
  deriving DecidableEq, Repr

/-- Which of the handlers are set. -/
structure Handlers where
  chainVerify : Bool
  established : Bool
  read : Bool
  error : Bool
  disconnect : Bool
  deriving DecidableEq, Repr

/-- Who is asked about a chain. -/
inductive Verifier
  | handler
  | system (opts : X509.X509VerifierOptions)
  deriving DecidableEq, Repr

inductive SSLOp
  | connect | read | write
  deriving DecidableEq, Repr

/-- What crosses the boundary of the class. -/
inductive Obs
  /-- `uv_close` of a handle -/
  | uvClose (h : Handle)
  /-- `uv_async_send` to a handle -/
  | uvAsyncSend (h : Handle)
  | uvLoopDelete
  /-- `Shutdown` was entered -/
  | shutdown (s : ConnState)
  /-- the state became `ESTABLISHED` -/
  | transition
  /-- `OnRead` was called with this `nread`, and the last error of the loop -/
  | onRead (nread lastError : ℤ)
  /-- an SSL function returned, and what `SSL_get_error` says about it -/
  | sslReturn (op : SSLOp) (ret err : ℤ)
  /-- `SSL_write` of a buffer, and the connection seen by the `Write` that queued it, if any -/
  | sslWrite (buf : ByteArray) (queued : Option ℕ)
  /-- `SSLVerifyCallback` returned, having asked this verifier -/
  | verifyCallback (asked : Option Verifier) (ok : Bool)
  | chainVerifyHandler (ders : List (List UInt8))
  | establishedHandler
  | readHandler (payload : List UInt8)
  | disconnectHandler (isLocal : Bool)
  | errorHandler (e : Error)
  deriving DecidableEq, Repr

/-- `SSL_write` of a buffer taken from `wq_`. -/
def Obs.fromQueue : Obs → Bool
  | .sslWrite _ (some _) => true
  | _ => false

/-- An entry of `wq_`, with the call of another thread that pushed it and the connection whose
thread id that call had loaded. -/
structure Queued where
  buf : ByteArray
  call : Option ℕ
  gen : ℕ
  deriving DecidableEq, Repr

inductive Request
  | disconnect
  | write (buf : ByteArray)
  deriving DecidableEq, Repr

/-- Where a call of another thread stands; `gen` is the connection whose thread id it loaded. -/
inductive Pc
  | entry
  | loaded (gen : ℕ)
  | pushed (gen : ℕ)
  | returned
  deriving DecidableEq, Repr

/-- A call of `Disconnect` or `Write` by another thread; `early` says that a connection was up, and
not yet disconnected, when it began. -/
structure Call where
  us : ℕ
  req : Request
  early : Bool
  pc : Pc
  deriving DecidableEq, Repr

/-- The call is between its push and its `uv_async_send`. -/
def Call.sending (c : Call) : Bool :=
  match c.pc with
  | .pushed _ => true
  | _ => false

/-- Who called `HandleStarvedConnectState`; `heap` is what the memory of `processed` holds. -/
inductive Caller
  | onConnect
  | onRead (nread : ℤ) (heap : List UInt8)
  deriving DecidableEq, Repr

/-- Code of the loop thread that waits for a call to return. -/
inductive Frame
  /-- `HandleStarvedConnectState` in `SSL_connect` -/
  | sslConnect (k : Caller)
  /-- `SSLVerifyCallback` in the chain verify handler -/
  | verifyHandler
  /-- `TransitionToConnectionEstablishedState` in the established handler -/
  | establishedHandler (k : Caller)
  /-- the loop of `OnRead` in `SSL_read` -/
  | sslRead (processed : ByteArray)
  /-- the loop of `OnRead` in the read handler -/
  | readHandler (processed : ByteArray)
  /-- `Write` in `SSL_write` -/
  | sslWrite
  /-- the loop of `OnDrainWriteQueue` in `Write`, holding `wqlock_` -/
  | drain
  deriving DecidableEq, Repr

/-- Why the process ended. -/
inductive Abort
  | onConnectState
  | handleStarvedConnectStateNotReached
  | threadNotReached
  /-- libuv, at a second `uv_close` of a handle -/
  | uvClose (h : Handle)
  | fault (f : Fault)
  deriving DecidableEq, Repr

/-- Where the thread of the connection stands. -/
inductive Phase
  | idle
  | created
  | running
  | runReturned
  | idCleared
  | loopDeleted
  | queueCleared
  | finished
  | aborted (why : Abort)
  deriving DecidableEq, Repr

structure World where
  handlers : Handlers
  state : ConnState
  threadId : ℕ
  wq : List Queued
  err : Error
  bio : Bio
  /-- a connect request is pending -/
  connecting : Bool
  wqPending : Bool
  dcPending : Bool
  phase : Phase
  tid : ℕ
  stack : List Frame
  calls : List Call
  /-- the number of calls of `Connect` so far -/
  gen : ℕ
  log : List Obs
  /-- every push onto `wq_` so far -/
  pushes : List Queued
  deriving DecidableEq, Repr

namespace World

/-- A new `TLSConnection`; `state_` is not initialized. -/
def new (handlers : Handlers) (state : ConnState) : World where
  handlers := handlers
  state := state
  threadId := 0
  wq := []
  err := .noError
  bio := .create
  connecting := false
  wqPending := false
  dcPending := false
  phase := .idle
  tid := 0
  stack := []
  calls := []
  gen := 0
  log := []
  pushes := []

def observe (o : Obs) (w : World) : World := { w with log := w.log ++ [o] }

theorem mem_observe {w : World} {o o' : Obs} : o' ∈ (w.observe o).log ↔ o' ∈ w.log ∨ o' = o := by
  rw [observe, List.mem_append, List.mem_singleton]

def push (f : Frame) (w : World) : World := { w with stack := f :: w.stack }

def abort (why : Abort) (w : World) : World := { w with phase := .aborted why }

def closed (w : World) (h : Handle) : Prop := .uvClose h ∈ w.log

instance (w : World) (h : Handle) : Decidable (w.closed h) :=
  inferInstanceAs (Decidable (_ ∈ _))

/-- A connection is up: `Connect` has returned `NoError` and no `DISCONNECTED` state is reached. -/
def up (w : World) : Bool := (w.phase = .created ∨ w.phase = .running) ∧ ¬ w.state.disconnected

end World

end LibMumble.TLSConnection
