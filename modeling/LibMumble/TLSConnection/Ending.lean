import LibMumble.TLSConnection.RemoteClose
import LibMumble.TLSConnection.Setup
import LibMumble.TLSConnection.Shutdown

/-! # How the end of a connection is reported

The final handler is chosen by `state_` and is given `err_`, and both are members that outlive a
connection. Each call of `Shutdown` overwrites the state, and `ShutdownError` the error with it, so that
what is reported is the last cause of the end (`causeOf`), whatever came before it and whatever an earlier
connection left. A `Diary` keeps the last cause beside the connection, and over all connections what should
have been reported (`every_end_reported`). -/

namespace LibMumble.TLSConnection.Ending

open World Lib Protocol Setup

variable {w w' : World}

/-! ### Causes -/

/-- Why a connection ends. -/
inductive Cause
  | error (e : Error)
  | remote
  | ownSide
  deriving DecidableEq, Repr

/-- The state that stands for the cause. -/
def Cause.state : Cause → ConnState
  | .error _ => .disconnectedError
  | .remote => .disconnectedRemote
  | .ownSide => .disconnectedLocal

/-- The call that reports it, if the handler is set. -/
def Cause.call (handlers : Handlers) : Cause → List Obs
  | .error e => if handlers.error then [.errorHandler e] else []
  | .remote => if handlers.disconnect then [.disconnectHandler false] else []
  | .ownSide => if handlers.disconnect then [.disconnectHandler true] else []

/-- The error at hand in a step. -/
def errorOf : Act → Error
  | .event (.onConnect _ _ last) | .event (.onRead _ _ _ last)
  | .thread (.uvRunReturned _ last) => errorFromUVError last
  | .inner (.sslVerify _ last _ _) => errorFromLastCryptoError last
  | .inner (.sslReturn _ err _) => errorFromOpenSSLErrorCode err
  | _ => .noError

/-- The cause that a call of `Shutdown` gives. -/
def Cause.ofState (e : Error) : ConnState → Cause
  | .disconnectedError => .error e
  | .disconnectedRemote => .remote
  | _ => .ownSide

/-- **The cause that a step gives**, if it ends the connection. -/
def causeOf (w : World) (a : Act) : Option Cause :=
  match a with
  | .thread (.uvRunReturned err _) => if err ≠ uvOK then some (.error (errorOf a)) else none
  | _ => (ends w a).map (Cause.ofState (errorOf a))

/-- The state and the error are those of the cause. -/
structure Says (c : Cause) (w : World) : Prop where
  state : w.state = c.state
  err : ∀ e, c = .error e → w.err = e

theorem Cause.state_ofState {s : ConnState} (hs : s.disconnected = true) (e : Error) :
    (Cause.ofState e s).state = s := by
  cases s <;> first | rfl | cases hs

theorem Cause.ofState_eq_error {s : ConnState} {e e' : Error} (h : Cause.ofState e s = .error e') :
    s = .disconnectedError ∧ e = e' := by
  cases s <;> simp_all [Cause.ofState]

/-- **The end of the thread reports the cause.** -/
theorem Says.finalCall {c : Cause} (h : Says c w) :
    finalCall w.handlers w.state w.err = some (c.call w.handlers) := by
  rw [h.state]
  cases c with
  | error e =>
    rw [h.err e rfl]
    rfl
  | remote | ownSide => rfl

/-! ### What a step does to the error -/

/-- **What a step does to `err_`**, by the state that it calls `Shutdown` with, if it calls it, and the
error at hand. -/
inductive NotesError (w w' : World) (e : Error) : Option ConnState → Prop
  | kept {o} (ho : o ≠ some .disconnectedError) (h : w'.err = w.err) : NotesError w w' e o
  | noted (h : w'.err = e) : NotesError w w' e (some .disconnectedError)

theorem err_shutdown (s : ConnState) (w : World) : (shutdown s w).err = w.err := by
  obtain ⟨p, new, heq, -⟩ := shutdown_eq s w
  rw [heq]

theorem err_shutdownError (e : Error) (w : World) : (shutdownError e w).err = e := err_shutdown _ _

theorem err_shutdownRemote (w : World) : (shutdownRemote w).err = w.err := err_shutdown _ w

theorem err_onReadEstablished (nread : ℤ) (heap : List UInt8) (w : World) :
    (onReadEstablished nread heap w).err = w.err := by
  unfold onReadEstablished
  split_ifs
  · split <;> rfl
  · rfl

theorem err_handleStarvedDone (k : Caller) (ok : Bool) (w : World) :
    (handleStarvedDone k ok w).err = w.err := by
  unfold handleStarvedDone
  split
  · rfl
  · split_ifs
    · exact err_onReadEstablished _ _ w
    · rfl

theorem err_transition (k : Caller) (w : World) :
    (transitionToConnectionEstablishedState k w).err = w.err := by
  unfold transitionToConnectionEstablishedState
  simp only
  split_ifs
  · rfl
  · exact err_handleStarvedDone _ _ _

theorem err_drainLoop (h : w.threadId = w.tid) : (drainLoop w).err = w.err := by
  rw [drainLoop_onLoop h]
  split <;> rfl

namespace NotesError

/-- After what leaves `err_` alone. -/
theorem after {w'' : World} {e : Error} {o : Option ConnState} (h : NotesError w' w'' e o)
    (hw : w'.err = w.err) : NotesError w w'' e o := by
  cases h with
  | kept ho h => exact .kept ho (h.trans hw)
  | noted h => exact .noted h

theorem sslConnectReturned (k : Caller) (ret err : ℤ) (w : World) :
    NotesError w (sslConnectReturned k ret err w) (errorFromOpenSSLErrorCode err)
      (connectEnds ret err) := by
  unfold TLSConnection.sslConnectReturned connectEnds
  split_ifs
  · exact .kept (by simp) (err_handleStarvedDone _ _ w)
  · exact .noted ((err_handleStarvedDone _ _ _).trans (err_shutdownError _ w))
  · exact .kept (by simp) ((err_handleStarvedDone _ _ _).trans (err_shutdownRemote w))
  · exact .kept (by simp) (err_transition k w)
  · exact .kept (by simp) rfl

theorem sslReadReturned (processed : ByteArray) (ret err : ℤ) (data : List UInt8) (w : World) :
    NotesError w (sslReadReturned processed ret err data w) (errorFromOpenSSLErrorCode err)
      (readEnds ret err) := by
  unfold TLSConnection.sslReadReturned readEnds
  by_cases hfail : ret = -1
  · rw [if_pos hfail, if_pos hfail]
    split_ifs
    · exact .kept (by simp) rfl
    · exact .noted (err_shutdownError _ w)
  · rw [if_neg hfail, if_neg hfail]
    by_cases hzero : ret = 0
    · rw [if_pos hzero, if_pos hzero]
      exact .kept (by simp) (err_shutdownRemote w)
    · rw [if_neg hzero, if_neg hzero]
      refine .kept (by simp) ?_
      simp only
      split
      · rfl
      · split_ifs <;> rfl

theorem sslWriteReturned (ret err : ℤ) (w : World) :
    NotesError w (sslWriteReturned ret err w) (errorFromOpenSSLErrorCode err) (writeEnds ret) := by
  unfold TLSConnection.sslWriteReturned writeEnds
  split_ifs
  · exact .noted (err_shutdownError _ w)
  · exact .kept (by simp) (err_shutdownRemote w)
  · exact .kept (by simp) rfl

theorem onRead (nread : ℤ) (buf heap : List UInt8) (last : UVErr) (w : World) :
    NotesError w (onRead nread buf heap last w) (errorFromUVError last)
      (onReadEnds w.state nread last.code) := by
  unfold TLSConnection.onRead onReadEnds
  split_ifs
  · exact .kept (by simp) rfl
  · exact .kept (by simp) (err_shutdownRemote w)
  · exact .noted (err_shutdownError _ w)
  · exact .kept (by simp) (err_shutdownRemote w)
  · refine .kept (by simp) ?_
    split
    · rfl
    · simp only
      split_ifs
      · rfl
      · exact err_onReadEstablished _ _ _

theorem onConnect (status readStart : ℤ) (last : UVErr) (w : World) :
    NotesError w (onConnect status readStart last w) (errorFromUVError last)
      (onConnectEnds w.state status readStart) := by
  unfold TLSConnection.onConnect onConnectEnds
  split_ifs
  · exact .kept (by simp) rfl
  · exact .noted (err_shutdownError _ _)
  · exact .noted (err_shutdownError _ _)
  · exact .kept (by simp) rfl

theorem sslVerifyCallback (chain : List PeerCert) (last : CryptoErr) (system : Bool) (now : ℤ)
    (w : World) : NotesError w (sslVerifyCallback chain last system now w)
      (errorFromLastCryptoError last) (verifyEnds chain) := by
  unfold TLSConnection.sslVerifyCallback verifyEnds
  split
  · next h =>
    rw [h]
    exact .kept (by simp) rfl
  · next h =>
    rw [h]
    simp only
    split
    · exact .noted (err_shutdownError _ w)
    · exact .noted (err_shutdownError _ w)
  · next h =>
    rw [h]
    split_ifs <;> exact .kept (by simp) rfl

end NotesError

/-- Every step but `Connect` and the return of `uv_run`. -/
theorem notesError_of_rule {a : Act} (hr : Rule w a w') (hl : Linked w)
    (hc : ∀ r, a ≠ .connect r) (hu : ∀ err last, a ≠ .thread (.uvRunReturned err last)) :
    NotesError w w' (errorOf a) (ends w a) := by
  cases hr with
  | connect => exact absurd rfl (hc _)
  | uvRunReturned => exact absurd rfl (hu _ _)
  | start | storeZero | loopDelete | clearQueue => exact .kept (by simp [ends]) rfl
  | callFinalHandler =>
    rw [callFinalHandler_eq]
    exact .kept (by simp [ends]) rfl
  | onConnect => exact (NotesError.onConnect _ _ _ _).after rfl
  | onRead => exact (NotesError.onRead _ _ _ _ _).after rfl
  | onDrainWriteQueue hp =>
    refine .kept (by simp [ends]) ?_
    unfold onDrainWriteQueue
    split_ifs
    · exact @err_drainLoop { w with wqPending := false } (hl hp)
    · rfl
  | onDisconnectRequest => exact .kept (by simp [ends]) (err_shutdown _ _)
  | bioRead =>
    refine .kept (by simp [ends]) ?_
    unfold bioRead
    split <;> rfl
  | sslVerify => exact .sslVerifyCallback _ _ _ _ w
  | sslConnectReturned _ hst =>
    simp only [ends, hst]
    exact (NotesError.sslConnectReturned _ _ _ _).after rfl
  | sslReadReturned _ hst =>
    simp only [ends, hst]
    exact (NotesError.sslReadReturned _ _ _ _ _).after rfl
  | sslWriteReturned _ hst =>
    simp only [ends, hst]
    exact (NotesError.sslWriteReturned _ _ _).after rfl
  | disconnect hp =>
    rw [disconnect_onLoop (hl hp)]
    exact .kept (by simp [ends]) (err_shutdown _ w)
  | write hp =>
    rw [write_onLoop (hl hp)]
    exact .kept (by simp [ends]) rfl
  | verifyHandlerReturned | readHandlerReturned => exact .kept (by simp [ends]) rfl
  | establishedHandlerReturned => exact .kept (by simp [ends]) (err_handleStarvedDone _ _ _)
  | drainReturned hp =>
    exact .kept (by simp [ends]) (err_drainLoop (hl hp))
  | begin | loadOff | loadDropped | push => exact .kept (by simp [ends]) rfl
  | sendDisconnect | sendWrite => exact .kept (by simp [ends]) rfl

/-! ### Errors -/

theorem hasError_uv (e : UVErr) : (errorFromUVError e).hasError = true := by
  simp [Error.hasError, errorFromUVError]

theorem hasError_openSSL (err : ℤ) : (errorFromOpenSSLErrorCode err).hasError = true := by
  simp [Error.hasError, errorFromOpenSSLErrorCode]

theorem hasError_crypto (e : CryptoErr) : (errorFromLastCryptoError e).hasError = true := by
  simp [Error.hasError, errorFromLastCryptoError]

/-- An error that ends a connection is one. -/
theorem hasError_of_causeOf {a : Act} {e : Error} (h : causeOf w a = some (.error e)) :
    e.hasError = true := by
  unfold causeOf at h
  split at h
  · split_ifs at h
    obtain rfl := Cause.error.inj (Option.some.inj h)
    exact hasError_uv _
  · obtain ⟨s, hs, hof⟩ := Option.map_eq_some_iff.mp h
    obtain ⟨rfl, rfl⟩ := Cause.ofState_eq_error hof
    cases a with
    | event e => cases e <;> first | exact hasError_uv _ | simp [ends] at hs
    | inner i =>
      cases i with
      | sslVerify => exact hasError_crypto _
      | sslReturn => exact hasError_openSSL _
      | _ => simp [ends] at hs
    | _ => simp [ends] at hs

/-! ### The diary -/

/-- A connection, and what is remembered beside it. -/
structure Diary where
  world : World
  /-- the last cause of the end of this connection -/
  cause : Option Cause
  /-- the calls of final handlers in the connections before this one -/
  past : List Obs
  /-- the reports of the last cause, one for each thread that has come to its end -/
  due : List Obs

namespace Diary

def new (handlers : Handlers) (s : ConnState) : Diary := ⟨.new handlers s, none, [], []⟩

/-- The diary after a step. -/
def note (d : Diary) (a : Act) (w : World) : Diary :=
  match a with
  | .connect _ => ⟨w, none, d.past ++ terminals d.world, d.due⟩
  | .thread .callFinalHandler =>
    ⟨w, d.cause, d.past, d.due ++ d.cause.toList.flatMap (Cause.call d.world.handlers)⟩
  | a => ⟨w, (causeOf d.world a).or d.cause, d.past, d.due⟩

def step (d : Diary) (a : Act) : Option Diary := (TLSConnection.step d.world a).map (d.note a)

/-- OpenSSL keeps its contract, and the verify handler does not call back. -/
def Keeps (d : Diary) : Act → Prop := Contract d.world

instance (d : Diary) : DecidablePred (Keeps d) := inferInstanceAs (DecidablePred (Contract d.world))

end Diary

open Diary

/-- The connection is not disconnected, or as the last cause says. -/
def Agrees : Option Cause → World → Prop
  | none, w => w.state.disconnected = false
  | some c, w => Says c w

/-- The invariant. -/
structure Kept (d : Diary) : Prop where
  linked : Linked d.world
  inv : Inv d.world
  opn : Open d.world
  agrees : d.world.phase ≠ .idle → Agrees d.cause d.world
  closed : d.world.phase = .created ∨ d.world.phase = .running → d.cause ≠ none →
    d.world.closed .tcpsock
  told : d.past ++ terminals d.world = d.due
  ended : d.world.phase = .finished →
    ∃ c, d.cause = some c ∧ terminals d.world = c.call d.world.handlers
  errors : ∀ e, d.cause = some (.error e) ∨ .errorHandler e ∈ d.due → e.hasError = true

theorem agrees_of_eq {o : Option Cause} (h : Agrees o w) (hs : w'.state = w.state)
    (he : w'.err = w.err) : Agrees o w' := by
  cases o with
  | none => exact (congrArg ConnState.disconnected hs).trans h
  | some c => exact ⟨hs.trans h.state, fun e hc => he.trans (h.err e hc)⟩

/-- **The step lemma of the running thread.** -/
theorem agrees_of_loop {a : Act} {o : Option Cause} (hr : Rule w a w') (hl : Linked w)
    (hok : Contract w a) (ha : (∃ e, a = .event e) ∨ ∃ i, a = .inner i) (h : Active w)
    (hag : Agrees o w) (hcl : o ≠ none → w.closed .tcpsock) :
    Agrees ((causeOf w a).or o) w' ∧
      (w'.phase = .created ∨ w'.phase = .running → (causeOf w a).or o ≠ none →
        w'.closed .tcpsock) := by
  have hc : ∀ r, a ≠ .connect r := by rintro r rfl; simp at ha
  have ht : ∀ t, a ≠ .thread t := by rintro t rfl; simp at ha
  have hcause : causeOf w a = (ends w a).map (Cause.ofState (errorOf a)) := by
    unfold causeOf
    split
    · exact absurd rfl (ht _)
    · rfl
  have h' := active_of_rule hr hl hok hc ht h
  have hends := ends_of_rule hr hl hc fun err last => ht _
  have herr := notesError_of_rule hr hl hc fun err last => ht _
  rw [hcause]
  cases he : ends w a with
  | none =>
    rw [he] at hends herr
    have hclosed := hends.closed .tcpsock
    cases hends with
    | calm _ _ _ hst =>
      cases herr with
      | kept _ herr =>
        rw [Option.map_none, Option.none_or]
        refine ⟨?_, fun _ hne => hclosed.mpr (hcl hne)⟩
        rcases hst with hst | hlive
        · exact agrees_of_eq hag hst herr
        · cases o with
          | none => exact hlive
          | some c =>
            -- the handles are closed, so that the connection stays disconnected
            have hdis := h'.closed _ (hclosed.mpr (hcl (Option.some_ne_none c)))
            rw [hlive] at hdis
            cases hdis
  | some s =>
    rw [he] at hends herr
    cases hends with
    | shut _ hd _ hcloses hst =>
      rw [Option.map_some, Option.some_or]
      refine ⟨⟨?_, fun e hof => ?_⟩, fun hrun _ => ?_⟩
      · rw [hst, Cause.state_ofState hd]
      · obtain ⟨rfl, rfl⟩ := Cause.ofState_eq_error hof
        cases herr with
        | kept ho => exact absurd rfl ho
        | noted herr => exact herr
      · obtain ⟨-, hcount, -⟩ | ⟨hd, -, hend, -⟩ := hcloses
        · rw [World.closed, ← List.count_pos_iff, hcount]
          omega
        · simp [hend] at hrun

variable {d d' : Diary}

/-- `Connect` begins a new page. -/
theorem kept_connect {r : ConnectResults} (h : Kept d) (hl : Linked (connect r d.world).2)
    (hi : Inv (connect r d.world).2) (ho : Open (connect r d.world).2) :
    Kept (d.note (.connect r) (connect r d.world).2) := by
  have hf := fresh_connect r d.world
  refine ⟨hl, hi, ho, fun hp => ?_, fun _ hne => absurd rfl hne, ?_, fun hp => ?_, fun e he => ?_⟩
  · have hst := hf.state (hf.phase.resolve_left hp)
    show (connect r d.world).2.state.disconnected = false
    rw [hst]
    rfl
  · show d.past ++ terminals d.world ++ terminals (connect r d.world).2 = d.due
    rw [h.told, terminals, hf.log, List.filter_nil, List.append_nil]
  · have hfin : (connect r d.world).2.phase = .finished := hp
    rcases hf.phase with hidle | hcreated
    · simp [hidle] at hfin
    · simp [hcreated] at hfin
  · rcases he with he | he
    · cases he
    · exact h.errors e (Or.inr he)

theorem final_of_call {c : Cause} {handlers : Handlers} {o : Obs} (ho : o ∈ c.call handlers) :
    final o = true := by
  cases c <;> simp only [Cause.call] at ho <;> split_ifs at ho <;> simp at ho <;> subst ho <;> rfl

theorem eq_of_errorHandler {c : Cause} {handlers : Handlers} {e : Error}
    (ho : .errorHandler e ∈ c.call handlers) : c = .error e := by
  cases c <;> simp only [Cause.call] at ho <;> split_ifs at ho <;> simp_all

/-- The thread comes to its end. -/
theorem kept_callFinalHandler (h : Kept d) (hp : d.world.phase = .queueCleared)
    (hl : Linked (callFinalHandler d.world)) (hi : Inv (callFinalHandler d.world))
    (ho : Open (callFinalHandler d.world)) :
    Kept (d.note (.thread .callFinalHandler) (callFinalHandler d.world)) := by
  have hag := h.agrees (by simp [hp])
  have hdis : d.world.state.disconnected = true := (h.inv.leaving (by simp [hp, leaving])).1
  cases hcause : d.cause with
  | none =>
    rw [hcause] at hag
    cases hag.symm.trans hdis
  | some c =>
    rw [hcause] at hag
    have hsaid : Says c d.world := hag
    have heq : callFinalHandler d.world =
        { d.world with phase := .finished, log := d.world.log ++ c.call d.world.handlers } := by
      rw [callFinalHandler_eq, hsaid.finalCall]
      rfl
    have hfilter : (c.call d.world.handlers).filter final = c.call d.world.handlers :=
      List.filter_eq_self.mpr fun o => final_of_call
    have hterminals : terminals (callFinalHandler d.world) = c.call d.world.handlers := by
      have hnil : terminals d.world = [] := h.opn (by simp [hp])
      have hlog : (callFinalHandler d.world).log = d.world.log ++ c.call d.world.handlers := by
        rw [heq]
      rw [terminals, hlog, List.filter_append, hfilter, ← terminals, hnil, List.nil_append]
    have hphase : (callFinalHandler d.world).phase = .finished := by rw [heq]
    refine ⟨hl, hi, ho, fun _ => ?_, fun hrun => ?_, ?_, fun _ => ⟨c, hcause, ?_⟩, fun e he => ?_⟩
    · show Agrees d.cause (callFinalHandler d.world)
      rw [hcause, heq]
      exact ⟨hsaid.state, hsaid.err⟩
    · have hrun' : (callFinalHandler d.world).phase = .created ∨
        (callFinalHandler d.world).phase = .running := hrun
      simp [hphase] at hrun'
    · have htold := h.told
      rw [h.opn (by simp [hp]), List.append_nil] at htold
      show d.past ++ terminals (callFinalHandler d.world) =
        d.due ++ d.cause.toList.flatMap (Cause.call d.world.handlers)
      rw [hterminals, htold, hcause]
      simp
    · show terminals (callFinalHandler d.world) = c.call (callFinalHandler d.world).handlers
      rw [hterminals, heq]
    · have hdue : (d.note (.thread .callFinalHandler) (callFinalHandler d.world)).due =
          d.due ++ c.call d.world.handlers := by
        simp [note, hcause]
      rcases he with he | he
      · exact h.errors e (Or.inl he)
      · rw [hdue, List.mem_append] at he
        rcases he with he | he
        · exact h.errors e (Or.inr he)
        · exact h.errors e (Or.inl (hcause.trans (congrArg some (eq_of_errorHandler he))))

/-- What the other steps do to state and error. -/
theorem agrees_of_rule {a : Act} {w : World} (hr : Rule d.world a w) (hok : Keeps d a)
    (hc : ∀ r, a ≠ .connect r) (h : Kept d) (hp : w.phase ≠ .idle) :
    Agrees ((causeOf d.world a).or d.cause) w ∧
      (w.phase = .created ∨ w.phase = .running → (causeOf d.world a).or d.cause ≠ none →
        w.closed .tcpsock) := by
  have hidle : d.world.phase ≠ .idle := by
    intro hidle
    have hnext := next_of_rule hr h.linked hc
    rw [hidle] at hnext
    exact hp hnext.of_idle
  have hag := h.agrees hidle
  have hloop : (∃ e, a = .event e) ∨ (∃ i, a = .inner i) →
      Agrees ((causeOf d.world a).or d.cause) w ∧
        (w.phase = .created ∨ w.phase = .running → (causeOf d.world a).or d.cause ≠ none →
          w.closed .tcpsock) := by
    intro ha
    obtain ⟨hrun, -⟩ := phase_of_loop hr h.linked ha
    exact agrees_of_loop hr h.linked hok ha (h.inv.active (Or.inr hrun)) hag (h.closed (Or.inr hrun))
  cases a with
  | connect r => exact absurd rfl (hc r)
  | event e => exact hloop (Or.inl ⟨e, rfl⟩)
  | inner i => exact hloop (Or.inr ⟨i, rfl⟩)
  | call c =>
    have hs := onlyCalls_of_rule hr
    refine ⟨agrees_of_eq hag hs.state hs.err, fun hrun hne => ?_⟩
    obtain ⟨new, hlog, -⟩ := log_of_rule hr h.linked hc
    rw [World.closed, hlog]
    exact List.mem_append_left _ (h.closed (hs.phase ▸ hrun) hne)
  | thread t =>
    cases hr with
    | start hcreated =>
      exact ⟨agrees_of_eq hag rfl rfl, fun _ hne => h.closed (Or.inl hcreated) hne⟩
    | @uvRunReturned err last =>
      rw [uvRunReturned_eq]
      refine ⟨?_, fun hrun => by simp at hrun⟩
      by_cases herr : err = uvOK
      · simp only [causeOf, herr, ne_eq, not_true_eq_false, if_false, Option.none_or]
        exact agrees_of_eq hag rfl rfl
      · simp only [causeOf, herr, ne_eq, not_false_eq_true, if_true, Option.some_or]
        exact ⟨rfl, fun e he => Cause.error.inj he⟩
    | storeZero | loopDelete | clearQueue =>
      exact ⟨agrees_of_eq hag rfl rfl, fun hrun => by
        simp [storeZero, loopDelete, clearQueue, observe] at hrun⟩
    | callFinalHandler =>
      rw [callFinalHandler_eq]
      refine ⟨agrees_of_eq hag rfl rfl, fun hrun => ?_⟩
      simp only at hrun
      split_ifs at hrun <;> simp at hrun

/-- A thread that has come to its end takes no more steps. -/
theorem call_of_finished {a : Act} (hr : Rule w a w') (hl : Linked w) (hc : ∀ r, a ≠ .connect r)
    (hf : a ≠ .thread .callFinalHandler) (hp : w'.phase = .finished) : ∃ c, a = .call c := by
  have hloop : ¬ ((∃ e, a = .event e) ∨ ∃ i, a = .inner i) := by
    intro ha
    rcases (phase_of_loop hr hl ha).2 with h | ⟨why, -, h⟩ <;> simp [h] at hp
  cases a with
  | connect r => exact absurd rfl (hc r)
  | event e => exact absurd (Or.inl ⟨e, rfl⟩) hloop
  | inner i => exact absurd (Or.inr ⟨i, rfl⟩) hloop
  | call c => exact ⟨c, rfl⟩
  | thread t =>
    cases hr with
    | callFinalHandler => exact absurd rfl hf
    | uvRunReturned => simp [uvRunReturned_eq] at hp
    | start | storeZero | loopDelete | clearQueue =>
      simp [threadStart, storeZero, loopDelete, clearQueue, observe] at hp

/-- The other steps. -/
theorem kept_other {a : Act} {w : World} (hr : Rule d.world a w) (hok : Keeps d a)
    (hc : ∀ r, a ≠ .connect r) (hf : a ≠ .thread .callFinalHandler) (h : Kept d) :
    Kept (d.note a w) := by
  have hnote : d.note a w = ⟨w, (causeOf d.world a).or d.cause, d.past, d.due⟩ := by
    unfold note
    split
    · exact absurd rfl (hc _)
    · exact absurd rfl hf
    · rfl
  have hagrees := agrees_of_rule hr hok hc h
  have hterminals := terminals_of_rule hr h.linked hc hf
  rw [hnote]
  refine ⟨linked_of_rule hr h.linked, inv_step hr h.linked hok h.inv, open_step hr h.linked h.opn,
    fun hp => (hagrees hp).1, fun hp hne => ?_, ?_, fun hp => ?_, fun e he => ?_⟩
  · have hrun : w.phase = .created ∨ w.phase = .running := hp
    have hidle : w.phase ≠ .idle := by rcases hrun with hrun | hrun <;> simp [hrun]
    exact (hagrees hidle).2 hrun hne
  · show d.past ++ terminals w = d.due
    rw [hterminals, h.told]
  · -- only calls of other threads are left
    obtain ⟨c, rfl⟩ := call_of_finished hr h.linked hc hf hp
    have hs := onlyCalls_of_rule hr
    obtain ⟨cause, hcause, hcall⟩ := h.ended (hs.phase ▸ hp)
    refine ⟨cause, hcause, ?_⟩
    show terminals w = cause.call w.handlers
    rw [hterminals, hcall, hs.handlers]
  · rcases he with he | he
    · rcases Option.or_eq_some_iff.mp he with hcause | ⟨-, hcause⟩
      · exact hasError_of_causeOf hcause
      · exact h.errors e (Or.inl hcause)
    · exact h.errors e (Or.inr he)

/-- **The step lemma.** -/
theorem kept_step {a : Act} (hs : d.step a = some d') (hok : Keeps d a) (h : Kept d) : Kept d' := by
  obtain ⟨w, hw, rfl⟩ := Option.map_eq_some_iff.mp hs
  have hr := step_rule hw
  by_cases hc : ∀ r, a ≠ .connect r
  · by_cases hf : a = .thread .callFinalHandler
    · subst hf
      cases hr with
      | callFinalHandler hp =>
        have hr := Rule.callFinalHandler hp
        exact kept_callFinalHandler h hp (linked_of_rule hr h.linked)
          (inv_step hr h.linked hok h.inv) (open_step hr h.linked h.opn)
    · exact kept_other hr hok hc hf h
  · have hinv := inv_step hr h.linked hok h.inv
    have hl := linked_of_rule hr h.linked
    have hopen := open_step hr h.linked h.opn
    cases hr with
    | connect => exact kept_connect h hl hinv hopen
    | _ => simp at hc

theorem kept_new (handlers : Handlers) (s : ConnState) : Kept (.new handlers s) := by
  have hinv : Inv (World.new handlers s) :=
    ⟨history_nil, by simp [World.new], by simp [World.new, leaving], by simp [World.new],
      by simp [World.new]⟩
  exact ⟨linked_new handlers s, hinv, fun _ => rfl, fun hp => absurd rfl hp,
    fun _ hne => absurd rfl hne, rfl, by simp [Diary.new, World.new], by simp [Diary.new]⟩

/-- **Every end is reported once, by its last cause.** Over a whole run, with any number of connections
one after another, the calls of final handlers are the reports of the last cause of each connection whose
thread has come to its end, in this order; and each error that is reported is one. -/
theorem every_end_reported {handlers : Handlers} {s : ConnState} {as : List Act}
    (h : Run Diary.step Keeps (.new handlers s) as d) :
    d.past ++ terminals d.world = d.due ∧
    (d.world.phase = .finished →
      ∃ c, d.cause = some c ∧ terminals d.world = c.call d.world.handlers) ∧
    ∀ e, .errorHandler e ∈ d.due → e.hasError = true := by
  have hkept := h.invariant (kept_new handlers s) fun _ _ _ hk hok hs => kept_step hs hok hk
  exact ⟨hkept.told, hkept.ended, fun e he => hkept.errors e (Or.inr he)⟩

/-- A connection that its read handler disconnects, and a second one that is refused. -/
theorem every_end_reported_refused : ∃ d, Run Diary.step Keeps (.new openHandlers .invalid)
    (establishing ++ [.event (.onRead 2 [0, 0] [] ⟨0, ""⟩), .inner (.sslReturn 1 0 [7]),
      .inner .disconnect, .inner (.handlerReturn true),
      .inner (.sslReturn (-1) sslErrorWantRead [])] ++ RemoteClose.leavingThread ++
      [.connect ⟨openHandlers, 0, 0, 0, ⟨0, ""⟩⟩, .thread (.start 1),
        .event (.onConnect (-1) 0 ⟨12, "refused"⟩)] ++ RemoteClose.leavingThread) d ∧
    d.past ++ terminals d.world = [.disconnectHandler true, .errorHandler ⟨"uv", 12, "refused"⟩] := by
  have hexec : (exec Diary.step Keeps (establishing ++
      [Act.event (.onRead 2 [0, 0] [] ⟨0, ""⟩), .inner (.sslReturn 1 0 [7]), .inner .disconnect,
        .inner (.handlerReturn true), .inner (.sslReturn (-1) sslErrorWantRead [])] ++
      RemoteClose.leavingThread ++ [Act.connect ⟨openHandlers, 0, 0, 0, ⟨0, ""⟩⟩,
        .thread (.start 1), .event (.onConnect (-1) 0 ⟨12, "refused"⟩)] ++
      RemoteClose.leavingThread) (.new openHandlers .invalid)).any (fun d => d.due =
        [.disconnectHandler true, .errorHandler ⟨"uv", 12, "refused"⟩]) = true := by decide
  obtain ⟨d, hr, hd⟩ := exists_run_of_exec hexec
  exact ⟨d, hr, (every_end_reported hr).1.trans (of_decide_eq_true hd)⟩

end LibMumble.TLSConnection.Ending
