import LibMumble.TLSConnection.Protocol
import LibMumble.TLSConnection.Shutdown

/-! # What is reported as closed by the remote

`ShutdownRemote` is called where a result is `0`: by `OnRead` if libuv reports the end of the stream
or has read nothing, and after each of the three SSL functions. Only the end of the stream and the
results of `SSL_connect` and `SSL_read` come from the peer (`PeerEnded`); a read of no bytes and a
write of no bytes are the two others (`NoEmptyTransfer`). -/

namespace LibMumble.TLSConnection.RemoteClose

open World Lib Protocol

variable {w w' : World}

/-- The end of the stream is reported, or `SSL_connect` or `SSL_read` returns `0`. -/
def peerEnds : Obs → Bool
  | .onRead nread lastError => nread = -1 ∧ lastError = uvEOF
  | .sslReturn op ret _ => op ≠ .write ∧ ret = 0
  | _ => false

/-- The peer has ended the connection. -/
def PeerEnded (log : List Obs) : Prop := ∃ o ∈ log, peerEnds o = true

instance (log : List Obs) : Decidable (PeerEnded log) := inferInstanceAs (Decidable (∃ o ∈ log, _))

/-- `OnRead` is not called with no bytes where it would act on it, and no `SSL_write` returns `0`. -/
def NoEmptyTransfer (w : World) : Act → Prop
  | .event (.onRead nread _ _ _) =>
    nread = 0 → w.state ≠ .starvedSSLConnect ∧ w.state ≠ .established
  | .inner (.sslReturn ret _ _) => w.stack.head? = some .sslWrite → ret ≠ 0
  | _ => True

instance (w : World) : DecidablePred (NoEmptyTransfer w)
  | .event (.onRead ..) | .inner (.sslReturn ..) => inferInstanceAs (Decidable (_ → _))
  | .event (.onConnect ..) | .event .onDrainWriteQueue | .event .onDisconnectRequest
  | .inner (.bioRead _) | .inner (.sslVerify ..) | .inner .disconnect | .inner (.write _)
  | .inner (.handlerReturn _) | .inner .drainReturned
  | .connect _ | .thread _ | .call _ => .isTrue trivial

theorem PeerEnded.append {log : List Obs} (h : PeerEnded log) (new : List Obs) :
    PeerEnded (log ++ new) := by
  obtain ⟨o, ho, hend⟩ := h
  exact ⟨o, List.mem_append_left _ ho, hend⟩

/-! ### When `Shutdown` is called for the remote -/

theorem connectEnds_remote {ret err : ℤ} :
    connectEnds ret err = some .disconnectedRemote ↔ ret = 0 := by
  unfold connectEnds
  split_ifs <;> simp <;> omega

theorem readEnds_remote {ret err : ℤ} : readEnds ret err = some .disconnectedRemote ↔ ret = 0 := by
  unfold readEnds
  split_ifs <;> simp <;> omega

theorem writeEnds_remote {ret : ℤ} : writeEnds ret = some .disconnectedRemote ↔ ret = 0 := by
  unfold writeEnds
  split_ifs <;> simp <;> omega

theorem onReadEnds_remote {state : ConnState} {nread code : ℤ} :
    onReadEnds state nread code = some .disconnectedRemote ↔
      (state = .starvedSSLConnect ∨ state = .established) ∧
        (nread = -1 ∧ code = uvEOF ∨ nread = 0) := by
  unfold onReadEnds
  split_ifs <;> simp <;> grind

theorem onConnectEnds_remote {state : ConnState} {status readStart : ℤ} :
    onConnectEnds state status readStart ≠ some .disconnectedRemote := by
  unfold onConnectEnds
  split_ifs <;> simp

theorem verifyEnds_remote {chain : List PeerCert} :
    verifyEnds chain ≠ some .disconnectedRemote := by
  unfold verifyEnds
  split <;> simp

/-- An SSL function returned, and what it returned is on record. -/
theorem mem_of_returned {stack : List Frame} {o : Obs}
    (hs : SameQueue ({ w with stack := stack }.observe o) w') : o ∈ w'.log :=
  hs.mem_of_mem (mem_observe.mpr (Or.inr rfl))

/-- **Every path into `ShutdownRemote`** starts with a report of the peer. -/
theorem peerEnded_of_ends {a : Act} (hr : Rule w a w') (hok : NoEmptyTransfer w a)
    (he : ends w a = some .disconnectedRemote) : PeerEnded w'.log := by
  cases hr with
  | @onRead nread buf heap last =>
    obtain ⟨hst, ⟨rfl, hcode⟩ | rfl⟩ := onReadEnds_remote.mp he
    · have hm : .onRead (-1) last.code ∈ (w.observe (.onRead (-1) last.code)).log :=
        mem_observe.mpr (Or.inr rfl)
      have hmem := (SameQueue.onRead (-1) buf heap last _).mem_of_mem hm
      exact ⟨_, hmem, by simp [peerEnds, hcode]⟩
    · obtain ⟨h1, h2⟩ := hok rfl
      exact (hst.elim h1 h2).elim
  | @sslConnectReturned ret err data k stack hp hst =>
    simp only [ends, hst] at he
    obtain rfl := connectEnds_remote.mp he
    exact ⟨_, mem_of_returned (.sslConnectReturned k 0 err _), by simp [peerEnds]⟩
  | @sslReadReturned ret err data processed stack hp hst =>
    simp only [ends, hst] at he
    obtain rfl := readEnds_remote.mp he
    exact ⟨_, mem_of_returned (.sslReadReturned processed 0 err data _), by simp [peerEnds]⟩
  | @sslWriteReturned ret err data stack hp hst =>
    simp only [ends, hst] at he
    exact absurd (writeEnds_remote.mp he) (hok (by rw [hst]; rfl))
  | onConnect => exact absurd he onConnectEnds_remote
  | sslVerify => exact absurd he verifyEnds_remote
  | _ => simp [ends] at he

/-! ### Runs -/

/-- The state of a connection, and the call of the handler, have their cause in the log. -/
structure Caused (w : World) : Prop where
  state : w.phase ≠ .idle → w.state = .disconnectedRemote → PeerEnded w.log
  called : .disconnectHandler false ∈ w.log → PeerEnded w.log

/-- Whatever sets the state has its cause in the log. -/
theorem peerEnded_of_state {a : Act} (hr : Rule w a w') (hl : Linked w) (hc : ∀ r, a ≠ .connect r)
    (hok : NoEmptyTransfer w a) (hst : w'.state = .disconnectedRemote) :
    w.state = .disconnectedRemote ∨ PeerEnded w'.log := by
  by_cases hu : ∀ err last, a ≠ .thread (.uvRunReturned err last)
  · have hends := ends_of_rule hr hl hc hu
    cases he : ends w a with
    | none =>
      rw [he] at hends
      cases hends with
      | calm _ _ _ hsame =>
        rcases hsame with hsame | hlive
        · exact Or.inl (hsame ▸ hst)
        · rw [hst] at hlive
          cases hlive
    | some s =>
      rw [he] at hends
      cases hends with
      | shut _ _ _ _ hs =>
        rw [hst] at hs
        exact Or.inr (peerEnded_of_ends hr hok (he.trans (congrArg some hs.symm)))
  · cases hr with
    | uvRunReturned =>
      rw [uvRunReturned_eq] at hst
      simp only at hst
      split_ifs at hst
      exact Or.inl hst
    | _ => exact absurd (by simp) hu

/-- **The step lemma.** -/
theorem caused_step {a : Act} (hr : Rule w a w') (hl : Linked w) (hok : NoEmptyTransfer w a)
    (h : Caused w) : Caused w' := by
  rcases connect_cases hr with hc | hf
  · obtain ⟨new, hlog, hfinal⟩ := log_of_rule hr hl hc
    refine ⟨fun hp hst => ?_, fun hm => ?_⟩
    · rcases peerEnded_of_state hr hl hc hok hst with hbefore | hend
      · have hidle : w.phase ≠ .idle := by
          intro hw
          have hnext := next_of_rule hr hl hc
          rw [hw] at hnext
          exact hp hnext.of_idle
        rw [hlog]
        exact (h.state hidle hbefore).append new
      · exact hend
    · rw [hlog] at hm ⊢
      refine PeerEnded.append ?_ new
      rcases List.mem_append.mp hm with hm | hm
      · exact h.called hm
      · obtain ⟨rfl, hcalls⟩ := hfinal _ hm rfl
        rcases mem_finalCall hcalls hm with ⟨-, ho⟩ | ⟨hst, -⟩ | ⟨-, ho⟩
        · cases ho
        · cases hr with
          | callFinalHandler hp => exact h.state (by simp [hp]) hst
        · cases ho
  · refine ⟨fun hp hst => ?_, by simp [hf.log]⟩
    rw [hf.state (hf.phase.resolve_left hp)] at hst
    cases hst

/-- **Closed by the remote means closed by the remote**, in runs without empty transfers:
`disconnect_handler_(false)` is called only if the peer has ended the connection. -/
theorem remote_close_by_peer {handlers : Handlers} {s : ConnState} {as : List Act}
    (h : Run step NoEmptyTransfer (new handlers s) as w) (hm : .disconnectHandler false ∈ w.log) :
    PeerEnded w.log := by
  have h0 : Caused (new handlers s) := ⟨fun hne => absurd rfl hne, nofun⟩
  obtain ⟨-, hcaused⟩ := invariant_of_run h h0 fun _ _ _ hr hl hok hc => caused_step hr hl hok hc
  exact hcaused.called hm

/-- The thread of a connection that is disconnected ends. -/
def leavingThread : List Act :=
  [.thread (.uvRunReturned 0 ⟨0, ""⟩), .thread .storeZero, .thread .loopDelete, .thread .clearQueue,
    .thread .callFinalHandler]

/-- The peer closes an established connection that was written to. -/
theorem remote_close_by_peer_eof : ∃ w, Run step NoEmptyTransfer (new openHandlers .invalid)
    (establishing ++ writing ++ [.event .onDrainWriteQueue, .inner (.sslReturn 1 0 []),
      .inner .drainReturned, .event (.onRead (-1) [] [] ⟨uvEOF, ""⟩)] ++ leavingThread) w ∧
    .disconnectHandler false ∈ w.log ∧ PeerEnded w.log := by
  have hexec : (exec step NoEmptyTransfer (establishing ++ writing ++ [Act.event .onDrainWriteQueue,
      .inner (.sslReturn 1 0 []), .inner .drainReturned,
      .event (.onRead (-1) [] [] ⟨uvEOF, ""⟩)] ++ leavingThread) (new openHandlers .invalid)).any
      (fun w => .disconnectHandler false ∈ w.log) = true := by decide
  obtain ⟨w, hr, hw⟩ := exists_run_of_exec hexec
  have hm := of_decide_eq_true hw
  exact ⟨w, hr, hm, remote_close_by_peer hr hm⟩

/-- A read callback with nothing to read. -/
def emptyRead : List Act := establishing ++ [.event (.onRead 0 [] [] ⟨0, ""⟩)] ++ leavingThread

/-- Another thread writes a null array, for which `SSL_write` returns `0`. -/
def emptyWrite : List Act :=
  establishing ++ [.call (.begin 2 (.write .null)), .call (.load 0), .call (.push 0),
    .call (.send 0), .event .onDrainWriteQueue, .inner (.sslReturn 0 0 []),
    .inner .drainReturned] ++ leavingThread

/-- These steps are reported as closed by the remote, though no handler disconnects and the peer has
not ended the connection. -/
def Misreported (as : List Act) : Prop :=
  .inner .disconnect ∉ as ∧ ∃ w, Run step Any (new openHandlers .invalid) as w ∧
    .disconnectHandler false ∈ w.log ∧ ¬ PeerEnded w.log

theorem misreported_of_exec {as : List Act} (hc : .inner .disconnect ∉ as)
    (h : (exec step Any as (new openHandlers .invalid)).any
      (fun w => .disconnectHandler false ∈ w.log ∧ ¬ PeerEnded w.log) = true) : Misreported as := by
  obtain ⟨w, hr, hw⟩ := exists_run_of_exec h
  exact ⟨hc, w, hr, of_decide_eq_true hw⟩

theorem empty_transfers_close : Misreported emptyRead ∧ Misreported emptyWrite := by
  constructor
  · refine misreported_of_exec ?_ (by decide)
    simp [emptyRead, establishing, opening, finishing, leavingThread]
  · refine misreported_of_exec ?_ (by decide)
    simp [emptyWrite, establishing, opening, finishing, leavingThread]

end LibMumble.TLSConnection.RemoteClose
