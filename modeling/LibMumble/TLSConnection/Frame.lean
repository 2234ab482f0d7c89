import LibMumble.TLSConnection.Rules

/-! # What the code of the loop thread leaves alone

Apart from the draining of the queue, no callback of libuv touches the queue, the calls of other
threads or the identity of the thread (`SameQueue`), provided that the thread id the calls compare
with is that of the running thread (`Linked`). -/

namespace LibMumble.TLSConnection

open World Lib

variable {w w' w'' : World}

/-! ### The identity of the thread -/

/-- `thread_id_` is the id of the thread while it is in `uv_run`. -/
def Linked (w : World) : Prop := w.phase = .running → w.threadId = w.tid

theorem dispatch_self (us : ℕ) : dispatch us us = .onLoop := if_pos rfl

theorem disconnect_onLoop (h : w.threadId = w.tid) :
    disconnect w.tid w = shutdown .disconnectedLocal w := by
  rw [disconnect, h, dispatch_self]

theorem write_onLoop {buf : ByteArray} {queued : Option ℕ} (h : w.threadId = w.tid) :
    write w.tid buf queued w = (w.observe (.sslWrite buf queued)).push .sslWrite := by
  rw [write, h, dispatch_self]

theorem handleStarvedDone_false (k : Caller) (w : World) : handleStarvedDone k false w = w := by
  cases k <;> rfl

/-! ### The beginning and the end of a connection -/

/-- What `Connect` leaves and what it sets. -/
structure Fresh (w w' : World) : Prop where
  log : w'.log = []
  stack : w'.stack = []
  wq : w'.wq = w.wq
  pushes : w'.pushes = w.pushes
  calls : w'.calls = w.calls
  threadId : w'.threadId = w.threadId
  gen : w'.gen = w.gen + 1
  phase : w'.phase = .idle ∨ w'.phase = .created
  state : w'.phase = .created → w'.state = .preConnect

theorem fresh_connect (r : ConnectResults) (w : World) : Fresh w (connect r w).2 := by
  unfold connect
  simp only
  split_ifs <;> exact ⟨rfl, rfl, rfl, rfl, rfl, rfl, rfl, by simp, by simp⟩

theorem connect_cases {a : Act} (h : Rule w a w') : (∀ r, a ≠ .connect r) ∨ Fresh w w' := by
  cases h with
  | connect => exact Or.inr (fresh_connect _ w)
  | _ => exact Or.inl (by simp)

/-- What `Shutdown` leaves in the log of a connection whose handles are open. -/
def shutdownLog (s : ConnState) : List Obs :=
  [.shutdown s, .uvClose .tcpsock, .uvClose .wqasync, .uvClose .dcasync]

theorem mem_shutdownLog {s : ConnState} {o : Obs} (ho : o ∈ shutdownLog s) :
    o = .shutdown s ∨ ∃ h, o = .uvClose h := by
  simp only [shutdownLog, List.mem_cons, List.not_mem_nil, or_false] at ho
  rcases ho with rfl | rfl | rfl | rfl
  · exact Or.inl rfl
  all_goals exact Or.inr ⟨_, rfl⟩

theorem closed_observe {h : Handle} {o : Obs} : (w.observe o).closed h ↔ w.closed h ∨ .uvClose h = o :=
  mem_observe

/-- Open handles are closed one after the other, and libuv ends the process at a closed one. -/
theorem uvClose_cases {hs : List Handle} (hn : hs.Nodup) (w : World) :
    ((∀ h ∈ hs, ¬ w.closed h) ∧ uvClose hs w = { w with log := w.log ++ hs.map .uvClose }) ∨
    ∃ h ∈ hs, ∃ closes : List Handle, w.closed h ∧ uvClose hs w = { w with
      phase := .aborted (.uvClose h), log := w.log ++ closes.map .uvClose } := by
  induction hs generalizing w with
  | nil => exact Or.inl ⟨by simp, by simp [uvClose]⟩
  | cons h hs ih =>
    obtain ⟨hnot, hn⟩ := List.nodup_cons.mp hn
    rw [uvClose]
    split_ifs with hc
    · exact Or.inr ⟨h, by simp, [h], hc, rfl⟩
    · obtain ⟨hopen, heq⟩ | ⟨h', hm, closes, hc', heq⟩ := ih hn (w.observe (.uvClose h))
      · refine Or.inl ⟨fun h' hm => ?_, by rw [heq]; simp [observe]⟩
        rcases List.mem_cons.mp hm with rfl | hm
        · exact hc
        · exact fun hc' => hopen h' hm (closed_observe.mpr (Or.inl hc'))
      · refine Or.inr ⟨h', by simp [hm], h :: closes, ?_, by rw [heq]; simp [observe]⟩
        refine (closed_observe.mp hc').resolve_right fun heq => ?_
        exact hnot (Obs.uvClose.inj heq ▸ hm)

/-- **What `Shutdown` does**: it closes the handles of a connection if they are open, and libuv ends
the process if one was closed before. -/
theorem shutdown_cases (s : ConnState) (w : World) :
    ((∀ h, ¬ w.closed h) ∧ shutdown s w = { w with state := s, log := w.log ++ shutdownLog s }) ∨
    ∃ h closes, w.closed h ∧ (∀ o ∈ closes, ∃ h', o = .uvClose h') ∧ shutdown s w = { w with
      state := s, phase := .aborted (.uvClose h), log := w.log ++ .shutdown s :: closes } := by
  have hclosed : ∀ h, (({ w with state := s } : World).observe (.shutdown s)).closed h ↔ w.closed h := by
    intro h
    simp [World.closed, observe]
  have hn : [Handle.tcpsock, .wqasync, .dcasync].Nodup := by decide
  rcases uvClose_cases hn ({ w with state := s }.observe (.shutdown s)) with
    ⟨hopen, heq⟩ | ⟨h, -, closes, hc, heq⟩
  · refine Or.inl ⟨fun h hc => hopen h (by cases h <;> simp) ((hclosed h).mpr hc), ?_⟩
    rw [shutdown, heq]
    simp [observe, shutdownLog]
  · refine Or.inr ⟨h, closes.map .uvClose, (hclosed h).mp hc, by simp, ?_⟩
    rw [shutdown, heq]
    simp [observe]

/-- In either case. -/
theorem shutdown_eq (s : ConnState) (w : World) : ∃ p new,
    shutdown s w = { w with state := s, phase := p, log := w.log ++ .shutdown s :: new } ∧
    (∀ o ∈ new, ∃ h, o = .uvClose h) ∧
    (p = w.phase ∨ ∃ h, w.closed h ∧ p = .aborted (.uvClose h)) := by
  obtain ⟨-, heq⟩ | ⟨h, closes, hc, hcl, heq⟩ := shutdown_cases s w
  · exact ⟨_, _, heq, by simp, Or.inl rfl⟩
  · exact ⟨_, _, heq, hcl, Or.inr ⟨h, hc, rfl⟩⟩

theorem state_shutdown (s : ConnState) (w : World) : (shutdown s w).state = s := by
  obtain ⟨p, new, heq, -⟩ := shutdown_eq s w
  rw [heq]

theorem log_shutdown (s : ConnState) (w : World) : ∃ new, (shutdown s w).log = w.log ++ new ∧
    ∀ o ∈ new, o = .shutdown s ∨ ∃ h, o = .uvClose h := by
  obtain ⟨p, new, heq, hnew, -⟩ := shutdown_eq s w
  exact ⟨.shutdown s :: new, by rw [heq], fun o ho => (List.mem_cons.mp ho).imp id (hnew o)⟩

theorem uvRunReturned_eq (err : ℤ) (last : UVErr) (w : World) : uvRunReturned err last w =
    { w with
      phase := .runReturned,
      state := if err ≠ uvOK then .disconnectedError else w.state,
      err := if err ≠ uvOK then errorFromUVError last else w.err } := by
  unfold uvRunReturned
  simp only
  split_ifs <;> rfl

theorem callFinalHandler_eq (w : World) : callFinalHandler w =
    { w with
      phase := if (finalCall w.handlers w.state w.err).isSome then .finished
        else .aborted .threadNotReached,
      log := w.log ++ (finalCall w.handlers w.state w.err).getD [] } := by
  unfold callFinalHandler
  split
  next h => simp [h]
  next h => simp [h, abort]

/-! ### The frame -/

/-- An entry that the code of the loop thread makes, draining aside. -/
def ofLoop : Obs → Bool
  | .uvAsyncSend _ | .uvLoopDelete | .disconnectHandler _ | .errorHandler _ => false
  | o => !o.fromQueue

/-- The queue, the calls and the identity of the thread are the same, a drain that is under way
stays under way, and the log grows by entries of the loop thread. -/
structure SameQueue (w w' : World) : Prop where
  wq : w'.wq = w.wq
  pushes : w'.pushes = w.pushes
  calls : w'.calls = w.calls
  gen : w'.gen = w.gen
  threadId : w'.threadId = w.threadId
  tid : w'.tid = w.tid
  handlers : w'.handlers = w.handlers
  wqPending : w'.wqPending = w.wqPending
  connecting : w'.connecting = true → w.connecting = true
  phase : w'.phase = w.phase ∨ ∃ why, why ≠ .threadNotReached ∧ w'.phase = .aborted why
  drains : w'.stack.count .drain = w.stack.count .drain
  log : ∃ new, w'.log = w.log ++ new ∧ ∀ o ∈ new, ofLoop o = true

namespace SameQueue

theorem refl (w : World) : SameQueue w w :=
  ⟨rfl, rfl, rfl, rfl, rfl, rfl, rfl, rfl, id, Or.inl rfl, rfl, [], by simp⟩

theorem trans (h1 : SameQueue w w') (h2 : SameQueue w' w'') : SameQueue w w'' where
  wq := h2.wq.trans h1.wq
  pushes := h2.pushes.trans h1.pushes
  calls := h2.calls.trans h1.calls
  gen := h2.gen.trans h1.gen
  threadId := h2.threadId.trans h1.threadId
  tid := h2.tid.trans h1.tid
  handlers := h2.handlers.trans h1.handlers
  wqPending := h2.wqPending.trans h1.wqPending
  connecting := h1.connecting ∘ h2.connecting
  phase := by
    rcases h2.phase with h | h
    · rw [h]; exact h1.phase
    · exact Or.inr h
  drains := h2.drains.trans h1.drains
  log := by
    obtain ⟨new, hl, hn⟩ := h1.log
    obtain ⟨new', hl', hn'⟩ := h2.log
    refine ⟨new ++ new', ?_, fun o ho => ?_⟩
    · rw [hl', hl, List.append_assoc]
    · exact (List.mem_append.mp ho).elim (hn o) (hn' o)

theorem drain (h : SameQueue w w') : .drain ∈ w'.stack ↔ .drain ∈ w.stack := by
  rw [← List.count_pos_iff, h.drains, List.count_pos_iff]

theorem mem_of_mem {o : Obs} (h : SameQueue w w') (ho : o ∈ w.log) : o ∈ w'.log := by
  obtain ⟨new, hl, -⟩ := h.log
  rw [hl]
  exact List.mem_append_left _ ho

/-- An entry that is not of the loop thread was there before. -/
theorem mem_log {o : Obs} (h : SameQueue w w') (ho : ofLoop o = false) :
    o ∈ w'.log ↔ o ∈ w.log := by
  obtain ⟨new, hl, hn⟩ := h.log
  rw [hl, List.mem_append]
  constructor
  · rintro (hm | hm)
    · exact hm
    · rw [hn o hm] at ho
      cases ho
  · exact Or.inl

theorem observe {o : Obs} (ho : ofLoop o = true) (w : World) : SameQueue w (w.observe o) :=
  ⟨rfl, rfl, rfl, rfl, rfl, rfl, rfl, rfl, id, Or.inl rfl, rfl, [o], rfl, by simpa using ho⟩

theorem push {f : Frame} (hf : f ≠ .drain) (w : World) : SameQueue w (w.push f) :=
  ⟨rfl, rfl, rfl, rfl, rfl, rfl, rfl, rfl, id, Or.inl rfl, List.count_cons_of_ne hf, [],
    by simp [World.push]⟩

theorem abort {why : Abort} (hw : why ≠ .threadNotReached) (w : World) :
    SameQueue w (w.abort why) :=
  ⟨rfl, rfl, rfl, rfl, rfl, rfl, rfl, rfl, id, Or.inr ⟨why, hw, rfl⟩, rfl, [],
    by simp [World.abort]⟩

/-- A change of the members that the frame does not speak about. -/
theorem others {state : ConnState} {err : Error} {bio : Bio} {connecting dcPending : Bool}
    (hc : connecting = true → w.connecting = true) : SameQueue w { w with
      state := state, err := err, bio := bio, connecting := connecting, dcPending := dcPending } :=
  ⟨rfl, rfl, rfl, rfl, rfl, rfl, rfl, rfl, hc, Or.inl rfl, rfl, [], by simp⟩

theorem shutdown (s : ConnState) (w : World) : SameQueue w (shutdown s w) := by
  obtain ⟨p, new, heq, hnew, hp⟩ := shutdown_eq s w
  rw [heq]
  refine ⟨rfl, rfl, rfl, rfl, rfl, rfl, rfl, rfl, id, ?_, rfl, _, rfl, fun o ho => ?_⟩
  · exact hp.imp id fun ⟨h, _, hp⟩ => ⟨.uvClose h, by simp, hp⟩
  · rcases List.mem_cons.mp ho with rfl | ho
    · rfl
    · obtain ⟨h, rfl⟩ := hnew o ho
      rfl

theorem shutdownError (e : Error) (w : World) : SameQueue w (shutdownError e w) := by
  have h : SameQueue w { w with err := e } := others id
  exact h.trans (shutdown _ _)

theorem shutdownRemote (w : World) : SameQueue w (shutdownRemote w) := shutdown _ w

theorem sslWriteReturned (ret err : ℤ) (w : World) : SameQueue w (sslWriteReturned ret err w) := by
  unfold TLSConnection.sslWriteReturned
  split_ifs
  · exact shutdownError _ w
  · exact shutdownRemote w
  · exact refl w

theorem onReadEstablished (nread : ℤ) (heap : List UInt8) (w : World) :
    SameQueue w (onReadEstablished nread heap w) := by
  unfold TLSConnection.onReadEstablished
  split_ifs
  · split
    · exact push (by simp) w
    · exact abort (by simp) w
  · exact refl w

theorem handleStarvedDone (k : Caller) (ok : Bool) (w : World) :
    SameQueue w (handleStarvedDone k ok w) := by
  unfold TLSConnection.handleStarvedDone
  split
  · exact refl w
  · split_ifs
    · exact onReadEstablished _ _ w
    · exact refl w

theorem transition (k : Caller) (w : World) :
    SameQueue w (transitionToConnectionEstablishedState k w) := by
  have hst : SameQueue w { w with state := .established } := others id
  have h := hst.trans (observe (o := .transition) rfl _)
  unfold transitionToConnectionEstablishedState
  simp only
  split_ifs
  · exact h.trans ((observe rfl _).trans (push (by simp) _))
  · exact h.trans (handleStarvedDone _ _ _)

theorem sslConnectReturned (k : Caller) (ret err : ℤ) (w : World) :
    SameQueue w (sslConnectReturned k ret err w) := by
  unfold TLSConnection.sslConnectReturned
  split_ifs
  · exact handleStarvedDone _ _ w
  · exact (shutdownError _ w).trans (handleStarvedDone _ _ _)
  · exact (shutdownRemote w).trans (handleStarvedDone _ _ _)
  · exact transition k w
  · exact abort (by simp) w

theorem sslReadReturned (processed : ByteArray) (ret err : ℤ) (data : List UInt8) (w : World) :
    SameQueue w (sslReadReturned processed ret err data w) := by
  unfold TLSConnection.sslReadReturned
  split
  · split_ifs
    · exact refl w
    · exact shutdownError _ w
  · split
    · exact shutdownRemote w
    · simp only
      split
      · exact abort (by simp) w
      · split_ifs
        · exact (observe rfl w).trans (push (by simp) _)
        · exact push (by simp) w

theorem onRead (nread : ℤ) (buf heap : List UInt8) (last : UVErr) (w : World) :
    SameQueue w (onRead nread buf heap last w) := by
  unfold TLSConnection.onRead
  split_ifs
  · exact refl w
  · exact shutdownRemote w
  · exact shutdownError _ w
  · exact shutdownRemote w
  · split
    · exact abort (by simp) w
    · next st _ =>
      have h : SameQueue w { w with bio := { w.bio with ptr := st } } := others id
      simp only
      split_ifs
      · exact h.trans (push (by simp) _)
      · exact h.trans (onReadEstablished _ _ _)

theorem bioRead (len : ℤ) (w : World) : SameQueue w (bioRead len w) := by
  unfold TLSConnection.bioRead
  split
  · exact others id
  · exact abort (by simp) w

theorem onConnect (status readStart : ℤ) (last : UVErr) (w : World) :
    SameQueue w (onConnect status readStart last w) := by
  unfold TLSConnection.onConnect
  split_ifs
  · exact abort (by simp) w
  · exact shutdownError _ w
  · exact shutdownError _ w
  · exact (others id).trans (push (by simp) _)

theorem sslVerifyCallback (chain : List PeerCert) (last : CryptoErr) (system : Bool) (now : ℤ)
    (w : World) : SameQueue w (sslVerifyCallback chain last system now w) := by
  unfold TLSConnection.sslVerifyCallback
  split
  · exact abort (by simp) w
  · have h := shutdownError (errorFromLastCryptoError last) w
    simp only
    split
    · exact h
    · exact h.trans (observe rfl _)
  · split_ifs
    · exact (observe rfl w).trans (push (by simp) _)
    · exact observe rfl w

end SameQueue

/-- Taking a frame other than that of a drain off the stack. -/
theorem popped_same {f : Frame} {stack : List Frame} (hst : w.stack = f :: stack)
    (hf : f ≠ .drain) : SameQueue w { w with stack := stack } := by
  refine ⟨rfl, rfl, rfl, rfl, rfl, rfl, rfl, rfl, id, Or.inl rfl, ?_, [], by simp⟩
  rw [hst, List.count_cons_of_ne hf]

theorem returned_same {f : Frame} {stack : List Frame} {o : Obs} (hst : w.stack = f :: stack)
    (hf : f ≠ .drain) (ho : ofLoop o = true) : SameQueue w ({ w with stack := stack }.observe o) :=
  (popped_same hst hf).trans (.observe ho _)

/-- The steps of the loop thread that do not drain the queue. -/
def Act.loop : Act → Bool
  | .event .onDrainWriteQueue | .inner .drainReturned => false
  | .event _ | .inner _ => true
  | _ => false

theorem sameQueue_of_rule {a : Act} (h : Rule w a w') (hl : Linked w) (ha : a.loop = true) :
    SameQueue w w' := by
  cases h with
  | onConnect =>
    have h : SameQueue w { w with connecting := false } := .others nofun
    exact h.trans (.onConnect _ _ _ _)
  | onRead => exact (SameQueue.observe rfl w).trans (.onRead _ _ _ _ _)
  | onDisconnectRequest =>
    have h : SameQueue w { w with dcPending := false } := .others id
    exact h.trans (.shutdown _ _)
  | bioRead => exact .bioRead _ w
  | sslVerify => exact .sslVerifyCallback _ _ _ _ w
  | sslConnectReturned _ hst =>
    exact (returned_same hst nofun rfl).trans (.sslConnectReturned _ _ _ _)
  | sslReadReturned _ hst =>
    exact (returned_same hst nofun rfl).trans (.sslReadReturned _ _ _ _ _)
  | sslWriteReturned _ hst =>
    exact (returned_same hst nofun rfl).trans (.sslWriteReturned _ _ _)
  | disconnect hp =>
    rw [disconnect_onLoop (hl hp)]
    exact .shutdown _ w
  | write hp =>
    rw [write_onLoop (hl hp)]
    exact (SameQueue.observe rfl w).trans (.push (by simp) _)
  | verifyHandlerReturned _ hst => exact returned_same hst nofun rfl
  | establishedHandlerReturned _ hst =>
    exact (popped_same hst nofun).trans (.handleStarvedDone _ _ _)
  | readHandlerReturned _ hst => exact (popped_same hst nofun).trans (.push (by simp) _)
  | _ => simp [Act.loop] at ha

/-! ### Draining -/

/-- One pass of the loop of `OnDrainWriteQueue`, when it runs on the loop thread. -/
theorem drainLoop_onLoop (h : w.threadId = w.tid) :
    drainLoop w = match w.wq with
      | [] => w
      | q :: _ => ((w.push .drain).observe (.sslWrite q.buf (some q.gen))).push .sslWrite := by
  unfold drainLoop
  cases w.wq with
  | nil => rfl
  | cons q rest => exact @write_onLoop (w.push .drain) _ _ h

/-- Draining leaves alone the calls, what they pushed and the thread. -/
structure Drained (w w' : World) : Prop where
  phase : w'.phase = w.phase
  calls : w'.calls = w.calls
  pushes : w'.pushes = w.pushes
  gen : w'.gen = w.gen
  threadId : w'.threadId = w.threadId
  tid : w'.tid = w.tid

theorem drained_drainLoop (h : w.threadId = w.tid) : Drained w (drainLoop w) := by
  rw [drainLoop_onLoop h]
  split <;> exact ⟨rfl, rfl, rfl, rfl, rfl, rfl⟩

theorem drained_onDrainWriteQueue (h : w.threadId = w.tid) :
    Drained w (onDrainWriteQueue { w with wqPending := false }) := by
  unfold onDrainWriteQueue
  split_ifs
  · have hd := @drained_drainLoop { w with wqPending := false } h
    exact ⟨hd.phase, hd.calls, hd.pushes, hd.gen, hd.threadId, hd.tid⟩
  · exact ⟨rfl, rfl, rfl, rfl, rfl, rfl⟩

theorem drained_drainReturned {stack : List Frame} (h : w.threadId = w.tid) :
    Drained w (drainReturned { w with stack := stack }) := by
  have hd := @drained_drainLoop { w with stack := stack, wq := w.wq.tail } h
  exact ⟨hd.phase, hd.calls, hd.pushes, hd.gen, hd.threadId, hd.tid⟩

/-- A step of the loop thread leaves it in `uv_run`, or ends the process. -/
theorem phase_of_loop {a : Act} (h : Rule w a w') (hl : Linked w)
    (ha : (∃ e, a = .event e) ∨ ∃ i, a = .inner i) : w.phase = .running ∧
    (w'.phase = .running ∨ ∃ why, why ≠ .threadNotReached ∧ w'.phase = .aborted why) := by
  have hrun : w.phase = .running := by
    cases h <;> first | assumption | simp at ha
  refine ⟨hrun, ?_⟩
  by_cases hloop : a.loop
  · have hs := (sameQueue_of_rule h hl hloop).phase
    rwa [hrun] at hs
  · cases h with
    | onDrainWriteQueue hp => exact Or.inl ((drained_onDrainWriteQueue (hl hp)).phase.trans hp)
    | drainReturned hp => exact Or.inl ((drained_drainReturned (hl hp)).phase.trans hp)
    | _ => first | exact absurd rfl hloop | simp at ha

/-- A call of another thread touches the queue, the calls and the wakeups, and nothing else. -/
structure OnlyCalls (w w' : World) : Prop where
  phase : w'.phase = w.phase
  state : w'.state = w.state
  err : w'.err = w.err
  handlers : w'.handlers = w.handlers
  stack : w'.stack = w.stack
  log : w'.log = w.log ∨ ∃ h, w'.log = w.log ++ [Obs.uvAsyncSend h]

theorem onlyCalls_of_rule {c : CallAct} (h : Rule w (.call c) w') : OnlyCalls w w' := by
  cases h with
  | begin | loadOff | loadDropped | push => exact ⟨rfl, rfl, rfl, rfl, rfl, Or.inl rfl⟩
  | sendDisconnect | sendWrite => exact ⟨rfl, rfl, rfl, rfl, rfl, Or.inr ⟨_, rfl⟩⟩

/-- How the phase can change, `Connect` aside. -/
inductive Next : Phase → Phase → Prop
  | stay (p : Phase) : Next p p
  | start : Next .created .running
  | uvRunReturned : Next .running .runReturned
  | storeZero : Next .runReturned .idCleared
  | loopDelete : Next .idCleared .loopDeleted
  | clearQueue : Next .loopDeleted .queueCleared
  | callFinalHandler : Next .queueCleared .finished
  | abort {p : Phase} (why : Abort) (hp : p = .running ∨ p = .queueCleared) : Next p (.aborted why)

theorem Next.of_idle {p : Phase} (h : Next .idle p) : p = .idle := by
  cases h with
  | stay => rfl
  | abort _ hp => simp at hp

theorem Next.of_finished {p : Phase} (h : Next .finished p) : p = .finished := by
  cases h with
  | stay => rfl
  | abort _ hp => simp at hp

theorem Next.to_created {p : Phase} (h : Next p .created) : p = .created := by
  cases h
  rfl

theorem Next.to_running {p : Phase} (h : Next p .running) : p = .running ∨ p = .created := by
  cases h with
  | stay => exact Or.inl rfl
  | start => exact Or.inr rfl

theorem next_of_rule {a : Act} (h : Rule w a w') (hl : Linked w) (hc : ∀ r, a ≠ .connect r) :
    Next w.phase w'.phase := by
  have hloop : (∃ e, a = .event e) ∨ (∃ i, a = .inner i) → Next w.phase w'.phase := by
    intro ha
    obtain ⟨hrun, hp | ⟨why, -, hp⟩⟩ := phase_of_loop h hl ha
    · rw [hrun, hp]
      exact .stay _
    · rw [hp]
      exact .abort why (Or.inl hrun)
  cases a with
  | connect r => exact absurd rfl (hc r)
  | event e => exact hloop (Or.inl ⟨e, rfl⟩)
  | inner i => exact hloop (Or.inr ⟨i, rfl⟩)
  | call c => exact (onlyCalls_of_rule h).phase ▸ .stay _
  | thread t =>
    cases h with
    | start hp => exact hp ▸ .start
    | uvRunReturned hp =>
      rw [uvRunReturned_eq, hp]
      exact .uvRunReturned
    | storeZero hp => exact hp ▸ .storeZero
    | loopDelete hp => exact hp ▸ .loopDelete
    | clearQueue hp => exact hp ▸ .clearQueue
    | callFinalHandler hp =>
      rw [callFinalHandler_eq, hp]
      simp only
      split_ifs
      · exact .callFinalHandler
      · exact .abort _ (Or.inr rfl)

/-- The call of a final handler goes by the state. -/
theorem mem_finalCall {handlers : Handlers} {s : ConnState} {e : Error} {calls : List Obs} {o : Obs}
    (h : finalCall handlers s e = some calls) (ho : o ∈ calls) :
    (s = .disconnectedLocal ∧ o = .disconnectHandler true) ∨
    (s = .disconnectedRemote ∧ o = .disconnectHandler false) ∨
    (s = .disconnectedError ∧ o = .errorHandler e) := by
  unfold finalCall at h
  split at h <;> simp only [Option.some.injEq, reduceCtorEq] at h <;> subst h <;>
    split_ifs at ho <;> simp_all

/-- Only the calls of other threads move calls on and push. -/
theorem calls_of_rule {a : Act} (h : Rule w a w') (hl : Linked w) (ha : ∀ c, a ≠ .call c) :
    w'.calls = w.calls ∧ w'.pushes = w.pushes := by
  by_cases hloop : a.loop
  · have hs := sameQueue_of_rule h hl hloop
    exact ⟨hs.calls, hs.pushes⟩
  · cases h with
    | @connect r =>
      have hf := fresh_connect r w
      exact ⟨hf.calls, hf.pushes⟩
    | uvRunReturned => exact uvRunReturned_eq _ _ w ▸ ⟨rfl, rfl⟩
    | callFinalHandler => exact callFinalHandler_eq w ▸ ⟨rfl, rfl⟩
    | onDrainWriteQueue hp =>
      have hd := drained_onDrainWriteQueue (hl hp)
      exact ⟨hd.calls, hd.pushes⟩
    | @drainReturned stack hp =>
      have hd := @drained_drainReturned w stack (hl hp)
      exact ⟨hd.calls, hd.pushes⟩
    | start | storeZero | loopDelete | clearQueue => exact ⟨rfl, rfl⟩
    | begin | loadOff | loadDropped | push | sendDisconnect | sendWrite => exact absurd rfl (ha _)
    | _ => exact absurd rfl hloop

/-- Only `Connect` begins another connection. -/
theorem gen_of_rule {a : Act} (h : Rule w a w') (hl : Linked w) (ha : ∀ r, a ≠ .connect r) :
    w'.gen = w.gen := by
  by_cases hloop : a.loop
  · exact (sameQueue_of_rule h hl hloop).gen
  · cases h with
    | connect => exact absurd rfl (ha _)
    | uvRunReturned => rw [uvRunReturned_eq]
    | callFinalHandler => rw [callFinalHandler_eq]
    | onDrainWriteQueue hp => exact (drained_onDrainWriteQueue (hl hp)).gen
    | drainReturned hp => exact (drained_drainReturned (hl hp)).gen
    | start | storeZero | loopDelete | clearQueue => rfl
    | begin | loadOff | loadDropped | push | sendDisconnect | sendWrite => rfl
    | _ => exact absurd rfl hloop

/-- What a call of another thread leaves in the list of the calls. -/
theorem calls_setPc {i j : ℕ} {c0 c : Call} {pc : Pc}
    (h : (setPc i c0 pc w).calls[j]? = some c) :
    j = i ∧ c = { c0 with pc := pc } ∨ w.calls[j]? = some c := by
  by_cases hij : i = j
  · subst hij
    simp only [setPc, List.getElem?_set_self'] at h
    obtain ⟨-, -, rfl⟩ := Option.map_eq_some_iff.mp h
    exact Or.inl ⟨rfl, rfl⟩
  · exact Or.inr (by rwa [setPc, List.getElem?_set_ne hij] at h)

theorem calls_begin {calls : List Call} {i : ℕ} {c c1 : Call}
    (h : (calls ++ [c1])[i]? = some c) : calls[i]? = some c ∨ c = c1 := by
  rw [List.getElem?_append] at h
  split_ifs at h
  · exact Or.inl h
  · exact Or.inr (List.mem_singleton.mp (List.mem_of_getElem? h))

theorem linked_new (handlers : Handlers) (s : ConnState) : Linked (new handlers s) := by
  intro h
  cases h

theorem linked_of_rule {a : Act} (h : Rule w a w') (hl : Linked w) : Linked w' := by
  by_cases ha : a.loop
  · have hs := sameQueue_of_rule h hl ha
    intro hr
    rcases hs.phase with hp | ⟨why, -, hp⟩
    · rw [hs.threadId, hs.tid]
      exact hl (hp ▸ hr)
    · rw [hp] at hr
      cases hr
  · cases h with
    | @connect r =>
      intro hr
      rcases (fresh_connect r w).phase with hp | hp <;> rw [hp] at hr <;> cases hr
    | start => exact fun _ => rfl
    | uvRunReturned =>
      rw [uvRunReturned_eq]
      exact nofun
    | storeZero => exact nofun
    | loopDelete => exact nofun
    | clearQueue => exact nofun
    | callFinalHandler =>
      unfold callFinalHandler Linked
      split <;> exact nofun
    | onDrainWriteQueue hp =>
      have hd := drained_onDrainWriteQueue (hl hp)
      exact fun _ => hd.threadId.trans ((hl hp).trans hd.tid.symm)
    | @drainReturned stack hp =>
      have hd := @drained_drainReturned w stack (hl hp)
      exact fun _ => hd.threadId.trans ((hl hp).trans hd.tid.symm)
    | sendDisconnect | sendWrite | push | begin | loadOff | loadDropped => exact hl
    | _ => exact absurd rfl ha

/-- **The invariant rule for the runs of a new connection**, in which the worlds are linked. -/
theorem invariant_of_run {I : World → Prop} {handlers : Handlers} {s : ConnState}
    {ok : World → Act → Prop} {as : List Act} (h : Run step ok (new handlers s) as w)
    (h0 : I (new handlers s)) (hstep : ∀ u a v, Rule u a v → Linked u → ok u a → I u → I v) :
    Linked w ∧ I w := by
  refine h.invariant (I := fun u => Linked u ∧ I u) ⟨linked_new handlers s, h0⟩ ?_
  rintro u a v ⟨hl, hi⟩ hok hs
  have hr := step_rule hs
  exact ⟨linked_of_rule hr hl, hstep u a v hr hl hok hi⟩

/-- **The rule for one connection**: what every step but `Connect` preserves still holds later in
the same connection. -/
theorem same_connection {P : World → Prop} {ok : World → Act → Prop} {as : List Act}
    (h : Run step ok w as w') (hl : Linked w) (hstep : ∀ u a v, Rule u a v → Linked u → ok u a →
      (∀ r, a ≠ .connect r) → P u → P v) : w.gen ≤ w'.gen ∧ (w'.gen = w.gen → P w → P w') := by
  refine h.keeps (I := Linked)
    (R := fun u v => u.gen ≤ v.gen ∧ (v.gen = u.gen → P u → P v)) hl ?_ ?_ ?_
  · exact fun u a v hl _ hs => linked_of_rule (step_rule hs) hl
  · exact fun u => ⟨le_rfl, fun _ => id⟩
  · rintro u a v x hl hok hs ⟨hle, hkeep⟩
    have hr := step_rule hs
    rcases connect_cases hr with hc | hf
    · have hg := gen_of_rule hr hl hc
      rw [hg] at hle hkeep
      exact ⟨hle, fun hx hu => hkeep hx (hstep u a v hr hl hok hc hu)⟩
    · have hg := hf.gen
      exact ⟨by omega, fun hx => by omega⟩

/-! ### Actions for examples -/

def openHandlers : Handlers := ⟨false, true, true, true, true⟩

/-- The socket connects and the handshake starts. -/
def opening : List Act :=
  [.connect ⟨openHandlers, 0, 0, 0, ⟨0, ""⟩⟩, .thread (.start 1), .event (.onConnect 0 0 ⟨0, ""⟩),
    .inner (.bioRead 5), .inner (.sslReturn (-1) sslErrorWantRead [])]

/-- A segment arrives that ends the handshake. -/
def finishing : List Act :=
  [.event (.onRead 1 [0] [] ⟨0, ""⟩), .inner (.bioRead 5),
    .inner (.sslVerify [⟨1, 1, [48]⟩] ⟨0, "", ""⟩ true 0), .inner (.sslReturn 1 0 []),
    .inner (.handlerReturn true), .inner (.sslReturn (-1) sslErrorWantRead [])]

def establishing : List Act := opening ++ finishing

/-- The first call of another thread, a `Write`. -/
def writing : List Act :=
  [.call (.begin 2 (.write ⟨some [7], 1, 1⟩)), .call (.load 0), .call (.push 0), .call (.send 0)]

end LibMumble.TLSConnection
