import LibMumble.TLSConnection.Protocol
import LibMumble.TLSConnection.Shutdown

/-! # A disconnect during the set-up

Closing the socket while its connect request is pending completes that request, so `OnConnect` is
called once more, after `OnDisconnectRequest` has set the state. If the request of another thread is
handled only when no connect request is pending (`InTurn`), `OnConnect` finds `PRE_CONNECT`
(`Untouched`), and a request that is handled settles how the connection ends (`Settled`), if
`uv_run` does not fail (`RunsOut`). -/

namespace LibMumble.TLSConnection.Setup

open World Lib Protocol

variable {w w' : World}

/-- A disconnect request is handled when no connect request is pending. -/
def InTurn (w : World) : Act → Prop
  | .event .onDisconnectRequest => w.connecting = false
  | _ => True

/-- `uv_run` does not fail. -/
def RunsOut (_ : World) : Act → Prop
  | .thread (.uvRunReturned err _) => err = uvOK
  | _ => True

instance (w : World) : DecidablePred (InTurn w) := fun a => by
  unfold InTurn
  split <;> infer_instance

instance (w : World) : DecidablePred (RunsOut w) := fun a => by
  unfold RunsOut
  split <;> infer_instance

/-! ### The connect phase -/

theorem connecting_drainLoop (h : w.threadId = w.tid) :
    (drainLoop w).connecting = w.connecting := by
  rw [drainLoop_onLoop h]
  split <;> rfl

/-- Only `Connect` makes a connect request. -/
theorem connecting_of_rule {a : Act} (hr : Rule w a w') (hl : Linked w)
    (hc : ∀ r, a ≠ .connect r) (h : w'.connecting = true) : w.connecting = true := by
  by_cases ha : a.loop
  · exact (sameQueue_of_rule hr hl ha).connecting h
  · cases hr with
    | connect => exact absurd rfl (hc _)
    | start | storeZero | loopDelete | clearQueue => exact h
    | uvRunReturned =>
      rw [uvRunReturned_eq] at h
      exact h
    | callFinalHandler =>
      rw [callFinalHandler_eq] at h
      exact h
    | onDrainWriteQueue hp =>
      unfold TLSConnection.onDrainWriteQueue at h
      split_ifs at h
      · have hd := @connecting_drainLoop { w with wqPending := false } (hl hp)
        exact hd.symm.trans h
      · exact h
    | @drainReturned stack hp =>
      have hd := @connecting_drainLoop { w with stack := stack, wq := w.wq.tail } (hl hp)
      exact hd.symm.trans h
    | begin | loadOff | loadDropped | push | sendDisconnect | sendWrite => exact h
    | _ => exact absurd rfl ha

/-- While a connect request is pending, nothing has happened to the connection. -/
def Untouched (w : World) : Prop :=
  w.connecting = true → w.phase = .created ∨ w.phase = .running →
    w.state = .preConnect ∧ w.stack = []

theorem stack_of_inner {i : Inner} (hr : Rule w (.inner i) w') : w.stack ≠ [] := by
  cases hr with
  | bioRead _ hst | sslVerify _ hst | disconnect _ hst | write _ hst | drainReturned _ hst
  | sslConnectReturned _ hst | sslReadReturned _ hst | sslWriteReturned _ hst
  | verifyHandlerReturned _ hst | establishedHandlerReturned _ hst | readHandlerReturned _ hst =>
    rw [hst]
    exact List.cons_ne_nil _ _

theorem untouched_event {e : Event} (hr : Rule w (.event e) w') (hl : Linked w)
    (hok : InTurn w (.event e)) (h : Untouched w) : Untouched w' := by
  intro hconn hp
  have hconnecting := connecting_of_rule hr hl (by simp) hconn
  cases hr with
  | onConnect => cases (SameQueue.onConnect _ _ _ _).connecting hconn
  | onDisconnectRequest =>
    rw [hok] at hconnecting
    cases hconnecting
  | onRead hrun =>
    obtain ⟨hst, hstack⟩ := h hconnecting (Or.inr hrun)
    unfold TLSConnection.onRead
    rw [if_pos (by simp [observe, hst])]
    exact ⟨hst, hstack⟩
  | onDrainWriteQueue hrun =>
    obtain ⟨hst, hstack⟩ := h hconnecting (Or.inr hrun)
    unfold TLSConnection.onDrainWriteQueue
    rw [if_neg (by simp [hst])]
    exact ⟨hst, hstack⟩

theorem untouched_step {a : Act} (hr : Rule w a w') (hl : Linked w) (hok : InTurn w a)
    (h : Untouched w) : Untouched w' := by
  cases a with
  | connect r =>
    cases hr with
    | connect =>
      have hf := fresh_connect r w
      intro _ hp
      rcases hf.phase with hidle | hcreated
      · simp [hidle] at hp
      · exact ⟨hf.state hcreated, hf.stack⟩
  | thread t =>
    intro hconn hp
    cases hr with
    | start hcreated => exact h hconn (Or.inl hcreated)
    | uvRunReturned =>
      rw [uvRunReturned_eq] at hp
      simp at hp
    | storeZero | loopDelete | clearQueue => simp [storeZero, loopDelete, clearQueue, observe] at hp
    | callFinalHandler =>
      rw [callFinalHandler_eq] at hp
      simp only at hp
      split_ifs at hp <;> simp at hp
  | event e => exact untouched_event hr hl hok h
  | inner i =>
    intro hconn _
    have hconnecting := connecting_of_rule hr hl (by simp) hconn
    have hrun := (phase_of_loop hr hl (Or.inr ⟨i, rfl⟩)).1
    exact absurd (h hconnecting (Or.inr hrun)).2 (stack_of_inner hr)
  | call c =>
    intro hconn hp
    have hs := onlyCalls_of_rule hr
    rw [hs.state, hs.stack]
    exact h (connecting_of_rule hr hl (by simp) hconn) (hs.phase ▸ hp)

/-! ### The terminal callbacks -/

/-- The calls of final handlers so far. -/
def terminals (w : World) : List Obs := w.log.filter final

theorem terminals_of_rule {a : Act} (hr : Rule w a w') (hl : Linked w) (hc : ∀ r, a ≠ .connect r)
    (hf : a ≠ .thread .callFinalHandler) : terminals w' = terminals w := by
  obtain ⟨new, hlog, hn⟩ := log_of_rule hr hl hc
  have hnil : new.filter final = [] := by
    rw [List.filter_eq_nil_iff]
    exact fun o ho hfin => hf (hn o ho hfin).1
  rw [terminals, hlog, List.filter_append, hnil, List.append_nil, terminals]

/-- No final handler is called before the end. -/
def Open (w : World) : Prop := w.phase ≠ .finished → terminals w = []

theorem open_step {a : Act} (hr : Rule w a w') (hl : Linked w) (h : Open w) : Open w' := by
  intro hp
  rcases connect_cases hr with hc | hf
  · have hbefore : w.phase ≠ .finished := by
      intro hfin
      have hnext := next_of_rule hr hl hc
      rw [hfin] at hnext
      exact hp hnext.of_finished
    by_cases hfinal : a = .thread .callFinalHandler
    · subst hfinal
      cases hr with
      | callFinalHandler =>
        rw [callFinalHandler_eq] at hp ⊢
        cases hcalls : finalCall w.handlers w.state w.err with
        | none => simpa [terminals] using h hbefore
        | some calls => simp [hcalls] at hp
    · rw [terminals_of_rule hr hl hc hfinal]
      exact h hbefore
  · rw [terminals, hf.log, List.filter_nil]

/-- The disconnect request is handled, nothing else can happen to the connection, and the one
terminal callback is that of a local disconnect. -/
structure Settled (w : World) : Prop where
  state : w.state = .disconnectedLocal
  stack : w.stack = []
  connecting : w.connecting = false
  closed : ∀ h, w.closed h
  phase : w.phase ≠ .created
  terminals : terminals w =
    if w.phase = .finished ∧ w.handlers.disconnect = true then [.disconnectHandler true] else []

theorem settled_request (hp : w.phase = .running) (hst : w.stack = [])
    (hconn : w.connecting = false) (ho : Open w) (ht : Together w) (hc : ¬ w.closed .dcasync) :
    Settled (onDisconnectRequest { w with dcPending := false }) := by
  obtain ⟨-, heq⟩ | ⟨h, -, hm, -⟩ := shutdown_cases .disconnectedLocal { w with dcPending := false }
  · rw [onDisconnectRequest, heq]
    refine ⟨rfl, hst, hconn, fun h => ?_, by simp [hp], ?_⟩
    · cases h <;> simp [World.closed, shutdownLog]
    · have hnil : terminals w = [] := ho (by simp [hp])
      have hsame : (w.log ++ shutdownLog .disconnectedLocal).filter final = w.log.filter final := by
        simp [shutdownLog, final]
      rw [terminals, hsame, ← terminals, hnil, if_neg (by simp [hp])]
  · exact absurd (ht h .dcasync hm) hc

/-- **The step lemma**: what is left are the steps of the thread to its end, and calls of other
threads. -/
theorem settled_step {a : Act} (hr : Rule w a w') (hl : Linked w) (hok : RunsOut w a)
    (hc : ∀ r, a ≠ .connect r) (h : Settled w) : Settled w' := by
  obtain ⟨new, hlog, -⟩ := log_of_rule hr hl hc
  have hclosed : ∀ hd, w'.closed hd := by
    intro hd
    rw [World.closed, hlog]
    exact List.mem_append_left _ (h.closed hd)
  have hconn : w'.connecting = false := by
    rw [Bool.eq_false_iff]
    intro ht
    have hbefore := connecting_of_rule hr hl hc ht
    rw [h.connecting] at hbefore
    cases hbefore
  have hquiet : a ≠ .thread .callFinalHandler → w'.state = w.state → w'.stack = w.stack →
      w'.handlers = w.handlers → w'.phase ≠ .created →
      (w'.phase = .finished ↔ w.phase = .finished) → Settled w' := by
    intro hf hst hs hh hp hfin
    refine ⟨hst.trans h.state, hs.trans h.stack, hconn, hclosed, hp, ?_⟩
    rw [terminals_of_rule hr hl hc hf, h.terminals, hh]
    simp only [hfin]
  cases a with
  | connect r => exact absurd rfl (hc r)
  | thread t =>
    cases hr with
    | start hp => exact absurd hp h.phase
    | @uvRunReturned err last hp =>
      have herr : err = uvOK := hok
      rw [uvRunReturned_eq] at hquiet ⊢
      exact hquiet (by simp) (by simp [herr]) rfl rfl (by simp) (by simp [hp])
    | storeZero hp =>
      exact hquiet (by simp) rfl rfl rfl (by simp [storeZero]) (by simp [storeZero, hp])
    | loopDelete hp =>
      exact hquiet (by simp) rfl rfl rfl (by simp [loopDelete, observe])
        (by simp [loopDelete, observe, hp])
    | clearQueue hp =>
      exact hquiet (by simp) rfl rfl rfl (by simp [clearQueue]) (by simp [clearQueue, hp])
    | callFinalHandler hp =>
      have hnil := h.terminals
      rw [if_neg (by simp [hp])] at hnil
      have hcalls : finalCall w.handlers w.state w.err =
          some (if w.handlers.disconnect then [.disconnectHandler true] else []) := by
        rw [h.state]
        rfl
      rw [callFinalHandler_eq, hcalls] at hclosed ⊢
      refine ⟨h.state, h.stack, h.connecting, hclosed, by simp, ?_⟩
      rw [Setup.terminals, List.filter_append, ← Setup.terminals, hnil]
      by_cases hd : w.handlers.disconnect = true <;> simp [hd, final]
  | event e =>
    cases hr with
    | onConnect _ _ hpending =>
      rw [h.connecting] at hpending
      cases hpending
    | onRead _ _ hopen => exact absurd (h.closed _) hopen
    | onDrainWriteQueue _ _ _ hopen => exact absurd (h.closed _) hopen
    | onDisconnectRequest _ _ _ hopen => exact absurd (h.closed _) hopen
  | inner i => exact absurd h.stack (stack_of_inner hr)
  | call c =>
    have hs := onlyCalls_of_rule hr
    exact hquiet (by simp) hs.state hs.stack hs.handlers (by rw [hs.phase]; exact h.phase)
      (by rw [hs.phase])

/-! ### Runs -/

/-- **A disconnect during the set-up is safe**, in runs in which no disconnect request is handled while
the connect request is pending: `OnConnect` is only called in `PRE_CONNECT`, and a connection whose
disconnect request is handled ends with `disconnect_handler_(true)`, unless `uv_run` fails. -/
theorem setup_safe {handlers : Handlers} {s : ConnState} {as : List Act}
    (h : Run step InTurn (new handlers s) as w) :
    (∀ status readStart last w', step w (.event (.onConnect status readStart last)) = some w' →
      w.state = .preConnect) ∧
    ∀ v bs x, InTurn w (.event .onDisconnectRequest) →
      step w (.event .onDisconnectRequest) = some v → Run step RunsOut v bs x → x.gen = v.gen →
      x.log.filter final = if x.phase = .finished ∧ x.handlers.disconnect = true then
        [.disconnectHandler true] else [] := by
  have h0 : Untouched (new handlers s) ∧ Open (new handlers s) ∧ Together (new handlers s) :=
    ⟨nofun, fun _ => rfl, fun _ _ h => by simp [World.closed, new] at h⟩
  obtain ⟨hl, hu, ho, ht⟩ := invariant_of_run (I := fun u => Untouched u ∧ Open u ∧ Together u) h h0
    fun _ _ _ hr hl hok hi => ⟨untouched_step hr hl hok hi.1, open_step hr hl hi.2.1,
      together_of_rule hr hl hi.2.2⟩
  refine ⟨fun status readStart last w' hs => ?_, fun v bs x hok hs hrun hg => ?_⟩
  · cases step_rule hs with
    | onConnect hp _ hconn => exact (hu hconn (Or.inr hp)).1
  · have hr := step_rule hs
    have hlv := linked_of_rule hr hl
    have hsettled : Settled v := by
      cases hr with
      | onDisconnectRequest hp hst _ hc => exact settled_request hp hst hok ho ht hc
    have hkeep := same_connection hrun hlv fun _ _ _ hr hl hok hc hi => settled_step hr hl hok hc hi
    exact (hkeep.2 hg hsettled).terminals

/-- A `Disconnect` on another thread while the connection is set up. -/
def requesting : List Act := [.call (.begin 2 .disconnect), .call (.load 0), .call (.send 0)]

/-- `Connect`, and the thread starts. -/
def starting : List Act := [.connect ⟨openHandlers, 0, 0, 0, ⟨0, ""⟩⟩, .thread (.start 1)]

/-- The request comes while the socket connects and is handled during the handshake. -/
theorem setup_safe_handshake : ∃ w u v x,
    Run step InTurn (new openHandlers .invalid) (starting ++ requesting) w ∧ w.state = .preConnect ∧
    Run step InTurn (new openHandlers .invalid)
      (starting ++ requesting ++ [.event (.onConnect 0 0 ⟨0, ""⟩),
        .inner (.sslReturn (-1) sslErrorWantRead [])]) u ∧
    step u (.event .onDisconnectRequest) = some v ∧
    Run step RunsOut v [.thread (.uvRunReturned 0 ⟨0, ""⟩), .thread .storeZero, .thread .loopDelete,
      .thread .clearQueue, .thread .callFinalHandler] x ∧
    x.log.filter final = [.disconnectHandler true] := by
  have hstart : (exec step InTurn (starting ++ requesting) (new openHandlers .invalid)).any
      (fun w => (step w (.event (.onConnect 0 0 ⟨0, ""⟩))).isSome) = true := by decide
  have hhandshake : (exec step InTurn (starting ++ requesting ++
      [Act.event (.onConnect 0 0 ⟨0, ""⟩), .inner (.sslReturn (-1) sslErrorWantRead [])])
      (new openHandlers .invalid)).any (fun u => u.connecting = false ∧
        (step u (.event .onDisconnectRequest)).any fun v =>
          (exec step RunsOut [.thread (.uvRunReturned 0 ⟨0, ""⟩), .thread .storeZero,
            .thread .loopDelete, .thread .clearQueue, .thread .callFinalHandler] v).any
            fun x => x.gen = v.gen ∧ x.phase = .finished ∧ x.handlers.disconnect = true) = true := by
    decide
  obtain ⟨w, hw, hconn⟩ := exists_run_of_exec hstart
  obtain ⟨w', hs⟩ := Option.isSome_iff_exists.mp hconn
  obtain ⟨u, hu, hrest⟩ := exists_run_of_exec hhandshake
  obtain ⟨hpending, hrest⟩ := of_decide_eq_true hrest
  obtain ⟨v, hv, hrest⟩ := (Option.any_eq_true _ _).mp hrest
  obtain ⟨x, hx, hend⟩ := exists_run_of_exec hrest
  obtain ⟨hg, hp, hd⟩ := of_decide_eq_true hend
  refine ⟨w, u, v, x, hw, (setup_safe hw).1 _ _ _ w' hs, hu, hv, hx, ?_⟩
  rw [(setup_safe hu).2 v _ x hpending hv hx hg, if_pos ⟨hp, hd⟩]

/-- The request is handled while the socket connects: closing the socket completes the connect request,
and the assertion in `OnConnect` fails. -/
theorem disconnect_while_connecting : ∃ as w w', Run step Any (new openHandlers .invalid) as w ∧
    step w (.event (.onConnect (-1) 0 ⟨0, ""⟩)) = some w' ∧ w.state = .disconnectedLocal ∧
    w'.phase = .aborted .onConnectState ∧ w'.log.filter final = [] := by
  have hexec : (exec step Any (starting ++ requesting ++ [Act.event .onDisconnectRequest])
      (new openHandlers .invalid)).any (fun w =>
        (step w (.event (.onConnect (-1) 0 ⟨0, ""⟩))).any fun w' => w.state = .disconnectedLocal ∧
          w'.phase = .aborted .onConnectState ∧ w'.log.filter final = []) = true := by decide
  obtain ⟨w, hr, hw⟩ := exists_run_of_exec hexec
  obtain ⟨w', hs, hw'⟩ := (Option.any_eq_true _ _).mp hw
  exact ⟨_, w, w', hr, hs, of_decide_eq_true hw'⟩

end LibMumble.TLSConnection.Setup
