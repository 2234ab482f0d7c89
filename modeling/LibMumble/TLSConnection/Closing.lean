import LibMumble.TLSConnection.Stack

/-! # A connection can always be ended

Whatever the code of the loop thread waits for can return (`unwinds`), and when it has returned to libuv
a pending connect request can fail, or a `Disconnect` of another thread can be handled; either closes
the handles (`closes`). Then `uv_run` returns and the thread comes to its end, so that no reachable state
of a connection is a dead end (`can_be_ended`). -/

namespace LibMumble.TLSConnection.Closing

open World Lib Protocol Setup Safety Stack

variable {w w' : World}

/-- libuv, OpenSSL and the verify handler keep their promises, no disconnect request is handled while a
connect request is pending, and no handle is closed twice. -/
def Fair (w : World) (a : Act) : Prop := Promised w a ∧ InTurn w a ∧ ClosesOnce w a

instance (w : World) : DecidablePred (Fair w) := fun _ => inferInstanceAs (Decidable (_ ∧ _ ∧ _))

/-- The same connection goes on. -/
def Going (w : World) (a : Act) : Prop := Fair w a ∧ ∀ r, a ≠ .connect r

/-- What is known in every state of such a run. -/
structure Ready (w : World) : Prop where
  linked : Linked w
  safe : Safe w
  untouched : Untouched w
  calm : ∀ why, w.phase ≠ .aborted why
  nested : Nested w
  tid : w.phase = .running → 0 < w.tid
  together : Together w

theorem tid_of_rule {a : Act} (hr : Rule w a w') (hl : Linked w)
    (h : w.phase = .running → 0 < w.tid) (hp : w'.phase = .running) : 0 < w'.tid := by
  have hloop : (∃ e, a = .event e) ∨ (∃ i, a = .inner i) → 0 < w'.tid := by
    intro ha
    have htid := h (phase_of_loop hr hl ha).1
    by_cases hloop : a.loop = true
    · rw [(sameQueue_of_rule hr hl hloop).tid]
      exact htid
    · cases hr with
      | onDrainWriteQueue hrun =>
        rw [(drained_onDrainWriteQueue (hl hrun)).tid]
        exact htid
      | drainReturned hrun =>
        rw [(drained_drainReturned (hl hrun)).tid]
        exact htid
      | _ => first | exact absurd rfl hloop | simp at ha
  cases a with
  | event e => exact hloop (Or.inl ⟨e, rfl⟩)
  | inner i => exact hloop (Or.inr ⟨i, rfl⟩)
  | connect r =>
    cases hr with
    | connect => rcases (fresh_connect r w).phase with hp' | hp' <;> simp [hp'] at hp
  | call c =>
    rw [(onlyCalls_of_rule hr).phase] at hp
    cases hr <;> exact h hp
  | thread t =>
    cases hr with
    | start _ ht => exact ht
    | uvRunReturned => simp [uvRunReturned_eq] at hp
    | storeZero | loopDelete | clearQueue => simp [storeZero, loopDelete, clearQueue, observe] at hp
    | callFinalHandler =>
      rw [callFinalHandler_eq] at hp
      simp only at hp
      split_ifs at hp

theorem ready_step {a : Act} (hr : Rule w a w') (hok : Fair w a) (h : Ready w) : Ready w' := by
  have hsafe := safe_step hr h.linked hok.1 h.safe
  refine ⟨linked_of_rule hr h.linked, hsafe, untouched_step hr h.linked hok.2.1 h.untouched,
    fun why hw => ?_, nested_step hr h.linked h.nested, tid_of_rule hr h.linked h.tid,
    together_of_rule hr h.linked h.together⟩
  rcases (goes_of_rule hr h.linked hok.1.2 h.safe.sound).ends why hw with
    rfl | ⟨hd, rfl⟩ | ⟨-, hconn, hp, -, hst⟩
  · exact hsafe.inv.reached hw
  · exact closesOnce_of_rule hr h.linked hw (h.calm _) hok.2.2
  · exact hst (h.untouched hconn (Or.inr hp)).1

theorem ready_new (handlers : Handlers) (s : ConnState) : Ready (new handlers s) :=
  ⟨linked_new handlers s, safe_new handlers s, nofun, nofun, .of_nil rfl, nofun,
    fun _ _ h => by simp [World.closed, new] at h⟩

/-! ### The code on the stack returns -/

/-- How far a frame is from its return. -/
def weight : Frame → ℕ
  | .establishedHandler _ | .readHandler _ => 2
  | _ => 1

/-- What is left to return, with the drains that are still to come. -/
def burden (w : World) : ℕ := (w.stack.map weight).sum + 3 * w.wq.length

/-- A step of the code on the stack, and what is left afterwards. -/
theorem unwind_of {i : Inner} (h : Ready w) (hok : Promised w (.inner i))
    (hends : ends w (.inner i) = none) (hs : step w (.inner i) = some w') (hlt : burden w' < burden w) :
    ∃ a t, Going w a ∧ step w a = some t ∧ (Ready t ∧ t.phase = .running) ∧ burden t < burden w := by
  have hr := step_rule hs
  have hfair : Fair w (.inner i) := ⟨hok, trivial, fun hne => absurd hends hne⟩
  have h' := ready_step hr hfair h
  refine ⟨_, w', ⟨hfair, by simp⟩, hs, ⟨h', ?_⟩, hlt⟩
  rcases (phase_of_loop hr h.linked (Or.inr ⟨i, rfl⟩)).2 with hp' | ⟨why, -, hp'⟩
  · exact hp'
  · exact absurd hp' (h'.calm why)

theorem burden_handleStarvedDone {k : Caller} (h : w.stack = []) :
    burden (handleStarvedDone k true w) ≤ 1 + 3 * w.wq.length := by
  unfold handleStarvedDone
  split
  · simp [burden, h]
  · rw [if_pos rfl]
    unfold onReadEstablished
    split_ifs
    · split
      · simp [burden, World.push, h, weight]
      · simp [burden, abort, h]
    · simp [burden, h]

theorem burden_drainLoop (ht : w.threadId = w.tid) (h : w.stack = []) :
    burden (drainLoop w) ≤ 2 + 3 * w.wq.length := by
  rw [drainLoop_onLoop ht]
  split
  · simp [burden, h]
  · simp [burden, World.push, observe, h, weight]

/-- **Something on the stack can return**, whatever it is. -/
theorem unwind_step (h : Ready w) (hp : w.phase = .running) (hne : w.stack ≠ []) :
    ∃ a t, Going w a ∧ step w a = some t ∧ (Ready t ∧ t.phase = .running) ∧ burden t < burden w := by
  have hshape := h.nested.shape
  have hsized := h.safe.sound.frames
  generalize hst : w.stack = stack at hshape
  cases hshape with
  | sslWrite =>
    refine unwind_of (i := .sslReturn 1 0 []) h ⟨?_, ?_⟩ ?_
      (by simp only [step, if_pos hp, stepInner, sslReturn, hst]; rfl) ?_
    · simp [Contract, hst]
    · simp [Documented, Returns, hst]
    · simp [ends, hst, writeEnds]
    · simp [burden, sslWriteReturned, observe, hst, weight]
  | idle => exact absurd hst hne
  | sslConnect k =>
    have hcalm : ends w (.inner (.sslReturn (-1) sslErrorWantRead [])) = none := by
      simp only [ends, hst]
      rfl
    refine unwind_of (i := .sslReturn (-1) sslErrorWantRead []) h ⟨?_, ?_⟩ hcalm
      (by simp only [step, if_pos hp, stepInner, sslReturn, hst]; rfl) ?_
    · simp [Contract, hst]
    · simp [Documented, Returns, hst]
    · have hwant : isWant sslErrorWantRead = true := rfl
      cases k <;> simp [burden, sslConnectReturned, handleStarvedDone, hwant, observe, hst, weight]
  | verifyHandler =>
    refine unwind_of (i := .handlerReturn true) h ⟨trivial, trivial⟩ rfl
      (by simp only [step, if_pos hp, stepInner, handlerReturn, hst]; rfl) ?_
    simp [burden, observe, hst, weight]
  | establishedHandler k =>
    refine unwind_of (i := .handlerReturn true) h ⟨trivial, trivial⟩ rfl
      (by simp only [step, if_pos hp, stepInner, handlerReturn, hst]; rfl) ?_
    have hle := @burden_handleStarvedDone { w with stack := [] } k rfl
    simp only [burden, hst, List.map_cons, List.map_nil, List.sum_cons, List.sum_nil, weight]
      at hle ⊢
    omega
  | sslRead processed =>
    obtain ⟨-, -, hcap⟩ : processed.WellFormed ∧ lastRead w.log = some processed.cap ∧
        0 < processed.cap := hsized (.sslRead processed) (by simp [hst])
    have hfit : (([] : List UInt8).length : ℤ) = max (-1) 0 ∧ -1 ≤ processed.capacity := by
      refine ⟨rfl, ?_⟩
      rw [ByteArray.capacity]
      omega
    have hcalm : ends w (.inner (.sslReturn (-1) sslErrorWantRead [])) = none := by
      simp only [ends, hst]
      rfl
    refine unwind_of (i := .sslReturn (-1) sslErrorWantRead []) h ⟨?_, ?_⟩ hcalm
      (by simp only [step, if_pos hp, stepInner, sslReturn, hst, if_pos hfit]; rfl) ?_
    · simp [Contract, hst]
    · simp [Documented, Returns, hst]
    · have hwant : isWant sslErrorWantRead = true := rfl
      simp [burden, sslReadReturned, hwant, observe, hst, weight]
  | readHandler processed =>
    refine unwind_of (i := .handlerReturn true) h ⟨trivial, trivial⟩ rfl
      (by simp only [step, if_pos hp, stepInner, handlerReturn, hst]; rfl) ?_
    simp [burden, World.push, hst, weight]
  | drain =>
    refine unwind_of (i := .drainReturned) h ⟨trivial, trivial⟩ rfl
      (by simp only [step, if_pos hp, stepInner, hst]; rfl) ?_
    have hle := @burden_drainLoop { w with stack := [], wq := w.wq.tail } (h.linked hp) rfl
    have hpos := List.length_pos_iff.mpr (h.nested.buffer (by simp [hst]))
    simp only [burden, drainReturned, hst, List.map_cons, List.map_nil, List.sum_cons,
      List.sum_nil, weight, List.length_tail] at hle ⊢
    omega

/-- **The code on the stack can return to libuv.** -/
theorem unwinds (h : Ready w) (hp : w.phase = .running) :
    Reaches step Going (fun u => (Ready u ∧ u.phase = .running) ∧ u.stack = []) w :=
  .of_measure burden (fun _ hu hne => unwind_step hu.1 hu.2 hne) ⟨h, hp⟩

/-! ### The handles are closed -/

/-- The loop runs, nothing waits, and all handles are closed. -/
structure Quit (w : World) : Prop where
  ready : Ready w
  phase : w.phase = .running
  stack : w.stack = []
  closed : ∀ h, w.closed h

theorem quit_of_shutdown {v : World} {s : ConnState} (h : Ready (shutdown s v))
    (hp : v.phase = .running) (hst : v.stack = []) (hopen : ∀ hd, ¬ v.closed hd) :
    Quit (shutdown s v) := by
  obtain ⟨-, heq⟩ | ⟨hd, -, hm, -⟩ := shutdown_cases s v
  · refine ⟨h, by rw [heq]; exact hp, by rw [heq]; exact hst, fun hd => ?_⟩
    rw [World.closed, heq]
    cases hd <;> simp [shutdownLog]
  · exact absurd hm (hopen hd)

/-- A `Disconnect` of another thread. -/
def disconnecting (w : World) : List Act :=
  [.call (.begin (w.tid + 1) .disconnect), .call (.load w.calls.length), .call (.send w.calls.length)]

/-- What the call leaves. -/
theorem run_disconnecting (h : Ready w) (hp : w.phase = .running) :
    ∃ v, Run step Going w (disconnecting w) v ∧ v.phase = .running ∧ v.stack = w.stack ∧
      v.connecting = w.connecting ∧ v.dcPending = true ∧ (v.closed .dcasync ↔ w.closed .dcasync) := by
  have hid : w.threadId = w.tid := h.linked hp
  have htid := h.tid hp
  have hoff : dispatch (w.tid + 1) w.tid = .offLoop := by
    rw [dispatch, if_neg (Nat.succ_ne_self _), if_pos htid]
  have hbegin : step w (.call (.begin (w.tid + 1) .disconnect)) =
      some { w with calls := w.calls ++ [⟨w.tid + 1, .disconnect, w.up, .entry⟩] } := by
    simp only [step, hp, stepCall]
  generalize hv1 : ({ w with calls := w.calls ++ [⟨w.tid + 1, .disconnect, w.up, .entry⟩] } : World) =
    v1 at hbegin
  have hload : step v1 (.call (.load w.calls.length)) = some (setPc w.calls.length
      ⟨w.tid + 1, .disconnect, w.up, .entry⟩ (.loaded w.gen) v1) := by
    subst hv1
    simp only [step, hp, stepCall, List.getElem?_concat_length, if_true, hid, hoff]
  generalize hv2 : setPc w.calls.length ⟨w.tid + 1, .disconnect, w.up, .entry⟩ (.loaded w.gen) v1 =
    v2 at hload
  have hcall : v2.calls[w.calls.length]? = some ⟨w.tid + 1, .disconnect, w.up, .loaded w.gen⟩ := by
    subst hv2 hv1
    simp [setPc]
  have hsend : step v2 (.call (.send w.calls.length)) = some (setPc w.calls.length
      ⟨w.tid + 1, .disconnect, w.up, .loaded w.gen⟩ .returned (uvAsyncSend .dcasync v2)) := by
    have hp2 : v2.phase = .running := by
      subst hv2 hv1
      exact hp
    simp only [step, hp2, stepCall, hcall]
  have hok : ∀ (u : World) (c : CallAct), Going u (.call c) :=
    fun _ _ => ⟨⟨⟨trivial, trivial⟩, trivial, fun hne => absurd rfl hne⟩, by simp⟩
  refine ⟨_, .cons (hok _ _) hbegin (.cons (hok _ _) hload (.cons (hok _ _) hsend (.nil _))), ?_⟩
  subst hv2 hv1
  refine ⟨hp, rfl, rfl, rfl, ?_⟩
  simp [World.closed, setPc, uvAsyncSend, observe]

/-- **The handles can be closed** once the code has returned to libuv. -/
theorem closes (h : Ready w) (hp : w.phase = .running) (hst : w.stack = []) :
    Reaches step Going Quit w := by
  by_cases hclosed : w.closed .dcasync
  · exact .now ⟨h, hp, hst, fun hd => h.together _ _ hclosed⟩
  have hopen : ∀ hd, ¬ w.closed hd := fun hd hc => hclosed (h.together _ _ hc)
  by_cases hconn : w.connecting = true
  · -- the connect request fails
    have hstate := (h.untouched hconn (Or.inr hp)).1
    have hgo : Going w (.event (.onConnect (-1) 0 ⟨0, ""⟩)) :=
      ⟨⟨⟨trivial, trivial⟩, trivial, fun _ => hopen⟩, by simp⟩
    have hs : step w (.event (.onConnect (-1) 0 ⟨0, ""⟩)) = some (shutdownError
        (errorFromUVError ⟨0, ""⟩) { w with connecting := false }) := by
      simp [step, hp, hst, stepEvent, hconn, onConnect, hstate]
    have h' := ready_step (step_rule hs) hgo.1 h
    exact .after hgo hs (.now (quit_of_shutdown h' hp hst hopen))
  · -- another thread disconnects
    rw [Bool.not_eq_true] at hconn
    obtain ⟨v, hrun, hpv, hstv, hcv, hdc, hsame⟩ := run_disconnecting h hp
    have hv : Ready v := hrun.invariant h fun _ _ _ hi hok hs => ready_step (step_rule hs) hok.1 hi
    have hopenv : ∀ hd, ¬ v.closed hd := fun hd hc => hclosed (hsame.mp (hv.together _ _ hc))
    have hgo : Going v (.event .onDisconnectRequest) :=
      ⟨⟨⟨trivial, trivial⟩, hcv.trans hconn, fun _ => hopenv⟩, by simp⟩
    have hs : step v (.event .onDisconnectRequest) =
        some (onDisconnectRequest { v with dcPending := false }) := by
      have hguard : v.phase = .running ∧ v.stack = [] := ⟨hpv, hstv.trans hst⟩
      have hguard' : v.dcPending = true ∧ ¬ v.closed .dcasync := ⟨hdc, hopenv _⟩
      simp only [step, if_pos hguard, stepEvent, if_pos hguard']
    have h' := ready_step (step_rule hs) hgo.1 hv
    have hquit := quit_of_shutdown h' hpv (hstv.trans hst) hopenv
    exact ⟨_, _, hrun.append (.cons hgo hs (.nil _)), hquit⟩

/-! ### The end -/

/-- The thread has come to its end. -/
def Ended (w : World) : Prop := w.phase = .finished ∧ Done w

theorem going_thread (w : World) (t : ThreadAct) : Going w (.thread t) :=
  ⟨⟨⟨contract_thread w t, trivial⟩, trivial, fun hne => absurd (by cases t <;> rfl) hne⟩, by simp⟩

/-- A step of the thread. -/
theorem reaches_thread {P : World → Prop} {t : ThreadAct} (h : Ready w)
    (hs : step w (.thread t) = some w') (h' : Ready w' → Reaches step Going P w') :
    Reaches step Going P w :=
  .after (going_thread w t) hs (h' (ready_step (step_rule hs) (going_thread w t).1 h))

theorem ends_queueCleared (h : Ready w) (hp : w.phase = .queueCleared) :
    Reaches step Going Ended w := by
  obtain ⟨hi, hf⟩ := inv_callFinalHandler h.safe.inv hp
  have hs : step w (.thread .callFinalHandler) = some (callFinalHandler w) := if_pos hp
  exact reaches_thread h hs fun _ => .now ⟨hf, hi.finished hf⟩

theorem ends_loopDeleted (h : Ready w) (hp : w.phase = .loopDeleted) :
    Reaches step Going Ended w := by
  have hs : step w (.thread .clearQueue) = some (clearQueue w) := if_pos hp
  exact reaches_thread h hs fun h' => ends_queueCleared h' rfl

theorem ends_idCleared (h : Ready w) (hp : w.phase = .idCleared) : Reaches step Going Ended w := by
  have hs : step w (.thread .loopDelete) = some (loopDelete w) := if_pos hp
  exact reaches_thread h hs fun h' => ends_loopDeleted h' rfl

theorem ends_runReturned (h : Ready w) (hp : w.phase = .runReturned) :
    Reaches step Going Ended w := by
  have hs : step w (.thread .storeZero) = some (storeZero w) := if_pos hp
  exact reaches_thread h hs fun h' => ends_idCleared h' rfl

theorem ends_running (h : Ready w) (hp : w.phase = .running) : Reaches step Going Ended w := by
  refine (unwinds h hp).then fun u hu => ?_
  refine (closes hu.1.1 hu.1.2 hu.2).then fun v hv => ?_
  have hguard : v.phase = .running ∧ v.stack = [] ∧
      (uvOK = uvOK → v.closed .tcpsock ∧ v.closed .wqasync ∧ v.closed .dcasync) :=
    ⟨hv.phase, hv.stack, fun _ => ⟨hv.closed _, hv.closed _, hv.closed _⟩⟩
  have hs : step v (.thread (.uvRunReturned uvOK ⟨0, ""⟩)) =
      some (uvRunReturned uvOK ⟨0, ""⟩ v) := if_pos hguard
  refine reaches_thread hv.ready hs fun h' => ends_runReturned h' ?_
  rw [uvRunReturned_eq]

end LibMumble.TLSConnection.Closing
