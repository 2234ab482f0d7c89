import LibMumble.TLSConnection.Safety
import LibMumble.TLSConnection.RemoteClose

/-! # What can be on the stack

The code of the loop thread is nested in a few ways only (`Shape`). While `OnDrainWriteQueue` holds
`wqlock_` nothing runs but `SSL_write` and, when the peer renegotiates, the verify handler below it. Each
return of `SSL_write` brings the release nearer, and nothing but a `Write` of the verify handler takes it
farther (`lock_held_briefly`). -/

namespace LibMumble.TLSConnection.Stack

open World Lib Protocol Setup Safety

variable {w w' : World}

/-! ### Shapes -/

/-- What can be on the stack: `Write` is called by handlers and by `OnDrainWriteQueue`, and the verify
handler below an SSL function. -/
inductive Shape : List Frame → Prop
  | idle : Shape []
  | sslConnect (k : Caller) : Shape [.sslConnect k]
  | establishedHandler (k : Caller) : Shape [.establishedHandler k]
  | sslRead (processed : ByteArray) : Shape [.sslRead processed]
  | readHandler (processed : ByteArray) : Shape [.readHandler processed]
  | drain : Shape [.drain]
  | verifyHandler {f stack} (h : Shape (f :: stack)) (hf : f.isSSL = true) :
      Shape (.verifyHandler :: f :: stack)
  | sslWrite {f stack} (h : Shape (f :: stack)) (hf : f.isHandler = true ∨ f = .drain) :
      Shape (.sslWrite :: f :: stack)

theorem Shape.of_nil (h : w.stack = []) : Shape w.stack := h ▸ .idle

theorem stack_shutdown (s : ConnState) (w : World) : (shutdown s w).stack = w.stack := by
  obtain ⟨p, new, heq, -⟩ := shutdown_eq s w
  rw [heq]

theorem stack_shutdownError (e : Error) (w : World) : (shutdownError e w).stack = w.stack :=
  stack_shutdown _ _

theorem shape_shutdown (s : ConnState) (h : w.stack = []) : Shape (shutdown s w).stack :=
  .of_nil ((stack_shutdown s w).trans h)

theorem shape_push {f : Frame} (hf : Shape [f]) (h : w.stack = []) : Shape (w.push f).stack := by
  show Shape (f :: w.stack)
  rw [h]
  exact hf

theorem shape_onReadEstablished (nread : ℤ) (heap : List UInt8) (h : w.stack = []) :
    Shape (onReadEstablished nread heap w).stack := by
  unfold onReadEstablished
  split_ifs
  · split
    · exact shape_push (.sslRead _) h
    · exact .of_nil h
  · exact .of_nil h

theorem shape_handleStarvedDone (k : Caller) (ok : Bool) (h : w.stack = []) :
    Shape (handleStarvedDone k ok w).stack := by
  unfold handleStarvedDone
  split
  · exact .of_nil h
  · split_ifs
    · exact shape_onReadEstablished _ _ h
    · exact .of_nil h

theorem shape_sslConnectReturned (k : Caller) (ret err : ℤ) (h : w.stack = []) :
    Shape (sslConnectReturned k ret err w).stack := by
  unfold sslConnectReturned
  split_ifs
  · exact shape_handleStarvedDone _ _ h
  · exact shape_handleStarvedDone _ _ ((stack_shutdownError _ w).trans h)
  · exact shape_handleStarvedDone _ _ ((stack_shutdown _ w).trans h)
  · unfold transitionToConnectionEstablishedState
    simp only
    split_ifs
    · exact shape_push (.establishedHandler _) h
    · exact shape_handleStarvedDone _ _ h
  · exact .of_nil h

theorem shape_sslReadReturned (processed : ByteArray) (ret err : ℤ) (data : List UInt8)
    (h : w.stack = []) : Shape (sslReadReturned processed ret err data w).stack := by
  unfold sslReadReturned
  split_ifs
  · exact .of_nil h
  · exact shape_shutdown _ h
  · exact shape_shutdown _ h
  · simp only
    split
    · exact .of_nil h
    · exact shape_push (.readHandler _) h
  · simp only
    split
    · exact .of_nil h
    · exact shape_push (.sslRead _) h

theorem shape_onRead (nread : ℤ) (buf heap : List UInt8) (last : UVErr) (h : w.stack = []) :
    Shape (onRead nread buf heap last w).stack := by
  unfold onRead
  split_ifs
  · exact .of_nil h
  · exact shape_shutdown _ h
  · exact shape_shutdown _ h
  · exact shape_shutdown _ h
  · split
    · exact .of_nil h
    · simp only
      split_ifs
      · exact shape_push (.sslConnect _) h
      · exact shape_onReadEstablished _ _ h

theorem shape_onConnect (status readStart : ℤ) (last : UVErr) (h : w.stack = []) :
    Shape (onConnect status readStart last w).stack := by
  unfold onConnect
  split_ifs
  · exact .of_nil h
  · exact shape_shutdown _ h
  · exact shape_shutdown _ h
  · exact shape_push (.sslConnect _) h

theorem stack_sslWriteReturned (ret err : ℤ) (w : World) :
    (sslWriteReturned ret err w).stack = w.stack := by
  unfold sslWriteReturned
  split_ifs
  · exact stack_shutdownError _ w
  · exact stack_shutdown _ w
  · rfl

theorem stack_bioRead (len : ℤ) (w : World) : (bioRead len w).stack = w.stack := by
  unfold bioRead
  split <;> rfl

theorem shape_sslVerifyCallback {f : Frame} {stack : List Frame} (chain : List PeerCert)
    (last : CryptoErr) (system : Bool) (now : ℤ) (h : Shape w.stack) (hst : w.stack = f :: stack)
    (hf : f.isSSL = true) : Shape (sslVerifyCallback chain last system now w).stack := by
  unfold sslVerifyCallback
  split
  · exact h
  · have hs : Shape (shutdownError (errorFromLastCryptoError last) w).stack := by
      rw [stack_shutdownError]
      exact h
    simp only
    split
    · exact hs
    · exact hs
  · split_ifs
    · show Shape (.verifyHandler :: w.stack)
      rw [hst] at h ⊢
      exact .verifyHandler h hf
    · exact h

theorem stack_drainLoop (h : w.threadId = w.tid) : (drainLoop w).stack =
    match w.wq with
    | [] => w.stack
    | _ :: _ => .sslWrite :: .drain :: w.stack := by
  rw [drainLoop_onLoop h]
  cases w.wq <;> rfl

theorem shape_drainLoop (ht : w.threadId = w.tid) (h : w.stack = []) :
    Shape (drainLoop w).stack := by
  rw [stack_drainLoop ht]
  split
  · exact .of_nil h
  · rw [h]
    exact .sslWrite .drain (Or.inr rfl)

theorem shape_event {e : Event} (hr : Rule w (.event e) w') (hl : Linked w) : Shape w'.stack := by
  cases hr with
  | onConnect _ hst => exact shape_onConnect _ _ _ hst
  | onRead _ hst => exact shape_onRead _ _ _ _ hst
  | onDrainWriteQueue hp hst =>
    unfold onDrainWriteQueue
    split_ifs
    · exact @shape_drainLoop { w with wqPending := false } (hl hp) hst
    · exact .of_nil hst
  | onDisconnectRequest _ hst => exact shape_shutdown _ hst

theorem shape_inner {i : Inner} (hr : Rule w (.inner i) w') (hl : Linked w) (h : Shape w.stack) :
    Shape w'.stack := by
  cases hr with
  | bioRead =>
    rw [stack_bioRead]
    exact h
  | sslVerify _ hst hf => exact shape_sslVerifyCallback _ _ _ _ h hst hf
  | sslConnectReturned _ hst =>
    rw [hst] at h
    cases h with
    | sslConnect => exact shape_sslConnectReturned _ _ _ rfl
  | sslReadReturned _ hst =>
    rw [hst] at h
    cases h with
    | sslRead => exact shape_sslReadReturned _ _ _ _ rfl
  | sslWriteReturned _ hst =>
    rw [stack_sslWriteReturned]
    rw [hst] at h
    cases h with
    | sslWrite h => exact h
  | disconnect hp =>
    rw [disconnect_onLoop (hl hp), stack_shutdown]
    exact h
  | write hp hst hf =>
    rw [write_onLoop (hl hp)]
    show Shape (.sslWrite :: w.stack)
    rw [hst] at h ⊢
    exact .sslWrite h (Or.inl hf)
  | verifyHandlerReturned _ hst =>
    rw [hst] at h
    cases h with
    | verifyHandler h => exact h
  | establishedHandlerReturned _ hst =>
    rw [hst] at h
    cases h with
    | establishedHandler => exact shape_handleStarvedDone _ _ rfl
  | readHandlerReturned _ hst =>
    rw [hst] at h
    cases h with
    | readHandler => exact .sslRead _
  | @drainReturned stack hp hst =>
    rw [hst] at h
    cases h with
    | drain => exact @shape_drainLoop { w with stack := [], wq := w.wq.tail } (hl hp) rfl

theorem shape_step {a : Act} (hr : Rule w a w') (hl : Linked w) (h : Shape w.stack) :
    Shape w'.stack := by
  cases a with
  | connect r =>
    cases hr with
    | connect => exact .of_nil (fresh_connect r w).stack
  | event e => exact shape_event hr hl
  | inner i => exact shape_inner hr hl h
  | call c =>
    rw [(onlyCalls_of_rule hr).stack]
    exact h
  | thread t =>
    cases hr with
    | uvRunReturned =>
      rw [uvRunReturned_eq]
      exact h
    | callFinalHandler =>
      rw [callFinalHandler_eq]
      exact h
    | start | storeZero | loopDelete | clearQueue => exact h

/-! ### The lock -/

/-- A return of `SSL_write` or `Write` to the code that runs under the lock. -/
def isReturn : Act → Bool
  | .inner (.sslReturn _ _ _) | .inner .drainReturned => true
  | _ => false

/-- A `Write` of a handler. -/
def isWrite : Act → Bool
  | .inner (.write _) => true
  | _ => false

/-- The returns that are left before `OnDrainWriteQueue` releases the lock: those of the `SSL_write`s on
the stack, and for each buffer that of `Write` and, if it is not the first, that of `SSL_write`. -/
def returnsLeft (w : World) : ℕ :=
  if .drain ∈ w.stack then w.stack.count .sslWrite + (2 * w.wq.length - 1) else 0

/-- Code waits only while the loop runs, and the lock is held only for a buffer. -/
structure Nested (w : World) : Prop where
  shape : Shape w.stack
  busy : w.stack ≠ [] → w.phase = .running ∨ ∃ why, w.phase = .aborted why
  buffer : .drain ∈ w.stack → w.wq ≠ []

/-- A frame of code that runs under the lock. -/
def underLock (f : Frame) : Prop := f = .drain ∨ f = .sslWrite ∨ f = .verifyHandler

theorem Shape.under_lock {stack : List Frame} (h : Shape stack) (hd : .drain ∈ stack) :
    ∀ f ∈ stack, underLock f := by
  induction h with
  | drain => simp [underLock]
  | verifyHandler _ _ ih =>
    have hin := ih ((List.mem_cons.mp hd).resolve_left nofun)
    exact List.forall_mem_cons.mpr ⟨Or.inr (Or.inr rfl), hin⟩
  | sslWrite _ _ ih =>
    have hin := ih ((List.mem_cons.mp hd).resolve_left nofun)
    exact List.forall_mem_cons.mpr ⟨Or.inr (Or.inl rfl), hin⟩
  | _ => simp at hd

theorem Nested.of_nil (h : w.stack = []) : Nested w :=
  ⟨.of_nil h, fun hne => absurd h hne, fun hd => by simp [h] at hd⟩

theorem stack_of_drain {stack : List Frame} (h : Shape w.stack) (hst : w.stack = .drain :: stack) :
    stack = [] := by
  rw [hst] at h
  cases h with
  | drain => rfl

/-- One pass of the loop of `OnDrainWriteQueue`. -/
theorem returnsLeft_drainLoop (ht : w.threadId = w.tid) (h : w.stack = []) :
    returnsLeft (drainLoop w) = 2 * w.wq.length ∧
    (.drain ∈ (drainLoop w).stack ↔ w.wq ≠ []) ∧ (drainLoop w).wq = w.wq := by
  rw [drainLoop_onLoop ht]
  cases hw : w.wq with
  | nil => simp [returnsLeft, h, hw]
  | cons q rest =>
    refine ⟨?_, by simp [World.push, observe], hw⟩
    simp only [returnsLeft, World.push, observe, h, hw, List.mem_cons, List.length_cons]
    simp
    omega

theorem nested_loop {a : Act} (hr : Rule w a w') (hl : Linked w) (h : Nested w)
    (ha : (∃ e, a = .event e) ∨ ∃ i, a = .inner i) : Nested w' := by
  obtain ⟨hrun, hphase⟩ := phase_of_loop hr hl ha
  refine ⟨shape_step hr hl h.shape, fun _ => hphase.imp id fun ⟨why, _, hp⟩ => ⟨why, hp⟩,
    fun hd => ?_⟩
  by_cases hloop : a.loop = true
  · have hs := sameQueue_of_rule hr hl hloop
    rw [hs.wq]
    exact h.buffer (hs.drain.mp hd)
  · cases hr with
    | onDrainWriteQueue _ hst =>
      unfold onDrainWriteQueue at hd ⊢
      split_ifs at hd ⊢
      · obtain ⟨-, hiff, hwq⟩ := @returnsLeft_drainLoop { w with wqPending := false } (hl hrun) hst
        rw [hwq]
        exact hiff.mp hd
      · rw [hst] at hd
        cases hd
    | @drainReturned stack _ hst =>
      obtain ⟨-, hiff, hwq⟩ := @returnsLeft_drainLoop { w with stack := stack, wq := w.wq.tail }
        (hl hrun) (stack_of_drain h.shape hst)
      rw [drainReturned, hwq]
      exact hiff.mp hd
    | _ => first | exact absurd rfl hloop | simp at ha

/-- The thread leaves the loop with nothing on the stack. -/
theorem nested_thread {t : ThreadAct} (hr : Rule w (.thread t) w') (h : Nested w) : Nested w' := by
  have hnil : w.stack = [] := by
    by_contra hne
    rcases h.busy hne with hp | ⟨why, hp⟩
    · cases hr with
      | uvRunReturned _ hst => exact hne hst
      | start hp' | storeZero hp' | loopDelete hp' | clearQueue hp' | callFinalHandler hp' =>
        rw [hp] at hp'
        cases hp'
    · cases hr with
      | start hp' | storeZero hp' | loopDelete hp' | clearQueue hp' | callFinalHandler hp'
      | uvRunReturned hp' =>
        rw [hp] at hp'
        cases hp'
  refine .of_nil ?_
  cases hr with
  | uvRunReturned =>
    rw [uvRunReturned_eq]
    exact hnil
  | callFinalHandler =>
    rw [callFinalHandler_eq]
    exact hnil
  | start | storeZero | loopDelete | clearQueue => exact hnil

theorem nested_step {a : Act} (hr : Rule w a w') (hl : Linked w) (h : Nested w) : Nested w' := by
  cases a with
  | connect r =>
    cases hr with
    | connect => exact .of_nil (fresh_connect r w).stack
  | thread t => exact nested_thread hr h
  | event e => exact nested_loop hr hl h (Or.inl ⟨e, rfl⟩)
  | inner i => exact nested_loop hr hl h (Or.inr ⟨i, rfl⟩)
  | call c =>
    have hs := onlyCalls_of_rule hr
    refine ⟨shape_step hr hl h.shape, fun hne => ?_, fun hd => ?_⟩
    · rw [hs.phase]
      exact h.busy (hs.stack ▸ hne)
    · rw [hs.stack] at hd
      have hne := h.buffer hd
      cases hr with
      | push => simp [setPc, wqPush]
      | _ => exact hne

/-- What one step does under the lock. -/
structure Locked (w w' : World) (a : Act) : Prop where
  pushes : w'.pushes = w.pushes
  left : (if isReturn a = true then 1 else 0) + returnsLeft w' =
    returnsLeft w + (if isWrite a = true then 1 else 0)
  released : .drain ∉ w'.stack → w'.stack = [] ∧ w'.wq = []

/-- A step that leaves the queue alone: only its `SSL_write`s count. -/
theorem locked_of_count {a : Act} (hd : .drain ∈ w.stack) (hd' : .drain ∈ w'.stack)
    (hp : w'.pushes = w.pushes) (hwq : w'.wq = w.wq)
    (hc : (if isReturn a = true then 1 else 0) + w'.stack.count .sslWrite =
      w.stack.count .sslWrite + (if isWrite a = true then 1 else 0)) : Locked w w' a := by
  refine ⟨hp, ?_, fun hn => absurd hd' hn⟩
  rw [returnsLeft, returnsLeft, if_pos hd, if_pos hd', hwq]
  omega

theorem count_sslVerifyCallback (chain : List PeerCert) (last : CryptoErr) (system : Bool) (now : ℤ)
    (w : World) : (sslVerifyCallback chain last system now w).stack.count .sslWrite =
      w.stack.count .sslWrite := by
  unfold sslVerifyCallback
  split
  · rfl
  · have hs := stack_shutdownError (errorFromLastCryptoError last) w
    simp only
    split
    · rw [hs]
    · show (shutdownError (errorFromLastCryptoError last) w).stack.count .sslWrite = _
      rw [hs]
  · split_ifs
    · simp [World.push, observe]
    · rfl

/-- The code on the stack under the lock. -/
theorem locked_inner {i : Inner} (hr : Rule w (.inner i) w') (hl : Linked w) (h : Nested w)
    (hd : .drain ∈ w.stack) : Locked w w' (.inner i) := by
  have hunder := h.shape.under_lock hd
  by_cases hloop : (Act.inner i).loop = true
  · have hs := sameQueue_of_rule hr hl hloop
    refine locked_of_count hd (hs.drain.mpr hd) hs.pushes hs.wq ?_
    cases hr with
    | bioRead =>
      rw [stack_bioRead]
      simp [isReturn, isWrite]
    | sslVerify =>
      rw [count_sslVerifyCallback]
      simp [isReturn, isWrite]
    | sslWriteReturned _ hst =>
      rw [stack_sslWriteReturned, hst, List.count_cons_self]
      simp [isReturn, isWrite, observe, Nat.add_comm]
    | disconnect hp =>
      rw [disconnect_onLoop (hl hp), stack_shutdown]
      simp [isReturn, isWrite]
    | write hp =>
      rw [write_onLoop (hl hp)]
      simp [isReturn, isWrite, observe, World.push]
    | verifyHandlerReturned _ hst =>
      rw [hst]
      simp [isReturn, isWrite, observe]
    | drainReturned => simp [Act.loop] at hloop
    | sslConnectReturned _ hst | sslReadReturned _ hst | establishedHandlerReturned _ hst
    | readHandlerReturned _ hst =>
      have hf := hunder _ (by rw [hst]; exact List.mem_cons_self)
      simp [underLock] at hf
  · cases hr with
    | @drainReturned stack hp hst =>
      have hwq : 0 < w.wq.length := List.length_pos_iff.mpr (h.buffer hd)
      have hnil := stack_of_drain h.shape hst
      obtain ⟨hleft, hiff, hwq'⟩ := @returnsLeft_drainLoop
        { w with stack := stack, wq := w.wq.tail } (hl hp) hnil
      refine ⟨(drained_drainReturned (hl hp)).pushes, ?_, fun hn => ?_⟩
      · rw [drainReturned, hleft, returnsLeft, if_pos hd, hst, hnil]
        simp only [isReturn, isWrite, if_true, List.length_tail]
        simp
        omega
      · have hw : w.wq.tail = [] := by
          by_contra hw
          exact hn (hiff.mpr hw)
        refine ⟨?_, ?_⟩
        · rw [drainReturned, @stack_drainLoop { w with stack := stack, wq := w.wq.tail } (hl hp)]
          simp only [hw, hnil]
        · rw [drainReturned, hwq']
          exact hw
    | _ => exact absurd rfl hloop

/-- **The step lemma of the lock.** -/
theorem locked_of_rule {a : Act} (hr : Rule w a w') (hl : Linked w) (h : Nested w)
    (hd : .drain ∈ w.stack) : Locked w w' a := by
  have hne : w.stack ≠ [] := List.ne_nil_of_mem hd
  have hbusy := h.busy hne
  cases a with
  | connect r =>
    cases hr with
    | connect hp => rcases hbusy with hb | ⟨why, hb⟩ <;> simp [hb] at hp
  | thread t =>
    cases hr with
    | uvRunReturned _ hst => exact absurd hst hne
    | start hp | storeZero hp | loopDelete hp | clearQueue hp | callFinalHandler hp =>
      rcases hbusy with hb | ⟨why, hb⟩ <;> simp [hb] at hp
  | event e =>
    cases hr with
    | onConnect _ hst | onRead _ hst | onDrainWriteQueue _ hst | onDisconnectRequest _ hst =>
      exact absurd hst hne
  | call c =>
    have hs := (onlyCalls_of_rule hr).stack
    cases hr with
    | push _ _ hlock => exact absurd hd hlock
    | begin | loadOff | loadDropped | sendDisconnect | sendWrite =>
      exact locked_of_count hd hd rfl rfl (by rw [hs]; simp [isReturn, isWrite])
  | inner i => exact locked_inner hr hl h hd

/-! ### The release -/

/-- The environment keeps its promises and the connection is not shut down. -/
def Releasing (w : World) (a : Act) : Prop := .drain ∈ w.stack ∧ Promised w a ∧ ends w a = none

/-- The lock is released, and the process goes on. -/
def Released (w : World) : Prop := .drain ∉ w.stack ∧ w.phase = .running

theorem released_step (hl : Linked w) (h : Nested w) (hp : w.phase = .running) (hd : .drain ∈ w.stack) :
    ∃ a t, Releasing w a ∧ step w a = some t ∧ ((Linked t ∧ Nested t) ∧ t.phase = .running) ∧
      t.stack.length + 3 * t.wq.length < w.stack.length + 3 * w.wq.length := by
  have hwq : 0 < w.wq.length := List.length_pos_iff.mpr (h.buffer hd)
  have hgo : ∀ {i : Inner} {t : World}, Promised w (.inner i) → ends w (.inner i) = none →
      step w (.inner i) = some t → t.phase = .running →
      t.stack.length + 3 * t.wq.length < w.stack.length + 3 * w.wq.length →
      ∃ a t, Releasing w a ∧ step w a = some t ∧ ((Linked t ∧ Nested t) ∧ t.phase = .running) ∧
        t.stack.length + 3 * t.wq.length < w.stack.length + 3 * w.wq.length := by
    intro i t hok he hs hpt hlt
    have hr := step_rule hs
    exact ⟨_, t, ⟨hd, hok, he⟩, hs, ⟨⟨linked_of_rule hr hl, nested_step hr hl h⟩, hpt⟩, hlt⟩
  have hshape := h.shape
  obtain ⟨stack, hst⟩ : ∃ stack, w.stack = stack := ⟨_, rfl⟩
  rw [hst] at hshape
  have hin : .drain ∈ stack := hst ▸ hd
  cases hshape with
  | sslWrite =>
    refine hgo (i := .sslReturn 1 0 []) ⟨?_, ?_⟩ ?_
      (by simp only [step, if_pos hp, stepInner, sslReturn, hst]; rfl) ?_ ?_
    · simp [Contract, hst]
    · simp [Documented, Returns, hst]
    · simp [ends, hst, writeEnds]
    · simp [sslWriteReturned, observe, hp]
    · simp [sslWriteReturned, observe, hst]
  | verifyHandler =>
    refine hgo (i := .handlerReturn true) ⟨trivial, trivial⟩ rfl
      (by simp only [step, if_pos hp, stepInner, handlerReturn, hst]; rfl) ?_ ?_
    · simp [observe, hp]
    · simp [observe, hst]
  | drain =>
    refine hgo (i := .drainReturned) ⟨trivial, trivial⟩ rfl
      (by simp only [step, if_pos hp, stepInner, hst]; rfl) ?_ ?_
    · exact (drained_drainReturned (hl hp)).phase.trans hp
    · rw [drainReturned, drainLoop_onLoop (by exact hl hp)]
      split
      · simp [hst]
        omega
      · simp [World.push, observe, hst]
        omega
  | _ => simp at hin

/-- **The lock can be released.** -/
theorem release (hl : Linked w) (h : Nested w) (hp : w.phase = .running) :
    Reaches step Releasing Released w := by
  have hreach : Reaches step Releasing
      (fun u => ((Linked u ∧ Nested u) ∧ u.phase = .running) ∧ .drain ∉ u.stack) w :=
    .of_measure (fun u => u.stack.length + 3 * u.wq.length)
      (fun u hu hnot => released_step hu.1.1 hu.1.2 hu.2 (not_not.mp hnot)) ⟨⟨hl, h⟩, hp⟩
  exact hreach.then fun u hu => .now ⟨hu.2, hu.1.2⟩

/-- The process goes on under the lock, if no handle is closed twice. -/
theorem running_of_locked {a : Act} (hr : Rule w a w') (hl : Linked w) (h : Safe w)
    (hok : Promised w a) (honce : ClosesOnce w a) (hd : .drain ∈ w.stack) (hp : w.phase = .running) :
    w'.phase = .running := by
  have hne : w.stack ≠ [] := List.ne_nil_of_mem hd
  have hcalm : ∀ why, w'.phase ≠ .aborted why := by
    intro why hw
    rcases (goes_of_rule hr hl hok.2 h.sound).ends why hw with rfl | ⟨hd, rfl⟩ | ⟨-, -, -, hnil, -⟩
    · exact (safe_step hr hl hok h).inv.reached hw
    · exact closesOnce_of_rule hr hl hw (by simp [hp]) honce
    · exact hne hnil
  cases a with
  | connect r =>
    cases hr with
    | connect hp' => simp [hp] at hp'
  | thread t =>
    cases hr with
    | uvRunReturned _ hst => exact absurd hst hne
    | start hp' | storeZero hp' | loopDelete hp' | clearQueue hp' | callFinalHandler hp' =>
      simp [hp] at hp'
  | call c => exact (onlyCalls_of_rule hr).phase.trans hp
  | event e =>
    exact (phase_of_loop hr hl (Or.inl ⟨e, rfl⟩)).2.resolve_right fun ⟨why, _, hw⟩ => hcalm why hw
  | inner i =>
    exact (phase_of_loop hr hl (Or.inr ⟨i, rfl⟩)).2.resolve_right fun ⟨why, _, hw⟩ => hcalm why hw

/-- What is known of a continuation under the lock. -/
structure Brief (w w' : World) (bs : List Act) : Prop where
  pushes : w'.pushes = w.pushes
  left : bs.countP isReturn + returnsLeft w' = returnsLeft w + bs.countP isWrite
  frames : ∀ f ∈ w'.stack, underLock f
  released : .drain ∉ w'.stack → w'.stack = [] ∧ w'.wq = []
  goes : .drain ∈ w'.stack → w'.phase = .running → Reaches step Releasing Released w'

theorem brief_of_run {bs : List Act} (h : Run step (fun u _ => .drain ∈ u.stack) w bs w')
    (hl : Linked w) (hn : Nested w) (hd : .drain ∈ w.stack) : Brief w w' bs := by
  induction h with
  | nil =>
    exact ⟨rfl, by simp, hn.shape.under_lock hd, fun hno => absurd hd hno, fun _ => release hl hn⟩
  | @cons u v x a as _ hs hrest ih =>
    have hr := step_rule hs
    have hlock := locked_of_rule hr hl hn hd
    have hl' := linked_of_rule hr hl
    have hn' := nested_step hr hl hn
    by_cases hd' : .drain ∈ v.stack
    · obtain ⟨hp, hleft, hframes, hrel, hgo⟩ := ih hl' hn' hd'
      refine ⟨hp.trans hlock.pushes, ?_, hframes, hrel, hgo⟩
      have := hlock.left
      rw [List.countP_cons, List.countP_cons]
      omega
    · -- the lock has been released, and the run of steps under it is over
      cases hrest with
      | cons hok => exact absurd hok hd'
      | nil =>
        obtain ⟨hst, hwq⟩ := hlock.released hd'
        refine ⟨hlock.pushes, ?_, by simp [hst], fun _ => ⟨hst, hwq⟩, fun hin => absurd hin hd'⟩
        have := hlock.left
        rw [List.countP_cons, List.countP_cons, List.countP_nil, List.countP_nil]
        omega

theorem running_of_run {bs : List Act} (h : Run step (fun u _ => .drain ∈ u.stack) w bs w')
    (h' : Run step (fun u a => Promised u a ∧ ClosesOnce u a) w bs w') (hl : Linked w) (hs : Safe w)
    (hp : w.phase = .running) : w'.phase = .running := by
  have hkeep := (h.and h').invariant (I := fun u => Linked u ∧ Safe u ∧ u.phase = .running)
    ⟨hl, hs, hp⟩ fun u a v ⟨hl, hs, hp⟩ ⟨hd, hok, honce⟩ hstep => by
      have hr := step_rule hstep
      exact ⟨linked_of_rule hr hl, safe_step hr hl hok hs, running_of_locked hr hl hs hok honce hd hp⟩
  exact hkeep.2.2

end LibMumble.TLSConnection.Stack
