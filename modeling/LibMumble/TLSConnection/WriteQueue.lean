import LibMumble.TLSConnection.Frame

/-! # Queued writes

A call of `Write` on another thread pushes onto `wq_` and wakes the loop, and the wakeup is what
empties `wq_`. So a queue that is not empty is served by something: a pending wakeup, a call that
has yet to send one, or the drain that is under way (`Served`). The handling of a wakeup breaks this
if it does not drain the queue, which is the case before the connection is established: the bytes
then stay in `wq_` until some later `Write`. -/

namespace LibMumble.TLSConnection.WriteQueue

open World Lib

variable {w w' : World}

/-- A queue that is not empty is served. -/
def Served (w : World) : Prop :=
  w.wq ≠ [] → w.wqPending = true ∨ (∃ c ∈ w.calls, c.sending = true) ∨ .drain ∈ w.stack

/-- A wakeup is handled, and `Connect` called, only when it does not strand a buffer. -/
def DrainsInTime (w : World) : Act → Prop
  | .event .onDrainWriteQueue => w.state = .established ∨ w.wq = []
  | .connect _ => w.wq = []
  | _ => True

instance (w : World) : DecidablePred (DrainsInTime w) := fun a => by
  unfold DrainsInTime
  split <;> infer_instance

theorem served_of_nil (h : w.wq = []) : Served w := fun hne => absurd h hne

theorem served_of_same (hs : SameQueue w w') (h : Served w) : Served w' := by
  intro hne
  rw [hs.wq] at hne
  rw [hs.wqPending, hs.calls]
  rcases h hne with h | h | h
  · exact Or.inl h
  · exact Or.inr (Or.inl h)
  · exact Or.inr (Or.inr (hs.drain.mpr h))

/-- After a pass of the drain loop the queue is empty or the loop goes on. -/
theorem served_drainLoop (h : w.threadId = w.tid) : Served (drainLoop w) := by
  rw [drainLoop_onLoop h]
  cases hw : w.wq with
  | nil => exact served_of_nil hw
  | cons q rest => exact fun _ => Or.inr (Or.inr (by simp [World.push, observe]))

/-- A call keeps its place when another one moves on. -/
theorem sending_set {l : List Call} {i : ℕ} {c0 c1 : Call} (hi : l[i]? = some c0)
    (h0 : c0.sending = false) (h : ∃ c ∈ l, c.sending = true) :
    ∃ c ∈ l.set i c1, c.sending = true := by
  obtain ⟨c, hc, hs⟩ := h
  obtain ⟨j, hj⟩ := List.mem_iff_getElem?.mp hc
  have hij : i ≠ j := by
    rintro rfl
    rw [hi, Option.some.injEq] at hj
    rw [hj, hs] at h0
    cases h0
  refine ⟨c, List.mem_iff_getElem?.mpr ⟨j, ?_⟩, hs⟩
  rw [List.getElem?_set_ne hij, hj]

theorem served_setPc {i : ℕ} {c0 : Call} {pc : Pc} (hi : w.calls[i]? = some c0)
    (h0 : c0.sending = false) (h : Served w) : Served (setPc i c0 pc w) := by
  intro hne
  rcases h hne with h | h | h
  · exact Or.inl h
  · exact Or.inr (Or.inl (sending_set hi h0 h))
  · exact Or.inr (Or.inr h)

/-- **The step lemma.** -/
theorem served_step {a : Act} (hr : Rule w a w') (hl : Linked w) (hok : DrainsInTime w a)
    (h : Served w) : Served w' := by
  by_cases ha : a.loop
  · exact served_of_same (sameQueue_of_rule hr hl ha) h
  · cases hr with
    | @connect r => exact served_of_nil ((fresh_connect r w).wq.trans hok)
    | start => exact h
    | uvRunReturned =>
      rw [uvRunReturned_eq]
      exact h
    | storeZero => exact h
    | loopDelete => exact h
    | clearQueue => exact served_of_nil rfl
    | callFinalHandler =>
      rw [callFinalHandler_eq]
      exact h
    | onDrainWriteQueue hp =>
      unfold TLSConnection.onDrainWriteQueue
      split_ifs with hst
      · exact @served_drainLoop { w with wqPending := false } (hl hp)
      · -- the wakeup is lost, so there has to be nothing to wake up for
        exact served_of_nil (hok.resolve_left hst)
    | @drainReturned stack hp =>
      exact @served_drainLoop { w with stack := stack, wq := w.wq.tail } (hl hp)
    | begin =>
      intro hne
      rcases h hne with h | ⟨c, hc, hs⟩ | h
      · exact Or.inl h
      · exact Or.inr (Or.inl ⟨c, List.mem_append_left _ hc, hs⟩)
      · exact Or.inr (Or.inr h)
    | loadOff _ hi hpc => exact served_setPc hi (by rw [Call.sending, hpc]) h
    | loadDropped _ hi hpc => exact served_setPc hi (by rw [Call.sending, hpc]) h
    | @push i us buf early gen _ hi =>
      have hlt : i < w.calls.length := (List.getElem?_eq_some_iff.mp hi).1
      exact fun _ => Or.inr (Or.inl ⟨_, List.mem_set hlt _, rfl⟩)
    | sendDisconnect _ hi => exact @served_setPc (uvAsyncSend .dcasync w) _ _ _ hi rfl h
    | sendWrite => exact fun _ => Or.inl rfl
    | _ => exact absurd rfl ha

/-- **No queued write gets stuck**, in runs in which no wakeup is handled while buffers wait for the
connection to be established. -/
theorem no_write_stuck {handlers : Handlers} {s : ConnState} {as : List Act}
    (h : Run step DrainsInTime (new handlers s) as w) (hp : w.wqPending = false)
    (hd : .drain ∉ w.stack) (hc : ∀ c ∈ w.calls, c.sending = false) : w.wq = [] := by
  obtain ⟨-, hserved⟩ := invariant_of_run h (served_of_nil rfl)
    fun _ _ _ hr hl hok hs => served_step hr hl hok hs
  by_contra hne
  rcases hserved hne with h | ⟨c, hc', hs⟩ | h
  · rw [hp] at h
    cases h
  · rw [hc c hc'] at hs
    cases hs
  · exact hd h

/-- What the theorem speaks about: nothing is going to serve the queue. -/
def Unserved (w : World) : Prop :=
  w.wqPending = false ∧ .drain ∉ w.stack ∧ ∀ c ∈ w.calls, c.sending = false

instance (w : World) : Decidable (Unserved w) := inferInstanceAs (Decidable (_ ∧ _ ∧ _))

/-- A write after the connection is established is drained. -/
theorem no_write_stuck_later : ∃ w, Run step DrainsInTime (new openHandlers .invalid)
    (establishing ++ writing ++ [.event .onDrainWriteQueue, .inner (.sslReturn 1 0 []),
      .inner .drainReturned]) w ∧ w.state = .established ∧ Unserved w ∧ w.wq = [] := by
  obtain ⟨w, hr, hw⟩ := exists_run_of_exec (by decide : (exec step DrainsInTime
    (establishing ++ writing ++ [.event .onDrainWriteQueue, .inner (.sslReturn 1 0 []),
      .inner .drainReturned]) (new openHandlers .invalid)).any
    (fun w => w.state = .established ∧ Unserved w) = true)
  obtain ⟨hst, hu⟩ := of_decide_eq_true hw
  exact ⟨w, hr, hst, hu, no_write_stuck hr hu.1 hu.2.1 hu.2.2⟩

/-- A write during the handshake: its wakeup is handled before the connection is established. -/
theorem write_in_handshake_stuck : ∃ as w, Run step Any (new openHandlers .invalid) as w ∧
    w.state = .established ∧ Unserved w ∧ w.wq ≠ [] := by
  obtain ⟨w, hr, hw⟩ := exists_run_of_exec (by decide : (exec step Any
    (opening ++ writing ++ [.event .onDrainWriteQueue] ++ finishing) (new openHandlers .invalid)).any
    (fun w => w.state = .established ∧ Unserved w ∧ w.wq ≠ []) = true)
  exact ⟨_, w, hr, of_decide_eq_true hw⟩

end LibMumble.TLSConnection.WriteQueue
