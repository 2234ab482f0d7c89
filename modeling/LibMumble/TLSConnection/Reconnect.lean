import LibMumble.TLSConnection.Frame

/-! # One connection after another

A call of `Write` tests `thread_id_` and pushes in two steps, and the thread that ends a connection
empties `wq_` in between other steps, so a push can come too late: the buffer then stays in `wq_` and
is drained by the next connection. If every push comes while the connection that the call saw still
has to clear the queue (`OnTime`), every queued buffer belongs to the current connection
(`OwnData`). -/

namespace LibMumble.TLSConnection.Reconnect

open World Lib

variable {w w' : World}

/-- The thread is past its start and has still to clear the queue. -/
def beforeClear : Phase → Bool
  | .running | .runReturned | .idCleared | .loopDeleted => true
  | _ => false

/-- A call pushes while the connection it saw is the current one and still has to clear `wq_`. -/
def OnTime (w : World) : Act → Prop
  | .call (.push i) => match w.calls[i]? with
    | some ⟨_, _, _, .loaded gen⟩ => gen = w.gen ∧ beforeClear w.phase = true
    | _ => True
  | _ => True

instance (w : World) : DecidablePred (OnTime w) := fun a => by
  unfold OnTime
  split
  · split <;> infer_instance
  · infer_instance

/-- What is queued, and what was taken from the queue, was pushed by calls that saw the current
connection. -/
structure OwnData (w : World) : Prop where
  queued : ∀ q ∈ w.wq, q.gen = w.gen
  empty : w.phase = .idle ∨ w.phase = .created ∨ w.phase = .queueCleared ∨ w.phase = .finished →
    w.wq = []
  sent : ∀ buf gen, .sslWrite buf (some gen) ∈ w.log → gen = w.gen

theorem ownData_of_same (hs : SameQueue w w') (h : OwnData w) : OwnData w' where
  queued := by
    rw [hs.wq, hs.gen]
    exact h.queued
  empty hp := by
    rw [hs.wq]
    rcases hs.phase with hph | ⟨why, -, hph⟩
    · exact h.empty (hph ▸ hp)
    · simp [hph] at hp
  sent buf gen hm := by
    rw [hs.gen]
    exact h.sent buf gen ((hs.mem_log rfl).mp hm)

theorem ownData_drainLoop (ht : w.threadId = w.tid) (hp : w.phase = .running)
    (h : OwnData w) : OwnData (drainLoop w) := by
  rw [drainLoop_onLoop ht]
  cases hw : w.wq with
  | nil => exact h
  | cons q rest =>
    refine ⟨h.queued, fun hph => ?_, fun buf gen hm => ?_⟩
    · simp [World.push, observe, hp] at hph
    · simp only [World.push, observe, List.mem_append, List.mem_singleton] at hm
      rcases hm with hm | hm
      · exact h.sent buf gen hm
      · cases hm
        exact h.queued q (by simp [hw])

theorem ownData_step {a : Act} (hr : Rule w a w') (hl : Linked w) (hok : OnTime w a)
    (h : OwnData w) : OwnData w' := by
  by_cases ha : a.loop
  · exact ownData_of_same (sameQueue_of_rule hr hl ha) h
  · cases hr with
    | @connect r hp =>
      have hnil : w.wq = [] := h.empty (by tauto)
      have hf := fresh_connect r w
      exact ⟨by simp [hf.wq, hnil], fun _ => hf.wq.trans hnil, by simp [hf.log]⟩
    | start hp => exact ⟨h.queued, fun _ => h.empty (by tauto), h.sent⟩
    | uvRunReturned hp =>
      rw [uvRunReturned_eq]
      exact ⟨h.queued, fun hph => by simp at hph, h.sent⟩
    | storeZero => exact ⟨h.queued, fun hph => by simp [storeZero] at hph, h.sent⟩
    | loopDelete =>
      refine ⟨h.queued, fun hph => by simp [loopDelete, observe] at hph, fun buf gen hm => ?_⟩
      simp only [loopDelete, observe, List.mem_append, List.mem_singleton] at hm
      rcases hm with hm | hm
      · exact h.sent buf gen hm
      · cases hm
    | clearQueue => exact ⟨by simp [clearQueue], fun _ => rfl, h.sent⟩
    | callFinalHandler hp =>
      have hnil : w.wq = [] := h.empty (by tauto)
      unfold TLSConnection.callFinalHandler
      split
      next calls hcalls =>
        refine ⟨by simp [hnil], fun _ => hnil, fun buf gen hm => ?_⟩
        rcases List.mem_append.mp hm with hm | hm
        · exact h.sent buf gen hm
        · rcases mem_finalCall hcalls hm with ⟨-, h⟩ | ⟨-, h⟩ | ⟨-, h⟩ <;> cases h
      next => exact ⟨h.queued, fun hph => by simp [abort] at hph, h.sent⟩
    | onDrainWriteQueue hp =>
      unfold TLSConnection.onDrainWriteQueue
      split_ifs
      · exact @ownData_drainLoop { w with wqPending := false } (hl hp) hp
          ⟨h.queued, h.empty, h.sent⟩
      · exact ⟨h.queued, h.empty, h.sent⟩
    | @drainReturned stack hp =>
      refine @ownData_drainLoop { w with stack := stack, wq := w.wq.tail } (hl hp) hp
        ⟨fun q hq => h.queued q (List.mem_of_mem_tail hq), fun hph => ?_, h.sent⟩
      simp [hp] at hph
    | begin | loadOff | loadDropped => exact ⟨h.queued, h.empty, h.sent⟩
    | @push i us buf early gen _ hi =>
      have hok : gen = w.gen ∧ beforeClear w.phase = true := by simpa only [OnTime, hi] using hok
      refine ⟨fun q hq => ?_, fun hph => ?_, h.sent⟩
      · rcases List.mem_append.mp hq with hq | hq
        · exact h.queued q hq
        · rw [List.mem_singleton.mp hq]
          exact hok.1
      · -- a queue that has been cleared is not pushed to
        have hph : w.phase = .idle ∨ w.phase = .created ∨ w.phase = .queueCleared ∨
            w.phase = .finished := hph
        rcases hph with hph | hph | hph | hph <;> simp [hph, beforeClear] at hok
    | sendDisconnect | sendWrite =>
      refine ⟨h.queued, h.empty, fun buf gen hm => ?_⟩
      simp only [setPc, uvAsyncSend, observe, List.mem_append, List.mem_singleton] at hm
      rcases hm with hm | hm
      · exact h.sent buf gen hm
      · cases hm
    | _ => exact absurd rfl ha

/-- **No data of one connection leaks into another**, in runs in which every push is in time: what a
connection passes to `SSL_write` from its queue was pushed by calls that saw its own thread id. -/
theorem no_leak {handlers : Handlers} {s : ConnState} {as : List Act}
    (h : Run step OnTime (new handlers s) as w) {buf : ByteArray} {gen : ℕ}
    (hm : .sslWrite buf (some gen) ∈ w.log) : gen = w.gen := by
  obtain ⟨-, hown⟩ := invariant_of_run h ⟨nofun, fun _ => rfl, nofun⟩
    fun _ _ _ hr hl hok hs => ownData_step hr hl hok hs
  exact hown.sent buf gen hm

/-- A connection that is disconnected from another thread, the second call; its thread has ended but
for the final handler. -/
def closing : List Act :=
  [.call (.begin 3 .disconnect), .call (.load 1), .call (.send 1), .event .onDisconnectRequest,
    .thread (.uvRunReturned 0 ⟨0, ""⟩), .thread .storeZero, .thread .loopDelete, .thread .clearQueue]

/-- A write that is drained, and a second connection with a write of its own. -/
theorem no_leak_reconnect : ∃ w, Run step OnTime (new openHandlers .invalid)
    (establishing ++ writing ++ closing ++ [.thread .callFinalHandler] ++ establishing ++
      [.call (.begin 2 (.write ⟨some [8], 1, 1⟩)), .call (.load 2), .call (.push 2),
        .call (.send 2), .event .onDrainWriteQueue]) w ∧ 2 = w.gen := by
  have hexec : (exec step OnTime (establishing ++ writing ++ closing ++ [Act.thread .callFinalHandler] ++
      establishing ++ [Act.call (.begin 2 (.write ⟨some [8], 1, 1⟩)), .call (.load 2), .call (.push 2),
        .call (.send 2), .event .onDrainWriteQueue]) (new openHandlers .invalid)).any
      (fun w => .sslWrite ⟨some [8], 1, 1⟩ (some 2) ∈ w.log) = true := by decide
  obtain ⟨w, hr, hw⟩ := exists_run_of_exec hexec
  exact ⟨w, hr, no_leak hr (of_decide_eq_true hw)⟩

/-- A write that loads the thread id of the first connection and pushes after the queue was cleared:
the second connection sends it. -/
theorem late_push_leaks : ∃ as w buf gen, Run step Any (new openHandlers .invalid) as w ∧
    .sslWrite buf (some gen) ∈ w.log ∧ gen ≠ w.gen := by
  have hexec : (exec step Any (establishing ++ [Act.call (.begin 2 (.write ⟨some [7], 1, 1⟩)),
      .call (.load 0)] ++ closing ++ [Act.call (.push 0), .thread .callFinalHandler] ++ establishing ++
      [Act.call (.send 0), .event .onDrainWriteQueue]) (new openHandlers .invalid)).any
      (fun w => .sslWrite ⟨some [7], 1, 1⟩ (some 1) ∈ w.log ∧ 1 ≠ w.gen) = true := by decide
  obtain ⟨w, hr, hw⟩ := exists_run_of_exec hexec
  exact ⟨_, w, _, _, hr, of_decide_eq_true hw⟩

end LibMumble.TLSConnection.Reconnect
