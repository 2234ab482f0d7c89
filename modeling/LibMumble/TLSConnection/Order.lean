import LibMumble.TLSConnection.Frame

/-! # The order of queued writes

The queue is a list that calls of `Write` append to and `OnDrainWriteQueue` takes from at the front,
so the buffers passed to `SSL_write` and those waiting are together the buffers pushed. Two details:
`OnDrainWriteQueue` pops the front only after `Write` has returned, so that during a drain the front
is passed already (`waiting`); and the thread clears the queue at its end, so that the pushes counted
are those since the last clear, which a `Ledger` keeps beside the connection. -/

namespace LibMumble.TLSConnection.Order

open World Lib

variable {w w' : World} {n : ℕ}

/-- The buffers taken from the queue and passed to `SSL_write`, each with the connection seen by the
call that pushed it. -/
def passed (w : World) : List (ByteArray × ℕ) :=
  w.log.filterMap fun o => match o with
    | .sslWrite buf (some gen) => some (buf, gen)
    | _ => none

/-- The part of the queue that is not passed yet. -/
def waiting (w : World) : List Queued := if .drain ∈ w.stack then w.wq.tail else w.wq

/-- What of an entry is passed on. -/
def contents (l : List Queued) : List (ByteArray × ℕ) := l.map fun q => (q.buf, q.gen)

theorem waiting_of_mem (h : .drain ∈ w.stack) : waiting w = w.wq.tail := if_pos h

theorem waiting_of_notMem (h : .drain ∉ w.stack) : waiting w = w.wq := if_neg h

theorem contents_append (l l' : List Queued) : contents (l ++ l') = contents l ++ contents l' :=
  List.map_append

/-- A connection, and how many pushes there had been when `wq_` was last cleared. -/
structure Ledger where
  world : World
  cleared : ℕ

/-- The count after a step. -/
def note (w : World) (n : ℕ) : Act → ℕ
  | .thread .clearQueue => w.pushes.length
  | _ => n

def Ledger.step (l : Ledger) (a : Act) : Option Ledger :=
  (TLSConnection.step l.world a).map fun w => ⟨w, note l.world l.cleared a⟩

/-- The queue has not been cleared at the end of the connection, and the process goes on. -/
def uncleared : Phase → Bool
  | .queueCleared | .finished | .aborted _ => false
  | _ => true

/-- **The balance**: what was pushed since the last clear is passed or waiting, and all of it waits
when no connection is up. -/
structure Balanced (w : World) (n : ℕ) : Prop where
  le : n ≤ w.pushes.length
  once : w.stack.count .drain ≤ 1
  sent : uncleared w.phase = true → passed w ++ contents (waiting w) = contents (w.pushes.drop n)
  rest : w.phase = .idle ∨ w.phase = .queueCleared ∨ w.phase = .finished → w.wq = w.pushes.drop n

theorem passed_append {new : List Obs} (hl : w'.log = w.log ++ new)
    (hn : ∀ o ∈ new, o.fromQueue = false) : passed w' = passed w := by
  have hnil : (new.filterMap fun o => match o with
      | .sslWrite buf (some gen) => some (buf, gen)
      | _ => none) = [] := by
    rw [List.filterMap_eq_nil_iff]
    intro o ho
    have := hn o ho
    split
    · cases this
    · rfl
  rw [passed, hl, List.filterMap_append, hnil, List.append_nil]
  rfl

theorem fromQueue_of_ofLoop {o : Obs} (h : ofLoop o = true) : o.fromQueue = false := by
  cases o with
  | sslWrite buf queued => simpa [ofLoop] using h
  | _ => rfl

/-- The balance speaks about the queue, the pushes, the drains, the buffers passed and the phase. -/
theorem balanced_of_eq (h : Balanced w n) (hq : w'.wq = w.wq) (hp : w'.pushes = w.pushes)
    (hd : w'.stack.count .drain = w.stack.count .drain) (hs : passed w' = passed w)
    (hu : uncleared w'.phase = true → uncleared w.phase = true)
    (hr : w'.phase = .idle ∨ w'.phase = .queueCleared ∨ w'.phase = .finished →
      w.phase = .idle ∨ w.phase = .queueCleared ∨ w.phase = .finished) : Balanced w' n := by
  have hdrain : .drain ∈ w'.stack ↔ .drain ∈ w.stack := by
    rw [← List.count_pos_iff, hd, List.count_pos_iff]
  refine ⟨?_, ?_, fun hph => ?_, fun hph => ?_⟩
  · rw [hp]
    exact h.le
  · rw [hd]
    exact h.once
  · rw [hs, hp, ← h.sent (hu hph), waiting, waiting, hq]
    simp only [hdrain]
  · rw [hq, hp]
    exact h.rest (hr hph)

theorem balanced_of_same (hs : SameQueue w w') (h : Balanced w n) : Balanced w' n := by
  obtain ⟨new, hl, hn⟩ := hs.log
  have hpass : passed w' = passed w := passed_append hl fun o ho => fromQueue_of_ofLoop (hn o ho)
  refine balanced_of_eq h hs.wq hs.pushes hs.drains hpass ?_ ?_
  · rcases hs.phase with hp | ⟨why, -, hp⟩ <;> rw [hp]
    · exact id
    · exact nofun
  · rcases hs.phase with hp | ⟨why, -, hp⟩ <;> rw [hp]
    · exact id
    · simp

/-- One pass of the drain loop. -/
theorem balanced_drainLoop (ht : w.threadId = w.tid) (hp : w.phase = .running)
    (hle : n ≤ w.pushes.length) (hd : .drain ∉ w.stack)
    (h : passed w ++ contents w.wq = contents (w.pushes.drop n)) : Balanced (drainLoop w) n := by
  have hzero : w.stack.count .drain = 0 := List.count_eq_zero_of_not_mem hd
  rw [drainLoop_onLoop ht]
  cases hw : w.wq with
  | nil =>
    refine ⟨hle, hzero.le.trans zero_le_one, fun _ => ?_, fun hph => by simp [hp] at hph⟩
    rw [← h, waiting_of_notMem hd]
  | cons q rest =>
    refine ⟨hle, ?_, fun _ => ?_, fun hph => ?_⟩
    · simp [World.push, observe, hzero]
    · -- the front moves from the queue to the buffers passed
      simp only [passed, waiting, World.push, observe, List.filterMap_append, List.mem_cons,
        true_or, or_true, if_true]
      rw [← h, hw, List.tail_cons, List.append_assoc]
      rfl
    · simp [World.push, observe, hp] at hph

/-- A push: as `OnDrainWriteQueue` holds the lock, the whole queue waits. -/
theorem balanced_push {q : Queued} (h : Balanced w n) (hd : .drain ∉ w.stack)
    (hq : w'.wq = w.wq ++ [q]) (hp : w'.pushes = w.pushes ++ [q]) (hst : w'.stack = w.stack)
    (hlog : w'.log = w.log) (hph : w'.phase = w.phase) : Balanced w' n := by
  have hd' : .drain ∉ w'.stack := by rwa [hst]
  have hdrop : w'.pushes.drop n = w.pushes.drop n ++ [q] := by
    rw [hp, List.drop_append_of_le_length h.le]
  have hpass : passed w' = passed w := by rw [passed, hlog, passed]
  refine ⟨?_, by rw [hst]; exact h.once, fun hu => ?_, fun hr => ?_⟩
  · have hle := h.le
    rw [hp, List.length_append]
    omega
  · have hsent := h.sent (hph ▸ hu)
    rw [waiting_of_notMem hd] at hsent
    calc passed w' ++ contents (waiting w')
        = passed w ++ contents w.wq ++ contents [q] := by
          rw [hpass, waiting_of_notMem hd', hq, contents_append, List.append_assoc]
      _ = contents (w'.pushes.drop n) := by rw [hsent, hdrop, contents_append]
  · rw [hq, hdrop, h.rest (hph ▸ hr)]

/-- **The step lemma.** -/
theorem balanced_step {a : Act} (hr : Rule w a w') (hl : Linked w) (h : Balanced w n) :
    Balanced w' (note w n a) := by
  by_cases ha : a.loop
  · have hn : note w n a = n := by
      unfold note
      split
      · cases ha
      · rfl
    rw [hn]
    exact balanced_of_same (sameQueue_of_rule hr hl ha) h
  · cases hr with
    | @connect r hp =>
      have hq : w.wq = w.pushes.drop n := h.rest (hp.imp_right Or.inr)
      have hf := fresh_connect r w
      refine ⟨by rw [hf.pushes]; exact h.le, by simp [hf.stack], fun _ => ?_, fun _ => ?_⟩
      · simp [passed, waiting, hf.log, hf.stack, hf.wq, hf.pushes, hq, note]
      · rw [hf.wq, hf.pushes]
        exact hq
    | start hp =>
      refine balanced_of_eq h rfl rfl rfl rfl (fun _ => by rw [hp]; rfl) ?_
      simp [threadStart]
    | uvRunReturned hp =>
      rw [uvRunReturned_eq]
      exact balanced_of_eq h rfl rfl rfl rfl (fun _ => by rw [hp]; rfl) (by simp)
    | storeZero hp =>
      refine balanced_of_eq h rfl rfl rfl rfl (fun _ => by rw [hp]; rfl) ?_
      simp [storeZero]
    | loopDelete hp =>
      have hpass : passed (loopDelete w) = passed w :=
        @passed_append w (loopDelete w) [.uvLoopDelete] rfl (by simp [Obs.fromQueue])
      refine balanced_of_eq h rfl rfl rfl hpass (fun _ => by rw [hp]; rfl) ?_
      simp [loopDelete, observe]
    | clearQueue =>
      exact ⟨le_rfl, h.once, nofun, fun _ => by simp [clearQueue, note]⟩
    | callFinalHandler hp =>
      have hq : w.wq = w.pushes.drop n := h.rest (Or.inr (Or.inl hp))
      unfold TLSConnection.callFinalHandler
      split
      · exact ⟨h.le, h.once, nofun, fun _ => hq⟩
      · exact ⟨h.le, h.once, nofun, by simp [abort]⟩
    | @onDrainWriteQueue hp hst =>
      have hd : .drain ∉ w.stack := by simp [hst]
      have hsent := h.sent (by rw [hp]; rfl)
      rw [waiting_of_notMem hd] at hsent
      unfold TLSConnection.onDrainWriteQueue
      split_ifs
      · exact @balanced_drainLoop { w with wqPending := false } n (hl hp) hp h.le hd hsent
      · exact balanced_of_eq h rfl rfl rfl rfl id id
    | @drainReturned stack hp hst =>
      have hd : .drain ∉ stack := by
        have := h.once
        rw [hst, List.count_cons_self] at this
        exact List.count_eq_zero.mp (by omega)
      have hsent := h.sent (by rw [hp]; rfl)
      rw [waiting_of_mem (by simp [hst])] at hsent
      exact @balanced_drainLoop { w with stack := stack, wq := w.wq.tail } n (hl hp) hp h.le hd hsent
    | begin | loadOff | loadDropped => exact balanced_of_eq h rfl rfl rfl rfl id id
    | push _ _ hd => exact balanced_push h hd rfl rfl rfl rfl rfl
    | sendDisconnect | sendWrite =>
      refine balanced_of_eq h rfl rfl rfl ?_ id id
      exact passed_append rfl (by simp [Obs.fromQueue])
    | _ => exact absurd rfl ha

/-! ### Where the buffers come from -/

/-- Every push was made by a call of `Write`, and is its argument. -/
def FromCalls (w : World) : Prop :=
  ∀ q ∈ w.pushes, ∃ i c, q.call = some i ∧ w.calls[i]? = some c ∧ c.req = .write q.buf

/-- A call that moves on keeps its request. -/
theorem fromCalls_setPc {i : ℕ} {c0 : Call} {pc : Pc} (hi : w.calls[i]? = some c0)
    (h : FromCalls w) : FromCalls (setPc i c0 pc w) := by
  intro q hq
  obtain ⟨j, c, hj, hc, hreq⟩ := h q hq
  by_cases hij : i = j
  · subst hij
    rw [hi, Option.some.injEq] at hc
    subst hc
    have hlt : i < w.calls.length := (List.getElem?_eq_some_iff.mp hi).1
    exact ⟨i, { c0 with pc := pc }, hj, List.getElem?_set_self hlt, hreq⟩
  · exact ⟨j, c, hj, by rw [setPc, List.getElem?_set_ne hij, hc], hreq⟩

theorem fromCalls_step {a : Act} (hr : Rule w a w') (hl : Linked w) (h : FromCalls w) :
    FromCalls w' := by
  by_cases ha : ∀ c, a ≠ .call c
  · obtain ⟨hc, hp⟩ := calls_of_rule hr hl ha
    intro q hq
    rw [hp] at hq
    rw [hc]
    exact h q hq
  · cases hr with
    | begin =>
      intro q hq
      obtain ⟨i, c, hi, hc, hreq⟩ := h q hq
      have hlt : i < w.calls.length := (List.getElem?_eq_some_iff.mp hc).1
      exact ⟨i, c, hi, by rw [List.getElem?_append_left hlt, hc], hreq⟩
    | loadOff _ hi => exact fromCalls_setPc hi h
    | loadDropped _ hi => exact fromCalls_setPc hi h
    | @push i us buf early gen _ hi =>
      have hset : FromCalls (setPc i _ (.pushed gen) w) := fromCalls_setPc hi h
      have hlt : i < w.calls.length := (List.getElem?_eq_some_iff.mp hi).1
      intro q hq
      rcases List.mem_append.mp hq with hq | hq
      · exact hset q hq
      · rw [List.mem_singleton.mp hq]
        exact ⟨i, _, rfl, List.getElem?_set_self hlt, rfl⟩
    | sendDisconnect _ hi => exact @fromCalls_setPc (uvAsyncSend .dcasync w) _ _ _ hi h
    | sendWrite _ hi => exact @fromCalls_setPc (uvAsyncSend .wqasync w) _ _ _ hi h
    | _ => exact absurd (by simp) ha

/-! ### Runs -/

/-- **Writes keep their order and are sent once**: at every point before the thread clears the queue,
what was passed to `SSL_write` from the queue, and then what waits, is what was pushed since the last
clear, in this order. Each entry is the argument of a call of `Write`, of which the copy that is
pushed has the same bytes. -/
theorem sent_in_order {handlers : Handlers} {s : ConnState} {as : List Act} {l : Ledger}
    (h : Run Ledger.step Any ⟨new handlers s, 0⟩ as l) (hp : uncleared l.world.phase = true) :
    passed l.world ++ contents (waiting l.world) = contents (l.world.pushes.drop l.cleared) ∧
    ∀ q ∈ l.world.pushes, ∃ i c, q.call = some i ∧ l.world.calls[i]? = some c ∧
      c.req = .write q.buf ∧ (q.buf.WellFormed → q.buf.copy = .ok q.buf) := by
  have hinv : Linked l.world ∧ Balanced l.world l.cleared ∧ FromCalls l.world := by
    refine h.invariant (I := fun l => Linked l.world ∧ Balanced l.world l.cleared ∧
      FromCalls l.world) ⟨linked_new handlers s, ?_, nofun⟩ ?_
    · exact ⟨le_rfl, zero_le_one, fun _ => rfl, fun _ => rfl⟩
    · rintro u a v ⟨hl, hb, hc⟩ - hs
      obtain ⟨w, hw, rfl⟩ := Option.map_eq_some_iff.mp hs
      have hr := step_rule hw
      exact ⟨linked_of_rule hr hl, balanced_step hr hl hb, fromCalls_step hr hl hc⟩
  obtain ⟨-, hb, hc⟩ := hinv
  refine ⟨hb.sent hp, fun q hq => ?_⟩
  obtain ⟨i, c, hi, hj, hreq⟩ := hc q hq
  exact ⟨i, c, hi, hj, hreq, fun hwf => hwf.copy_eq⟩

/-- Two writes of other threads: the first is drained when the second is pushed. -/
def twoWrites : List Act :=
  establishing ++ writing ++ [.event .onDrainWriteQueue, .inner (.sslReturn 1 0 []),
    .inner .drainReturned, .call (.begin 3 (.write ⟨some [8], 1, 1⟩)), .call (.load 1),
    .call (.push 1)]

theorem sent_in_order_two : ∃ l, Run Ledger.step Any ⟨new openHandlers .invalid, 0⟩ twoWrites l ∧
    l.world.pushes.length = 2 ∧
    passed l.world ++ contents (waiting l.world) = contents (l.world.pushes.drop l.cleared) := by
  have hexec : (exec Ledger.step Any twoWrites ⟨new openHandlers .invalid, 0⟩).any
      (fun l => uncleared l.world.phase ∧ l.world.pushes.length = 2) = true := by decide
  obtain ⟨l, hr, hl⟩ := exists_run_of_exec hexec
  obtain ⟨hu, hlen⟩ := of_decide_eq_true hl
  exact ⟨l, hr, hlen, (sent_in_order hr hu).1⟩

/-- While `OnDrainWriteQueue` is in `Write`, the front is passed to `SSL_write` and still queued. -/
theorem front_passed_and_queued : ∃ as l, Run Ledger.step Any ⟨new openHandlers .invalid, 0⟩ as l ∧
    l.world.phase = .running ∧ l.cleared = 0 ∧
    passed l.world ++ contents l.world.wq ≠ contents l.world.pushes := by
  have hexec : (exec Ledger.step Any (establishing ++ writing ++ [Act.event .onDrainWriteQueue])
      ⟨new openHandlers .invalid, 0⟩).any (fun l => l.world.phase = .running ∧ l.cleared = 0 ∧
        passed l.world ++ contents l.world.wq ≠ contents l.world.pushes) = true := by decide
  obtain ⟨l, hr, hl⟩ := exists_run_of_exec hexec
  exact ⟨_, l, hr, of_decide_eq_true hl⟩

end LibMumble.TLSConnection.Order
