import LibMumble.TLSConnection.Frame

/-! # Requests from other threads

`Disconnect` and `Write` on another thread do nothing when they find `thread_id_` zero, which it is
from the return of `Connect` until the new thread has run its first statement. A request that began
while the connection was up is taken (`Taken`) exactly if that moment is over, or if the connection
is disconnected already (`Noticed`). -/

namespace LibMumble.TLSConnection.Requests

open World Lib

variable {w w' : World}

/-- A call loads `thread_id_` when it is set, or has nothing left to ask for. -/
def Noticed (w : World) : Act → Prop
  | .call (.load i) => match w.calls[i]? with
    | some c => c.early = true → w.threadId ≠ 0 ∨ (c.req = .disconnect ∧ w.state.disconnected = true)
    | none => True
  | _ => True

instance decidableNoticedLoad (w : World) (c : Option Call) : Decidable (match c with
    | some c => c.early = true → w.threadId ≠ 0 ∨ (c.req = .disconnect ∧ w.state.disconnected = true)
    | none => True) :=
  match c with
  | some _ => inferInstanceAs (Decidable (_ → _))
  | none => .isTrue trivial

instance (w : World) : DecidablePred (Noticed w)
  | .call (.load i) => decidableNoticedLoad w w.calls[i]?
  | .call (.begin _ _) | .call (.push _) | .call (.send _) => .isTrue trivial
  | .connect _ | .thread _ | .event _ | .inner _ => .isTrue trivial

/-- What a request has to leave behind: the connection is shut down or going to be, or the buffer was
appended to `wq_`. -/
def Taken (w : World) (i : ℕ) : Request → Prop
  | .disconnect => w.state.disconnected = true ∨ w.dcPending = true
  | .write buf => ∃ gen, ⟨buf, some i, gen⟩ ∈ w.pushes

/-- Every call that has pushed is on record with its buffer. -/
def Recorded (w : World) : Prop :=
  ∀ i c buf, w.calls[i]? = some c → c.sending = true → c.req = .write buf →
    ∃ gen, ⟨buf, some i, gen⟩ ∈ w.pushes

theorem recorded_setPc {i : ℕ} {c0 : Call} {pc : Pc} (h : Recorded w)
    (h0 : ({ c0 with pc := pc } : Call).sending = false) : Recorded (setPc i c0 pc w) := by
  intro j c buf hj hs hreq
  rcases calls_setPc hj with ⟨-, rfl⟩ | hj
  · rw [h0] at hs
    cases hs
  · exact h j c buf hj hs hreq

theorem recorded_step {a : Act} (hr : Rule w a w') (hl : Linked w) (h : Recorded w) :
    Recorded w' := by
  by_cases ha : ∀ c, a ≠ .call c
  · obtain ⟨hc, hp⟩ := calls_of_rule hr hl ha
    intro i c buf hi hs hreq
    rw [hc] at hi
    rw [hp]
    exact h i c buf hi hs hreq
  · cases hr with
    | begin =>
      intro i c buf hi hs hreq
      rcases calls_begin hi with hi | rfl
      · exact h i c buf hi hs hreq
      · cases hs
    | loadOff => exact recorded_setPc h rfl
    | loadDropped => exact recorded_setPc h rfl
    | @push i us buf early gen _ hi =>
      intro j c buf' hj hs hreq
      rcases calls_setPc hj with ⟨rfl, rfl⟩ | hj
      · cases hreq
        exact ⟨gen, by simp [setPc, wqPush]⟩
      · obtain ⟨g, hg⟩ := h j c buf' hj hs hreq
        exact ⟨g, List.mem_append_left _ hg⟩
    | sendDisconnect => exact @recorded_setPc (uvAsyncSend .dcasync w) _ _ _ h rfl
    | sendWrite => exact @recorded_setPc (uvAsyncSend .wqasync w) _ _ _ h rfl
    | _ => exact absurd (by simp) ha

/-- A request of another thread that a step brings to its end was taken. -/
theorem taken_step {a : Act} (hr : Rule w a w') (hl : Linked w) (hrec : Recorded w)
    (hok : Noticed w a) {i : ℕ} {c : Call} (hi : w'.calls[i]? = some c) (he : c.early = true)
    (hret : c.pc = .returned) (hbefore : w.calls[i]? ≠ some c) : Taken w' i c.req := by
  by_cases ha : ∀ c, a ≠ .call c
  · rw [(calls_of_rule hr hl ha).1] at hi
    exact absurd hi hbefore
  · cases hr with
    | begin =>
      rcases calls_begin hi with hi | rfl
      · exact absurd hi hbefore
      · cases hret
    | loadOff =>
      rcases calls_setPc hi with ⟨-, rfl⟩ | hi
      · cases hret
      · exact absurd hi hbefore
    | @loadDropped j c0 _ hj _ hd =>
      rcases calls_setPc hi with ⟨rfl, rfl⟩ | hi
      · have hok : c0.early = true → w.threadId ≠ 0 ∨
            (c0.req = .disconnect ∧ w.state.disconnected = true) := by
          simpa only [Noticed, hj] using hok
        rcases hok he with hid | ⟨hreq, hst⟩
        · unfold dispatch at hd
          split_ifs at hd with h1 h2
          omega
        · simp only [hreq, Taken]
          exact Or.inl hst
      · exact absurd hi hbefore
    | push =>
      rcases calls_setPc hi with ⟨-, rfl⟩ | hi
      · cases hret
      · exact absurd hi hbefore
    | sendDisconnect =>
      rcases calls_setPc hi with ⟨-, rfl⟩ | hi
      · exact Or.inr rfl
      · exact absurd hi hbefore
    | @sendWrite j us buf early gen _ hj =>
      rcases calls_setPc hi with ⟨rfl, rfl⟩ | hi
      · exact hrec i _ buf hj rfl rfl
      · exact absurd hi hbefore
    | _ => exact absurd (by simp) ha

/-- **No request is lost**, in runs in which no call finds `thread_id_` unset while the connection is
up: a request of another thread that ends is taken, and one made by a handler, which is on the loop
thread, is carried out at once. -/
theorem request_not_lost {handlers : Handlers} {s : ConnState} {as : List Act} {a : Act}
    (h : Run step Noticed (new handlers s) as w) (hok : Noticed w a) (hs : step w a = some w') :
    (∀ i c, w'.calls[i]? = some c → c.early = true → c.pc = .returned →
      w.calls[i]? ≠ some c → Taken w' i c.req) ∧
    (a = .inner .disconnect → w'.state = .disconnectedLocal) ∧
    (∀ buf, a = .inner (.write buf) →
      w'.log = w.log ++ [.sslWrite buf none] ∧ w'.stack = .sslWrite :: w.stack) := by
  have h0 : Recorded (new handlers s) := fun i c buf hi => by simp [new] at hi
  obtain ⟨hl, hrec⟩ := invariant_of_run h h0 fun _ _ _ hr hl _ hrec => recorded_step hr hl hrec
  have hr := step_rule hs
  refine ⟨fun i c hi he hret hb => taken_step hr hl hrec hok hi he hret hb, ?_, ?_⟩
  · rintro rfl
    cases hr with
    | disconnect hp =>
      rw [disconnect_onLoop (hl hp)]
      exact state_shutdown _ w
  · rintro buf rfl
    cases hr with
    | write hp =>
      rw [write_onLoop (hl hp)]
      exact ⟨rfl, rfl⟩

/-- A `Disconnect` and a `Write` of other threads on an established connection. -/
theorem request_not_lost_twice : ∃ w w',
    Run step Noticed (new openHandlers .invalid) (establishing ++ writing ++
      [.call (.begin 2 .disconnect), .call (.load 1)]) w ∧
    step w (.call (.send 1)) = some w' ∧ Taken w' 1 .disconnect := by
  have hexec : (exec step Noticed (establishing ++ writing ++
      [.call (.begin 2 .disconnect), .call (.load 1)]) (new openHandlers .invalid)).any
      (fun w => (step w (.call (.send 1))).any fun w' =>
        w'.calls[1]? = some ⟨2, .disconnect, true, .returned⟩ ∧
          w.calls[1]? ≠ some ⟨2, .disconnect, true, .returned⟩) = true := by decide
  obtain ⟨w, hr, hw⟩ := exists_run_of_exec hexec
  obtain ⟨w', hs, hw'⟩ := (Option.any_eq_true _ _).mp hw
  obtain ⟨h1, h2⟩ := of_decide_eq_true hw'
  exact ⟨w, w', hr, hs, (request_not_lost (a := .call (.send 1)) hr trivial hs).1 1 _ h1 rfl rfl h2⟩

/-- A `Disconnect` right after `Connect`, before the new thread has stored its id: it returns, and
the connection goes on as if it had not been made. -/
theorem disconnect_lost : ∃ as w w', Run step Any (new openHandlers .invalid) as w ∧
    step w (.call (.load 0)) = some w' ∧
    w'.calls[0]? = some ⟨2, .disconnect, true, .returned⟩ ∧
    w.calls[0]? ≠ some ⟨2, .disconnect, true, .returned⟩ ∧ ¬ Taken w' 0 .disconnect := by
  have hexec : (exec step Any [.connect ⟨openHandlers, 0, 0, 0, ⟨0, ""⟩⟩,
      .call (.begin 2 .disconnect)] (new openHandlers .invalid)).any
      (fun w => (step w (.call (.load 0))).any fun w' =>
        w'.calls[0]? = some ⟨2, .disconnect, true, .returned⟩ ∧
          w.calls[0]? ≠ some ⟨2, .disconnect, true, .returned⟩ ∧
          w'.state.disconnected = false ∧ w'.dcPending = false) = true := by decide
  obtain ⟨w, hr, hw⟩ := exists_run_of_exec hexec
  obtain ⟨w', hs, hw'⟩ := (Option.any_eq_true _ _).mp hw
  obtain ⟨h1, h2, h3, h4⟩ := of_decide_eq_true hw'
  refine ⟨_, w, w', hr, hs, h1, h2, ?_⟩
  rintro (h | h)
  · rw [h3] at h
    cases h
  · rw [h4] at h
    cases h

end LibMumble.TLSConnection.Requests
