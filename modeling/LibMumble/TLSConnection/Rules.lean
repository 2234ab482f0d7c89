import LibMumble.TLSConnection.Machine
import LibMumble.Lib.Run

/-! # What a step can do

`Rule w a w'` has one constructor for each code path of `step`, with all that is tested on it, and
every step is an instance (`step_rule`). The invariants are proved by cases on `Rule`. -/

namespace LibMumble.TLSConnection

open World Lib

/-- A step and the facts under which it is possible. -/
inductive Rule (w : World) : Act → World → Prop
  | connect {r} (h : w.phase = .idle ∨ w.phase = .finished) : Rule w (.connect r) (connect r w).2
  | start {tid} (h : w.phase = .created) (ht : 0 < tid) :
      Rule w (.thread (.start tid)) (threadStart tid w)
  | uvRunReturned {err last} (h : w.phase = .running) (hst : w.stack = [])
      (hc : err = uvOK → w.closed .tcpsock ∧ w.closed .wqasync ∧ w.closed .dcasync) :
      Rule w (.thread (.uvRunReturned err last)) (uvRunReturned err last w)
  | storeZero (h : w.phase = .runReturned) : Rule w (.thread .storeZero) (storeZero w)
  | loopDelete (h : w.phase = .idCleared) : Rule w (.thread .loopDelete) (loopDelete w)
  | clearQueue (h : w.phase = .loopDeleted) : Rule w (.thread .clearQueue) (clearQueue w)
  | callFinalHandler (h : w.phase = .queueCleared) :
      Rule w (.thread .callFinalHandler) (callFinalHandler w)
  | onConnect {status readStart last} (h : w.phase = .running) (hst : w.stack = [])
      (hg : w.connecting = true) (hc : w.closed .tcpsock → status = -1) :
      Rule w (.event (.onConnect status readStart last))
        (onConnect status readStart last { w with connecting := false })
  | onRead {nread buf heap last} (h : w.phase = .running) (hst : w.stack = [])
      (hc : ¬ w.closed .tcpsock) (hn : nread ≤ buf.length) (hb : buf.length < 2 ^ 31) :
      Rule w (.event (.onRead nread buf heap last))
        (onRead nread buf heap last (w.observe (.onRead nread last.code)))
  | onDrainWriteQueue (h : w.phase = .running) (hst : w.stack = []) (hg : w.wqPending = true)
      (hc : ¬ w.closed .wqasync) :
      Rule w (.event .onDrainWriteQueue) (onDrainWriteQueue { w with wqPending := false })
  | onDisconnectRequest (h : w.phase = .running) (hst : w.stack = []) (hg : w.dcPending = true)
      (hc : ¬ w.closed .dcasync) :
      Rule w (.event .onDisconnectRequest) (onDisconnectRequest { w with dcPending := false })
  | bioRead {len f stack} (h : w.phase = .running) (hst : w.stack = f :: stack)
      (hf : f.isSSL = true) (hl : 0 < len) : Rule w (.inner (.bioRead len)) (bioRead len w)
  | sslVerify {chain last system now f stack} (h : w.phase = .running) (hst : w.stack = f :: stack)
      (hf : f.isSSL = true) :
      Rule w (.inner (.sslVerify chain last system now)) (sslVerifyCallback chain last system now w)
  | sslConnectReturned {ret err data k stack} (h : w.phase = .running)
      (hst : w.stack = .sslConnect k :: stack) :
      Rule w (.inner (.sslReturn ret err data)) (sslConnectReturned k ret err
        ({ w with stack := stack }.observe (.sslReturn .connect ret err)))
  | sslReadReturned {ret err data processed stack} (h : w.phase = .running)
      (hst : w.stack = .sslRead processed :: stack) (hd : (data.length : ℤ) = max ret 0)
      (hr : ret ≤ processed.capacity) :
      Rule w (.inner (.sslReturn ret err data)) (sslReadReturned processed ret err data
        ({ w with stack := stack }.observe (.sslReturn .read ret err)))
  | sslWriteReturned {ret err data stack} (h : w.phase = .running)
      (hst : w.stack = .sslWrite :: stack) :
      Rule w (.inner (.sslReturn ret err data)) (sslWriteReturned ret err
        ({ w with stack := stack }.observe (.sslReturn .write ret err)))
  | disconnect {f stack} (h : w.phase = .running) (hst : w.stack = f :: stack)
      (hf : f.isHandler = true) : Rule w (.inner .disconnect) (disconnect w.tid w)
  | write {buf f stack} (h : w.phase = .running) (hst : w.stack = f :: stack)
      (hf : f.isHandler = true) : Rule w (.inner (.write buf)) (write w.tid buf none w)
  | verifyHandlerReturned {ok stack} (h : w.phase = .running)
      (hst : w.stack = .verifyHandler :: stack) : Rule w (.inner (.handlerReturn ok))
        ({ w with stack := stack }.observe (.verifyCallback (some .handler) ok))
  | establishedHandlerReturned {ok k stack} (h : w.phase = .running)
      (hst : w.stack = .establishedHandler k :: stack) : Rule w (.inner (.handlerReturn ok))
        (handleStarvedDone k true { w with stack := stack })
  | readHandlerReturned {ok processed stack} (h : w.phase = .running)
      (hst : w.stack = .readHandler processed :: stack) : Rule w (.inner (.handlerReturn ok))
        (({ w with stack := stack } : World).push (.sslRead processed))
  | drainReturned {stack} (h : w.phase = .running) (hst : w.stack = .drain :: stack) :
      Rule w (.inner .drainReturned) (drainReturned { w with stack := stack })
  | begin {us req} (h : ∀ why, w.phase ≠ .aborted why) : Rule w (.call (.begin us req))
        { w with calls := w.calls ++ [⟨us, req, w.up, .entry⟩] }
  | loadOff {i c} (h : ∀ why, w.phase ≠ .aborted why) (hi : w.calls[i]? = some c)
      (hp : c.pc = .entry) (hd : dispatch c.us w.threadId = .offLoop) :
      Rule w (.call (.load i)) (setPc i c (.loaded w.gen) w)
  | loadDropped {i c} (h : ∀ why, w.phase ≠ .aborted why) (hi : w.calls[i]? = some c)
      (hp : c.pc = .entry) (hd : dispatch c.us w.threadId = .dropped) :
      Rule w (.call (.load i)) (setPc i c .returned w)
  | push {i us buf early gen} (h : ∀ why, w.phase ≠ .aborted why)
      (hi : w.calls[i]? = some ⟨us, .write buf, early, .loaded gen⟩) (hl : .drain ∉ w.stack) :
      Rule w (.call (.push i)) (setPc i ⟨us, .write buf, early, .loaded gen⟩ (.pushed gen)
        (wqPush ⟨buf, some i, gen⟩ w))
  | sendDisconnect {i us early gen} (h : ∀ why, w.phase ≠ .aborted why)
      (hi : w.calls[i]? = some ⟨us, .disconnect, early, .loaded gen⟩) :
      Rule w (.call (.send i)) (setPc i ⟨us, .disconnect, early, .loaded gen⟩ .returned
        (uvAsyncSend .dcasync w))
  | sendWrite {i us buf early gen} (h : ∀ why, w.phase ≠ .aborted why)
      (hi : w.calls[i]? = some ⟨us, .write buf, early, .pushed gen⟩) :
      Rule w (.call (.send i)) (setPc i ⟨us, .write buf, early, .pushed gen⟩ .returned
        (uvAsyncSend .wqasync w))

theorem thread_rule {w w' : World} {t : ThreadAct} (h : stepThread w t = some w') :
    Rule w (.thread t) w' := by
  cases t <;> simp only [stepThread, Option.ite_none_right_eq_some, Option.some.injEq] at h
  · obtain ⟨⟨h, ht⟩, rfl⟩ := h
    exact .start h ht
  · obtain ⟨⟨h, hst, hc⟩, rfl⟩ := h
    exact .uvRunReturned h hst hc
  · obtain ⟨h, rfl⟩ := h
    exact .storeZero h
  · obtain ⟨h, rfl⟩ := h
    exact .loopDelete h
  · obtain ⟨h, rfl⟩ := h
    exact .clearQueue h
  · obtain ⟨h, rfl⟩ := h
    exact .callFinalHandler h

theorem event_rule {w w' : World} {e : Event} (hp : w.phase = .running) (hst : w.stack = [])
    (h : stepEvent w e = some w') : Rule w (.event e) w' := by
  cases e <;> simp only [stepEvent, Option.ite_none_right_eq_some, Option.some.injEq] at h
  · obtain ⟨⟨hg, hc⟩, rfl⟩ := h
    exact .onConnect hp hst hg hc
  · obtain ⟨⟨hc, hn, hb⟩, rfl⟩ := h
    exact .onRead hp hst hc hn hb
  · obtain ⟨⟨hg, hc⟩, rfl⟩ := h
    exact .onDrainWriteQueue hp hst hg hc
  · obtain ⟨⟨hg, hc⟩, rfl⟩ := h
    exact .onDisconnectRequest hp hst hg hc

theorem sslReturn_rule {w w' : World} {ret err : ℤ} {data : List UInt8} (hp : w.phase = .running)
    (h : sslReturn w ret err data = some w') : Rule w (.inner (.sslReturn ret err data)) w' := by
  unfold sslReturn at h
  split at h
  next hst =>
    obtain rfl := Option.some.inj h
    exact .sslConnectReturned hp hst
  next hst =>
    simp only [Option.ite_none_right_eq_some, Option.some.injEq] at h
    obtain ⟨⟨hd, hr⟩, rfl⟩ := h
    exact .sslReadReturned hp hst hd hr
  next hst =>
    obtain rfl := Option.some.inj h
    exact .sslWriteReturned hp hst
  next => cases h

theorem handlerReturn_rule {w w' : World} {ok : Bool} (hp : w.phase = .running)
    (h : handlerReturn w ok = some w') : Rule w (.inner (.handlerReturn ok)) w' := by
  unfold handlerReturn at h
  split at h
  next hst =>
    obtain rfl := Option.some.inj h
    exact .verifyHandlerReturned hp hst
  next hst =>
    obtain rfl := Option.some.inj h
    exact .establishedHandlerReturned hp hst
  next hst =>
    obtain rfl := Option.some.inj h
    exact .readHandlerReturned hp hst
  next => cases h

theorem inner_rule {w w' : World} {i : Inner} (hp : w.phase = .running)
    (h : stepInner w i = some w') : Rule w (.inner i) w' := by
  cases i with
  | bioRead len =>
    simp only [stepInner] at h
    split at h
    next hst =>
      simp only [Option.ite_none_right_eq_some, Option.some.injEq] at h
      obtain ⟨⟨hf, hl⟩, rfl⟩ := h
      exact .bioRead hp hst hf hl
    next => cases h
  | sslVerify chain last system now =>
    simp only [stepInner] at h
    split at h
    next hst =>
      simp only [Option.ite_none_right_eq_some, Option.some.injEq] at h
      obtain ⟨hf, rfl⟩ := h
      exact .sslVerify hp hst hf
    next => cases h
  | sslReturn ret err data => exact sslReturn_rule hp h
  | disconnect =>
    simp only [stepInner] at h
    split at h
    next hst =>
      simp only [Option.ite_none_right_eq_some, Option.some.injEq] at h
      obtain ⟨hf, rfl⟩ := h
      exact .disconnect hp hst hf
    next => cases h
  | write buf =>
    simp only [stepInner] at h
    split at h
    next hst =>
      simp only [Option.ite_none_right_eq_some, Option.some.injEq] at h
      obtain ⟨hf, rfl⟩ := h
      exact .write hp hst hf
    next => cases h
  | handlerReturn ok => exact handlerReturn_rule hp h
  | drainReturned =>
    simp only [stepInner] at h
    split at h
    next hst =>
      obtain rfl := Option.some.inj h
      exact .drainReturned hp hst
    next => cases h

theorem call_rule {w w' : World} {c : CallAct} (hp : ∀ why, w.phase ≠ .aborted why)
    (h : stepCall w c = some w') : Rule w (.call c) w' := by
  cases c with
  | begin us req =>
    obtain rfl := Option.some.inj h
    exact .begin hp
  | load i =>
    simp only [stepCall] at h
    split at h
    next hi =>
      split at h
      next hpc =>
        split at h
        next => cases h
        next hd =>
          obtain rfl := Option.some.inj h
          exact .loadOff hp hi hpc hd
        next hd =>
          obtain rfl := Option.some.inj h
          exact .loadDropped hp hi hpc hd
      next => cases h
    next => cases h
  | push i =>
    simp only [stepCall] at h
    split at h
    next hi =>
      simp only [Option.ite_none_right_eq_some, Option.some.injEq] at h
      obtain ⟨hl, rfl⟩ := h
      exact .push hp hi hl
    next => cases h
  | send i =>
    simp only [stepCall] at h
    split at h
    next hi =>
      obtain rfl := Option.some.inj h
      exact .sendDisconnect hp hi
    next hi =>
      obtain rfl := Option.some.inj h
      exact .sendWrite hp hi
    next => cases h

/-- **Every step is an instance of a rule.** -/
theorem step_rule {w w' : World} {a : Act} (h : step w a = some w') : Rule w a w' := by
  cases a with
  | connect r =>
    simp only [step, Option.ite_none_right_eq_some, Option.some.injEq] at h
    obtain ⟨hp, rfl⟩ := h
    exact .connect hp
  | thread t => exact thread_rule h
  | event e =>
    simp only [step, Option.ite_none_right_eq_some] at h
    obtain ⟨⟨hp, hst⟩, h⟩ := h
    exact event_rule hp hst h
  | inner i =>
    simp only [step, Option.ite_none_right_eq_some] at h
    exact inner_rule h.1 h.2
  | call c =>
    simp only [step] at h
    split at h
    next => cases h
    next hp => exact call_rule hp h

end LibMumble.TLSConnection
