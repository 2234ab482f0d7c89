import LibMumble.Lib.History
import LibMumble.TLSConnection.Shutdown

/-! # Wakeups of closed handles

`Disconnect` and `Write` on another thread load `thread_id_` and send their wakeup some steps later,
with nothing that holds the connection up in between: the handles can be closed, and the loop
deleted, before the wakeup is sent. If no handle is closed and no loop deleted while a call is on its
way, and no call sets out once the handles are closed (`InTime`), every wakeup goes to a handle that
is open (`NotDead`). -/

namespace LibMumble.TLSConnection.Wakeup

open World Lib

variable {w w' : World}

/-- The call has seen the connection, and its wakeup is still to come. -/
def onItsWay (c : Call) : Bool :=
  match c.pc with
  | .loaded _ | .pushed _ => true
  | _ => false

/-- No call has its wakeup still to come. -/
def NoneOnItsWay (w : World) : Prop := ∀ c ∈ w.calls, onItsWay c = false

/-- No handle was passed to `uv_close`. -/
def AllOpen (w : World) : Prop := ∀ h, ¬ w.closed h

instance (w : World) : Decidable (NoneOnItsWay w) :=
  inferInstanceAs (Decidable (∀ c ∈ w.calls, _))

instance (w : World) : Decidable (AllOpen w) :=
  decidable_of_iff (¬ w.closed .tcpsock ∧ ¬ w.closed .wqasync ∧ ¬ w.closed .dcasync)
    ⟨fun ⟨h1, h2, h3⟩ h => by cases h <;> assumption, fun h => ⟨h _, h _, h _⟩⟩

/-- A call that finds a connection finds its handles open, and `Shutdown` is not run, nor the loop
deleted, while a call is on its way. -/
def InTime (w : World) : Act → Prop
  | .call (.load i) => ∀ c ∈ w.calls[i]?, dispatch c.us w.threadId = .offLoop → AllOpen w
  | .thread .loopDelete => NoneOnItsWay w
  | a => (ends w a).isSome = true → NoneOnItsWay w

instance (w : World) : DecidablePred (InTime w) := fun a => by
  unfold InTime
  split <;> infer_instance

/-- A wakeup goes to a handle that was not closed, on a loop that was not deleted. -/
def NotDead (log : List Obs) (o : Obs) : Prop :=
  ∀ h, o = .uvAsyncSend h → .uvClose h ∉ log ∧ .uvLoopDelete ∉ log

/-- The thread has started and the loop is there. -/
def looping : Phase → Bool
  | .running | .runReturned | .idCleared => true
  | _ => false

/-- The loop was deleted, or the process has ended. -/
def loopGone : Phase → Bool
  | .loopDeleted | .queueCleared | .finished | .aborted _ => true
  | _ => false

theorem loopGone_of_looping {p : Phase} (h : looping p = true) : loopGone p = false := by
  cases p <;> first | rfl | cases h

/-- The invariant. -/
structure Safe (w : World) : Prop where
  threadId : w.threadId ≠ 0 →
    w.phase = .running ∨ w.phase = .runReturned ∨ ∃ why, w.phase = .aborted why
  calls : NoneOnItsWay w ∨ (AllOpen w ∧ looping w.phase = true) ∨ ∃ why, w.phase = .aborted why
  deleted : .uvLoopDelete ∈ w.log → loopGone w.phase = true
  hist : History NotDead w.log

/-- An entry that is neither a wakeup nor the deletion of the loop. -/
def apart : Obs → Bool
  | .uvAsyncSend _ | .uvLoopDelete => false
  | _ => true

theorem notDead_of_apart {log : List Obs} {o : Obs} (h : apart o = true) : NotDead log o := by
  rintro hd rfl
  cases h

/-- A step in which neither a call moves on nor the loop is deleted. -/
theorem safe_of_append {new : List Obs} (h : Safe w) (hc : w'.calls = w.calls)
    (hid : w'.threadId = w.threadId) (hl : w'.log = w.log ++ new)
    (hn : ∀ o ∈ new, apart o = true)
    (hph : w'.phase = w.phase ∨ ∃ why, w'.phase = .aborted why)
    (hopen : NoneOnItsWay w ∨ ∀ hd, w'.closed hd → w.closed hd) : Safe w' := by
  refine ⟨fun hne => ?_, ?_, fun hm => ?_, ?_⟩
  · rcases hph with hph | hph
    · rw [hph]
      exact h.threadId (hid ▸ hne)
    · exact Or.inr (Or.inr hph)
  · rcases hph with hph | hph
    · rw [NoneOnItsWay, hc, hph]
      rcases h.calls with hcalls | ⟨hall, hloop⟩ | hab
      · exact Or.inl hcalls
      · rcases hopen with hnone | hopen
        · exact Or.inl hnone
        · exact Or.inr (Or.inl ⟨fun hd hcl => hall hd (hopen hd hcl), hloop⟩)
      · exact Or.inr (Or.inr hab)
    · exact Or.inr (Or.inr hph)
  · have hm : .uvLoopDelete ∈ w.log := by
      rw [hl, List.mem_append] at hm
      rcases hm with hm | hm
      · exact hm
      · cases hn _ hm
    rcases hph with hph | ⟨why, hph⟩
    · rw [hph]
      exact h.deleted hm
    · rw [hph]
      rfl
  · rw [hl]
    exact h.hist.append fun o ho _ => notDead_of_apart (hn o ho)

theorem apart_of_ofLoop {o : Obs} (h : ofLoop o = true) : apart o = true := by
  cases o <;> first | rfl | cases h

/-- The code of the loop thread: it closes handles only when no call is on its way. -/
theorem safe_loop {a : Act} (hr : Rule w a w') (hl : Linked w) (hok : InTime w a)
    (ha : a.loop = true) (h : Safe w) : Safe w' := by
  have hs := sameQueue_of_rule hr hl ha
  obtain ⟨new, hlog, hn⟩ := hs.log
  have hends : Ends w w' (ends w a) := by
    refine ends_of_rule hr hl ?_ ?_
    · rintro r rfl
      cases ha
    · rintro err last rfl
      cases ha
  have hok : (ends w a).isSome = true → NoneOnItsWay w := by
    cases a with
    | event | inner => exact hok
    | connect | thread | call => cases ha
  refine safe_of_append h hs.calls hs.threadId hlog (fun o ho => apart_of_ofLoop (hn o ho)) ?_ ?_
  · exact hs.phase.imp_right fun ⟨why, _, hp⟩ => ⟨why, hp⟩
  · cases he : ends w a with
    | none =>
      rw [he] at hends
      exact Or.inr fun hd => (hends.closed hd).mp
    | some s => exact Or.inl (hok (by rw [he]; rfl))

/-- The drain loop writes, and nothing else. -/
theorem safe_drainLoop (ht : w.threadId = w.tid) (h : Safe w) : Safe (drainLoop w) := by
  rw [drainLoop_onLoop ht]
  cases hw : w.wq with
  | nil => exact h
  | cons q rest =>
    refine @safe_of_append w _ [.sslWrite q.buf (some q.gen)] h rfl rfl rfl (by simp [apart])
      (Or.inl rfl) (Or.inr fun hd hc => ?_)
    exact (mem_observe.mp hc).resolve_right nofun

/-- A call that has a wakeup to come sees open handles and a loop. -/
theorem Safe.seen {i : ℕ} {c : Call} (h : Safe w) (hp : ∀ why, w.phase ≠ .aborted why)
    (hi : w.calls[i]? = some c) (hc : onItsWay c = true) :
    AllOpen w ∧ looping w.phase = true := by
  rcases h.calls with hnone | hall | ⟨why, hab⟩
  · rw [hnone c (List.mem_of_getElem? hi)] at hc
    cases hc
  · exact hall
  · exact absurd hab (hp why)

/-- A call moves on; if it has a wakeup to come afterwards, the handles are open. -/
theorem safe_setPc {i : ℕ} {c0 : Call} {pc : Pc} (h : Safe w)
    (hall : onItsWay { c0 with pc := pc } = true → AllOpen w ∧ looping w.phase = true) :
    Safe (setPc i c0 pc w) := by
  refine ⟨h.threadId, ?_, h.deleted, h.hist⟩
  rcases h.calls with hnone | hseen | hab
  · cases hw : onItsWay { c0 with pc := pc } with
    | true => exact Or.inr (Or.inl (hall hw))
    | false =>
      refine Or.inl fun c hc => ?_
      rcases List.mem_or_eq_of_mem_set hc with hc | rfl
      · exact hnone c hc
      · exact hw
  · exact Or.inr (Or.inl hseen)
  · exact Or.inr (Or.inr hab)

/-- A wakeup is sent while the handles are open and the loop is there. -/
theorem safe_send {hd : Handle} (h : Safe w) (hall : AllOpen w ∧ looping w.phase = true) :
    Safe (uvAsyncSend hd w) := by
  have hdel : .uvLoopDelete ∉ w.log := by
    intro hm
    have hgone := h.deleted hm
    rw [loopGone_of_looping hall.2] at hgone
    cases hgone
  have hstep : ∀ u : World, u.threadId = w.threadId → u.calls = w.calls → u.phase = w.phase →
      u.log = w.log ++ [Obs.uvAsyncSend hd] → Safe u := by
    intro u hid hc hp hl
    refine ⟨?_, ?_, fun hm => ?_, ?_⟩
    · rw [hid, hp]
      exact h.threadId
    · refine Or.inr (Or.inl ⟨fun hd' hcl => ?_, by rw [hp]; exact hall.2⟩)
      rw [closed, hl, List.mem_append] at hcl
      exact hcl.elim (hall.1 hd') (by simp)
    · rw [hl, List.mem_append] at hm
      exact absurd (hm.resolve_right (by simp)) hdel
    · rw [hl]
      refine history_snoc.mpr ⟨h.hist, ?_⟩
      intro hd' _
      exact ⟨hall.1 hd', hdel⟩
  cases hd with
  | tcpsock => exact h
  | wqasync | dcasync => exact hstep _ rfl rfl rfl rfl

/-- No call has a wakeup to come where there is no loop. -/
theorem Safe.noneOnItsWay (h : Safe w) (hp : looping w.phase = false)
    (hab : ∀ why, w.phase ≠ .aborted why) : NoneOnItsWay w := by
  rcases h.calls with hnone | ⟨-, hloop⟩ | ⟨why, hw⟩
  · exact hnone
  · rw [hp] at hloop
    cases hloop
  · exact absurd hw (hab why)

theorem Safe.threadId_eq_zero (h : Safe w) (hrun : w.phase ≠ .running)
    (hret : w.phase ≠ .runReturned) (hab : ∀ why, w.phase ≠ .aborted why) : w.threadId = 0 := by
  by_contra hne
  rcases h.threadId hne with hph | hph | ⟨why, hph⟩
  · exact hrun hph
  · exact hret hph
  · exact hab why hph

theorem safe_connect {r : ConnectResults} (h : Safe w) (hp : w.phase = .idle ∨ w.phase = .finished) :
    Safe (connect r w).2 := by
  have hloop : looping w.phase = false := by
    rcases hp with hp | hp <;> rw [hp] <;> rfl
  have hab : ∀ why, w.phase ≠ .aborted why := by
    rcases hp with hp | hp <;> rw [hp] <;> exact fun _ => nofun
  have hnone : NoneOnItsWay w := h.noneOnItsWay hloop hab
  have hid : w.threadId = 0 := by
    refine h.threadId_eq_zero ?_ ?_ hab <;> rcases hp with hp | hp <;> simp [hp]
  have hf := fresh_connect r w
  refine ⟨fun hne => absurd (hf.threadId.trans hid) hne, Or.inl ?_, by simp [hf.log], ?_⟩
  · rw [NoneOnItsWay, hf.calls]
    exact hnone
  · rw [hf.log]
    exact history_nil

theorem safe_thread {t : ThreadAct} (hr : Rule w (.thread t) w') (hok : InTime w (.thread t))
    (h : Safe w) : Safe w' := by
  have hdel : ∀ p, w.phase = p → loopGone p = false → .uvLoopDelete ∉ w.log := by
    intro p hp hgone hm
    have := h.deleted hm
    rw [hp, hgone] at this
    cases this
  cases hr with
  | start hp =>
    have hnone : NoneOnItsWay w := h.noneOnItsWay (by rw [hp]; rfl) (by simp [hp])
    exact ⟨fun _ => Or.inl rfl, Or.inl hnone, fun hm => absurd hm (hdel _ hp rfl), h.hist⟩
  | uvRunReturned hp =>
    rw [uvRunReturned_eq]
    refine ⟨fun _ => Or.inr (Or.inl rfl), ?_, fun hm => absurd hm (hdel _ hp rfl), h.hist⟩
    rcases h.calls with hnone | ⟨hall, -⟩ | ⟨why, hab⟩
    · exact Or.inl hnone
    · exact Or.inr (Or.inl ⟨hall, rfl⟩)
    · rw [hp] at hab
      cases hab
  | storeZero hp =>
    refine ⟨fun hne => absurd rfl hne, ?_, fun hm => absurd hm (hdel _ hp rfl), h.hist⟩
    rcases h.calls with hnone | ⟨hall, -⟩ | ⟨why, hab⟩
    · exact Or.inl hnone
    · exact Or.inr (Or.inl ⟨hall, rfl⟩)
    · rw [hp] at hab
      cases hab
  | loopDelete hp =>
    have hid : w.threadId = 0 := h.threadId_eq_zero (by simp [hp]) (by simp [hp]) (by simp [hp])
    refine ⟨fun hne => absurd hid hne, Or.inl hok, fun _ => rfl, ?_⟩
    exact history_snoc.mpr ⟨h.hist, fun _ => nofun⟩
  | clearQueue hp =>
    have hid : w.threadId = 0 := h.threadId_eq_zero (by simp [hp]) (by simp [hp]) (by simp [hp])
    have hnone : NoneOnItsWay w := h.noneOnItsWay (by rw [hp]; rfl) (by simp [hp])
    exact ⟨fun hne => absurd hid hne, Or.inl hnone, fun _ => rfl, h.hist⟩
  | callFinalHandler hp =>
    have hid : w.threadId = 0 := h.threadId_eq_zero (by simp [hp]) (by simp [hp]) (by simp [hp])
    have hnone : NoneOnItsWay w := h.noneOnItsWay (by rw [hp]; rfl) (by simp [hp])
    unfold callFinalHandler
    split
    next calls hcalls =>
      refine ⟨fun hne => absurd hid hne, Or.inl hnone, fun _ => rfl, ?_⟩
      refine h.hist.append fun o ho _ => notDead_of_apart ?_
      rcases mem_finalCall hcalls ho with ⟨-, rfl⟩ | ⟨-, rfl⟩ | ⟨-, rfl⟩ <;> rfl
    next => exact ⟨fun hne => absurd hid hne, Or.inl hnone, fun _ => rfl, h.hist⟩

theorem safe_call {c : CallAct} (hr : Rule w (.call c) w') (hok : InTime w (.call c)) (h : Safe w) :
    Safe w' := by
  cases hr with
  | begin =>
    refine ⟨h.threadId, h.calls.imp_left fun hnone c hc => ?_, h.deleted, h.hist⟩
    rcases List.mem_append.mp hc with hc | hc
    · exact hnone c hc
    · rw [List.mem_singleton.mp hc]
      rfl
  | @loadOff i c hab hi _ hd =>
    refine safe_setPc h fun _ => ?_
    refine ⟨hok c hi hd, ?_⟩
    have hne : w.threadId ≠ 0 := by
      intro h0
      unfold dispatch at hd
      split_ifs at hd
      omega
    rcases h.threadId hne with hp | hp | ⟨why, hp⟩
    · rw [hp]; rfl
    · rw [hp]; rfl
    · exact absurd hp (hab why)
  | loadDropped => exact safe_setPc h nofun
  | @push i us buf early gen hab hi =>
    have hseen := h.seen hab hi rfl
    have hpush : Safe (wqPush ⟨buf, some i, gen⟩ w) := ⟨h.threadId, h.calls, h.deleted, h.hist⟩
    exact safe_setPc hpush fun _ => hseen
  | sendDisconnect hab hi => exact safe_setPc (safe_send h (h.seen hab hi rfl)) nofun
  | sendWrite hab hi => exact safe_setPc (safe_send h (h.seen hab hi rfl)) nofun

/-- **The step lemma.** -/
theorem safe_step {a : Act} (hr : Rule w a w') (hl : Linked w) (hok : InTime w a) (h : Safe w) :
    Safe w' := by
  by_cases ha : a.loop
  · exact safe_loop hr hl hok ha h
  · cases a with
    | connect r =>
      cases hr with
      | connect hp => exact safe_connect h hp
    | thread t => exact safe_thread hr hok h
    | call c => exact safe_call hr hok h
    | event e =>
      cases hr with
      | onDrainWriteQueue hp =>
        have hw : Safe { w with wqPending := false } := ⟨h.threadId, h.calls, h.deleted, h.hist⟩
        unfold TLSConnection.onDrainWriteQueue
        split_ifs
        · exact safe_drainLoop (hl hp) hw
        · exact hw
      | _ => exact absurd rfl ha
    | inner i =>
      cases hr with
      | @drainReturned stack hp =>
        have hw : Safe { w with stack := stack, wq := w.wq.tail } :=
          ⟨h.threadId, h.calls, h.deleted, h.hist⟩
        exact safe_drainLoop (hl hp) hw
      | _ => exact absurd rfl ha

/-- **No wakeup is sent to a dead handle**, in runs in which no call sets out once the handles are
closed, and neither are they closed nor is the loop deleted while a call is on its way. -/
theorem no_dead_wakeup {handlers : Handlers} {s : ConnState} {as : List Act}
    (h : Run step InTime (new handlers s) as w) : History NotDead w.log := by
  have h0 : Safe (new handlers s) :=
    ⟨fun hne => absurd rfl hne, Or.inl nofun, nofun, history_nil⟩
  obtain ⟨-, hsafe⟩ := invariant_of_run h h0 fun _ _ _ hr hl hok hs => safe_step hr hl hok hs
  exact hsafe.hist

/-- Another thread disconnects an established connection, and its wakeup is handled. -/
theorem no_dead_wakeup_disconnect : ∃ w, Run step InTime (new openHandlers .invalid)
    (establishing ++ [.call (.begin 2 .disconnect), .call (.load 0), .call (.send 0),
      .event .onDisconnectRequest]) w ∧
    .uvAsyncSend .dcasync ∈ w.log ∧ .uvClose .dcasync ∈ w.log ∧ History NotDead w.log := by
  have hexec : (exec step InTime (establishing ++ [Act.call (.begin 2 .disconnect), .call (.load 0),
      .call (.send 0), .event .onDisconnectRequest]) (new openHandlers .invalid)).any
      (fun w => .uvAsyncSend .dcasync ∈ w.log ∧ .uvClose .dcasync ∈ w.log) = true := by decide
  obtain ⟨w, hr, hw⟩ := exists_run_of_exec hexec
  obtain ⟨h1, h2⟩ := of_decide_eq_true hw
  exact ⟨w, hr, h1, h2, no_dead_wakeup hr⟩

/-- A `Write` on another thread has loaded the thread id and pushed when the peer closes the
connection: its wakeup goes to a closed handle of a deleted loop. -/
theorem wakeup_of_closed_handle : ∃ as w pre, Run step Any (new openHandlers .invalid) as w ∧
    w.log = pre ++ [.uvAsyncSend .wqasync] ∧ .uvClose .wqasync ∈ pre ∧ .uvLoopDelete ∈ pre ∧
    ¬ History NotDead w.log := by
  have hexec : (exec step Any (establishing ++ [Act.call (.begin 2 (.write ⟨some [7], 1, 1⟩)),
      .call (.load 0), .call (.push 0), .event (.onRead (-1) [] [] ⟨uvEOF, ""⟩),
      .thread (.uvRunReturned 0 ⟨0, ""⟩), .thread .storeZero, .thread .loopDelete,
      .call (.send 0)]) (new openHandlers .invalid)).any (fun w =>
        w.log = w.log.dropLast ++ [.uvAsyncSend .wqasync] ∧ .uvClose .wqasync ∈ w.log.dropLast ∧
          .uvLoopDelete ∈ w.log.dropLast) = true := by decide
  obtain ⟨w, hr, hw⟩ := exists_run_of_exec hexec
  obtain ⟨hlog, hcl, hdel⟩ := of_decide_eq_true hw
  exact ⟨_, w, _, hr, hlog, hcl, hdel, fun h => (h _ _ [] hlog _ rfl).1 hcl⟩

end LibMumble.TLSConnection.Wakeup
