import LibMumble.TLSConnection.Shutdown

/-! # The end of a connection

What a connection that is disconnected already can still do without running `Shutdown` again, calling
the established or the read handler, or changing the cause is `SparesEnd`, and such steps leave the
end as it is (`Late`). So in a run of such steps the first `Shutdown` is the only one (`OneEnd`,
`first_shutdown_wins`). -/

namespace LibMumble.TLSConnection.Terminal

open World Lib

variable {w w' w'' : World}

/-! ### Steps after the end -/

/-- What a connection that is disconnected still does, without disconnecting again. -/
def SparesEnd (w : World) : Act → Prop
  | .thread (.uvRunReturned err last) =>
    err = uvOK ∨ (w.state = .disconnectedError ∧ w.err = errorFromUVError last)
  | .inner .disconnect => False
  | .inner (.sslVerify chain _ _ _) => encodeChain chain ≠ .ok none
  | .inner (.sslReturn ret err _) => match w.stack with
    | .sslConnect _ :: _ => (ret < 0 ∧ isWant err = true) ∨ 1 < ret
    | .sslRead _ :: _ =>
      (ret = -1 ∧ isWant err = true) ∨ (ret ≠ -1 ∧ ret ≠ 0 ∧ w.handlers.read = false)
    | .sslWrite :: _ => 0 < ret
    | _ => True
  | _ => True

/-- The condition on a step: when the connection is disconnected, the step spares that. -/
def ShutsOnce (w : World) (a : Act) : Prop := w.state.disconnected = true → SparesEnd w a

instance decidableSparesEndReturn (w : World) (ret err : ℤ) (stack : List Frame) :
    Decidable (match stack with
      | .sslConnect _ :: _ => (ret < 0 ∧ isWant err = true) ∨ 1 < ret
      | .sslRead _ :: _ =>
        (ret = -1 ∧ isWant err = true) ∨ (ret ≠ -1 ∧ ret ≠ 0 ∧ w.handlers.read = false)
      | .sslWrite :: _ => 0 < ret
      | _ => True) :=
  match stack with
  | .sslConnect _ :: _ | .sslRead _ :: _ => inferInstanceAs (Decidable (_ ∨ _))
  | .sslWrite :: _ => inferInstanceAs (Decidable (_ < _))
  | [] | .verifyHandler :: _ | .establishedHandler _ :: _ | .readHandler _ :: _ | .drain :: _ =>
    .isTrue trivial

instance (w : World) : DecidablePred (SparesEnd w)
  | .thread (.uvRunReturned _ _) => inferInstanceAs (Decidable (_ ∨ _))
  | .inner (.sslVerify _ _ _ _) => inferInstanceAs (Decidable (_ ≠ _))
  | .inner (.sslReturn ret err _) => decidableSparesEndReturn w ret err w.stack
  | .inner .disconnect => .isFalse id
  | .inner (.bioRead _) | .inner (.write _) | .inner (.handlerReturn _) | .inner .drainReturned =>
    .isTrue trivial
  | .thread (.start _) | .thread .storeZero | .thread .loopDelete | .thread .clearQueue
  | .thread .callFinalHandler => .isTrue trivial
  | .connect _ | .event _ | .call _ => .isTrue trivial

instance (w : World) : DecidablePred (ShutsOnce w) := fun _ =>
  inferInstanceAs (Decidable (_ → _))

/-- State and cause are kept, and nothing is closed or handed to the established or read handler. -/
structure Late (w w' : World) : Prop where
  state : w'.state = w.state
  err : w'.err = w.err
  log : ∃ new, w'.log = w.log ++ new ∧ ∀ o ∈ new, harmless o = true

namespace Late

theorem of_eq (hst : w'.state = w.state) (he : w'.err = w.err) (hl : w'.log = w.log) :
    Late w w' := ⟨hst, he, [], by rw [hl, List.append_nil], nofun⟩

theorem refl (w : World) : Late w w := of_eq rfl rfl rfl

theorem trans (h1 : Late w w') (h2 : Late w' w'') : Late w w'' := by
  obtain ⟨new, hl, hn⟩ := h1.log
  obtain ⟨new', hl', hn'⟩ := h2.log
  refine ⟨h2.state.trans h1.state, h2.err.trans h1.err, new ++ new', ?_, fun o ho => ?_⟩
  · rw [hl', hl, List.append_assoc]
  · exact (List.mem_append.mp ho).elim (hn o) (hn' o)

theorem observe {o : Obs} (ho : harmless o = true) (w : World) : Late w (w.observe o) :=
  ⟨rfl, rfl, [o], rfl, fun _ hm => by rwa [List.mem_singleton.mp hm]⟩

/-- A function that the code called returns. -/
theorem returned {o : Obs} (stack : List Frame) (ho : harmless o = true) :
    Late w ({ w with stack := stack }.observe o) :=
  ⟨rfl, rfl, [o], rfl, fun _ hm => by rwa [List.mem_singleton.mp hm]⟩

theorem shutdowns (h : Late w w') : shutdowns w' = shutdowns w := by
  obtain ⟨new, hl, hn⟩ := h.log
  exact shutdowns_of_log hl fun o ho => noEnd_of_harmless (hn o ho)

theorem closes (h : Late w w') (hd : Handle) :
    w'.log.count (.uvClose hd) = w.log.count (.uvClose hd) := by
  obtain ⟨new, hl, hn⟩ := h.log
  exact closes_of_log hl (fun o ho => noEnd_of_harmless (hn o ho)) hd

theorem handleStarvedDone (k : Caller) (ok : Bool) (hd : w.state.disconnected = true) :
    Late w (handleStarvedDone k ok w) := by
  have hne : w.state ≠ .established := by
    intro h
    rw [h] at hd
    cases hd
  unfold TLSConnection.handleStarvedDone onReadEstablished
  split
  · exact refl w
  · split_ifs <;> exact refl w

theorem drainLoop (h : w.threadId = w.tid) : Late w (drainLoop w) := by
  rw [drainLoop_onLoop h]
  split
  · exact refl w
  · exact ⟨rfl, rfl, [_], rfl, by simp [harmless, noEnd]⟩

end Late

/-- **The step lemma**: a disconnected connection whose handles are closed. -/
theorem late_of_rule {a : Act} (hr : Rule w a w') (hl : Linked w) (hc : ∀ r, a ≠ .connect r)
    (hd : w.state.disconnected = true) (hcl : w.phase = .running → ∀ h, w.closed h)
    (hok : SparesEnd w a) : Late w w' := by
  cases hr with
  | connect => exact absurd rfl (hc _)
  | start | storeZero | clearQueue => exact .of_eq rfl rfl rfl
  | @uvRunReturned err last =>
    unfold TLSConnection.uvRunReturned
    simp only
    split_ifs with he
    · obtain ⟨h1, h2⟩ := Or.resolve_left hok he
      exact .of_eq h1.symm h2.symm rfl
    · exact .of_eq rfl rfl rfl
  | loopDelete => exact ⟨rfl, rfl, [.uvLoopDelete], rfl, by simp [harmless, noEnd]⟩
  | callFinalHandler =>
    unfold TLSConnection.callFinalHandler
    split
    next calls hcalls => exact ⟨rfl, rfl, calls, rfl, harmless_finalCall hcalls⟩
    next => exact .of_eq rfl rfl rfl
  | onConnect =>
    have hne : w.state ≠ .preConnect := by
      intro h
      rw [h] at hd
      cases hd
    unfold TLSConnection.onConnect
    rw [if_pos hne]
    exact .of_eq rfl rfl rfl
  | onRead hp _ hn => exact absurd (hcl hp _) hn
  | onDrainWriteQueue hp _ _ hn => exact absurd (hcl hp _) hn
  | onDisconnectRequest hp _ _ hn => exact absurd (hcl hp _) hn
  | bioRead =>
    unfold TLSConnection.bioRead
    split <;> exact .of_eq rfl rfl rfl
  | sslVerify =>
    unfold TLSConnection.sslVerifyCallback
    split
    next => exact .of_eq rfl rfl rfl
    next hn => exact absurd hn hok
    next =>
      split_ifs
      · exact ⟨rfl, rfl, [_], rfl, by simp [harmless, noEnd]⟩
      · exact .observe rfl w
  | @sslConnectReturned ret err data k stack hp hst =>
    simp only [SparesEnd, hst] at hok
    refine (Late.returned (o := .sslReturn .connect ret err) stack rfl).trans ?_
    unfold TLSConnection.sslConnectReturned
    split_ifs with h1 h2 h3 h4
    · exact .handleStarvedDone _ _ hd
    · exact absurd h2 (by simp [(hok.resolve_right (by omega)).2])
    · omega
    · omega
    · exact .of_eq rfl rfl rfl
  | @sslReadReturned ret err data processed stack hp hst =>
    simp only [SparesEnd, hst] at hok
    refine (Late.returned (o := .sslReturn .read ret err) stack rfl).trans ?_
    unfold TLSConnection.sslReadReturned
    rcases hok with ⟨h1, h2⟩ | ⟨h1, h2, h3⟩
    · rw [if_pos h1, if_pos h2]
      exact .refl _
    · rw [if_neg h1, if_neg h2]
      simp only
      split
      · exact .of_eq rfl rfl rfl
      · rw [if_neg (by simp [observe, h3])]
        exact .of_eq rfl rfl rfl
  | @sslWriteReturned ret err data stack hp hst =>
    simp only [SparesEnd, hst] at hok
    unfold TLSConnection.sslWriteReturned
    rw [if_neg (by omega), if_neg (by omega)]
    exact .returned stack rfl
  | disconnect => exact hok.elim
  | write hp =>
    rw [write_onLoop (hl hp)]
    exact ⟨rfl, rfl, [_], rfl, by simp [harmless, noEnd]⟩
  | verifyHandlerReturned => exact .returned _ rfl
  | @establishedHandlerReturned _ k stack =>
    have h : Late w { w with stack := stack } := .of_eq rfl rfl rfl
    exact h.trans (.handleStarvedDone _ _ hd)
  | readHandlerReturned => exact .of_eq rfl rfl rfl
  | @drainReturned stack hp =>
    have h : Late w { w with stack := stack, wq := w.wq.tail } := .of_eq rfl rfl rfl
    exact h.trans (.drainLoop (hl hp))
  | begin | loadOff | loadDropped | push => exact .of_eq rfl rfl rfl
  | sendDisconnect => exact ⟨rfl, rfl, [_], rfl, by simp [harmless, noEnd]⟩
  | sendWrite => exact ⟨rfl, rfl, [_], rfl, by simp [harmless, noEnd]⟩

/-! ### Runs -/

/-- `Shutdown` ran at most once, with each handle closed by it, and while the thread is in `uv_run`
the state is a disconnected one exactly if it ran. -/
structure OneEnd (w : World) : Prop where
  created : w.phase = .created → w.state = .preConnect
  once : (shutdowns w).length ≤ 1
  closes : ∀ h, w.log.count (.uvClose h) = (shutdowns w).length
  first : ∀ s ∈ shutdowns w, w.state = s ∧ s.disconnected = true
  ended : w.phase = .running → w.state.disconnected = true → shutdowns w ≠ []

theorem OneEnd.closed (h : OneEnd w) (hne : shutdowns w ≠ []) (hd : Handle) : w.closed hd := by
  have hpos : 0 < w.log.count (.uvClose hd) := by
    rw [h.closes]
    exact List.length_pos_iff.mpr hne
  exact List.count_pos_iff.mp hpos

theorem oneEnd_of_nil (hp : w.phase = .created → w.state = .preConnect) (hl : w.log = [])
    (hr : w.phase ≠ .running) : OneEnd w := by
  have hs : shutdowns w = [] := by rw [shutdowns, hl]; rfl
  refine ⟨hp, by simp [hs], fun h => by simp [hs, hl], by simp [hs], fun h => absurd h hr⟩

theorem oneEnd_of_late (h : OneEnd w) (hlate : Late w w') (hc : w'.phase ≠ .created)
    (hr : w'.phase = .running → w.phase = .running) : OneEnd w' := by
  refine ⟨fun h => absurd h hc, ?_, fun hd => ?_, ?_, ?_⟩
  · rw [hlate.shutdowns]
    exact h.once
  · rw [hlate.shutdowns, hlate.closes, h.closes]
  · rw [hlate.shutdowns, hlate.state]
    exact h.first
  · rw [hlate.shutdowns, hlate.state]
    exact fun hp => h.ended (hr hp)

/-- From a connection that is not disconnected. -/
theorem oneEnd_of_ends {o : Option ConnState} (h : OneEnd w) (he : Ends w w' o)
    (hd : w.state.disconnected = false)
    (hc : w'.phase = .created → w'.state = .preConnect) : OneEnd w' := by
  have hnil : shutdowns w = [] := by
    rw [List.eq_nil_iff_forall_not_mem]
    intro s hs
    obtain ⟨h1, h2⟩ := h.first s hs
    rw [← h1, hd] at h2
    cases h2
  cases he with
  | calm hs hcl _ hst =>
    rw [hnil] at hs
    refine ⟨hc, by simp [hs], fun hh => ?_, by simp [hs], fun _ hd' => ?_⟩
    · rw [hcl, h.closes, hnil, hs]
    · rcases hst with hst | hst
      · rw [hst, hd] at hd'
        cases hd'
      · rw [hst] at hd'
        cases hd'
  | shut s hds hs hcl hst =>
    rw [hnil, List.nil_append] at hs
    have hopen : ∀ hh, ¬ w.closed hh := by
      intro hh
      rw [World.closed, ← List.count_pos_iff, h.closes, hnil]
      simp
    rcases hcl with ⟨-, hcount, -⟩ | ⟨hh, hm, -⟩
    · refine ⟨hc, by simp [hs], fun hh => ?_, ?_, by simp [hs]⟩
      · rw [hcount, h.closes, hnil, hs]
        rfl
      · rw [hs]
        intro s' hs'
        rw [List.mem_singleton.mp hs']
        exact ⟨hst, hds⟩
    · exact absurd hm (hopen hh)

/-- Nothing sets the state before the thread starts. -/
theorem created_of_rule {a : Act} (hr : Rule w a w') (hl : Linked w) (hc : ∀ r, a ≠ .connect r)
    (hp : w'.phase = .created) : w.phase = .created ∧ w'.state = w.state := by
  have hbefore : w.phase = .created := by
    have hnext := next_of_rule hr hl hc
    rw [hp] at hnext
    exact hnext.to_created
  cases a with
  | connect r => exact absurd rfl (hc r)
  | thread t =>
    cases hr with
    | start => cases hp
    | _ hthread =>
      rw [hbefore] at hthread
      cases hthread
  | event e =>
    have hrun := (phase_of_loop hr hl (Or.inl ⟨e, rfl⟩)).1
    rw [hbefore] at hrun
    cases hrun
  | inner i =>
    have hrun := (phase_of_loop hr hl (Or.inr ⟨i, rfl⟩)).1
    rw [hbefore] at hrun
    cases hrun
  | call c => exact ⟨hbefore, (onlyCalls_of_rule hr).state⟩

theorem oneEnd_step {a : Act} (hr : Rule w a w') (hl : Linked w) (hok : ShutsOnce w a)
    (h : OneEnd w) : OneEnd w' := by
  rcases connect_cases hr with hc | hf
  · have hcr : w'.phase = .created → w'.state = .preConnect := by
      intro hp
      obtain ⟨hcreated, hsame⟩ := created_of_rule hr hl hc hp
      exact hsame.trans (h.created hcreated)
    by_cases hd : w.state.disconnected = true
    · have hlate := late_of_rule hr hl hc hd (fun hp => h.closed (h.ended hp hd)) (hok hd)
      have hnc : w.phase ≠ .created := by
        intro hp
        rw [h.created hp] at hd
        cases hd
      refine oneEnd_of_late h hlate (fun hp => hnc (created_of_rule hr hl hc hp).1) fun hp => ?_
      have hnext := next_of_rule hr hl hc
      rw [hp] at hnext
      exact hnext.to_running.resolve_right hnc
    · rw [Bool.not_eq_true] at hd
      by_cases hu : ∀ err last, a ≠ .thread (.uvRunReturned err last)
      · exact oneEnd_of_ends h (ends_of_rule hr hl hc hu) hd hcr
      · cases hr with
        | uvRunReturned =>
          -- an error of `uv_run` sets the state, but nothing runs after it
          have hnil : ∀ s, s ∉ shutdowns w := by
            intro s hs
            obtain ⟨h1, h2⟩ := h.first s hs
            rw [← h1, hd] at h2
            cases h2
          rw [uvRunReturned_eq]
          exact ⟨nofun, h.once, h.closes, fun s hm => absurd hm (hnil s), nofun⟩
        | _ => exact absurd (fun _ _ => nofun) hu
  · refine oneEnd_of_nil hf.state hf.log ?_
    rcases hf.phase with hp | hp <;> simp [hp]

/-- What a connection keeps once `Shutdown` has run. -/
theorem late_run {as : List Act} (hr : Run step ShutsOnce w as w') (hl : Linked w) (h : OneEnd w)
    (hne : shutdowns w ≠ []) (hg : w'.gen = w.gen) : Late w w' := by
  have hkeep := same_connection (P := fun v => OneEnd v ∧ shutdowns v ≠ [] ∧ Late w v) hr hl ?_
  · exact (hkeep.2 hg ⟨h, hne, .refl w⟩).2.2
  · rintro u a v hr hl hok hc ⟨h, hne, hlate⟩
    obtain ⟨s, hm⟩ := List.exists_mem_of_ne_nil _ hne
    have hd : u.state.disconnected = true := by
      obtain ⟨h1, h2⟩ := h.first s hm
      rwa [h1]
    have huv := late_of_rule hr hl hc hd (fun _ => h.closed hne) (hok hd)
    refine ⟨oneEnd_step hr hl hok h, ?_, hlate.trans huv⟩
    rwa [huv.shutdowns]

/-- **The first `Shutdown` is the only one**, in runs in which a disconnected connection takes only
steps that spare its end: from then on state and cause are those of that call, no handle is closed
again, and neither the established nor the read handler is called. -/
theorem first_shutdown_wins {handlers : Handlers} {s0 s : ConnState} {as bs : List Act}
    (h1 : Run step ShutsOnce (new handlers s0) as w) (hs : .shutdown s ∈ w.log)
    (h2 : Run step ShutsOnce w bs w') (hg : w'.gen = w.gen) :
    w.state = s ∧ w'.state = s ∧ w'.err = w.err ∧ (∀ h, w'.log.count (.uvClose h) = 1) ∧
    ∃ later, w'.log = w.log ++ later ∧ .establishedHandler ∉ later ∧
      ∀ payload, .readHandler payload ∉ later := by
  obtain ⟨hl, h⟩ := invariant_of_run h1 (oneEnd_of_nil nofun rfl nofun)
    fun _ _ _ hr hl hok h => oneEnd_step hr hl hok h
  have hm : s ∈ shutdowns w := mem_shutdowns.mpr hs
  have hlate := late_run h2 hl h (List.ne_nil_of_mem hm) hg
  have hst := (h.first s hm).1
  refine ⟨hst, hlate.state.trans hst, hlate.err, fun hd => ?_, ?_⟩
  · have hlen := List.length_pos_of_mem hm
    have := h.once
    rw [hlate.closes, h.closes]
    omega
  · obtain ⟨new, hlog, hn⟩ := hlate.log
    refine ⟨new, hlog, fun hm => ?_, fun payload hm => ?_⟩
    · have := hn _ hm
      cases this
    · have := hn _ hm
      cases this

/-- A segment arrives on an established connection, and the read handler disconnects. -/
def disconnecting : List Act :=
  establishing ++ [.event (.onRead 2 [0, 0] [] ⟨0, ""⟩), .inner (.sslReturn 1 0 [7]),
    .inner .disconnect]

/-- The loop of `OnRead` goes on, finds nothing to read and returns. -/
theorem first_shutdown_wins_read : ∃ w w', Run step ShutsOnce (new openHandlers .invalid)
    disconnecting w ∧ Run step ShutsOnce w
      [.inner (.handlerReturn true), .inner (.sslReturn (-1) sslErrorWantRead [])] w' ∧
    w'.state = .disconnectedLocal := by
  have hexec : (exec step ShutsOnce disconnecting (new openHandlers .invalid)).any (fun w =>
      (exec step ShutsOnce [.inner (.handlerReturn true),
        .inner (.sslReturn (-1) sslErrorWantRead [])] w).any fun w' =>
        .shutdown .disconnectedLocal ∈ w.log ∧ w'.gen = w.gen) = true := by decide
  obtain ⟨w, h1, hw⟩ := exists_run_of_exec hexec
  obtain ⟨w', h2, hw'⟩ := exists_run_of_exec hw
  obtain ⟨hs, hg⟩ := of_decide_eq_true hw'
  exact ⟨w, w', h1, h2, (first_shutdown_wins h1 hs h2 hg).2.1⟩

/-- The loop of `OnRead` goes on and finds more to read: the read handler is called again, and the
close notification of the peer behind it shuts the connection down a second time, which closes the
socket twice. -/
theorem read_after_disconnect : ∃ as w bs w' later, Run step Any (new openHandlers .invalid) as w ∧
    .shutdown .disconnectedLocal ∈ w.log ∧ Run step Any w bs w' ∧ w'.gen = w.gen ∧
    w'.state = .disconnectedRemote ∧ w'.log.count (.uvClose .tcpsock) = 2 ∧
    w'.log = w.log ++ later ∧ .readHandler [8] ∈ later := by
  have hexec : (exec step Any disconnecting (new openHandlers .invalid)).any (fun w =>
      (exec step Any [.inner (.handlerReturn true), .inner (.sslReturn 1 0 [8]),
        .inner (.handlerReturn true), .inner (.sslReturn 0 sslErrorZeroReturn [])] w).any fun w' =>
        .shutdown .disconnectedLocal ∈ w.log ∧ w'.gen = w.gen ∧ w'.state = .disconnectedRemote ∧
        w'.log.count (.uvClose .tcpsock) = 2 ∧ w'.log = w.log ++ w'.log.drop w.log.length ∧
        .readHandler [8] ∈ w'.log.drop w.log.length) = true := by decide
  obtain ⟨w, h1, hw⟩ := exists_run_of_exec hexec
  obtain ⟨w', h2, hw'⟩ := exists_run_of_exec hw
  obtain ⟨hs, hg, hst, hc, hl, hm⟩ := of_decide_eq_true hw'
  exact ⟨_, w, _, w', _, h1, hs, h2, hg, hst, hc, hl, hm⟩

end LibMumble.TLSConnection.Terminal
