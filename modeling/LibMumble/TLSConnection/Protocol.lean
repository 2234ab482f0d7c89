import LibMumble.TLSConnection.Frame
import LibMumble.Lib.History

/-! # The order of the callbacks

The calls of the handlers are a law on the log: each entry is justified by the entries before it
(`Justified`). It is kept by an invariant of the running thread (`Active`): while `SSL_connect` runs
nothing else does but the verify handler and the connection is not yet established, and everything else
on the stack comes after the transition to `ESTABLISHED`. What OpenSSL promises and what the verify
handler must not do is `Contract`. When `uv_run` has returned the connection is disconnected, so that the
thread ends with the final call for its state (`KeepsProtocol`, `callback_protocol`). -/

namespace LibMumble.TLSConnection.Protocol

open World Lib

variable {w w' : World}

/-! ### The law -/

/-- The calls at the end of `TLSConnectionThread`. -/
def final : Obs → Bool
  | .disconnectHandler _ | .errorHandler _ => true
  | _ => false

/-- A call of a handler. -/
def isCallback : Obs → Bool
  | .chainVerifyHandler _ | .establishedHandler | .readHandler _ => true
  | o => final o

/-- The one who is to be asked accepted the chain: the verify handler if it is set, and the system
verifier if not. -/
def Accepted (handlers : Handlers) (log : List Obs) : Prop :=
  ∃ v, .verifyCallback (some v) true ∈ log ∧ (v = .handler ↔ handlers.chainVerify = true)

/-- What has to come before an entry of the log. -/
def Justified (handlers : Handlers) (log : List Obs) : Obs → Prop
  | .transition => .transition ∉ log ∧ Accepted handlers log
  | .establishedHandler => .establishedHandler ∉ log ∧ .transition ∈ log ∧ Accepted handlers log
  | .readHandler _ => .transition ∈ log
  | .sslWrite _ (some _) => .transition ∈ log
  | .verifyCallback none ok => ok = false
  | .verifyCallback (some v) _ => v = .handler ↔ handlers.chainVerify = true
  | .disconnectHandler _ | .errorHandler _ => ∀ o ∈ log, final o = false
  | _ => True

/-- `SSLVerifyCallback` returned. -/
def verifyReturn : Obs → Bool
  | .verifyCallback _ _ => true
  | _ => false

/-- `SSLVerifyCallback` returned `0`. -/
def refusal : Obs → Bool
  | .verifyCallback _ false => true
  | _ => false

/-- `SSL_connect` returns `1` only if `SSLVerifyCallback` was invoked and every invocation returned
`1`; and the verify handler does not call back into the connection. -/
def Contract (w : World) : Act → Prop
  | .inner (.sslReturn ret _ _) => match w.stack with
    | .sslConnect _ :: _ => ret = 1 →
      (∃ o ∈ w.log, verifyReturn o = true) ∧ ∀ o ∈ w.log, refusal o = false
    | _ => True
  | .inner .disconnect | .inner (.write _) => match w.stack with
    | .verifyHandler :: _ => False
    | _ => True
  | _ => True

instance (w : World) : DecidablePred (Contract w) := fun a => by
  unfold Contract
  split
  · split <;> infer_instance
  · split <;> infer_instance
  · split <;> infer_instance
  · infer_instance

theorem contract_thread (w : World) (t : ThreadAct) : Contract w (.thread t) := trivial

/-! ### The running thread -/

/-- Frames of code that may run on an established connection. -/
def after : Frame → Bool
  | .sslConnect _ => false
  | _ => true

/-- An entry that the invariant asks nothing about but its justification. -/
def inert : Obs → Bool
  | .transition | .uvClose _ => false
  | o => !final o

/-- `SSL_connect` is running. -/
structure Connecting (w : World) : Prop where
  stack : ∃ k, w.stack = [.sslConnect k] ∨ w.stack = [.verifyHandler, .sslConnect k]
  before : .transition ∉ w.log
  state : w.state = .starvedSSLConnect ∨ ∃ o ∈ w.log, refusal o = true

structure Active (w : World) : Prop where
  hist : History (Justified w.handlers) w.log
  est : w.state = .established → .transition ∈ w.log
  trans : .transition ∈ w.log → w.state = .established ∨ w.state.disconnected = true
  closed : ∀ h, w.closed h → w.state.disconnected = true
  live : ∀ o ∈ w.log, final o = false
  asked : .verifyHandler ∈ w.stack → w.handlers.chainVerify = true
  shape : ((∀ f ∈ w.stack, after f = true) ∧ (w.stack ≠ [] → .transition ∈ w.log)) ∨ Connecting w

/-- `SSL_connect` does not run on an established connection. -/
theorem Connecting.not_after (h : Connecting w) : ¬ ∀ f ∈ w.stack, after f = true := by
  intro hf
  obtain ⟨k, hk | hk⟩ := h.stack
  · have := hf (.sslConnect k) (by simp [hk])
    cases this
  · have := hf (.sslConnect k) (by simp [hk])
    cases this

theorem final_of_inert {o : Obs} (h : inert o = true) : final o = false := by
  cases o with
  | disconnectHandler | errorHandler => cases h
  | _ => rfl

theorem final_of_shutdown {s : ConnState} {o : Obs} (ho : o = .shutdown s ∨ ∃ h, o = .uvClose h) :
    final o = false := by
  rcases ho with rfl | ⟨h, rfl⟩ <;> rfl

theorem justified_of_shutdown {handlers : Handlers} {s : ConnState} {o : Obs}
    (ho : o = .shutdown s ∨ ∃ h, o = .uvClose h) (pre : List Obs) : Justified handlers pre o := by
  rcases ho with rfl | ⟨h, rfl⟩ <;> trivial

theorem after_of_nil (hst : w.stack = []) : ∀ f ∈ w.stack, after f = true := by
  rw [hst]
  exact nofun

namespace Active

/-- After the transition only code of an established connection is on the stack. -/
theorem after_stack (h : Active w) (ht : .transition ∈ w.log) : ∀ f ∈ w.stack, after f = true := by
  rcases h.shape with ⟨hf, -⟩ | hcon
  · exact hf
  · exact absurd ht hcon.before

theorem transition_of_after (h : Active w) (hf : ∀ f ∈ w.stack, after f = true)
    (hne : w.stack ≠ []) : .transition ∈ w.log := by
  rcases h.shape with ⟨-, ht⟩ | hcon
  · exact ht hne
  · exact absurd hf hcon.not_after

/-- Another entry at the end of the log. -/
theorem observe {o : Obs} (h : Active w) (hj : Justified w.handlers w.log o)
    (ho : inert o = true) : Active (w.observe o) where
  hist := history_snoc.mpr ⟨h.hist, hj⟩
  est hs := List.mem_append_left _ (h.est hs)
  trans hm := by
    rcases mem_observe.mp hm with hm | rfl
    · exact h.trans hm
    · cases ho
  closed hd hm := by
    rcases mem_observe.mp hm with hm | rfl
    · exact h.closed hd hm
    · cases ho
  live o' hm := by
    rcases mem_observe.mp hm with hm | rfl
    · exact h.live o' hm
    · exact final_of_inert ho
  asked := h.asked
  shape := by
    rcases h.shape with ⟨h1, h2⟩ | ⟨h1, h2, h3⟩
    · exact Or.inl ⟨h1, fun hne => List.mem_append_left _ (h2 hne)⟩
    · refine Or.inr ⟨h1, fun hm => ?_, ?_⟩
      · rcases mem_observe.mp hm with hm | rfl
        · exact h2 hm
        · cases ho
      · rcases h3 with h3 | ⟨o', hm, hr⟩
        · exact Or.inl h3
        · exact Or.inr ⟨o', List.mem_append_left _ hm, hr⟩

/-- A change of what the invariant does not speak about. -/
theorem of_eq (h : Active w) (hh : w'.handlers = w.handlers) (hl : w'.log = w.log)
    (hs : w'.state = w.state) (hst : w'.stack = w.stack) : Active w' := by
  refine ⟨?_, ?_, ?_, fun hd => ?_, ?_, ?_, ?_⟩
  · rw [hh, hl]
    exact h.hist
  · rw [hs, hl]
    exact h.est
  · rw [hs, hl]
    exact h.trans
  · rw [World.closed, hl, hs]
    exact h.closed hd
  · rw [hl]
    exact h.live
  · rw [hst, hh]
    exact h.asked
  · rcases h.shape with ⟨h1, h2⟩ | ⟨h1, h2, h3⟩
    · rw [hst, hl]
      exact Or.inl ⟨h1, h2⟩
    · refine Or.inr ⟨?_, ?_, ?_⟩
      · rw [hst]
        exact h1
      · rw [hl]
        exact h2
      · rw [hs, hl]
        exact h3

theorem abort (why : Abort) (h : Active w) : Active (w.abort why) := h.of_eq rfl rfl rfl rfl

/-- Code of an established connection calls out. -/
theorem push {f : Frame} (h : Active w) (hf : after f = true)
    (hv : f = .verifyHandler → w.handlers.chainVerify = true) (ht : .transition ∈ w.log) :
    Active (w.push f) := by
  refine ⟨h.hist, h.est, h.trans, h.closed, h.live, fun hm => ?_,
    Or.inl ⟨fun f' hf' => ?_, fun _ => ht⟩⟩
  · exact (List.mem_cons.mp hm).elim (fun heq => hv heq.symm) h.asked
  · rcases List.mem_cons.mp hf' with rfl | hf'
    · exact hf
    · exact h.after_stack ht f' hf'

/-- Code of an established connection returns. -/
theorem pop {f : Frame} {stack : List Frame} (h : Active w) (hst : w.stack = f :: stack)
    (hf : after f = true) (hv : f ≠ .verifyHandler) :
    Active { w with stack := stack } ∧ .transition ∈ w.log := by
  rcases h.shape with ⟨h1, h2⟩ | hcon
  · have ht : .transition ∈ w.log := h2 (by simp [hst])
    refine ⟨⟨h.hist, h.est, h.trans, h.closed, h.live, fun hm => h.asked (by simp [hst, hm]),
      Or.inl ⟨fun f' hf' => ?_, fun _ => ht⟩⟩, ht⟩
    exact h1 f' (by simp [hst, hf'])
  · obtain ⟨k, hk | hk⟩ := hcon.stack
    · rw [hst] at hk
      cases hk
      cases hf
    · rw [hst] at hk
      exact absurd (List.cons.inj hk).1 hv

/-- `SSL_connect` is on top only when it is alone. -/
theorem connecting {k : Caller} {stack : List Frame} (h : Active w)
    (hst : w.stack = .sslConnect k :: stack) : stack = [] ∧ Connecting w := by
  rcases h.shape with ⟨h1, -⟩ | hcon
  · have := h1 (.sslConnect k) (by simp [hst])
    cases this
  · refine ⟨?_, hcon⟩
    obtain ⟨k', hk | hk⟩ := hcon.stack
    · rw [hst] at hk
      cases hk
      rfl
    · rw [hst] at hk
      cases hk

theorem popConnect {k : Caller} {stack : List Frame} (h : Active w)
    (hst : w.stack = .sslConnect k :: stack) : Active { w with stack := stack } := by
  obtain ⟨rfl, -⟩ := h.connecting hst
  exact ⟨h.hist, h.est, h.trans, h.closed, h.live, nofun,
    Or.inl ⟨nofun, fun hne => absurd rfl hne⟩⟩

/-- `Shutdown`, where `SSL_connect` is not running. -/
theorem shutdown {s : ConnState} (h : Active w) (hs : s.disconnected = true)
    (hst : ∀ f ∈ w.stack, after f = true) : Active (shutdown s w) := by
  have hne : s ≠ .established := by
    rintro rfl
    cases hs
  obtain ⟨p, closes, heq, hcl, -⟩ := shutdown_eq s w
  have hnew : ∀ o ∈ Obs.shutdown s :: closes, o = .shutdown s ∨ ∃ h, o = .uvClose h := fun o ho =>
    (List.mem_cons.mp ho).imp id (hcl o)
  rw [heq]
  refine ⟨h.hist.append fun o ho => justified_of_shutdown (hnew o ho), fun he => absurd he hne,
    fun _ => Or.inr hs, fun _ _ => hs, fun o hm => ?_, h.asked, Or.inl ⟨hst, fun hne => ?_⟩⟩
  · exact (List.mem_append.mp hm).elim (h.live o) fun ho => final_of_shutdown (hnew o ho)
  · exact List.mem_append_left _ (h.transition_of_after hst hne)

theorem shutdownError (h : Active w) (e : Error) (hst : ∀ f ∈ w.stack, after f = true) :
    Active (shutdownError e w) := by
  have h' : Active { w with err := e } := h.of_eq rfl rfl rfl rfl
  exact h'.shutdown rfl hst

theorem onReadEstablished {nread : ℤ} {heap : List UInt8} (h : Active w) :
    Active (onReadEstablished nread heap w) := by
  unfold TLSConnection.onReadEstablished
  split_ifs with hs
  · split
    · exact h.push rfl (by simp) (h.est hs)
    · exact h.abort _
  · exact h

theorem handleStarvedDone {k : Caller} {ok : Bool} (h : Active w) :
    Active (handleStarvedDone k ok w) := by
  unfold TLSConnection.handleStarvedDone
  split
  · exact h
  · split_ifs
    · exact h.onReadEstablished
    · exact h

theorem transition {k : Caller} (h : Active w) (hst : w.stack = []) (hb : .transition ∉ w.log)
    (hs : w.state = .starvedSSLConnect) (ha : Accepted w.handlers w.log) :
    Active (transitionToConnectionEstablishedState k w) := by
  have hne : .establishedHandler ∉ w.log := by
    intro hm
    obtain ⟨pre, post, hl, -, ht, -⟩ := h.hist.of_mem hm
    exact hb (by simp [hl, ht])
  have hopen : ∀ hd, ¬ w.closed hd := by
    intro hd hc
    have := h.closed hd hc
    rw [hs] at this
    cases this
  have h1 : Active ({ w with state := .established }.observe .transition) := by
    refine ⟨history_snoc.mpr ⟨h.hist, hb, ha⟩, fun _ => by simp [World.observe],
      fun _ => Or.inl rfl, fun hd hc => ?_, fun o hm => ?_, h.asked,
      Or.inl ⟨?_, fun hne => absurd hst hne⟩⟩
    · rcases mem_observe.mp hc with hc | hc
      · exact absurd hc (hopen hd)
      · cases hc
    · rcases mem_observe.mp hm with hm | rfl
      · exact h.live o hm
      · rfl
    · exact after_of_nil hst
  have hj : Justified w.handlers (w.log ++ [Obs.transition]) .establishedHandler := by
    obtain ⟨v, hv, hh⟩ := ha
    exact ⟨by simp [hne], by simp, v, List.mem_append_left _ hv, hh⟩
  unfold transitionToConnectionEstablishedState
  simp only
  split_ifs
  · exact (h1.observe hj rfl).push rfl (by simp) (by simp [World.observe])
  · exact h1.handleStarvedDone

/-- The accepted chain that a result `1` of `SSL_connect` promises. -/
theorem accepted (h : Active w) (hsome : ∃ o ∈ w.log, verifyReturn o = true)
    (hall : ∀ o ∈ w.log, refusal o = false) : Accepted w.handlers w.log := by
  obtain ⟨o, hm, ho⟩ := hsome
  obtain ⟨pre, post, -, hj⟩ := h.hist.of_mem hm
  have hno := hall o hm
  cases o with
  | verifyCallback asked ok =>
    cases ok with
    | false => cases hno
    | true =>
      cases asked with
      | none => cases hj
      | some v => exact ⟨v, hm, hj⟩
  | _ => cases ho

theorem sslConnectReturned {k : Caller} {ret err : ℤ} (h : Active w) (hst : w.stack = [])
    (h1 : ret = 1 → .transition ∉ w.log ∧ w.state = .starvedSSLConnect ∧
      Accepted w.handlers w.log) : Active (sslConnectReturned k ret err w) := by
  have hf := after_of_nil hst
  unfold TLSConnection.sslConnectReturned
  split_ifs with h2 h3 h4 h5
  · exact h.handleStarvedDone
  · exact (h.shutdownError _ hf).handleStarvedDone
  · exact (h.shutdown rfl hf).handleStarvedDone
  · obtain ⟨hb, hs, ha⟩ := h1 h5
    exact h.transition hst hb hs ha
  · exact h.abort _

theorem sslReadReturned {processed : ByteArray} {ret err : ℤ} {data : List UInt8} (h : Active w)
    (ht : .transition ∈ w.log) : Active (sslReadReturned processed ret err data w) := by
  have hf := h.after_stack ht
  unfold TLSConnection.sslReadReturned
  split
  · split_ifs
    · exact h
    · exact h.shutdownError _ hf
  · split
    · exact h.shutdown rfl hf
    · simp only
      split
      · exact h.abort _
      · split_ifs
        · exact (h.observe (o := .readHandler _) ht rfl).push rfl (by simp) (List.mem_append_left _ ht)
        · exact h.push rfl (by simp) ht

theorem sslWriteReturned {ret err : ℤ} (h : Active w) (ht : .transition ∈ w.log) :
    Active (sslWriteReturned ret err w) := by
  have hf := h.after_stack ht
  unfold TLSConnection.sslWriteReturned
  split_ifs
  · exact h.shutdownError _ hf
  · exact h.shutdown rfl hf
  · exact h

/-- `SSL_connect` is called. -/
theorem handleStarvedConnectState {k : Caller} (h : Active w) (hst : w.stack = [])
    (hs : w.state = .starvedSSLConnect) : Active (handleStarvedConnectState k w) := by
  refine ⟨h.hist, h.est, h.trans, h.closed, h.live, fun hm => ?_,
    Or.inr ⟨⟨k, Or.inl ?_⟩, fun ht => ?_, Or.inl hs⟩⟩
  · exact (List.mem_cons.mp hm).elim nofun h.asked
  · show _ :: w.stack = _
    rw [hst]
  · rcases h.trans ht with ht | ht
    · rw [hs] at ht
      cases ht
    · rw [hs] at ht
      cases ht

theorem onRead {nread : ℤ} {buf heap : List UInt8} {last : UVErr} (h : Active w)
    (hst : w.stack = []) : Active (onRead nread buf heap last w) := by
  have hf := after_of_nil hst
  unfold TLSConnection.onRead
  split_ifs
  · exact h
  · exact h.shutdown rfl hf
  · exact h.shutdownError _ hf
  · exact h.shutdown rfl hf
  · split
    · exact h.abort _
    · next st _ =>
      have h' : Active { w with bio := { w.bio with ptr := st } } := h.of_eq rfl rfl rfl rfl
      simp only
      split_ifs with hs
      · exact h'.handleStarvedConnectState hst hs
      · exact h'.onReadEstablished

theorem onConnect {status readStart : ℤ} {last : UVErr} (h : Active w) (hst : w.stack = []) :
    Active (onConnect status readStart last w) := by
  have hf := after_of_nil hst
  unfold TLSConnection.onConnect
  split_ifs with h1 h2 h3
  · exact h.abort _
  · exact h.shutdownError _ hf
  · exact h.shutdownError _ hf
  · rw [ne_eq, not_not] at h1
    have hb : .transition ∉ w.log := by
      intro ht
      rcases h.trans ht with ht | ht
      · rw [h1] at ht
        cases ht
      · rw [h1] at ht
        cases ht
    refine handleStarvedConnectState ⟨h.hist, nofun, fun ht => absurd ht hb, fun hd hc => ?_, h.live,
      h.asked, Or.inl ⟨hf, fun hne => absurd hst hne⟩⟩ hst rfl
    have := h.closed hd hc
    rw [h1] at this
    cases this

/-- After `Shutdown` below `SSL_connect`, once a chain has been refused. -/
theorem refused {new : List Obs} (h : Active w) (hcon : Connecting w) (hl : w'.log = w.log ++ new)
    (hn : ∀ o ∈ new, (o = .shutdown .disconnectedError ∨ ∃ h, o = .uvClose h) ∨
      o = .verifyCallback none false) (hs : w'.state = .disconnectedError)
    (hst : w'.stack = w.stack) (hh : w'.handlers = w.handlers)
    (hr : ∃ o ∈ w'.log, refusal o = true) : Active w' := by
  have hmem : ∀ o ∈ w'.log, o ∈ w.log ∨ o ∈ new := fun o hm => List.mem_append.mp (hl ▸ hm)
  have hd : w'.state.disconnected = true := by
    rw [hs]
    rfl
  refine ⟨?_, fun he => ?_, fun _ => Or.inr hd, fun _ _ => hd, fun o hm => ?_, ?_,
    Or.inr ⟨?_, fun hm => ?_, Or.inr hr⟩⟩
  · rw [hl, hh]
    refine h.hist.append fun o ho pre => ?_
    rcases hn o ho with ho | rfl
    · exact justified_of_shutdown ho pre
    · rfl
  · rw [hs] at he
    cases he
  · rcases hmem o hm with hm | hm
    · exact h.live o hm
    · rcases hn o hm with ho | rfl
      · exact final_of_shutdown ho
      · rfl
  · rw [hst, hh]
    exact h.asked
  · rw [hst]
    exact hcon.stack
  · rcases hmem _ hm with hm | hm
    · exact hcon.before hm
    · simpa using hn _ hm

/-- A certificate of the chain cannot be encoded. -/
theorem refuse (h : Active w) (hp : w.phase = .running) (e : Error) :
    Active (match (TLSConnection.shutdownError e w).phase with
      | .aborted _ => TLSConnection.shutdownError e w
      | _ => (TLSConnection.shutdownError e w).observe (.verifyCallback none false)) := by
  rcases h.shape with ⟨h1, -⟩ | hcon
  · have h' := h.shutdownError e h1
    split
    · exact h'
    · exact h'.observe (o := .verifyCallback none _) rfl rfl
  · obtain ⟨-, heq⟩ | ⟨hd, closes, hc, hcl, heq⟩ := shutdown_cases .disconnectedError { w with err := e }
    · have hlog : ∀ o ∈ shutdownLog .disconnectedError ++ [Obs.verifyCallback none false],
          (o = .shutdown .disconnectedError ∨ ∃ h, o = .uvClose h) ∨ o = .verifyCallback none false := by
        intro o ho
        exact (List.mem_append.mp ho).imp mem_shutdownLog List.mem_singleton.mp
      have hu : TLSConnection.shutdownError e w = { w with
        err := e, state := .disconnectedError, log := w.log ++ shutdownLog .disconnectedError } := heq
      simp only [hu, hp]
      exact h.refused hcon (List.append_assoc _ _ _) hlog rfl rfl rfl
        ⟨.verifyCallback none false, List.mem_append_right _ (List.mem_singleton_self _), rfl⟩
    · -- a handle was closed before, so an earlier chain was refused
      have hrefused : ∃ o ∈ w.log, refusal o = true := by
        rcases hcon.state with hs | hr
        · have := h.closed hd hc
          rw [hs] at this
          cases this
        · exact hr
      obtain ⟨o, hm, ho⟩ := hrefused
      have hu : TLSConnection.shutdownError e w = { w with
        err := e, state := .disconnectedError, phase := .aborted (.uvClose hd),
        log := w.log ++ .shutdown .disconnectedError :: closes } := heq
      simp only [hu]
      refine h.refused hcon rfl (fun o ho => Or.inl ?_) rfl rfl rfl ⟨o, List.mem_append_left _ hm, ho⟩
      exact (List.mem_cons.mp ho).imp id (hcl o)

theorem sslVerifyCallback {chain : List PeerCert} {last : CryptoErr} {system : Bool} {now : ℤ}
    {f : Frame} {stack : List Frame} (h : Active w) (hp : w.phase = .running)
    (hst : w.stack = f :: stack) (hf : f.isSSL = true) :
    Active (sslVerifyCallback chain last system now w) := by
  unfold TLSConnection.sslVerifyCallback
  split
  · exact h.abort _
  · exact h.refuse hp _
  · next ders _ =>
    split_ifs with hv
    · have h' := h.observe (o := .chainVerifyHandler ders) trivial rfl
      rcases h'.shape with ⟨h1, ht⟩ | hcon
      · exact h'.push rfl (fun _ => hv) (ht (by simp [World.observe, hst]))
      · refine ⟨h'.hist, h'.est, h'.trans, h'.closed, h'.live, fun _ => hv,
          Or.inr ⟨?_, hcon.before, hcon.state⟩⟩
        obtain ⟨k, hk | hk⟩ := hcon.stack
        · exact ⟨k, Or.inr (congrArg _ hk)⟩
        · rw [show w.stack = _ from hk] at hst
          cases hst
          cases hf
    · refine h.observe (o := .verifyCallback (some _) _) ?_ rfl
      constructor
      · intro hver
        cases hver
      · intro hset
        exact absurd hset hv

theorem verifyHandlerReturned {ok : Bool} {stack : List Frame} (h : Active w)
    (hst : w.stack = .verifyHandler :: stack) :
    Active ({ w with stack := stack }.observe (.verifyCallback (some .handler) ok)) := by
  have hv := h.asked (by simp [hst])
  have h' : Active { w with stack := stack } := by
    refine ⟨h.hist, h.est, h.trans, h.closed, h.live, fun _ => hv, ?_⟩
    rcases h.shape with ⟨h1, ht⟩ | hcon
    · exact Or.inl ⟨fun f hf => h1 f (by simp [hst, hf]), fun _ => ht (by simp [hst])⟩
    · obtain ⟨k, hk | hk⟩ := hcon.stack
      · rw [hst] at hk
        cases hk
      · rw [hst] at hk
        obtain rfl := (List.cons.inj hk).2
        exact Or.inr ⟨⟨k, Or.inl rfl⟩, hcon.before, hcon.state⟩
  exact h'.observe (o := .verifyCallback (some _) _) ⟨fun _ => hv, fun _ => rfl⟩ rfl

theorem drainLoop (h : Active w) (hl : w.threadId = w.tid) (ht : .transition ∈ w.log) :
    Active (drainLoop w) := by
  rw [drainLoop_onLoop hl]
  split
  · exact h
  · have h' := h.push (f := .drain) rfl (by simp) ht
    exact (h'.observe (o := .sslWrite _ (some _)) ht rfl).push rfl (by simp) (List.mem_append_left _ ht)

end Active

/-- **The step lemma of the running thread.** -/
theorem active_of_rule {a : Act} (hr : Rule w a w') (hl : Linked w) (hok : Contract w a)
    (hc : ∀ r, a ≠ .connect r) (ht : ∀ t, a ≠ .thread t) (h : Active w) : Active w' := by
  have hsend : ∀ (u : World) hd, Active u → Active (u.observe (.uvAsyncSend hd)) := fun u hd hu =>
    hu.observe trivial rfl
  cases hr with
  | connect => exact absurd rfl (hc _)
  | start | uvRunReturned | storeZero | loopDelete | clearQueue | callFinalHandler =>
    exact absurd rfl (ht _)
  | onConnect _ hst =>
    have h' : Active { w with connecting := false } := h.of_eq rfl rfl rfl rfl
    exact h'.onConnect hst
  | onRead _ hst =>
    exact (h.observe (o := .onRead _ _) trivial rfl).onRead hst
  | onDrainWriteQueue hp =>
    have h' : Active { w with wqPending := false } := h.of_eq rfl rfl rfl rfl
    unfold TLSConnection.onDrainWriteQueue
    split_ifs with hs
    · exact h'.drainLoop (hl hp) (h.est hs)
    · exact h'
  | onDisconnectRequest _ hst =>
    have h' : Active { w with dcPending := false } := h.of_eq rfl rfl rfl rfl
    exact h'.shutdown rfl (after_of_nil hst)
  | bioRead =>
    unfold TLSConnection.bioRead
    split
    · exact h.of_eq rfl rfl rfl rfl
    · exact h.abort _
  | sslVerify hp hst hf => exact h.sslVerifyCallback hp hst hf
  | @sslConnectReturned ret err data k stack _ hst =>
    obtain ⟨rfl, hcon⟩ := h.connecting hst
    have h' := (h.popConnect hst).observe (o := .sslReturn .connect ret err) trivial rfl
    refine h'.sslConnectReturned rfl fun h1 => ?_
    simp only [Contract, hst] at hok
    obtain ⟨hsome, hall⟩ := hok h1
    refine ⟨by simp [World.observe, hcon.before], ?_, ?_⟩
    · rcases hcon.state with hs | ⟨o, hm, ho⟩
      · exact hs
      · rw [hall o hm] at ho
        cases ho
    · obtain ⟨v, hv, hh⟩ := h.accepted hsome hall
      exact ⟨v, List.mem_append_left _ hv, hh⟩
  | @sslReadReturned ret err data processed stack _ hst =>
    obtain ⟨h', htr⟩ := h.pop hst rfl (by simp)
    have h'' := h'.observe (o := .sslReturn .read ret err) trivial rfl
    exact h''.sslReadReturned (List.mem_append_left _ htr)
  | @sslWriteReturned ret err data stack _ hst =>
    obtain ⟨h', htr⟩ := h.pop hst rfl (by simp)
    have h'' := h'.observe (o := .sslReturn .write ret err) trivial rfl
    exact h''.sslWriteReturned (List.mem_append_left _ htr)
  | @disconnect f stack hp hst hf =>
    rw [disconnect_onLoop (hl hp)]
    simp only [Contract, hst] at hok
    have haf : after f = true := by cases f <;> first | rfl | cases hf
    have hne : f ≠ .verifyHandler := by
      rintro rfl
      exact hok
    exact h.shutdown rfl (h.after_stack (h.pop hst haf hne).2)
  | @write buf f stack hp hst hf =>
    rw [write_onLoop (hl hp)]
    simp only [Contract, hst] at hok
    have haf : after f = true := by cases f <;> first | rfl | cases hf
    have hne : f ≠ .verifyHandler := by
      rintro rfl
      exact hok
    have htr := (h.pop hst haf hne).2
    have h' := h.observe (o := .sslWrite buf none) trivial rfl
    exact h'.push rfl (by simp) (List.mem_append_left _ htr)
  | verifyHandlerReturned _ hst => exact h.verifyHandlerReturned hst
  | establishedHandlerReturned _ hst => exact (h.pop hst rfl (by simp)).1.handleStarvedDone
  | readHandlerReturned _ hst =>
    obtain ⟨h', htr⟩ := h.pop hst rfl (by simp)
    exact h'.push rfl (by simp) htr
  | @drainReturned stack hp hst =>
    obtain ⟨h', htr⟩ := h.pop hst rfl (by simp)
    have h'' : Active { w with stack := stack, wq := w.wq.tail } := h'.of_eq rfl rfl rfl rfl
    exact h''.drainLoop (hl hp) htr
  | begin | loadOff | loadDropped | push => exact h.of_eq rfl rfl rfl rfl
  | sendDisconnect => exact (hsend w .dcasync h).of_eq rfl rfl rfl rfl
  | sendWrite => exact (hsend w .wqasync h).of_eq rfl rfl rfl rfl

/-! ### The thread -/

/-- `uv_run` has returned and the final handler has still to be called. -/
def leaving : Phase → Bool
  | .runReturned | .idCleared | .loopDeleted | .queueCleared => true
  | _ => false

/-- The last callback is the final call for the state, one call if its handler is set, and no final
call was made before. -/
def Done (w : World) : Prop := ∃ pre calls, finalCall w.handlers w.state w.err = some calls ∧
  w.log.filter isCallback = pre ++ calls ∧ (∀ o ∈ pre, final o = false) ∧
  (w.handlers.error = true → w.handlers.disconnect = true → calls.length = 1)

/-- The invariant, by the phase of the thread. -/
structure Inv (w : World) : Prop where
  hist : History (Justified w.handlers) w.log
  active : w.phase = .created ∨ w.phase = .running → Active w
  leaving : leaving w.phase = true → w.state.disconnected = true ∧ ∀ o ∈ w.log, final o = false
  finished : w.phase = .finished → Done w
  reached : w.phase ≠ .aborted .threadNotReached

theorem active_fresh (hl : w.log = []) (hs : w.state = .preConnect) (hst : w.stack = []) :
    Active w := by
  refine ⟨?_, fun h => ?_, fun h => ?_, fun hd h => ?_, ?_, ?_, Or.inl ⟨?_, fun h => absurd hst h⟩⟩
  · rw [hl]
    exact history_nil
  · rw [hs] at h
    cases h
  · simp [hl] at h
  · simp [World.closed, hl] at h
  · simp [hl]
  · simp [hst]
  · simp [hst]

theorem inv_connect {r : ConnectResults} : Inv (connect r w).2 := by
  have hf := fresh_connect r w
  have hhist : History (Justified (connect r w).2.handlers) (connect r w).2.log := by
    rw [hf.log]
    exact history_nil
  rcases hf.phase with hp | hp
  · exact ⟨hhist, by simp [hp], by simp [hp, Protocol.leaving], by simp [hp], by simp [hp]⟩
  · exact ⟨hhist, fun _ => active_fresh hf.log (hf.state hp) hf.stack,
      by simp [hp, Protocol.leaving], by simp [hp], by simp [hp]⟩

/-- What a step appends to the log: a final handler is called at the end of the thread only, as the
state says. -/
theorem log_of_rule {a : Act} (hr : Rule w a w') (hl : Linked w) (hc : ∀ r, a ≠ .connect r) :
    ∃ new, w'.log = w.log ++ new ∧ ∀ o ∈ new, final o = true →
      a = .thread .callFinalHandler ∧ finalCall w.handlers w.state w.err = some new := by
  by_cases hf : a = .thread .callFinalHandler
  · subst hf
    cases hr with
    | callFinalHandler =>
      unfold TLSConnection.callFinalHandler
      split
      next calls hcalls => exact ⟨calls, rfl, fun _ _ _ => ⟨rfl, hcalls⟩⟩
      next => exact ⟨[], (List.append_nil _).symm, nofun⟩
  · suffices h : ∃ new, w'.log = w.log ++ new ∧ ∀ o ∈ new, final o = false by
      obtain ⟨new, hlog, hn⟩ := h
      refine ⟨new, hlog, fun o ho hfin => ?_⟩
      rw [hn o ho] at hfin
      cases hfin
    have hsame : ∀ {u v : World}, v.log = u.log →
        ∃ new, v.log = u.log ++ new ∧ ∀ o ∈ new, final o = false :=
      fun h => ⟨[], by rw [h, List.append_nil], by simp⟩
    have hdrain : ∀ u : World, u.threadId = u.tid →
        ∃ new, (TLSConnection.drainLoop u).log = u.log ++ new ∧ ∀ o ∈ new, final o = false := by
      intro u hu
      rw [drainLoop_onLoop hu]
      split
      · exact hsame rfl
      · exact ⟨[_], rfl, by simp [final]⟩
    by_cases ha : a.loop
    · obtain ⟨new, hlog, hn⟩ := (sameQueue_of_rule hr hl ha).log
      refine ⟨new, hlog, fun o ho => ?_⟩
      have := hn o ho
      cases o <;> first | rfl | cases this
    · cases hr with
      | connect => exact absurd rfl (hc _)
      | callFinalHandler => exact absurd rfl hf
      | start | storeZero | clearQueue => exact hsame rfl
      | loopDelete => exact ⟨[.uvLoopDelete], rfl, by simp [final]⟩
      | uvRunReturned =>
        rw [uvRunReturned_eq]
        exact hsame rfl
      | onDrainWriteQueue hp =>
        unfold TLSConnection.onDrainWriteQueue
        split_ifs
        · exact hdrain { w with wqPending := false } (hl hp)
        · exact hsame rfl
      | @drainReturned stack hp => exact hdrain { w with stack := stack, wq := w.wq.tail } (hl hp)
      | begin | loadOff | loadDropped | push => exact hsame rfl
      | sendDisconnect | sendWrite => exact ⟨[_], rfl, by simp [final]⟩
      | _ => exact absurd rfl ha

/-- A disconnected connection has a final call, made if its handler is set. -/
theorem finalCall_spec {handlers : Handlers} {s : ConnState} {e : Error}
    (hs : s.disconnected = true) : ∃ calls, finalCall handlers s e = some calls ∧
      (calls = [] ∨ ∃ o, calls = [o] ∧ final o = true) ∧
      (handlers.error = true → handlers.disconnect = true → calls.length = 1) := by
  have hite : ∀ (b : Bool) (o : Obs), final o = true →
      ((if b then [o] else []) = [] ∨ ∃ o', (if b then [o] else []) = [o'] ∧ final o' = true) ∧
      (b = true → (if b then [o] else []).length = 1) := by
    intro b o ho
    cases b with
    | false => exact ⟨Or.inl rfl, nofun⟩
    | true => exact ⟨Or.inr ⟨o, rfl, ho⟩, fun _ => rfl⟩
  cases s with
  | disconnectedLocal =>
    obtain ⟨h1, h2⟩ := hite handlers.disconnect (.disconnectHandler true) rfl
    exact ⟨_, rfl, h1, fun _ => h2⟩
  | disconnectedRemote =>
    obtain ⟨h1, h2⟩ := hite handlers.disconnect (.disconnectHandler false) rfl
    exact ⟨_, rfl, h1, fun _ => h2⟩
  | disconnectedError =>
    obtain ⟨h1, h2⟩ := hite handlers.error (.errorHandler e) rfl
    exact ⟨_, rfl, h1, fun h _ => h2 h⟩
  | _ => cases hs

theorem justified_final {handlers : Handlers} {log : List Obs} {o : Obs} (ho : final o = true)
    (h : ∀ o' ∈ log, final o' = false) : Justified handlers log o := by
  cases o <;> first | exact h | cases ho

theorem isCallback_of_final {o : Obs} (ho : final o = true) : isCallback o = true := by
  cases o <;> first | rfl | cases ho

theorem inv_callFinalHandler (h : Inv w) (hp : w.phase = .queueCleared) :
    Inv (callFinalHandler w) ∧ (callFinalHandler w).phase = .finished := by
  obtain ⟨hd, hlive⟩ := h.leaving (by rw [hp]; rfl)
  obtain ⟨calls, hcalls, hform, hone⟩ := @finalCall_spec w.handlers w.state w.err hd
  have hw : callFinalHandler w = { w with phase := .finished, log := w.log ++ calls } := by
    rw [callFinalHandler, hcalls]
  rw [hw]
  refine ⟨⟨?_, nofun, nofun, fun _ => ⟨w.log.filter isCallback, calls, hcalls, ?_, fun o hm => ?_,
    hone⟩, nofun⟩, rfl⟩
  · rcases hform with rfl | ⟨o, rfl, ho⟩
    · simpa using h.hist
    · exact history_snoc.mpr ⟨h.hist, justified_final ho hlive⟩
  · rcases hform with rfl | ⟨o, rfl, ho⟩
    · simp
    · simp [isCallback_of_final ho]
  · exact hlive o (List.mem_of_mem_filter hm)

theorem inv_thread {t : ThreadAct} (hr : Rule w (.thread t) w') (h : Inv w) : Inv w' := by
  have hover : ∀ u : World, u.handlers = w.handlers →
      u.log = w.log ∨ u.log = w.log ++ [Obs.uvLoopDelete] → u.state = w.state →
      leaving w.phase = true → leaving u.phase = true → Inv u := by
    intro u hh hl hs hw hu
    obtain ⟨hd, hlive⟩ := h.leaving hw
    refine ⟨?_, fun hp => ?_, fun _ => ⟨hs ▸ hd, fun o hm => ?_⟩, fun hp => ?_, fun hp => ?_⟩
    · rw [hh]
      rcases hl with hl | hl
      · rw [hl]
        exact h.hist
      · rw [hl]
        exact history_snoc.mpr ⟨h.hist, trivial⟩
    · rcases hp with hp | hp <;> simp [hp, Protocol.leaving] at hu
    · rcases hl with hl | hl
      · exact hlive o (hl ▸ hm)
      · rw [hl] at hm
        rcases List.mem_append.mp hm with hm | hm
        · exact hlive o hm
        · rw [List.mem_singleton.mp hm]
          rfl
    · simp [hp, Protocol.leaving] at hu
    · simp [hp, Protocol.leaving] at hu
  cases hr with
  | start hp =>
    refine ⟨h.hist, fun _ => ?_, nofun, nofun, nofun⟩
    exact (h.active (Or.inl hp)).of_eq rfl rfl rfl rfl
  | @uvRunReturned err last hp hst hc =>
    have ha := h.active (Or.inr hp)
    unfold TLSConnection.uvRunReturned
    simp only
    split_ifs with he
    · exact ⟨h.hist, by simp, fun _ => ⟨rfl, ha.live⟩, nofun, nofun⟩
    · rw [not_not] at he
      exact ⟨h.hist, by simp, fun _ => ⟨ha.closed _ (hc he).1, ha.live⟩, nofun, nofun⟩
  | storeZero hp => exact hover _ rfl (Or.inl rfl) rfl (by rw [hp]; rfl) rfl
  | loopDelete hp => exact hover _ rfl (Or.inr rfl) rfl (by rw [hp]; rfl) rfl
  | clearQueue hp => exact hover _ rfl (Or.inl rfl) rfl (by rw [hp]; rfl) rfl
  | callFinalHandler hp => exact (inv_callFinalHandler h hp).1

theorem inv_call {c : CallAct} (hr : Rule w (.call c) w') (hl : Linked w) (h : Inv w) : Inv w' := by
  have hs := onlyCalls_of_rule hr
  have hmem : ∀ o ∈ w'.log, final o = true → o ∈ w.log := by
    intro o hm hf
    rcases hs.log with hlog | ⟨hd, hlog⟩
    · rwa [hlog] at hm
    · rw [hlog] at hm
      rcases List.mem_append.mp hm with hm | hm
      · exact hm
      · rw [List.mem_singleton.mp hm] at hf
        cases hf
  refine ⟨?_, fun hp => ?_, fun hp => ?_, fun hp => ?_, ?_⟩
  · rw [hs.handlers]
    rcases hs.log with hlog | ⟨hd, hlog⟩
    · rw [hlog]
      exact h.hist
    · rw [hlog]
      exact history_snoc.mpr ⟨h.hist, trivial⟩
  · rw [hs.phase] at hp
    have hok : Contract w (.call c) := trivial
    exact active_of_rule hr hl hok (by simp) (by simp) (h.active hp)
  · rw [hs.phase] at hp
    obtain ⟨hd, hlive⟩ := h.leaving hp
    refine ⟨by rw [hs.state]; exact hd, fun o hm => ?_⟩
    by_contra hf
    rw [Bool.not_eq_false] at hf
    rw [hlive o (hmem o hm hf)] at hf
    cases hf
  · rw [hs.phase] at hp
    obtain ⟨pre, calls, hcalls, hlog, hpre, hone⟩ := h.finished hp
    refine ⟨pre, calls, by rw [hs.handlers, hs.state, hs.err]; exact hcalls, ?_, hpre,
      by rw [hs.handlers]; exact hone⟩
    rcases hs.log with hlog' | ⟨hd, hlog'⟩
    · rw [hlog', hlog]
    · rw [hlog', List.filter_append, hlog]
      simp [isCallback, final]
  · rw [hs.phase]
    exact h.reached

theorem inv_step {a : Act} (hr : Rule w a w') (hl : Linked w) (hok : Contract w a) (h : Inv w) :
    Inv w' := by
  have hloop : (∃ e, a = .event e) ∨ (∃ i, a = .inner i) → Inv w' := by
    intro ha
    obtain ⟨hrun, hp⟩ := phase_of_loop hr hl ha
    have hact : Active w' := by
      refine active_of_rule hr hl hok ?_ ?_ (h.active (Or.inr hrun))
      · rintro r rfl
        simp at ha
      · rintro t rfl
        simp at ha
    refine ⟨hact.hist, fun _ => hact, fun ho => ?_, fun hf => ?_, fun hn => ?_⟩
    · rcases hp with hp | ⟨why, -, hp⟩ <;> simp [hp, Protocol.leaving] at ho
    · rcases hp with hp | ⟨why, -, hp⟩ <;> simp [hp] at hf
    · rcases hp with hp | ⟨why, hne, hp⟩
      · simp [hp] at hn
      · rw [hp] at hn
        exact hne (Phase.aborted.inj hn)
  cases a with
  | connect r =>
    cases hr
    exact inv_connect
  | thread t => exact inv_thread hr h
  | event e => exact hloop (Or.inl ⟨e, rfl⟩)
  | inner i => exact hloop (Or.inr ⟨i, rfl⟩)
  | call c => exact inv_call hr hl h

/-- A step of a thread that is on its way to the end. -/
theorem finishes_step {t : ThreadAct} (hs : step w (.thread t) = some w')
    (h : ∃ ts w'', Run step Contract w' ts w'' ∧ w''.phase = .finished ∧ Done w'') :
    ∃ ts w'', Run step Contract w ts w'' ∧ w''.phase = .finished ∧ Done w'' := by
  obtain ⟨ts, w'', hrun, hend⟩ := h
  exact ⟨_, w'', .cons (contract_thread w t) hs hrun, hend⟩

/-- A thread that has left `uv_run` gets to the end. -/
theorem finishes (h : Inv w) (ho : leaving w.phase = true) :
    ∃ ts w', Run step Contract w ts w' ∧ w'.phase = .finished ∧ Done w' := by
  have h4 : ∀ u, Inv u → u.phase = .queueCleared →
      ∃ ts w', Run step Contract u ts w' ∧ w'.phase = .finished ∧ Done w' := by
    intro u hu hp
    obtain ⟨hi, hf⟩ := inv_callFinalHandler hu hp
    have hs : step u (.thread .callFinalHandler) = some (callFinalHandler u) := if_pos hp
    exact finishes_step hs ⟨[], _, .nil _, hf, hi.finished hf⟩
  have h3 : ∀ u, Inv u → u.phase = .loopDeleted →
      ∃ ts w', Run step Contract u ts w' ∧ w'.phase = .finished ∧ Done w' := by
    intro u hu hp
    have hs : step u (.thread .clearQueue) = some (clearQueue u) := if_pos hp
    exact finishes_step hs (h4 _ (inv_thread (step_rule hs) hu) rfl)
  have h2 : ∀ u, Inv u → u.phase = .idCleared →
      ∃ ts w', Run step Contract u ts w' ∧ w'.phase = .finished ∧ Done w' := by
    intro u hu hp
    have hs : step u (.thread .loopDelete) = some (loopDelete u) := if_pos hp
    exact finishes_step hs (h3 _ (inv_thread (step_rule hs) hu) rfl)
  cases hp : w.phase with
  | runReturned =>
    have hs : step w (.thread .storeZero) = some (storeZero w) := if_pos hp
    exact finishes_step hs (h2 _ (inv_thread (step_rule hs) h) rfl)
  | idCleared => exact h2 w h hp
  | loopDeleted => exact h3 w h hp
  | queueCleared => exact h4 w h hp
  | _ =>
    rw [hp] at ho
    cases ho

/-! ### The protocol -/

/-- The callback protocol, for the connection since the last `Connect`. -/
structure KeepsProtocol (w : World) : Prop where
  once : w.log.count .establishedHandler ≤ 1
  verified : ∀ pre post, w.log = pre ++ .establishedHandler :: post → Accepted w.handlers pre
  read : ∀ pre payload post, w.log = pre ++ .readHandler payload :: post → .transition ∈ pre
  drained : ∀ pre buf gen post, w.log = pre ++ .sslWrite buf (some gen) :: post → .transition ∈ pre
  reached : w.phase ≠ .aborted .threadNotReached
  ends : leaving w.phase = true →
    ∃ ts w', Run step Contract w ts w' ∧ w'.phase = .finished ∧ Done w'
  finished : w.phase = .finished → Done w

end LibMumble.TLSConnection.Protocol
