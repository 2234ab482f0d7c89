import LibMumble.TLSConnection.Frame

/-! # What runs `Shutdown`

`Shutdown` is reached from many places, and nothing tests whether it has run before. In one step it
runs at most once. Whether it does, and with which state, follows from the state before the step and
from the results of the calls that return in it (`ends`); everything else leaves the end as it is
(`Calm`, `ends_of_rule`). -/

namespace LibMumble.TLSConnection

open World Lib

variable {w w' w'' : World} {o : Option ConnState}

/-! ### What `Shutdown` records -/

/-- The states that `Shutdown` was called with. -/
def shutdowns (w : World) : List ConnState :=
  w.log.filterMap fun o => match o with
    | .shutdown s => some s
    | _ => none

theorem mem_shutdowns {s : ConnState} : s ∈ shutdowns w ↔ .shutdown s ∈ w.log := by
  simp only [shutdowns, List.mem_filterMap]
  constructor
  · rintro ⟨o, ho, hs⟩
    split at hs <;> cases hs
    exact ho
  · exact fun h => ⟨_, h, rfl⟩

/-- An entry that `Shutdown` does not make. -/
def noEnd : Obs → Bool
  | .shutdown _ | .uvClose _ => false
  | _ => true

/-- An entry that is made neither by `Shutdown` nor by a call of the established or read handler. -/
def harmless : Obs → Bool
  | .establishedHandler | .readHandler _ => false
  | o => noEnd o

theorem noEnd_of_harmless {o : Obs} (h : harmless o = true) : noEnd o = true := by
  cases o <;> first | rfl | cases h

theorem shutdowns_of_log {new : List Obs} (hl : w'.log = w.log ++ new)
    (hn : ∀ o ∈ new, noEnd o = true) : shutdowns w' = shutdowns w := by
  have hnil : (new.filterMap fun o => match o with
      | .shutdown s => some s
      | _ => none) = [] := by
    rw [List.filterMap_eq_nil_iff]
    intro o ho
    have := hn o ho
    cases o <;> first | rfl | simp [noEnd] at this
  rw [shutdowns, hl, List.filterMap_append, hnil, List.append_nil]
  rfl

theorem closes_of_log {new : List Obs} (hl : w'.log = w.log ++ new)
    (hn : ∀ o ∈ new, noEnd o = true) (h : Handle) :
    w'.log.count (.uvClose h) = w.log.count (.uvClose h) := by
  have hz : new.count (.uvClose h) = 0 := by
    rw [List.count_eq_zero]
    intro hm
    have := hn _ hm
    simp [noEnd] at this
  rw [hl, List.count_append, hz, Nat.add_zero]

/-- libuv does not end the process at a second `uv_close`. -/
def Spared (w w' : World) : Prop :=
  ∀ h, w'.phase = .aborted (.uvClose h) → w.phase = .aborted (.uvClose h)

/-- The end is left as it is. -/
structure Calm (w w' : World) : Prop where
  shutdowns : shutdowns w' = shutdowns w
  closes : ∀ h, w'.log.count (.uvClose h) = w.log.count (.uvClose h)
  state : w'.state = w.state
  spared : Spared w w'

namespace Calm

theorem of_eq (hl : w'.log = w.log) (hst : w'.state = w.state) (hp : Spared w w') : Calm w w' :=
  ⟨by rw [TLSConnection.shutdowns, hl]; rfl, fun h => by rw [hl], hst, hp⟩

theorem refl (w : World) : Calm w w := .of_eq rfl rfl fun _ => id

theorem trans (h1 : Calm w w') (h2 : Calm w' w'') : Calm w w'' where
  shutdowns := h2.shutdowns.trans h1.shutdowns
  closes h := (h2.closes h).trans (h1.closes h)
  state := h2.state.trans h1.state
  spared h := h1.spared h ∘ h2.spared h

theorem of_log {new : List Obs} (hl : w'.log = w.log ++ new) (hn : ∀ o ∈ new, noEnd o = true)
    (hst : w'.state = w.state) (hp : Spared w w') : Calm w w' :=
  ⟨shutdowns_of_log hl hn, closes_of_log hl hn, hst, hp⟩

theorem observe {o : Obs} (ho : noEnd o = true) (w : World) : Calm w (w.observe o) :=
  of_log rfl (fun _ hm => by rwa [List.mem_singleton.mp hm]) rfl fun _ => id

/-- A function that the code called returns. -/
theorem returned {o : Obs} (stack : List Frame) (ho : noEnd o = true) :
    Calm w ({ w with stack := stack }.observe o) :=
  of_log rfl (fun _ hm => by rwa [List.mem_singleton.mp hm]) rfl fun _ => id

theorem push (f : Frame) (w : World) : Calm w (w.push f) := .of_eq rfl rfl fun _ => id

theorem abort {why : Abort} (hw : ∀ h, why ≠ .uvClose h) (w : World) : Calm w (w.abort why) :=
  .of_eq rfl rfl fun h hp => absurd (Phase.aborted.inj hp) (hw h)

theorem onReadEstablished (nread : ℤ) (heap : List UInt8) (w : World) :
    Calm w (onReadEstablished nread heap w) := by
  unfold TLSConnection.onReadEstablished
  split_ifs
  · split
    · exact push _ w
    · exact abort (by simp) w
  · exact refl w

theorem handleStarvedDone (k : Caller) (ok : Bool) (w : World) :
    Calm w (handleStarvedDone k ok w) := by
  unfold TLSConnection.handleStarvedDone
  split
  · exact refl w
  · split_ifs
    · exact onReadEstablished _ _ w
    · exact refl w

theorem bioRead (len : ℤ) (w : World) : Calm w (bioRead len w) := by
  unfold TLSConnection.bioRead
  split
  · exact of_eq rfl rfl fun _ => id
  · exact abort (by simp) w

theorem drainLoop (h : w.threadId = w.tid) : Calm w (drainLoop w) := by
  rw [drainLoop_onLoop h]
  split
  · exact refl w
  · exact (push _ w).trans ((observe rfl _).trans (push _ _))

end Calm

/-! ### When `Shutdown` is called -/

/-- The state `Shutdown` is called with after `SSL_connect`, if it is called. -/
def connectEnds (ret err : ℤ) : Option ConnState :=
  if ret < 0 then if isWant err then none else some .disconnectedError
  else if ret = 0 then some .disconnectedRemote
  else none

/-- After `SSL_read`. -/
def readEnds (ret err : ℤ) : Option ConnState :=
  if ret = -1 then if isWant err then none else some .disconnectedError
  else if ret = 0 then some .disconnectedRemote
  else none

/-- After `SSL_write`. -/
def writeEnds (ret : ℤ) : Option ConnState :=
  if ret < 0 then some .disconnectedError
  else if ret = 0 then some .disconnectedRemote
  else none

/-- In `OnRead`, before any call of SSL. -/
def onReadEnds (state : ConnState) (nread code : ℤ) : Option ConnState :=
  if state ≠ .starvedSSLConnect ∧ state ≠ .established then none
  else if nread = -1 then
    if code = uvEOF then some .disconnectedRemote else some .disconnectedError
  else if nread = 0 then some .disconnectedRemote
  else none

/-- In `OnConnect`. -/
def onConnectEnds (state : ConnState) (status readStart : ℤ) : Option ConnState :=
  if state ≠ .preConnect then none
  else if status = -1 then some .disconnectedError
  else if readStart ≠ uvOK then some .disconnectedError
  else none

/-- In `SSLVerifyCallback`. -/
def verifyEnds (chain : List PeerCert) : Option ConnState :=
  match encodeChain chain with
  | .ok none => some .disconnectedError
  | _ => none

/-- The state that a step calls `Shutdown` with, if it calls it. -/
def ends (w : World) : Act → Option ConnState
  | .event (.onConnect status readStart _) => onConnectEnds w.state status readStart
  | .event (.onRead nread _ _ last) => onReadEnds w.state nread last.code
  | .event .onDisconnectRequest | .inner .disconnect => some .disconnectedLocal
  | .inner (.sslVerify chain _ _ _) => verifyEnds chain
  | .inner (.sslReturn ret err _) => match w.stack with
    | .sslConnect _ :: _ => connectEnds ret err
    | .sslRead _ :: _ => readEnds ret err
    | .sslWrite :: _ => writeEnds ret
    | _ => none
  | _ => none

/-- What `Shutdown` does to the handles: all are closed if they were open, and libuv ends the process
if one was closed. -/
def Closes (w w' : World) : Prop :=
  ((∀ h, ¬ w.closed h) ∧ (∀ h, w'.log.count (.uvClose h) = w.log.count (.uvClose h) + 1) ∧
    Spared w w') ∨
  ∃ h, w.closed h ∧ w'.phase = .aborted (.uvClose h) ∧ ∀ hd, w.closed hd → w'.closed hd

/-- **What a step does to the end**: it leaves it, or runs `Shutdown` once with this state. -/
inductive Ends (w w' : World) : Option ConnState → Prop
  | calm (hs : shutdowns w' = shutdowns w)
      (hc : ∀ h, w'.log.count (.uvClose h) = w.log.count (.uvClose h)) (hp : Spared w w')
      (hst : w'.state = w.state ∨ w'.state.disconnected = false) : Ends w w' none
  | shut (s : ConnState) (hd : s.disconnected = true) (hs : shutdowns w' = shutdowns w ++ [s])
      (hc : Closes w w') (hst : w'.state = s) : Ends w w' (some s)

theorem Calm.ends (h : Calm w w') : Ends w w' none :=
  .calm h.shutdowns h.closes h.spared (Or.inl h.state)

theorem Calm.closed (h : Calm w w') (hd : Handle) : w'.closed hd ↔ w.closed hd := by
  rw [World.closed, World.closed, ← List.count_pos_iff, h.closes, List.count_pos_iff]

theorem Calm.then (h1 : Calm w w') (h2 : Ends w' w'' o) : Ends w w'' o := by
  cases h2 with
  | calm hs hc hp hst =>
    rw [h1.state] at hst
    exact .calm (hs.trans h1.shutdowns) (fun h => (hc h).trans (h1.closes h))
      (fun h => h1.spared h ∘ hp h) hst
  | shut s hd hs hc hst =>
    refine .shut s hd (by rw [hs, h1.shutdowns]) ?_ hst
    obtain ⟨hopen, hcount, hp⟩ | ⟨h, hc, hp, hgrow⟩ := hc
    · exact Or.inl ⟨fun h hc => hopen h ((h1.closed h).mpr hc),
        fun h => by rw [hcount, h1.closes], fun h => h1.spared h ∘ hp h⟩
    · exact Or.inr ⟨h, (h1.closed h).mp hc, hp, fun hd hc => hgrow hd ((h1.closed hd).mpr hc)⟩

theorem Ends.then (h1 : Ends w w' none) (h2 : Calm w' w'') : Ends w w'' none := by
  cases h1 with
  | calm hs hc hp hst =>
    rw [← h2.state] at hst
    exact .calm (h2.shutdowns.trans hs) (fun h => (h2.closes h).trans (hc h))
      (fun h => hp h ∘ h2.spared h) hst

/-- The code goes on after `Shutdown`, if libuv has not ended the process. -/
theorem Ends.after {s : ConnState} (h1 : Ends w w' (some s)) (hp : ∀ why, w'.phase ≠ .aborted why)
    (h2 : Calm w' w'') : Ends w w'' (some s) := by
  cases h1 with
  | shut s hd hs hc hst =>
    refine .shut s hd (h2.shutdowns.trans hs) (Or.inl ?_) (h2.state.trans hst)
    obtain ⟨hopen, hcount, hpw⟩ := hc.resolve_right fun ⟨h, _, hab, _⟩ => hp _ hab
    exact ⟨hopen, fun h => (h2.closes h).trans (hcount h), fun h => hpw h ∘ h2.spared h⟩

theorem Ends.closed (h : Ends w w' none) (hd : Handle) : w'.closed hd ↔ w.closed hd := by
  cases h with
  | calm _ hc _ _ =>
    rw [World.closed, World.closed, ← List.count_pos_iff, hc, List.count_pos_iff]

/-- libuv ends the process only where `Shutdown` finds a handle closed. -/
theorem Ends.aborted {h : Handle} (he : Ends w w' o) (hp : w'.phase = .aborted (.uvClose h))
    (hrun : w.phase ≠ .aborted (.uvClose h)) : o ≠ none ∧ ∃ h, w.closed h := by
  cases he with
  | calm _ _ hs _ => exact absurd (hs h hp) hrun
  | shut s _ _ hc _ =>
    refine ⟨by simp, ?_⟩
    obtain ⟨-, -, hs⟩ | ⟨h', hc, -⟩ := hc
    · exact absurd (hs h hp) hrun
    · exact ⟨h', hc⟩

/-- The handles of a connection are closed together. -/
def Together (w : World) : Prop := ∀ h h', w.closed h → w.closed h'

theorem Ends.together (he : Ends w w' o) (h : Together w) : Together w' := by
  cases he with
  | calm _ hc _ _ =>
    have hsame : ∀ hd, w'.closed hd ↔ w.closed hd := fun hd => by
      rw [World.closed, World.closed, ← List.count_pos_iff, hc, List.count_pos_iff]
    exact fun hd hd' hm => (hsame hd').mpr (h hd hd' ((hsame hd).mp hm))
  | shut _ _ _ hc _ =>
    rintro hd hd' -
    obtain ⟨-, hcount, -⟩ | ⟨hd0, hm, -, hgrow⟩ := hc
    · rw [World.closed, ← List.count_pos_iff, hcount]
      omega
    · exact hgrow hd' (h hd0 hd' hm)

namespace Ends

theorem shutdown {s : ConnState} (hd : s.disconnected = true) (w : World) :
    Ends w (shutdown s w) (some s) := by
  have hnone : ∀ {closes : List Obs}, (∀ o ∈ closes, ∃ h, o = .uvClose h) →
      (closes.filterMap fun o => match o with
        | .shutdown s => some s
        | _ => none) = [] := by
    intro closes hcl
    rw [List.filterMap_eq_nil_iff]
    intro o ho
    obtain ⟨h, rfl⟩ := hcl o ho
    rfl
  obtain ⟨hopen, heq⟩ | ⟨h, closes, hc, hcl, heq⟩ := shutdown_cases s w
  · rw [heq]
    refine .shut s hd (by simp [TLSConnection.shutdowns, shutdownLog]) ?_ rfl
    refine Or.inl ⟨hopen, fun h => ?_, fun _ => id⟩
    cases h <;> simp [shutdownLog]
  · rw [heq]
    refine .shut s hd ?_ (Or.inr ⟨h, hc, rfl, fun _ hm => List.mem_append_left _ hm⟩) rfl
    rw [TLSConnection.shutdowns, List.filterMap_append, List.filterMap_cons, hnone hcl]
    rfl

theorem shutdownError (e : Error) (w : World) :
    Ends w (shutdownError e w) (some .disconnectedError) := by
  have h : Calm w { w with err := e } := .of_eq rfl rfl fun _ => id
  exact h.then (shutdown rfl _)

theorem shutdownRemote (w : World) : Ends w (shutdownRemote w) (some .disconnectedRemote) :=
  shutdown rfl w

theorem sslWriteReturned (ret err : ℤ) (w : World) :
    Ends w (sslWriteReturned ret err w) (writeEnds ret) := by
  unfold TLSConnection.sslWriteReturned writeEnds
  split_ifs
  · exact shutdownError _ w
  · exact shutdownRemote w
  · exact (Calm.refl w).ends

theorem transition (k : Caller) (w : World) :
    Ends w (transitionToConnectionEstablishedState k w) none := by
  have h : Ends w ({ w with state := .established }.observe .transition) none :=
    .calm (by simp [TLSConnection.shutdowns, observe]) (fun h => by simp [observe]) (fun _ => id)
      (Or.inr rfl)
  unfold transitionToConnectionEstablishedState
  simp only
  split_ifs
  · exact h.then ((Calm.observe rfl _).trans (Calm.push _ _))
  · exact h.then (Calm.handleStarvedDone _ _ _)

theorem sslConnectReturned (k : Caller) (ret err : ℤ) (w : World) :
    Ends w (sslConnectReturned k ret err w) (connectEnds ret err) := by
  unfold TLSConnection.sslConnectReturned connectEnds
  split_ifs
  · exact (Calm.handleStarvedDone _ _ w).ends
  · rw [handleStarvedDone_false]
    exact shutdownError _ w
  · rw [handleStarvedDone_false]
    exact shutdownRemote w
  · exact transition k w
  · exact (Calm.abort (by simp) w).ends

theorem sslReadReturned (processed : ByteArray) (ret err : ℤ) (data : List UInt8) (w : World) :
    Ends w (sslReadReturned processed ret err data w) (readEnds ret err) := by
  unfold TLSConnection.sslReadReturned readEnds
  by_cases h1 : ret = -1
  · rw [if_pos h1, if_pos h1]
    split_ifs
    · exact (Calm.refl w).ends
    · exact shutdownError _ w
  · rw [if_neg h1, if_neg h1]
    by_cases h2 : ret = 0
    · rw [if_pos h2, if_pos h2]
      exact shutdownRemote w
    · rw [if_neg h2, if_neg h2]
      simp only
      split
      · exact (Calm.abort (by simp) w).ends
      · split_ifs
        · exact ((Calm.observe rfl w).trans (Calm.push _ _)).ends
        · exact (Calm.push _ w).ends

theorem onRead (nread : ℤ) (buf heap : List UInt8) (last : UVErr) (w : World) :
    Ends w (onRead nread buf heap last w) (onReadEnds w.state nread last.code) := by
  unfold TLSConnection.onRead onReadEnds
  split_ifs
  · exact (Calm.refl w).ends
  · exact shutdownRemote w
  · exact shutdownError _ w
  · exact shutdownRemote w
  · split
    · exact (Calm.abort (by simp) w).ends
    · next st _ =>
      have h : Calm w { w with bio := { w.bio with ptr := st } } := .of_eq rfl rfl fun _ => id
      simp only
      split_ifs
      · exact (h.trans (Calm.push _ _)).ends
      · exact (h.trans (Calm.onReadEstablished _ _ _)).ends

theorem onConnect (status readStart : ℤ) (last : UVErr) (w : World) :
    Ends w (onConnect status readStart last w) (onConnectEnds w.state status readStart) := by
  unfold TLSConnection.onConnect onConnectEnds
  split_ifs
  · exact (Calm.abort (by simp) w).ends
  · exact shutdownError _ w
  · exact shutdownError _ w
  · exact .calm rfl (fun _ => rfl) (fun _ => id) (Or.inr rfl)

theorem sslVerifyCallback (chain : List PeerCert) (last : CryptoErr) (system : Bool) (now : ℤ)
    (w : World) : Ends w (sslVerifyCallback chain last system now w) (verifyEnds chain) := by
  unfold TLSConnection.sslVerifyCallback verifyEnds
  rcases encodeChain chain with f | _ | ders
  · exact (Calm.abort (by simp) w).ends
  · have h := shutdownError (errorFromLastCryptoError last) w
    simp only
    split
    · exact h
    next hgo => exact h.after hgo (Calm.observe rfl _)
  · simp only
    split_ifs
    · exact ((Calm.observe rfl w).trans (Calm.push _ _)).ends
    · exact (Calm.observe rfl w).ends

end Ends

/-- The calls of the final handlers are not made by `Shutdown`. -/
theorem harmless_finalCall {handlers : Handlers} {s : ConnState} {e : Error} {calls : List Obs}
    (h : finalCall handlers s e = some calls) : ∀ o ∈ calls, harmless o = true := by
  intro o ho
  rcases mem_finalCall h ho with ⟨-, rfl⟩ | ⟨-, rfl⟩ | ⟨-, rfl⟩ <;> rfl

/-- Every step but `Connect` and the return of `uv_run`. -/
theorem ends_of_rule {a : Act} (hr : Rule w a w') (hl : Linked w) (hc : ∀ r, a ≠ .connect r)
    (hu : ∀ err last, a ≠ .thread (.uvRunReturned err last)) : Ends w w' (ends w a) := by
  cases hr with
  | connect => exact absurd rfl (hc _)
  | uvRunReturned => exact absurd rfl (hu _ _)
  | start | storeZero | clearQueue => exact Calm.ends (.of_eq rfl rfl nofun)
  | loopDelete =>
    have h : Calm w { w with phase := .loopDeleted } := .of_eq rfl rfl nofun
    exact (h.trans (Calm.observe rfl _)).ends
  | callFinalHandler =>
    unfold TLSConnection.callFinalHandler
    split
    next calls hcalls =>
      have hn : ∀ o ∈ calls, noEnd o = true := fun o ho =>
        noEnd_of_harmless (harmless_finalCall hcalls o ho)
      exact Calm.ends (.of_log rfl hn rfl nofun)
    next => exact (Calm.abort (by simp) w).ends
  | onConnect =>
    have h : Calm w { w with connecting := false } := .of_eq rfl rfl fun _ => id
    exact h.then (.onConnect _ _ _ _)
  | onRead => exact (Calm.observe rfl w).then (.onRead _ _ _ _ _)
  | onDrainWriteQueue hp =>
    have h : Calm w { w with wqPending := false } := .of_eq rfl rfl fun _ => id
    unfold TLSConnection.onDrainWriteQueue
    split_ifs
    · exact (h.trans (Calm.drainLoop (hl hp))).ends
    · exact h.ends
  | onDisconnectRequest =>
    have h : Calm w { w with dcPending := false } := .of_eq rfl rfl fun _ => id
    exact h.then (.shutdown rfl _)
  | bioRead => exact (Calm.bioRead _ w).ends
  | sslVerify => exact .sslVerifyCallback _ _ _ _ w
  | @sslConnectReturned ret err data k stack hp hst =>
    have he : ends w (.inner (.sslReturn ret err data)) = connectEnds ret err := by
      simp only [ends, hst]
    rw [he]
    exact (Calm.returned _ rfl).then (.sslConnectReturned _ _ _ _)
  | @sslReadReturned ret err data processed stack hp hst =>
    have he : ends w (.inner (.sslReturn ret err data)) = readEnds ret err := by
      simp only [ends, hst]
    rw [he]
    exact (Calm.returned _ rfl).then (.sslReadReturned _ _ _ _ _)
  | @sslWriteReturned ret err data stack hp hst =>
    have he : ends w (.inner (.sslReturn ret err data)) = writeEnds ret := by
      simp only [ends, hst]
    rw [he]
    exact (Calm.returned _ rfl).then (.sslWriteReturned _ _ _)
  | disconnect hp =>
    rw [disconnect_onLoop (hl hp)]
    exact .shutdown rfl w
  | write hp =>
    rw [write_onLoop (hl hp)]
    exact ((Calm.observe rfl w).trans (Calm.push _ _)).ends
  | verifyHandlerReturned => exact (Calm.returned _ rfl).ends
  | @establishedHandlerReturned _ _ stack =>
    have h : Calm w { w with stack := stack } := .of_eq rfl rfl fun _ => id
    exact (h.trans (Calm.handleStarvedDone _ _ _)).ends
  | readHandlerReturned => exact Calm.ends (.of_eq rfl rfl fun _ => id)
  | @drainReturned stack hp =>
    have h : Calm w { w with stack := stack, wq := w.wq.tail } := .of_eq rfl rfl fun _ => id
    exact (h.trans (Calm.drainLoop (hl hp))).ends
  | begin | loadOff | loadDropped | push => exact Calm.ends (.of_eq rfl rfl fun _ => id)
  | sendDisconnect =>
    have hn : ∀ o ∈ [Obs.uvAsyncSend .dcasync], noEnd o = true := by simp [noEnd]
    exact Calm.ends (.of_log rfl hn rfl fun _ => id)
  | sendWrite =>
    have hn : ∀ o ∈ [Obs.uvAsyncSend .wqasync], noEnd o = true := by simp [noEnd]
    exact Calm.ends (.of_log rfl hn rfl fun _ => id)

/-- No handle is closed a second time: `Shutdown` runs only while the handles are open. -/
def ClosesOnce (w : World) (a : Act) : Prop := ends w a ≠ none → ∀ h, ¬ w.closed h

instance (w : World) : DecidablePred (ClosesOnce w) := fun a =>
  decidable_of_iff
    (ends w a ≠ none → ¬ w.closed .tcpsock ∧ ¬ w.closed .wqasync ∧ ¬ w.closed .dcasync)
    ⟨fun h hne hd => by cases hd <;> simp [h hne], fun h hne => ⟨h hne _, h hne _, h hne _⟩⟩

/-- libuv ends the process only where a handle is closed twice. -/
theorem closesOnce_of_rule {a : Act} {h : Handle} (hr : Rule w a w') (hl : Linked w)
    (hp : w'.phase = .aborted (.uvClose h)) (hrun : w.phase ≠ .aborted (.uvClose h)) :
    ¬ ClosesOnce w a := by
  intro hok
  by_cases hconn : ∀ r, a ≠ .connect r
  · by_cases hu : ∀ err last, a ≠ .thread (.uvRunReturned err last)
    · obtain ⟨hne, hd, hc⟩ := (ends_of_rule hr hl hconn hu).aborted hp hrun
      exact hok hne hd hc
    · cases hr with
      | uvRunReturned => simp [uvRunReturned_eq] at hp
      | _ => simp at hu
  · cases hr with
    | @connect r => rcases (fresh_connect r w).phase with hp' | hp' <;> simp [hp'] at hp
    | _ => simp at hconn

theorem together_of_rule {a : Act} (hr : Rule w a w') (hl : Linked w) (h : Together w) :
    Together w' := by
  by_cases hconn : ∀ r, a ≠ .connect r
  · by_cases hu : ∀ err last, a ≠ .thread (.uvRunReturned err last)
    · exact (ends_of_rule hr hl hconn hu).together h
    · cases hr with
      | uvRunReturned =>
        rw [uvRunReturned_eq]
        exact h
      | _ => simp at hu
  · cases hr with
    | @connect r =>
      intro hd hd' hm
      simp [World.closed, (fresh_connect r w).log] at hm
    | _ => simp at hconn

end LibMumble.TLSConnection
