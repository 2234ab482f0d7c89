import LibMumble.TLSConnection.Setup

/-! # The arrays of `OnRead`

`OnRead` makes one array of the bytes that arrived and queues it, and one of the same length that
`SSL_read` writes to. If libuv and OpenSSL return what they document (`Documented`), the queue stays
clean and every array that waits on the stack is well formed and as long as the last transfer (`Sound`),
so that no operation on an array goes wrong. What is left of the ends of the process are the assertion in
`OnConnect` and that of libuv at a second `uv_close` (`two_ends_left`), and the read handler gets what
`SSL_read` wrote, piece by piece (`read_handler_gets`). -/

namespace LibMumble.TLSConnection.Safety

open World Lib Protocol Setup

variable {w w' w'' : World}

/-- What `SSL_connect` and `SSL_read` return. -/
def Returns (ret : ℤ) : List Frame → Prop
  | .sslConnect _ :: _ => ret ≤ 1
  | .sslRead _ :: _ => -1 ≤ ret
  | _ => True

/-- What libuv and OpenSSL document about the numbers that they return, where the peer's certificates can
be encoded. -/
def Documented (w : World) : Act → Prop
  | .event (.onRead nread _ _ _) => -1 ≤ nread
  | .inner (.sslVerify chain _ _ _) => ∀ cert ∈ chain, 0 ≤ cert.buflen
  | .inner (.sslReturn ret _ _) => Returns ret w.stack
  | _ => True

instance (ret : ℤ) : DecidablePred (Returns ret)
  | [] => .isTrue trivial
  | f :: _ => match f with
    | .sslConnect _ | .sslRead _ => inferInstanceAs (Decidable (_ ≤ _))
    | .verifyHandler | .establishedHandler _ | .readHandler _ | .sslWrite | .drain => .isTrue trivial

instance (w : World) : DecidablePred (Documented w)
  | .inner i => match i with
    | .sslVerify chain _ _ _ => inferInstanceAs (Decidable (∀ cert ∈ chain, 0 ≤ cert.buflen))
    | .sslReturn ret _ _ => inferInstanceAs (Decidable (Returns ret w.stack))
    | .bioRead _ | .handlerReturn _ | .disconnect | .write _ | .drainReturned => .isTrue trivial
  | .event e => match e with
    | .onRead _ _ _ _ => inferInstanceAs (Decidable (_ ≤ _))
    | .onConnect _ _ _ | .onDrainWriteQueue | .onDisconnectRequest => .isTrue trivial
  | .connect _ | .call _ | .thread _ => .isTrue trivial

/-- All that is asked of the environment. -/
def Promised (w : World) (a : Act) : Prop := Contract w a ∧ Documented w a

instance (w : World) : DecidablePred (Promised w) := fun _ => inferInstanceAs (Decidable (_ ∧ _))

/-! ### Transfers -/

/-- The length of a transfer. -/
def nreadOf : Obs → Option ℤ
  | .onRead nread _ => some nread
  | _ => none

/-- The length of the last transfer. -/
def lastRead (log : List Obs) : Option ℤ := (log.filterMap nreadOf).getLast?

/-- What a call of the read handler gives it. -/
def payloadOf : Obs → Option (List UInt8)
  | .readHandler payload => some payload
  | _ => none

/-- What the read handler has been given, call by call. -/
def given (w : World) : List (List UInt8) := w.log.filterMap payloadOf

/-- Neither a transfer nor a call of the read handler. -/
def silent : Obs → Bool
  | .onRead _ _ | .readHandler _ => false
  | _ => true

/-- What is given to the read handler is not empty, and not longer than the last transfer. -/
def Fits (pre : List Obs) : Obs → Prop
  | .readHandler payload =>
    payload ≠ [] ∧ ∃ nread, lastRead pre = some nread ∧ payload.length ≤ nread
  | _ => True

theorem nreadOf_silent {o : Obs} (h : silent o = true) : nreadOf o = none := by
  cases o <;> first | rfl | cases h

theorem payloadOf_silent {o : Obs} (h : silent o = true) : payloadOf o = none := by
  cases o <;> first | rfl | cases h

theorem fits_silent {o : Obs} (h : silent o = true) (pre : List Obs) : Fits pre o := by
  cases o <;> trivial

theorem lastRead_snoc (log : List Obs) (o : Obs) :
    lastRead (log ++ [o]) = (nreadOf o).or (lastRead log) := by
  rw [lastRead, List.filterMap_append]
  cases h : nreadOf o with
  | none => simp [h, lastRead]
  | some n => simp [h]

theorem given_observe (o : Obs) (w : World) :
    given (w.observe o) = given w ++ (payloadOf o).toList := by
  rw [given, observe, List.filterMap_append, given]
  cases h : payloadOf o <;> simp [h]

/-! ### The invariant -/

/-- The length that the caller of `HandleStarvedConnectState` holds. -/
def CallerSized (last : Option ℤ) : Caller → Prop
  | .onConnect => True
  | .onRead nread _ => last = some nread ∧ 0 < nread ∧ nread < 2 ^ 31

/-- The array that waits in a frame. -/
def Sized (last : Option ℤ) : Frame → Prop
  | .sslConnect k | .establishedHandler k => CallerSized last k
  | .sslRead p | .readHandler p => p.WellFormed ∧ last = some p.cap ∧ 0 < p.cap
  | _ => True

structure Sound (w : World) : Prop where
  clean : w.bio.ptr.Clean
  frames : ∀ f ∈ w.stack, Sized (lastRead w.log) f
  hist : History Fits w.log

/-- The process goes on, or libuv ends it at a second `uv_close`. -/
def Lives (w w' : World) : Prop := w'.phase = w.phase ∨ ∃ h, w'.phase = .aborted (.uvClose h)

theorem Lives.trans (h : Lives w w') (h' : Lives w' w'') : Lives w w'' := by
  rcases h' with h' | h'
  · rw [Lives, h']
    exact h
  · exact Or.inr h'

/-- The invariant again, with nothing read. -/
structure Steady (w w' : World) : Prop where
  sound : Sound w'
  nread : lastRead w'.log = lastRead w.log
  given : given w' = given w
  lives : Lives w w'

theorem Steady.trans (h : Steady w w') (h' : Steady w' w'') : Steady w w'' :=
  ⟨h'.sound, h'.nread.trans h.nread, h'.given.trans h.given, h.lives.trans h'.lives⟩

namespace Sound

/-- A change of what the invariant does not speak about. -/
theorem of_eq (h : Sound w) (hb : w'.bio = w.bio) (hst : w'.stack = w.stack)
    (hl : w'.log = w.log) : Sound w' := by
  refine ⟨?_, ?_, ?_⟩
  · rw [hb]
    exact h.clean
  · rw [hst, hl]
    exact h.frames
  · rw [hl]
    exact h.hist

theorem steady (h : Sound w) (hb : w'.bio = w.bio) (hst : w'.stack = w.stack) (hl : w'.log = w.log)
    (hp : w'.phase = w.phase) : Steady w w' :=
  ⟨h.of_eq hb hst hl, by rw [hl], by rw [Safety.given, hl]; rfl, Or.inl hp⟩

theorem refl (h : Sound w) : Steady w w := h.steady rfl rfl rfl rfl

/-- Entries that are no transfer and no call of the read handler. -/
theorem append {new : List Obs} (h : Sound w) (hl : w'.log = w.log ++ new)
    (hn : ∀ o ∈ new, silent o = true) (hb : w'.bio = w.bio) (hst : w'.stack = w.stack)
    (hp : Lives w w') : Steady w w' := by
  have hnread : new.filterMap nreadOf = [] :=
    List.filterMap_eq_nil_iff.mpr fun o ho => nreadOf_silent (hn o ho)
  have hgiven : new.filterMap payloadOf = [] :=
    List.filterMap_eq_nil_iff.mpr fun o ho => payloadOf_silent (hn o ho)
  have hlast : lastRead w'.log = lastRead w.log := by
    rw [lastRead, hl, List.filterMap_append, hnread, List.append_nil, lastRead]
  refine ⟨⟨?_, ?_, ?_⟩, hlast, ?_, hp⟩
  · rw [hb]
    exact h.clean
  · rw [hst, hlast]
    exact h.frames
  · rw [hl]
    exact h.hist.append fun o ho => fits_silent (hn o ho)
  · rw [Safety.given, hl, List.filterMap_append, hgiven, List.append_nil]
    rfl

theorem observe {o : Obs} (h : Sound w) (ho : silent o = true) : Steady w (w.observe o) :=
  h.append rfl (fun _ hm => by rwa [List.mem_singleton.mp hm]) rfl rfl (Or.inl rfl)

theorem push {f : Frame} (h : Sound w) (hf : Sized (lastRead w.log) f) : Steady w (w.push f) := by
  refine ⟨⟨h.clean, fun g hg => ?_, h.hist⟩, rfl, rfl, Or.inl rfl⟩
  rcases List.mem_cons.mp hg with rfl | hg
  · exact hf
  · exact h.frames g hg

theorem pop {f : Frame} {stack : List Frame} (h : Sound w) (hst : w.stack = f :: stack) :
    Steady w { w with stack := stack } ∧ Sized (lastRead w.log) f := by
  refine ⟨⟨⟨h.clean, fun g hg => h.frames g ?_, h.hist⟩, rfl, rfl, Or.inl rfl⟩, h.frames f ?_⟩
  · rw [hst]
    exact List.mem_cons_of_mem _ hg
  · rw [hst]
    exact List.mem_cons_self

theorem returned {f : Frame} {stack : List Frame} {o : Obs} (h : Sound w)
    (hst : w.stack = f :: stack) (ho : silent o = true) :
    Steady w ({ w with stack := stack }.observe o) :=
  (h.pop hst).1.trans ((h.pop hst).1.sound.observe ho)

theorem shutdown (h : Sound w) (s : ConnState) : Steady w (shutdown s w) := by
  obtain ⟨p, new, heq, hnew, hp⟩ := shutdown_eq s w
  rw [heq]
  refine h.append rfl (fun o ho => ?_) rfl rfl (hp.imp id fun ⟨hd, _, hp⟩ => ⟨hd, hp⟩)
  rcases List.mem_cons.mp ho with rfl | ho
  · rfl
  · obtain ⟨hd, rfl⟩ := hnew o ho
    rfl

theorem shutdownError (h : Sound w) (e : Error) : Steady w (shutdownError e w) := by
  have h1 : Steady w { w with err := e } := h.steady rfl rfl rfl rfl
  exact h1.trans (h1.sound.shutdown _)

/-- `OnRead` makes the array for `SSL_read`. -/
theorem onReadEstablished {nread : ℤ} {heap : List UInt8} (h : Sound w)
    (hk : CallerSized (lastRead w.log) (.onRead nread heap)) :
    Steady w (onReadEstablished nread heap w) := by
  obtain ⟨hlast, h0, h1⟩ := hk
  have hn : ¬ nread < 0 := by omega
  unfold TLSConnection.onReadEstablished
  split_ifs
  · rw [castInt_eq h0 h1]
    simp only [ByteArray.ofLength, malloc, if_neg hn, bind, Except.bind, pure, Except.pure]
    refine h.push ⟨⟨by simp, ?_, h0.le, le_rfl, h1⟩, hlast, h0⟩
    rintro b hb
    obtain rfl := Option.some.inj hb
    rw [List.length_map, List.length_range]
    exact (Int.toNat_of_nonneg h0.le).symm
  · exact h.refl

theorem handleStarvedDone {k : Caller} (h : Sound w) (hk : CallerSized (lastRead w.log) k)
    (ok : Bool) : Steady w (handleStarvedDone k ok w) := by
  unfold TLSConnection.handleStarvedDone
  split
  · exact h.refl
  · split_ifs
    · exact h.onReadEstablished hk
    · exact h.refl

/-- After steps that the caller's length survives. -/
theorem done_after {k : Caller} (h : Steady w w') (hk : CallerSized (lastRead w.log) k)
    (ok : Bool) : Steady w (TLSConnection.handleStarvedDone k ok w') :=
  h.trans (h.sound.handleStarvedDone (h.nread ▸ hk) ok)

theorem transition {k : Caller} (h : Sound w) (hk : CallerSized (lastRead w.log) k) :
    Steady w (transitionToConnectionEstablishedState k w) := by
  have h1 : Steady w { w with state := .established } := h.steady rfl rfl rfl rfl
  have h2 := h1.trans (h1.sound.observe (o := .transition) rfl)
  unfold transitionToConnectionEstablishedState
  simp only
  split_ifs
  · have h3 := h2.trans (h2.sound.observe (o := .establishedHandler) rfl)
    refine h3.trans (h3.sound.push (f := .establishedHandler k) ?_)
    rw [h3.nread]
    exact hk
  · exact done_after h2 hk true

theorem sslConnectReturned {k : Caller} {ret : ℤ} (h : Sound w)
    (hk : CallerSized (lastRead w.log) k) (hret : ret ≤ 1) (err : ℤ) :
    Steady w (sslConnectReturned k ret err w) := by
  unfold TLSConnection.sslConnectReturned
  split_ifs
  · exact done_after h.refl hk false
  · exact done_after (h.shutdownError _) hk false
  · exact done_after (h.shutdown _) hk false
  · exact h.transition hk
  · omega

theorem sslWriteReturned (h : Sound w) (ret err : ℤ) : Steady w (sslWriteReturned ret err w) := by
  unfold TLSConnection.sslWriteReturned
  split_ifs
  · exact h.shutdownError _
  · exact h.shutdown _
  · exact h.refl

/-- A read of the BIO does not go wrong. -/
theorem bioRead (h : Sound w) {len : ℤ} (hlen : 0 < len) : Steady w (bioRead len w) := by
  obtain ⟨ret, data, bio, hread, hclean, -⟩ := Bio.read_takes h.clean hlen
  rw [TLSConnection.bioRead, hread]
  exact ⟨⟨hclean, h.frames, h.hist⟩, rfl, rfl, Or.inl rfl⟩

theorem encodeChain_ok : ∀ {chain : List PeerCert}, (∀ cert ∈ chain, 0 ≤ cert.buflen) →
    ∃ ders, encodeChain chain = .ok ders
  | [], _ => ⟨some [], rfl⟩
  | cert :: chain, h => by
    have hlen : ¬ cert.buflen < 0 := not_lt.mpr (h cert List.mem_cons_self)
    obtain ⟨ders, hders⟩ := encodeChain_ok fun c hc => h c (List.mem_cons_of_mem _ hc)
    simp only [encodeChain, ByteArray.ofLength, malloc, if_neg hlen, hders, bind, Except.bind, pure,
      Except.pure]
    split_ifs
    · exact ⟨_, rfl⟩
    · exact ⟨_, rfl⟩

theorem sslVerifyCallback {chain : List PeerCert} (h : Sound w)
    (hc : ∀ cert ∈ chain, 0 ≤ cert.buflen) (last : CryptoErr) (system : Bool) (now : ℤ) :
    Steady w (sslVerifyCallback chain last system now w) := by
  obtain ⟨ders, hders⟩ := encodeChain_ok hc
  rw [TLSConnection.sslVerifyCallback, hders]
  cases ders with
  | none =>
    have h1 := h.shutdownError (errorFromLastCryptoError last)
    simp only
    split
    · exact h1
    · exact h1.trans (h1.sound.observe rfl)
  | some ders =>
    simp only
    split_ifs
    · have h1 := h.observe (o := .chainVerifyHandler ders) rfl
      exact h1.trans (h1.sound.push trivial)
    · exact h.observe rfl

/-- The array of what arrived. -/
theorem ofBuffer_arrived {nread : ℤ} {buf : List UInt8} (h0 : 0 < nread) (hn : nread ≤ buf.length)
    (hb : buf.length < 2 ^ 31) : ∃ ba : ByteArray, ba.WellFormed ∧ 0 < ba.len ∧
      ByteArray.ofBuffer (some buf) (castInt nread) (castInt buf.length) = .ok ba := by
  have hb' : (buf.length : ℤ) < 2 ^ 31 := by exact_mod_cast hb
  refine ⟨⟨some buf, nread, buf.length⟩, ⟨by simp, ?_, h0.le, hn, hb'⟩, h0, ?_⟩
  · rintro b h
    obtain rfl := Option.some.inj h
    rfl
  · have hcap : ¬ (buf.length : ℤ) = -1 := by omega
    have hle : ¬ (buf.length : ℤ) < nread := by omega
    rw [castInt_eq h0 (by omega), castInt_eq (by omega) hb', ByteArray.ofBuffer]
    simp only [if_neg hcap, if_neg hle]
    rw [mallocMemcpy_ok (by omega) (by omega) (by omega)]
    simp [bind, Except.bind, pure, Except.pure]

theorem onRead {nread : ℤ} {buf : List UInt8} (h : Sound w) (hst : w.stack = [])
    (hlast : lastRead w.log = some nread) (hret : -1 ≤ nread) (hn : nread ≤ buf.length)
    (hb : buf.length < 2 ^ 31) (heap : List UInt8) (last : UVErr) :
    Steady w (onRead nread buf heap last w) := by
  unfold TLSConnection.onRead
  split_ifs with hstate hfail _ hzero
  · exact h.refl
  · exact h.shutdown _
  · exact h.shutdownError _
  · exact h.shutdown _
  · have h0 : 0 < nread := by omega
    have h1 : nread < 2 ^ 31 := by
      have : (buf.length : ℤ) < 2 ^ 31 := by exact_mod_cast hb
      omega
    obtain ⟨ba, hwf, hpos, hba⟩ := ofBuffer_arrived h0 hn hb
    have hput : (ByteArray.ofBuffer (some buf) (castInt nread) (castInt buf.length) >>=
        w.bio.ptr.putNewBuffer) = .ok ⟨w.bio.ptr.bufs ++ [ba]⟩ := by
      rw [hba]
      exact UVBioState.putNewBuffer_eq hwf
    simp only [hput]
    have hs : Steady w { w with bio := { w.bio with ptr := ⟨w.bio.ptr.bufs ++ [ba]⟩ } } := by
      refine ⟨⟨h.clean.snoc hwf hpos, ?_, h.hist⟩, rfl, rfl, Or.inl rfl⟩
      rw [hst]
      simp
    split_ifs
    · exact hs.trans (hs.sound.push (f := .sslConnect _) ⟨hlast, h0, h1⟩)
    · exact hs.trans (hs.sound.onReadEstablished ⟨hlast, h0, h1⟩)

theorem drainLoop (h : Sound w) (ht : w.threadId = w.tid) : Steady w (drainLoop w) := by
  rw [drainLoop_onLoop ht]
  split
  · exact h.refl
  · next q _ _ =>
    have h1 := h.push (f := .drain) trivial
    have h2 := h1.trans (h1.sound.observe (o := .sslWrite q.buf (some q.gen)) rfl)
    exact h2.trans (h2.sound.push trivial)

end Sound

/-! ### Steps -/

/-- What `SSL_read` wrote in this step, if it goes to the read handler. -/
def reads (w : World) : Act → List (List UInt8)
  | .inner (.sslReturn ret _ data) => match w.stack with
    | .sslRead _ :: _ => if 0 < ret ∧ w.handlers.read = true then [data] else []
    | _ => []
  | _ => []

/-- The array of `SSL_read`, cut to what it wrote. -/
theorem truncate_read {last : Option ℤ} {processed : ByteArray} {ret : ℤ} {data : List UInt8}
    (hs : Sized last (.sslRead processed)) (hd : (data.length : ℤ) = ret) (hpos : 0 < ret)
    (hr : ret ≤ processed.cap) : ∃ q : ByteArray,
      ByteArray.truncate { processed with
        buf := processed.buf.map (data ++ ·.drop data.length) } ret = .ok q ∧
      Sized last (.sslRead q) ∧ q.content = data := by
  obtain ⟨hwf, hlast, hcap⟩ := hs
  cases hbuf : processed.buf with
  | none =>
    have := (hwf.null hbuf).2
    omega
  | some b =>
    have hb := hwf.cap_eq b hbuf
    have hblock : processed.cap = (data ++ b.drop data.length).length := by
      rw [List.length_append, List.length_drop]
      omega
    refine ⟨⟨some (data ++ b.drop data.length), ret, processed.cap⟩,
      if_neg (not_lt.mpr hr), ⟨⟨by simp, ?_, hpos.le, hr, hwf.cap_lt⟩, hlast, hcap⟩, ?_⟩
    · rintro c hc
      obtain rfl := Option.some.inj hc
      exact hblock
    · rw [ByteArray.content, ByteArray.data, Option.getD_some,
        show ret.toNat = data.length by omega, List.take_left]

/-- The loop of `OnRead` after `SSL_read`. -/
theorem sslReadReturned_spec {processed : ByteArray} {ret err : ℤ} {data : List UInt8}
    (h : Sound w) (hs : Sized (lastRead w.log) (.sslRead processed))
    (hd : (data.length : ℤ) = max ret 0) (hr : ret ≤ processed.capacity) (hret : -1 ≤ ret) :
    Sound (sslReadReturned processed ret err data w) ∧
    given (sslReadReturned processed ret err data w) =
      given w ++ (if 0 < ret ∧ w.handlers.read = true then [data] else []) ∧
    Lives w (sslReadReturned processed ret err data w) := by
  have hsteady : ∀ {v : World}, Steady w v → ¬ (0 < ret ∧ w.handlers.read = true) →
      Sound v ∧ given v = given w ++ (if 0 < ret ∧ w.handlers.read = true then [data] else []) ∧
        Lives w v := by
    intro v hv hno
    rw [if_neg hno, List.append_nil]
    exact ⟨hv.sound, hv.given, hv.lives⟩
  unfold sslReadReturned
  by_cases hfail : ret = -1
  · rw [if_pos hfail]
    by_cases hwant : isWant err = true
    · rw [if_pos hwant]
      exact hsteady h.refl (by omega)
    · rw [if_neg hwant]
      exact hsteady (h.shutdownError _) (by omega)
  by_cases hzero : ret = 0
  · rw [if_neg hfail, if_pos hzero]
    exact hsteady (h.shutdown _) (by omega)
  rw [if_neg hfail, if_neg hzero]
  have hpos : 0 < ret := by omega
  have hlen : (data.length : ℤ) = ret := by omega
  have hr : ret ≤ processed.cap := hr
  obtain ⟨q, hq, hqs, hcontent⟩ := truncate_read hs hlen hpos hr
  simp only [hq]
  by_cases hread : w.handlers.read = true
  · rw [if_pos hread, if_pos ⟨hpos, hread⟩, hcontent]
    have hnread : lastRead (w.observe (.readHandler data)).log = lastRead w.log := by
      rw [World.observe, lastRead_snoc]
      rfl
    have hne : data ≠ [] := by
      rintro rfl
      rw [List.length_nil, Nat.cast_zero] at hlen
      exact hpos.ne hlen
    have hfits : Fits w.log (.readHandler data) := ⟨hne, _, hs.2.1, hlen ▸ hr⟩
    have hsound : Sound (w.observe (.readHandler data)) :=
      ⟨h.clean, hnread ▸ h.frames, history_snoc.mpr ⟨h.hist, hfits⟩⟩
    have hpush := hsound.push (f := .readHandler q) (hnread.symm ▸ hqs)
    exact ⟨hpush.sound, hpush.given.trans (given_observe _ w), Or.inl rfl⟩
  · rw [if_neg hread]
    exact hsteady (h.push (f := .sslRead q) hqs) fun hc => hread hc.2

/-- What a step gives: the invariant, what the read handler gets, and whether the process goes on. -/
structure Goes (w w' : World) (a : Act) : Prop where
  sound : Sound w'
  given : (∀ r, a ≠ .connect r) → given w' = given w ++ reads w a
  ends : ∀ why, w'.phase = .aborted why → why = .threadNotReached ∨ (∃ h, why = .uvClose h) ∨
    (why = .onConnectState ∧ w.connecting = true ∧ w.phase = .running ∧ w.stack = [] ∧
      w.state ≠ .preConnect)

theorem Lives.ends (h : Lives w w') (hp : ∀ why, w.phase ≠ .aborted why) {why : Abort}
    (hw : w'.phase = .aborted why) : ∃ h, why = .uvClose h := by
  rcases h with h | ⟨hd, h⟩
  · exact absurd (h.symm.trans hw) (hp why)
  · exact ⟨hd, Phase.aborted.inj (hw.symm.trans h)⟩

theorem Steady.goes {a : Act} (h : Steady w w') (hp : ∀ why, w.phase ≠ .aborted why)
    (hreads : reads w a = []) : Goes w w' a := by
  refine ⟨h.sound, fun _ => ?_, fun why hw => Or.inr (Or.inl (h.lives.ends hp hw))⟩
  rw [hreads, List.append_nil]
  exact h.given

theorem goes_connect (r : ConnectResults) (h : Sound w) :
    Goes w (connect r w).2 (.connect r) := by
  have hf := fresh_connect r w
  have hbio : (connect r w).2.bio = w.bio := by
    unfold connect
    simp only
    split_ifs <;> rfl
  refine ⟨⟨?_, ?_, ?_⟩, fun hc => absurd rfl (hc r), fun why hw => ?_⟩
  · rw [hbio]
    exact h.clean
  · rw [hf.stack]
    simp
  · rw [hf.log]
    exact history_nil
  · rcases hf.phase with hp | hp <;> simp [hp] at hw

theorem goes_thread {t : ThreadAct} (hr : Rule w (.thread t) w') (h : Sound w) :
    Goes w w' (.thread t) := by
  have hsame : ∀ {v : World}, Sound v → v.log = w.log → (∀ why, v.phase ≠ .aborted why) →
      Goes w v (.thread t) :=
    fun hv hlog hp => ⟨hv, fun _ => by simp [given, hlog, reads], fun why hw => absurd hw (hp why)⟩
  cases hr with
  | start => exact hsame (h.of_eq rfl rfl rfl) rfl (by simp [threadStart])
  | uvRunReturned =>
    rw [uvRunReturned_eq]
    exact hsame (h.of_eq rfl rfl rfl) rfl (by simp)
  | storeZero | clearQueue =>
    exact hsame (h.of_eq rfl rfl rfl) rfl (by simp [TLSConnection.storeZero, TLSConnection.clearQueue])
  | loopDelete =>
    have h1 : Sound { w with phase := .loopDeleted } := h.of_eq rfl rfl rfl
    have h2 := h1.observe (o := .uvLoopDelete) rfl
    exact ⟨h2.sound, fun _ => h2.given.trans (List.append_nil _).symm, fun why hw => by cases hw⟩
  | callFinalHandler hp =>
    unfold TLSConnection.callFinalHandler
    split
    next calls hcalls =>
      have hsilent : ∀ o ∈ calls, silent o = true := by
        intro o ho
        rcases mem_finalCall hcalls ho with ⟨-, rfl⟩ | ⟨-, rfl⟩ | ⟨-, rfl⟩ <;> rfl
      have h1 : Sound { w with phase := .finished } := h.of_eq rfl rfl rfl
      have h2 : Steady { w with phase := .finished } { w with phase := .finished, log := w.log ++ calls } :=
        h1.append rfl hsilent rfl rfl (Or.inl rfl)
      exact ⟨h2.sound, fun _ => h2.given.trans (List.append_nil _).symm, fun why hw => by cases hw⟩
    next =>
      refine ⟨h.of_eq rfl rfl rfl, fun _ => by simp [given, abort, reads], fun why hw => ?_⟩
      exact Or.inl (Phase.aborted.inj hw).symm

theorem goes_event {e : Event} (hr : Rule w (.event e) w') (hl : Linked w)
    (hok : Documented w (.event e)) (h : Sound w) : Goes w w' (.event e) := by
  have hgo : ∀ {v : World}, Steady w v → w.phase = .running → Goes w v (.event e) :=
    fun hv hp => hv.goes (by simp [hp]) rfl
  cases hr with
  | onConnect hp hst hconn =>
    have h0 : Steady w { w with connecting := false } := h.steady rfl rfl rfl rfl
    unfold TLSConnection.onConnect
    split_ifs with hstate
    · refine ⟨h.of_eq rfl rfl rfl, fun _ => by simp [given, abort, reads], fun why hw => ?_⟩
      exact Or.inr (Or.inr ⟨(Phase.aborted.inj hw).symm, hconn, hp, hst, hstate⟩)
    · exact hgo (h0.trans (h0.sound.shutdownError _)) hp
    · exact hgo (h0.trans (h0.sound.shutdownError _)) hp
    · refine hgo ⟨⟨UVBioState.clean_nil, ?_, h.hist⟩, rfl, rfl, Or.inl rfl⟩ hp
      rintro f hf
      rw [handleStarvedConnectState, World.push, List.mem_cons] at hf
      rcases hf with rfl | hf
      · trivial
      · exact h.frames f hf
  | @onRead nread buf heap last hp hst _ hn hb =>
    have hnread : lastRead (w.observe (.onRead nread last.code)).log = some nread := by
      rw [World.observe, lastRead_snoc]
      rfl
    have h1 : Sound (w.observe (.onRead nread last.code)) := by
      refine ⟨h.clean, ?_, history_snoc.mpr ⟨h.hist, trivial⟩⟩
      rw [show (w.observe (.onRead nread last.code)).stack = [] from hst]
      simp
    have h2 := h1.onRead hst hnread hok hn hb heap last
    refine ⟨h2.sound, fun _ => ?_, fun why hw => ?_⟩
    · exact h2.given.trans (given_observe _ w)
    · exact Or.inr (Or.inl (h2.lives.ends (by simp [observe, hp]) hw))
  | onDrainWriteQueue hp =>
    have h1 : Steady w { w with wqPending := false } := h.steady rfl rfl rfl rfl
    unfold TLSConnection.onDrainWriteQueue
    split_ifs
    · exact hgo (h1.trans (h1.sound.drainLoop (hl hp))) hp
    · exact hgo h1 hp
  | onDisconnectRequest hp =>
    have h1 : Steady w { w with dcPending := false } := h.steady rfl rfl rfl rfl
    exact hgo (h1.trans (h1.sound.shutdown _)) hp

theorem goes_inner {i : Inner} (hr : Rule w (.inner i) w') (hl : Linked w)
    (hok : Documented w (.inner i)) (h : Sound w) : Goes w w' (.inner i) := by
  have hgo : ∀ {v : World}, Steady w v → reads w (.inner i) = [] → w.phase = .running →
      Goes w v (.inner i) :=
    fun hv hreads hp => hv.goes (by simp [hp]) hreads
  cases hr with
  | bioRead hp _ _ hlen => exact hgo (h.bioRead hlen) rfl hp
  | sslVerify hp => exact hgo (h.sslVerifyCallback hok _ _ _) rfl hp
  | @sslConnectReturned ret err data k stack hp hst =>
    simp only [Documented, Returns, hst] at hok
    have hk := (h.pop hst).2
    have h1 := h.returned hst (o := .sslReturn .connect ret err) rfl
    exact hgo (h1.trans (h1.sound.sslConnectReturned (h1.nread ▸ hk) hok err))
      (by simp [reads, hst]) hp
  | @sslReadReturned ret err data processed stack hp hst hd hr =>
    simp only [Documented, Returns, hst] at hok
    have hk := (h.pop hst).2
    have h1 := h.returned hst (o := .sslReturn .read ret err) rfl
    obtain ⟨hs, hg, hlives⟩ :=
      @sslReadReturned_spec _ _ _ err data h1.sound (h1.nread ▸ hk) hd hr hok
    refine ⟨hs, fun _ => ?_, fun why hw => ?_⟩
    · have hreads : reads w (.inner (.sslReturn ret err data)) =
          if 0 < ret ∧ w.handlers.read = true then [data] else [] := by
        simp only [reads, hst]
      rw [hg, h1.given, hreads]
      rfl
    · exact Or.inr (Or.inl ((h1.lives.trans hlives).ends (by simp [hp]) hw))
  | @sslWriteReturned ret err data stack hp hst =>
    have h1 := h.returned hst (o := .sslReturn .write ret err) rfl
    exact hgo (h1.trans (h1.sound.sslWriteReturned ret err)) (by simp [reads, hst]) hp
  | disconnect hp =>
    rw [disconnect_onLoop (hl hp)]
    exact hgo (h.shutdown _) rfl hp
  | @write buf _ _ hp =>
    rw [write_onLoop (hl hp)]
    have h1 := h.observe (o := .sslWrite buf none) rfl
    exact hgo (h1.trans (h1.sound.push trivial)) rfl hp
  | verifyHandlerReturned hp hst => exact hgo (h.returned hst rfl) rfl hp
  | establishedHandlerReturned hp hst =>
    obtain ⟨hpop, hk⟩ := h.pop hst
    exact hgo (Sound.done_after hpop hk true) rfl hp
  | readHandlerReturned hp hst =>
    obtain ⟨hpop, hk⟩ := h.pop hst
    exact hgo (hpop.trans (hpop.sound.push (f := .sslRead _) (hpop.nread ▸ hk))) rfl hp
  | @drainReturned stack hp hst =>
    have h1 : Steady w { w with stack := stack, wq := w.wq.tail } :=
      (h.pop hst).1.trans ((h.pop hst).1.sound.steady rfl rfl rfl rfl)
    exact hgo (h1.trans (h1.sound.drainLoop (hl hp))) rfl hp

theorem goes_call {c : CallAct} (hr : Rule w (.call c) w') (h : Sound w) :
    Goes w w' (.call c) := by
  cases hr with
  | begin hp | loadOff hp | loadDropped hp | push hp =>
    exact Steady.goes (h.steady rfl rfl rfl rfl) hp rfl
  | sendDisconnect hp =>
    have h1 : Steady w { w with dcPending := true } := h.steady rfl rfl rfl rfl
    have h2 := h1.trans (h1.sound.observe (o := .uvAsyncSend .dcasync) rfl)
    exact Steady.goes (h2.trans (h2.sound.steady rfl rfl rfl rfl)) hp rfl
  | sendWrite hp =>
    have h1 : Steady w { w with wqPending := true } := h.steady rfl rfl rfl rfl
    have h2 := h1.trans (h1.sound.observe (o := .uvAsyncSend .wqasync) rfl)
    exact Steady.goes (h2.trans (h2.sound.steady rfl rfl rfl rfl)) hp rfl

/-- **The step lemma.** -/
theorem goes_of_rule {a : Act} (hr : Rule w a w') (hl : Linked w) (hok : Documented w a)
    (h : Sound w) : Goes w w' a := by
  cases a with
  | connect r =>
    cases hr
    exact goes_connect r h
  | thread t => exact goes_thread hr h
  | event e => exact goes_event hr hl hok h
  | inner i => exact goes_inner hr hl hok h
  | call c => exact goes_call hr h

theorem sound_new (handlers : Handlers) (s : ConnState) : Sound (new handlers s) :=
  ⟨UVBioState.clean_nil, by simp [new], history_nil⟩

theorem inv_new (handlers : Handlers) (s : ConnState) : Inv (new handlers s) :=
  ⟨history_nil, by simp [new], by simp [new, leaving], by simp [new], by simp [new]⟩

/-! ### Runs -/

/-- The process ends at the assertion in `OnConnect` or at a second `uv_close`, if at all. -/
structure Safe (w : World) : Prop where
  sound : Sound w
  inv : Inv w
  calm : ∀ why, w.phase = .aborted why → why = .onConnectState ∨ ∃ h, why = .uvClose h

theorem safe_step {a : Act} (hr : Rule w a w') (hl : Linked w) (hok : Promised w a) (h : Safe w) :
    Safe w' := by
  have hgo := goes_of_rule hr hl hok.2 h.sound
  have hinv := inv_step hr hl hok.1 h.inv
  refine ⟨hgo.sound, hinv, fun why hw => ?_⟩
  rcases hgo.ends why hw with rfl | hclose | ⟨hwhy, -⟩
  · exact absurd hw hinv.reached
  · exact Or.inr hclose
  · exact Or.inl hwhy

theorem safe_new (handlers : Handlers) (s : ConnState) : Safe (new handlers s) :=
  ⟨sound_new handlers s, inv_new handlers s, by simp [new]⟩

/-- The assertion in `OnConnect` holds. -/
theorem asserted_step {a : Act} (hr : Rule w a w') (hl : Linked w) (hok : Promised w a) (h : Safe w)
    (hu : Untouched w) : w'.phase ≠ .aborted .onConnectState := by
  intro hw
  rcases (goes_of_rule hr hl hok.2 h.sound).ends _ hw with hwhy | ⟨hd, hwhy⟩ | ⟨-, hconn, hp, -, hst⟩
  · cases hwhy
  · cases hwhy
  · exact hst (hu hconn (Or.inr hp)).1

/-- A connection, and what `SSL_read` has written since `Connect` while a read handler was set. -/
structure Tally where
  world : World
  reads : List (List UInt8)

namespace Tally

def new (handlers : Handlers) (s : ConnState) : Tally := ⟨.new handlers s, []⟩

def note (t : Tally) (a : Act) (w : World) : Tally :=
  match a with
  | .connect _ => ⟨w, []⟩
  | a => ⟨w, t.reads ++ Safety.reads t.world a⟩

def step (t : Tally) (a : Act) : Option Tally := (TLSConnection.step t.world a).map (t.note a)

/-- libuv and OpenSSL return what they document. -/
def Keeps (t : Tally) : Act → Prop := Documented t.world

instance (t : Tally) : DecidablePred (Keeps t) :=
  inferInstanceAs (DecidablePred (Documented t.world))

end Tally

/-- The read handler has been given what was read. -/
structure Tallied (t : Tally) : Prop where
  linked : Linked t.world
  sound : Sound t.world
  given : given t.world = t.reads

theorem tallied_step {t t' : Tally} {a : Act} (hs : t.step a = some t') (hok : t.Keeps a)
    (h : Tallied t) : Tallied t' := by
  obtain ⟨w, hw, rfl⟩ := Option.map_eq_some_iff.mp hs
  have hr := step_rule hw
  have hgo := goes_of_rule hr h.linked hok h.sound
  have hlinked := linked_of_rule hr h.linked
  by_cases hc : ∀ r, a ≠ .connect r
  · have hnote : t.note a w = ⟨w, t.reads ++ reads t.world a⟩ := by
      unfold Tally.note
      split
      · exact absurd rfl (hc _)
      · rfl
    rw [hnote]
    exact ⟨hlinked, hgo.sound, (hgo.given hc).trans (by rw [h.given])⟩
  · cases hr with
    | @connect r =>
      have hlog := (fresh_connect r t.world).log
      exact ⟨hlinked, hgo.sound, by simp [Safety.given, Tally.note, hlog]⟩
    | _ => simp at hc

/-- **The read handler gets what `SSL_read` wrote**: its calls since `Connect` are, in order and without a
loss, the results of `SSL_read` that are bytes, each with all its bytes; and each is not empty and not
longer than the transfer in which it was decrypted. -/
theorem read_handler_gets {handlers : Handlers} {s : ConnState} {as : List Act} {t : Tally}
    (h : Run Tally.step Tally.Keeps (.new handlers s) as t) :
    given t.world = t.reads ∧ ∀ pre payload post, t.world.log = pre ++ .readHandler payload :: post →
      payload ≠ [] ∧ ∃ nread, lastRead pre = some nread ∧ payload.length ≤ nread := by
  have h0 : Tallied (.new handlers s) := ⟨linked_new handlers s, sound_new handlers s, rfl⟩
  have ht := h.invariant h0 fun _ _ _ hk hok hs => tallied_step hs hok hk
  exact ⟨ht.given, fun pre payload post hl => ht.sound.hist pre _ post hl⟩

/-- Two records in one transfer. -/
theorem read_handler_gets_two : ∃ t, Run Tally.step Tally.Keeps (.new openHandlers .invalid)
    (establishing ++ [.event (.onRead 4 [0, 0, 0, 0] [] ⟨0, ""⟩), .inner (.bioRead 9),
      .inner (.sslReturn 2 0 [7, 8]), .inner (.handlerReturn true), .inner (.sslReturn 1 0 [9]),
      .inner (.handlerReturn true), .inner (.sslReturn (-1) sslErrorWantRead [])]) t ∧
    given t.world = [[7, 8], [9]] := by
  have hexec : (exec Tally.step Tally.Keeps (establishing ++
      [Act.event (.onRead 4 [0, 0, 0, 0] [] ⟨0, ""⟩), .inner (.bioRead 9),
        .inner (.sslReturn 2 0 [7, 8]), .inner (.handlerReturn true), .inner (.sslReturn 1 0 [9]),
        .inner (.handlerReturn true), .inner (.sslReturn (-1) sslErrorWantRead [])])
      (.new openHandlers .invalid)).any (fun t => t.reads = [[7, 8], [9]]) = true := by decide
  obtain ⟨t, hr, ht⟩ := exists_run_of_exec hexec
  exact ⟨t, hr, (read_handler_gets hr).1.trans (of_decide_eq_true ht)⟩

end LibMumble.TLSConnection.Safety
