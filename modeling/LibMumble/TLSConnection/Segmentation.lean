import LibMumble.Lib.Stream
import LibMumble.TLSConnection.Frame

/-! # TCP segmentation

OpenSSL, taken as a deterministic stream decoder whose only input is what it reads from the BIO, is
run against the machine: `next` is the step that the code on the stack takes next, `settle` runs the
code below one callback of libuv to its end, and `feed` delivers the segments of a stream one after
another. What holds between any two steps is `Flow`, and each step makes a measure smaller
(`tick_flow`). So every `OnRead` returns, with nothing left behind, and what the read handler has
received is what the bytes received so far decode to, however they were cut. -/

namespace LibMumble.TLSConnection.Segmentation

open World Lib

/-! ### OpenSSL and the network -/

/-- A TLS session with a peer, seen from the client. -/
structure Session extends StreamDecoder UInt8 UInt8 where
  /-- the result and the error code, when this is an error or a close -/
  fails : List UInt8 → Option (ℤ × ℤ)
  /-- the certificates have arrived -/
  verifies : List UInt8 → Bool
  certs : List PeerCert
  ders : List (List UInt8)
  certs_ok : encodeChain certs = .ok (some ders)

/-- How far the session is; `dry` says that the last read of the BIO answered `-1`. -/
structure Progress where
  consumed : List UInt8
  given : ℕ
  verified : Bool
  dry : Bool

def Progress.new : Progress := ⟨[], 0, false, false⟩

/-- A read of the BIO. -/
def fetch (w : World) (d : Progress) (n : ℕ) : Act × Progress :=
  (.inner (.bioRead n), match w.bio.read n with
    | .ok (ret, data, _) =>
      if ret = -1 then { d with dry := true } else { d with consumed := d.consumed ++ data }
    | .error _ => d)

/-- `-1` with `WANT_READ`. -/
def backOff (d : Progress) : Act × Progress :=
  (.inner (.sslReturn (-1) sslErrorWantRead []), { d with dry := false })

/-- `SSL_read` succeeds. -/
def give (S : Session) (d : Progress) (room : ℤ) : Act × Progress :=
  let n := S.gives d.consumed d.given room.toNat
  (.inner (.sslReturn n sslErrorNone (((S.plain d.consumed).drop d.given).take n)),
    { d with given := d.given + n, dry := false })

/-- The next step of the code on the stack. The handlers return without calling back, and the chain
is accepted. -/
def next (S : Session) (w : World) (d : Progress) : Option (Act × Progress) :=
  match w.stack with
  | .sslConnect _ :: _ =>
    match S.fails d.consumed with
    | some (ret, err) => some (.inner (.sslReturn ret err []), d)
    | none =>
      if d.dry then some (backOff d)
      else if S.verifies d.consumed ∧ ¬ d.verified then
        some (.inner (.sslVerify S.certs ⟨0, "", ""⟩ true 0), { d with verified := true })
      else if S.done d.consumed then some (.inner (.sslReturn 1 sslErrorNone []), d)
      else some (fetch w d (S.needs d.consumed))
  | .sslRead processed :: _ =>
    match S.fails d.consumed with
    | some (ret, err) => some (.inner (.sslReturn ret err []), d)
    | none =>
      if d.dry then
        if d.given < (S.plain d.consumed).length then some (give S d processed.capacity)
        else some (backOff d)
      else match S.asks d.consumed d.given processed.capacity.toNat with
        | some n => some (fetch w d n)
        | none => some (give S d processed.capacity)
  | f :: _ => if f.isHandler then some (.inner (.handlerReturn true), d) else none
  | [] => none

def tick (S : Session) (s : World × Progress) : Option (World × Progress) :=
  (next S s.1 s.2).bind fun (a, d) => (step s.1 a).map (·, d)

/-- The code on the stack runs until it returns to libuv, in at most so many steps. -/
def settle (S : Session) : ℕ → World × Progress → Option (World × Progress)
  | 0, s => if s.1.stack = [] then some s else none
  | n + 1, s => if s.1.stack = [] then some s else (tick S s).bind (settle S n)

/-- A segment as `OnRead` gets it: the bytes, the rest of the buffer they are in, and what the
memory of `processed` holds. -/
structure Segment where
  bytes : List UInt8
  spare : List UInt8
  heap : List UInt8
  ne_nil : bytes ≠ []
  small : (bytes ++ spare).length < 2 ^ 31

def Segment.act (g : Segment) : Act :=
  .event (.onRead g.bytes.length (g.bytes ++ g.spare) g.heap ⟨0, ""⟩)

/-- The segments arrive, each one after `OnRead` has returned for the one before. -/
def feed (S : Session) (n : ℕ) : List Segment → World × Progress → Option (World × Progress)
  | [], s => some s
  | g :: gs, s => ((step s.1 g.act).bind fun w => settle S n (w, s.2)).bind (feed S n gs)

/-- The socket connects and the handshake begins. -/
def start (S : Session) (n : ℕ) (w : World) : Option (World × Progress) :=
  (step w (.event (.onConnect 0 0 ⟨0, ""⟩))).bind fun w => settle S n (w, .new)

/-- The bytes of a cut. -/
def bytes (gs : List Segment) : List UInt8 := (gs.map Segment.bytes).flatten

/-- What the read handler has received. -/
def payloads (w : World) : List UInt8 := (w.log.filterMap fun o => match o with
  | .readHandler payload => some payload
  | _ => none).flatten

/-! ### The invariant between steps -/

variable {S : Session} {rcv : List UInt8} {w w' : World} {d d' : Progress}

/-- What holds wherever the code is, when the bytes `rcv` have arrived. -/
structure Base (S : Session) (rcv : List UInt8) (w : World) (d : Progress) : Prop where
  phase : w.phase = .running
  read : w.handlers.read = true
  opn : ¬ w.closed .tcpsock
  clean : w.bio.ptr.Clean
  stream : d.consumed ++ w.bio.ptr.pending = rcv
  dry : d.dry = true → w.bio.ptr.pending = []
  given : d.given ≤ (S.plain d.consumed).length
  out : payloads w = (S.plain d.consumed).take d.given

/-- `OnConnect` calls before anything has arrived, and `OnRead` has a proper length. -/
def CallerOk (rcv : List UInt8) : Caller → Prop
  | .onConnect => rcv = []
  | .onRead nread _ => 0 < nread ∧ nread < 2 ^ 31

/-- Where the code is. -/
inductive Stage (S : Session) (rcv : List UInt8) (d : Progress) : ConnState → List Frame → Prop
  | sslConnect {k} (hk : CallerOk rcv k) (hp : S.InPreamble d.consumed) (hg : d.given = 0) :
      Stage S rcv d .starvedSSLConnect [.sslConnect k]
  | verifyHandler {k} (hk : CallerOk rcv k) (hp : S.InPreamble d.consumed) (hg : d.given = 0)
      (hd : d.dry = false) (hv : d.verified = true) :
      Stage S rcv d .starvedSSLConnect [.verifyHandler, .sslConnect k]
  | starved (hp : S.InPreamble d.consumed) (hg : d.given = 0) (hd : d.dry = false)
      (hall : d.consumed = rcv) : Stage S rcv d .starvedSSLConnect []
  | establishedHandler {k} (hk : CallerOk rcv k) (hd : d.dry = false) :
      Stage S rcv d .established [.establishedHandler k]
  | sslRead {p b} (hb : p.buf = some b) (hc : 0 < p.cap) : Stage S rcv d .established [.sslRead p]
  | readHandler {p b} (hb : p.buf = some b) (hc : 0 < p.cap) (hd : d.dry = false) :
      Stage S rcv d .established [.readHandler p]
  | idle (hd : d.dry = false) (hall : d.consumed = rcv)
      (hg : d.given = (S.plain d.consumed).length) : Stage S rcv d .established []

structure Flow (S : Session) (rcv : List UInt8) (w : World) (d : Progress) : Prop
    extends Base S rcv w d where
  stage : Stage S rcv d w.state w.stack

/-- **Nothing is left behind**: the code has returned to libuv in one of the two states, no buffer is
queued, and the read handler has received all that the bytes decode to. -/
structure Idle (S : Session) (rcv : List UInt8) (w : World) : Prop where
  stack : w.stack = []
  state : w.state = .starvedSSLConnect ∨ w.state = .established
  bufs : w.bio.ptr.bufs = []
  payloads : payloads w = S.plain rcv

theorem Flow.idle (h : Flow S rcv w d) (hst : w.stack = []) : Idle S rcv w := by
  have hs := h.stage
  rw [hst] at hs
  have hall : ∀ (_ : d.consumed = rcv), w.bio.ptr.bufs = [] := by
    intro hc
    have hstream := h.stream
    rw [hc, List.append_right_eq_self] at hstream
    exact h.clean.pending_eq_nil.mp hstream
  generalize hws : w.state = ws at hs
  cases hs with
  | starved hp hg hd hc =>
    refine ⟨hst, Or.inl hws, hall hc, ?_⟩
    rw [h.out, hg, List.take_zero, ← hc, hp.plain_eq_nil]
  | idle hd hc hg =>
    refine ⟨hst, Or.inr hws, hall hc, ?_⟩
    rw [h.out, hg, List.take_length, hc]

/-- Neither a call of the read handler nor the end of the socket. -/
def quiet : Obs → Bool
  | .readHandler _ => false
  | .uvClose .tcpsock => false
  | _ => true

namespace Base

theorem of_eq (h : Base S rcv w d) (hp : w'.phase = w.phase) (hh : w'.handlers = w.handlers)
    (hb : w'.bio = w.bio) (hl : w'.log = w.log) : Base S rcv w' d := by
  refine ⟨hp.trans h.phase, by rw [hh]; exact h.read, ?_, ?_, ?_, ?_, h.given, ?_⟩
  · rw [closed, hl]
    exact h.opn
  · rw [hb]
    exact h.clean
  · rw [hb]
    exact h.stream
  · rw [hb]
    exact h.dry
  · rw [payloads, hl]
    exact h.out

theorem observe {o : Obs} (h : Base S rcv w d) (ho : quiet o = true) :
    Base S rcv (w.observe o) d := by
  refine ⟨h.phase, h.read, ?_, h.clean, h.stream, h.dry, h.given, ?_⟩
  · intro hm
    rcases mem_observe.mp hm with hm | rfl
    · exact h.opn hm
    · cases ho
  · have hnil : ([o].filterMap fun o => match o with
        | .readHandler payload => some payload
        | _ => none) = [] := by
      cases o <;> first | rfl | cases ho
    rw [payloads, World.observe, List.filterMap_append, hnil, List.append_nil]
    exact h.out

end Base

/-! ### The measure -/

/-- How far the code on the stack is from returning, apart from the bytes it still has to pass on. -/
def rank (stack : List Frame) (dry : Bool) : ℕ :=
  match stack with
  | .verifyHandler :: _ => 7
  | .sslConnect _ :: _ => if dry then 5 else 6
  | .establishedHandler _ :: _ => 4
  | .readHandler _ :: _ => 3
  | .sslRead _ :: _ => if dry then 1 else 2
  | _ => 0

/-- What is still to be read and to be given out, then the verification, then the rank. -/
def toDo (S : Session) (rcv : List UInt8) (w : World) (d : Progress) : ℕ :=
  8 * ((S.plain rcv).length - d.given + w.bio.ptr.pending.length) +
    (if d.verified then 0 else 8) + rank w.stack d.dry

/-- What a step of the code on the stack does. -/
def Ticks (S : Session) (rcv : List UInt8) (w : World) (d : Progress) : Prop :=
  ∃ w' d', tick S (w, d) = some (w', d') ∧ Flow S rcv w' d' ∧ toDo S rcv w' d' < toDo S rcv w d

theorem ticks_of {a : Act} (hn : next S w d = some (a, d')) (hs : step w a = some w')
    (hf : Flow S rcv w' d') (ht : toDo S rcv w' d' < toDo S rcv w d) : Ticks S rcv w d := by
  refine ⟨w', d', ?_, hf, ht⟩
  simp only [tick, hn, Option.bind_some, hs, Option.map_some]

/-! ### Steps -/

theorem step_bioRead {f : Frame} {stack : List Frame} {n : ℤ} (hp : w.phase = .running)
    (hst : w.stack = f :: stack) (hf : f.isSSL = true) (hn : 0 < n) :
    step w (.inner (.bioRead n)) = some (bioRead n w) := by
  simp only [step, if_pos hp, stepInner, hst, hf, hn, and_self, if_true]

/-- A read of the BIO gets a piece of what is queued, or finds that nothing is. -/
theorem fetch_spec {n : ℕ} (hcl : w.bio.ptr.Clean) (hn : 0 < n) :
    ∃ bio d', fetch w d n = (.inner (.bioRead n), d') ∧ bioRead n w = { w with bio := bio } ∧
      bio.ptr.Clean ∧
      ((w.bio.ptr.pending = [] ∧ bio.ptr.pending = [] ∧ d' = { d with dry := true }) ∨
        ∃ data, data ≠ [] ∧ data.length ≤ n ∧ w.bio.ptr.pending = data ++ bio.ptr.pending ∧
          d' = { d with consumed := d.consumed ++ data }) := by
  have hn' : (0 : ℤ) < n := by omega
  obtain ⟨ret, data, bio, hr, hcl', ans, htk, hdata, hnone, hsome⟩ := Bio.read_takes hcl hn'
  refine ⟨bio, _, rfl, ?_, hcl', ?_⟩
  · rw [bioRead, hr]
  · simp only [hr]
    cases ans with
    | none =>
      obtain ⟨hret, -⟩ := hnone rfl
      have hp := htk.eq_none_iff.mp rfl
      have hrest := htk.intact
      rw [hp, Option.getD_none, List.nil_append] at hrest
      rw [if_pos hret]
      exact Or.inl ⟨hp, hrest, rfl⟩
    | some data' =>
      obtain rfl : data' = data := hdata
      have hret := hsome (by simp)
      obtain ⟨hne, hle, hp⟩ := htk.of_some
      rw [if_neg (by omega)]
      exact Or.inr ⟨_, hne, by simpa using hle, hp, rfl⟩

/-- The invariant after a read of the BIO by the SSL function on top. -/
theorem ticks_fetch {f : Frame} {stack : List Frame} {n : ℕ} (h : Flow S rcv w d)
    (hst : w.stack = f :: stack) (hf : f.isSSL = true) (hrank : rank w.stack true < rank w.stack false)
    (hn : 0 < n) (hdry : d.dry = false) (hnext : next S w d = some (fetch w d n))
    (hstage : ∀ data, data.length ≤ n →
      Stage S rcv { d with consumed := d.consumed ++ data } w.state w.stack)
    (hstage' : Stage S rcv { d with dry := true } w.state w.stack) : Ticks S rcv w d := by
  obtain ⟨bio, d', hfetch, hread, hcl, hcase⟩ := @fetch_spec w d n h.clean hn
  rw [hfetch] at hnext
  have hs := step_bioRead h.phase hst hf (n := n) (by omega)
  rw [hread] at hs
  refine ticks_of hnext hs ?_ ?_
  · rcases hcase with ⟨hp, hp', rfl⟩ | ⟨data, hne, hle, hp, rfl⟩
    · refine ⟨⟨h.phase, h.read, h.opn, hcl, ?_, fun _ => hp', h.given, h.out⟩, hstage'⟩
      have := h.stream
      rwa [hp, ← hp'] at this
    · refine ⟨⟨h.phase, h.read, h.opn, hcl, ?_, fun hd => ?_, ?_, ?_⟩, hstage data hle⟩
      · have := h.stream
        rwa [hp, ← List.append_assoc] at this
      · have hd : d.dry = true := hd
        rw [hdry] at hd
        cases hd
      · exact h.given.trans (S.plain_length_le data)
      · rw [S.take_plain h.given]
        exact h.out
  · rcases hcase with ⟨hp, hp', rfl⟩ | ⟨data, hne, hle, hp, rfl⟩
    · simp only [toDo, hp, hp', hdry]
      omega
    · have hpos := List.length_pos_iff.mpr hne
      have hlen : w.bio.ptr.pending.length = data.length + bio.ptr.pending.length := by
        rw [hp, List.length_append]
      simp only [toDo]
      omega

/-- The handshake is over, and the caller of `HandleStarvedConnectState` goes on. -/
theorem flow_handleStarvedDone {k : Caller} (h : Base S rcv w d) (hst : w.stack = [])
    (hs : w.state = .established) (hd : d.dry = false) (hk : CallerOk rcv k) :
    Flow S rcv (handleStarvedDone k true w) d ∧
      (handleStarvedDone k true w).bio = w.bio ∧
      rank (handleStarvedDone k true w).stack false ≤ 2 := by
  cases k with
  | onConnect =>
    -- nothing has arrived, so nothing is left
    have hnil : d.consumed = [] := by
      have := h.stream
      rw [show rcv = [] from hk] at this
      exact (List.append_eq_nil_iff.mp this).1
    have hplain : S.plain d.consumed = [] := by
      rw [hnil]
      exact S.inPreamble_nil.plain_eq_nil
    refine ⟨⟨h, ?_⟩, rfl, ?_⟩
    · rw [handleStarvedDone, hs, hst]
      refine .idle hd (hnil.trans (show rcv = [] from hk).symm) ?_
      have := h.given
      rw [hplain] at this ⊢
      simpa using this
    · rw [handleStarvedDone, hst]
      decide
  | onRead nread heap =>
    obtain ⟨h0, h1⟩ := hk
    have hn : ¬ nread < 0 := by omega
    simp only [handleStarvedDone, if_true, onReadEstablished, if_pos hs, castInt_eq h0 h1,
      ByteArray.ofLength, malloc, if_neg hn, bind, Except.bind, pure, Except.pure]
    refine ⟨⟨h.of_eq rfl rfl rfl rfl, ?_⟩, rfl, ?_⟩
    · simp only [push, hs, hst]
      exact .sslRead rfl h0
    · simp [push, rank]

theorem transition_pos {k : Caller} {u : World} (h : u.handlers.established = true) :
    transitionToConnectionEstablishedState k u =
      (({ u with state := .established }.observe .transition).observe .establishedHandler).push
        (.establishedHandler k) := if_pos h

theorem transition_neg {k : Caller} {u : World} (h : ¬ u.handlers.established = true) :
    transitionToConnectionEstablishedState k u =
      handleStarvedDone k true ({ u with state := .established }.observe .transition) := if_neg h

/-- `SSL_connect` is on top. -/
theorem ticks_sslConnect {k : Caller} (hfail : ∀ c, c <+: rcv → S.fails c = none)
    (h : Base S rcv w d) (hs : w.state = .starvedSSLConnect) (hst : w.stack = [.sslConnect k])
    (hk : CallerOk rcv k) (hp : S.InPreamble d.consumed) (hg : d.given = 0) : Ticks S rcv w d := by
  have hf : S.fails d.consumed = none := hfail _ ⟨_, h.stream⟩
  have hflow : Flow S rcv w d := ⟨h, by rw [hs, hst]; exact .sslConnect hk hp hg⟩
  by_cases hdry : d.dry = true
  · -- the read before this one answered `-1`
    have hnext : next S w d = some (backOff d) := by
      simp only [next, hst, hf, hdry, if_true]
    have hbase : Base S rcv ({ w with stack := [] }.observe
        (.sslReturn .connect (-1) sslErrorWantRead)) { d with dry := false } := by
      refine Base.observe ?_ rfl
      exact ⟨h.phase, h.read, h.opn, h.clean, h.stream, by simp, h.given, h.out⟩
    have hall : d.consumed = rcv := by
      have := h.stream
      rwa [h.dry hdry, List.append_nil] at this
    have hstep : step w (.inner (.sslReturn (-1) sslErrorWantRead [])) =
        some (handleStarvedDone k false ({ w with stack := [] }.observe
          (.sslReturn .connect (-1) sslErrorWantRead))) := by
      simp only [step, if_pos h.phase, stepInner, sslReturn, hst, sslConnectReturned]
      rfl
    have hdone : ∀ u, handleStarvedDone k false u = u := by
      intro u
      cases k <;> rfl
    rw [hdone] at hstep
    refine ticks_of hnext hstep ⟨hbase, ?_⟩ ?_
    · simp only [observe, hs]
      exact .starved hp hg rfl hall
    · simp only [toDo, observe, hst, hdry, rank]
      simp
  · rw [Bool.not_eq_true] at hdry
    by_cases hv : S.verifies d.consumed = true ∧ ¬ d.verified = true
    · -- the certificates are checked
      have hnext : next S w d = some (.inner (.sslVerify S.certs ⟨0, "", ""⟩ true 0),
          { d with verified := true }) := by
        simp only [next, hst, hf, hdry, Bool.false_eq_true, if_false, if_pos hv]
      have hstep : step w (.inner (.sslVerify S.certs ⟨0, "", ""⟩ true 0)) =
          some (sslVerifyCallback S.certs ⟨0, "", ""⟩ true 0 w) := by
        simp only [step, if_pos h.phase, stepInner, hst, Frame.isSSL, if_true]
      have hd' : Base S rcv w { d with verified := true } :=
        ⟨h.phase, h.read, h.opn, h.clean, h.stream, h.dry, h.given, h.out⟩
      have hvf : d.verified = false := by simpa using hv.2
      rw [sslVerifyCallback, S.certs_ok] at hstep
      by_cases hch : w.handlers.chainVerify = true
      · simp only [if_pos hch] at hstep
        have hb := hd'.observe (o := .chainVerifyHandler S.ders) rfl
        refine ticks_of hnext hstep ⟨hb.of_eq rfl rfl rfl rfl, ?_⟩ ?_
        · simp only [push, observe, hs, hst]
          exact .verifyHandler hk hp hg hdry rfl
        · simp only [toDo, push, observe, hst, hdry, hvf, rank]
          simp
      · simp only [if_neg hch] at hstep
        have hb := hd'.observe (o := .verifyCallback (some (.system (verifierOptions 0))) true)
          rfl
        refine ticks_of hnext hstep ⟨hb, ?_⟩ ?_
        · simp only [observe, hs, hst]
          exact .sslConnect hk hp hg
        · simp only [toDo, observe, hst, hdry, hvf, rank]
          simp
    · by_cases hdone : S.done d.consumed = true
      · -- the handshake is over
        have hnext : next S w d = some (.inner (.sslReturn 1 sslErrorNone []), d) := by
          simp only [next, hst, hf, hdry, Bool.false_eq_true, if_false, if_neg hv, if_pos hdone]
        set u : World := { w with stack := [] }.observe (.sslReturn .connect 1 sslErrorNone) with hu
        have hstep : step w (.inner (.sslReturn 1 sslErrorNone [])) =
            some (transitionToConnectionEstablishedState k u) := by
          simp only [step, if_pos h.phase, stepInner, sslReturn, hst, sslConnectReturned]
          rfl
        have hb0 : Base S rcv u d :=
          Base.observe (h.of_eq rfl rfl rfl rfl) rfl
        have hb1 : Base S rcv ({ u with state := .established }.observe .transition) d :=
          Base.observe (hb0.of_eq rfl rfl rfl rfl) rfl
        have hmeasure : toDo S rcv w d = 8 * ((S.plain rcv).length - d.given +
            u.bio.ptr.pending.length) + (if d.verified then 0 else 8) + 6 := by
          simp [toDo, hst, hdry, rank, hu, observe]
        by_cases he : u.handlers.established = true
        · have hb2 := hb1.observe (o := .establishedHandler) rfl
          rw [transition_pos he] at hstep
          refine ticks_of hnext hstep ⟨hb2.of_eq rfl rfl rfl rfl, ?_⟩ ?_
          · exact .establishedHandler hk hdry
          · rw [hmeasure]
            simp only [toDo, push, observe, rank]
            omega
        · rw [transition_neg he] at hstep
          obtain ⟨hflow', hbio, hrank⟩ := flow_handleStarvedDone hb1 rfl rfl hdry hk
          refine ticks_of hnext hstep hflow' ?_
          rw [hmeasure, toDo, hbio, hdry]
          simp only [observe] at hrank ⊢
          omega
      · have hdone' : S.done d.consumed = false := by simpa using hdone
        have hnext : next S w d = some (fetch w d (S.needs d.consumed)) := by
          simp only [next, hst, hf, hdry, Bool.false_eq_true, if_false, if_neg hv, hdone']
        refine ticks_fetch hflow hst rfl ?_ (S.needs_pos _) hdry hnext (fun data hle => ?_) ?_
        · rw [hst]
          simp [rank]
        · rw [hs, hst]
          exact .sslConnect hk (hp.extend hdone' hle) hg
        · rw [hs, hst]
          exact .sslConnect hk hp hg

/-- `SSL_read` hands out plaintext. -/
theorem ticks_give {p : ByteArray} {b : List UInt8} (h : Base S rcv w d)
    (hs : w.state = .established) (hst : w.stack = [.sslRead p]) (hb : p.buf = some b)
    (hc : 0 < p.cap) (hlt : d.given < (S.plain d.consumed).length)
    (hnext : next S w d = some (give S d p.capacity)) : Ticks S rcv w d := by
  have hroom : 0 < p.capacity.toNat := by
    show 0 < p.cap.toNat
    omega
  have hpos := S.gives_pos d.consumed d.given _ hroom hlt
  obtain ⟨hle, hle'⟩ := S.gives_le d.consumed d.given _ hroom hlt
  have hcap : p.capacity = p.cap := rfl
  rw [give] at hnext
  generalize hgive : S.gives d.consumed d.given p.capacity.toNat = n at hnext hpos hle hle'
  generalize hdata : ((S.plain d.consumed).drop d.given).take n = data at hnext
  have hlen : data.length = n := by
    rw [← hdata, List.length_take, List.length_drop]
    omega
  -- what the loop of `OnRead` hands to the read handler
  set q : ByteArray := ⟨some (data ++ b.drop data.length), n, p.cap⟩ with hq
  have hcontent : q.content = data := by
    rw [hq, ByteArray.content, ByteArray.data]
    simp [← hlen]
  have hret : sslReadReturned p n sslErrorNone data
      ({ w with stack := [] }.observe (.sslReturn .read n sslErrorNone)) =
      (({ w with stack := [] }.observe (.sslReturn .read n sslErrorNone)).observe
        (.readHandler data)).push (.readHandler q) := by
    have h1 : ¬ ((n : ℤ) = -1) := by omega
    have h0 : ¬ ((n : ℤ) = 0) := by omega
    have hfit : ¬ p.cap < (n : ℤ) := by omega
    rw [sslReadReturned, if_neg h1, if_neg h0]
    simp only [hb, Option.map_some, ByteArray.truncate, if_neg hfit]
    rw [if_pos (show (({ w with stack := [] } : World).observe _).handlers.read = true from h.read),
      ← hq, hcontent]
  have hstep : step w (.inner (.sslReturn n sslErrorNone data)) = some
      ((({ w with stack := [] }.observe (.sslReturn .read n sslErrorNone)).observe
        (.readHandler data)).push (.readHandler q)) := by
    have hok : (data.length : ℤ) = max (n : ℤ) 0 ∧ (n : ℤ) ≤ p.capacity := by omega
    simp only [step, if_pos h.phase, stepInner, sslReturn, hst, if_pos hok, hret]
  have hb1 : Base S rcv ({ w with stack := [] }.observe (.sslReturn .read n sslErrorNone)) d :=
    Base.observe (h.of_eq rfl rfl rfl rfl) rfl
  have hout : payloads (({ w with stack := [] }.observe (.sslReturn .read n sslErrorNone)).observe
      (.readHandler data)) = payloads w ++ data := by
    simp [payloads, observe]
  refine ticks_of hnext hstep ⟨⟨h.phase, h.read, ?_, h.clean, h.stream, by simp, hle', ?_⟩, ?_⟩ ?_
  · intro hm
    rcases mem_observe.mp hm with hm | hm
    · exact hb1.opn hm
    · cases hm
  · refine (show payloads _ = _ from hout).trans ?_
    rw [h.out, ← hdata, ← List.take_add]
  · show Stage S rcv _ w.state [.readHandler q]
    rw [hs]
    exact .readHandler rfl hc rfl
  · have htotal : (S.plain d.consumed).length ≤ (S.plain rcv).length := by
      rw [← h.stream]
      exact S.plain_length_le _
    have hr : rank w.stack d.dry ≤ 2 := by
      rw [hst]
      cases d.dry <;> simp [rank]
    simp only [toDo, push, observe, rank]
    omega

/-- `SSL_read` is on top. -/
theorem ticks_sslRead {p : ByteArray} {b : List UInt8} (hfail : ∀ c, c <+: rcv → S.fails c = none)
    (h : Base S rcv w d) (hs : w.state = .established) (hst : w.stack = [.sslRead p])
    (hb : p.buf = some b) (hc : 0 < p.cap) : Ticks S rcv w d := by
  have hf : S.fails d.consumed = none := hfail _ ⟨_, h.stream⟩
  have hstage : ∀ d', Stage S rcv d' w.state w.stack := by
    intro d'
    rw [hs, hst]
    exact .sslRead hb hc
  by_cases hdry : d.dry = true
  · by_cases hlt : d.given < (S.plain d.consumed).length
    · refine ticks_give h hs hst hb hc hlt ?_
      simp only [next, hst, hf, hdry, if_true, if_pos hlt]
    · -- everything is read and given out
      have hnext : next S w d = some (backOff d) := by
        simp only [next, hst, hf, hdry, if_true, if_neg hlt]
      have hstep : step w (.inner (.sslReturn (-1) sslErrorWantRead [])) =
          some ({ w with stack := [] }.observe (.sslReturn .read (-1) sslErrorWantRead)) := by
        have hok : (([] : List UInt8).length : ℤ) = max (-1) 0 ∧ -1 ≤ p.capacity := by
          have hcap : p.capacity = p.cap := rfl
          rw [hcap]
          exact ⟨rfl, by omega⟩
        simp only [step, if_pos h.phase, stepInner, sslReturn, hst, if_pos hok, sslReadReturned,
          if_true]
        rfl
      have hbase : Base S rcv ({ w with stack := [] }.observe
          (.sslReturn .read (-1) sslErrorWantRead)) { d with dry := false } := by
        refine Base.observe ?_ rfl
        exact ⟨h.phase, h.read, h.opn, h.clean, h.stream, by simp, h.given, h.out⟩
      have hall : d.consumed = rcv := by
        have := h.stream
        rwa [h.dry hdry, List.append_nil] at this
      refine ticks_of hnext hstep ⟨hbase, ?_⟩ ?_
      · simp only [observe, hs]
        exact .idle rfl hall (Nat.le_antisymm h.given (not_lt.mp hlt))
      · simp only [toDo, observe, hst, hdry, rank]
        simp
  · rw [Bool.not_eq_true] at hdry
    cases hask : S.asks d.consumed d.given p.capacity.toNat with
    | none =>
      refine ticks_give h hs hst hb hc (S.asks_none _ _ _ hask) ?_
      simp only [next, hst, hf, hdry, Bool.false_eq_true, if_false, hask]
    | some n =>
      refine ticks_fetch ⟨h, hstage d⟩ hst rfl ?_ (S.asks_pos _ _ _ _ hask) hdry ?_
        (fun _ _ => hstage _) (hstage _)
      · rw [hst]
        simp [rank]
      · simp only [next, hst, hf, hdry, Bool.false_eq_true, if_false, hask]

/-- **The step lemma**: while the code has not returned to libuv it takes a step, which keeps the
invariant and makes the measure smaller. -/
theorem tick_flow (hfail : ∀ c, c <+: rcv → S.fails c = none) (h : Flow S rcv w d)
    (hne : w.stack ≠ []) : Ticks S rcv w d := by
  have hb := h.toBase
  have hstage := h.stage
  generalize hs : w.state = ws at hstage
  generalize hst : w.stack = stack at hstage
  cases hstage with
  | sslConnect hk hp hg => exact ticks_sslConnect hfail hb hs hst hk hp hg
  | @verifyHandler k hk hp hg hd hv =>
    have hnext : next S w d = some (.inner (.handlerReturn true), d) := by
      simp only [next, hst]
      rfl
    have hstep : step w (.inner (.handlerReturn true)) =
        some ({ w with stack := [.sslConnect k] }.observe
          (.verifyCallback (some .handler) true)) := by
      simp only [step, if_pos hb.phase, stepInner, handlerReturn, hst]
    have hb' : Base S rcv { w with stack := [.sslConnect k] } d := hb.of_eq rfl rfl rfl rfl
    refine ticks_of hnext hstep ⟨hb'.observe rfl, ?_⟩ ?_
    · show Stage S rcv d w.state [.sslConnect k]
      rw [hs]
      exact .sslConnect hk hp hg
    · simp only [toDo, observe, hst, hd, rank]
      simp
  | starved => exact absurd hst hne
  | @establishedHandler k hk hd =>
    have hnext : next S w d = some (.inner (.handlerReturn true), d) := by
      simp only [next, hst]
      rfl
    have hstep : step w (.inner (.handlerReturn true)) =
        some (handleStarvedDone k true { w with stack := [] }) := by
      simp only [step, if_pos hb.phase, stepInner, handlerReturn, hst]
    have hb' : Base S rcv { w with stack := [] } d := hb.of_eq rfl rfl rfl rfl
    obtain ⟨hflow, hbio, hrank⟩ := flow_handleStarvedDone hb' rfl hs hd hk
    refine ticks_of hnext hstep hflow ?_
    simp only [toDo, hbio, hst, hd]
    simp only [rank] at hrank ⊢
    omega
  | sslRead hbuf hc => exact ticks_sslRead hfail hb hs hst hbuf hc
  | @readHandler p b hbuf hc hd =>
    have hnext : next S w d = some (.inner (.handlerReturn true), d) := by
      simp only [next, hst]
      rfl
    have hstep : step w (.inner (.handlerReturn true)) =
        some (({ w with stack := [] } : World).push (.sslRead p)) := by
      simp only [step, if_pos hb.phase, stepInner, handlerReturn, hst]
    refine ticks_of hnext hstep ⟨hb.of_eq rfl rfl rfl rfl, ?_⟩ ?_
    · show Stage S rcv d w.state [.sslRead p]
      rw [hs]
      exact .sslRead hbuf hc
    · simp only [toDo, push, hst, hd, rank]
      simp
  | idle => exact absurd hst hne

/-! ### Whole callbacks -/

/-- What the code below one callback keeps. -/
theorem settle_sound (hfail : ∀ c, c <+: rcv → S.fails c = none) :
    ∀ {n : ℕ} {s t : World × Progress}, Flow S rcv s.1 s.2 → settle S n s = some t →
      Flow S rcv t.1 t.2 ∧ t.1.stack = []
  | 0, s, t, h, hset => by
    simp only [settle, Option.ite_none_right_eq_some, Option.some.injEq] at hset
    obtain ⟨hst, rfl⟩ := hset
    exact ⟨h, hst⟩
  | n + 1, s, t, h, hset => by
    by_cases hst : s.1.stack = []
    · rw [settle, if_pos hst, Option.some.injEq] at hset
      subst hset
      exact ⟨h, hst⟩
    · obtain ⟨w', d', htick, hflow, -⟩ := tick_flow hfail h hst
      rw [settle, if_neg hst, htick] at hset
      exact @settle_sound hfail n (w', d') t hflow hset

/-- **The code below one callback returns to libuv.** -/
theorem settle_ends (hfail : ∀ c, c <+: rcv → S.fails c = none) :
    ∀ {n : ℕ} {s : World × Progress}, Flow S rcv s.1 s.2 → toDo S rcv s.1 s.2 ≤ n →
      ∃ t, settle S n s = some t
  | 0, s, h, hle => by
    by_cases hst : s.1.stack = []
    · exact ⟨s, by simp [settle, hst]⟩
    · obtain ⟨w', d', -, -, hlt⟩ := tick_flow hfail h hst
      omega
  | n + 1, s, h, hle => by
    by_cases hst : s.1.stack = []
    · exact ⟨s, by simp [settle, hst]⟩
    · obtain ⟨w', d', htick, hflow, hlt⟩ := tick_flow hfail h hst
      obtain ⟨t, ht⟩ := @settle_ends hfail n (w', d') hflow (by show toDo S rcv w' d' ≤ n; omega)
      refine ⟨t, ?_⟩
      rw [settle, if_neg hst, htick]
      exact ht

theorem settle_mono : ∀ {n m : ℕ} {s t : World × Progress}, settle S n s = some t → n ≤ m →
    settle S m s = some t
  | 0, 0, _, _, h, _ => h
  | 0, m + 1, s, t, h, _ => by
    by_cases hst : s.1.stack = []
    · simpa [settle, hst] using h
    · simp [settle, hst] at h
  | n + 1, 0, _, _, _, hle => absurd hle (by omega)
  | n + 1, m + 1, s, t, h, hle => by
    by_cases hst : s.1.stack = []
    · simpa [settle, hst] using h
    · rw [settle, if_neg hst] at h ⊢
      obtain ⟨u, hu, hset⟩ := Option.bind_eq_some_iff.mp h
      rw [hu]
      exact settle_mono hset (by omega)

/-- The array that `OnRead` makes of a segment. -/
def Segment.array (g : Segment) : ByteArray :=
  ⟨some (g.bytes ++ g.spare), g.bytes.length, (g.bytes ++ g.spare).length⟩

theorem Segment.array_wellFormed (g : Segment) : g.array.WellFormed := by
  have hsmall := g.small
  refine ⟨by simp [Segment.array], fun b hb => ?_, ?_, ?_, ?_⟩
  · cases hb
    rfl
  · show (0 : ℤ) ≤ g.bytes.length
    omega
  · show (g.bytes.length : ℤ) ≤ ((g.bytes ++ g.spare).length : ℕ)
    rw [List.length_append]
    omega
  · show (((g.bytes ++ g.spare).length : ℕ) : ℤ) < 2 ^ 31
    omega

theorem Segment.array_content (g : Segment) : g.array.content = g.bytes := by
  simp [Segment.array, ByteArray.content, ByteArray.data]

theorem Segment.array_eq (g : Segment) : ByteArray.ofBuffer (some (g.bytes ++ g.spare))
    (castInt g.bytes.length) (castInt ((g.bytes ++ g.spare).length : ℕ)) = .ok g.array := by
  have hsmall := g.small
  have hpos := List.length_pos_iff.mpr g.ne_nil
  have hle : g.bytes.length ≤ (g.bytes ++ g.spare).length := by
    rw [List.length_append]
    omega
  rw [castInt_eq (by omega) (by omega), castInt_eq (by omega) (by omega), ByteArray.ofBuffer]
  rw [if_neg (by omega), if_neg (by omega), mallocMemcpy_ok le_rfl (by omega) (by omega)]
  simp only [Int.toNat_zero, List.drop_zero, Int.toNat_natCast, List.take_length]
  rfl

/-- `OnRead` with bytes, in one of the two states in which it does not ignore them. -/
theorem onRead_put {nread : ℤ} {buf heap : List UInt8} {last : UVErr} {st : UVBioState}
    (hn : 0 < nread) (hs : w.state = .starvedSSLConnect ∨ w.state = .established)
    (hput : (ByteArray.ofBuffer (some buf) (castInt nread) (castInt buf.length) >>=
      w.bio.ptr.putNewBuffer) = .ok st) :
    onRead nread buf heap last w =
      if w.state = .starvedSSLConnect then
        handleStarvedConnectState (.onRead nread heap) { w with bio := { w.bio with ptr := st } }
      else onReadEstablished nread heap { w with bio := { w.bio with ptr := st } } := by
  have hstate : ¬ (w.state ≠ .starvedSSLConnect ∧ w.state ≠ .established) := by
    rintro ⟨h1, h2⟩
    exact hs.elim h1 h2
  have hne1 : ¬ nread = -1 := by omega
  have hne0 : ¬ nread = 0 := by omega
  rw [onRead, if_neg hstate, if_neg hne1, if_neg hne0]
  simp only [hput]

/-- `OnRead` is called, at a time at which the code has returned to libuv. -/
theorem flow_onRead (h : Flow S rcv w d) (hst : w.stack = []) (g : Segment) :
    ∃ w', step w g.act = some w' ∧ Flow S (rcv ++ g.bytes) w' d := by
  have hsmall := g.small
  have hpos := List.length_pos_iff.mpr g.ne_nil
  have hle : g.bytes.length ≤ (g.bytes ++ g.spare).length := by
    rw [List.length_append]
    omega
  have hlen : (0 : ℤ) < g.bytes.length ∧ (g.bytes.length : ℤ) < 2 ^ 31 := by omega
  have hk : CallerOk (rcv ++ g.bytes) (.onRead g.bytes.length g.heap) := hlen
  have hguard : ¬ w.closed .tcpsock ∧ (g.bytes.length : ℤ) ≤ (g.bytes ++ g.spare).length ∧
      (g.bytes ++ g.spare).length < 2 ^ 31 := ⟨h.opn, by exact_mod_cast hle, hsmall⟩
  have hstep : step w g.act = some (onRead g.bytes.length (g.bytes ++ g.spare) g.heap ⟨0, ""⟩
      (w.observe (.onRead g.bytes.length 0))) := by
    simp only [Segment.act, step, if_pos (And.intro h.phase hst), stepEvent, if_pos hguard]
  have hcl : d.dry = false := by
    have hs := h.stage
    rw [hst] at hs
    generalize w.state = ws at hs
    cases hs with
    | starved _ _ hd => exact hd
    | idle hd => exact hd
  set u : World := { w.observe (.onRead g.bytes.length 0) with
    bio := { w.bio with ptr := ⟨w.bio.ptr.bufs ++ [g.array]⟩ } } with hu
  have hbase : Base S (rcv ++ g.bytes) u d := by
    have hb := h.toBase.observe (o := .onRead g.bytes.length 0) rfl
    refine ⟨hb.phase, hb.read, hb.opn, ?_, ?_, fun hd => ?_, hb.given, hb.out⟩
    · refine h.clean.snoc g.array_wellFormed ?_
      exact hlen.1
    · show d.consumed ++ UVBioState.pending ⟨w.bio.ptr.bufs ++ [g.array]⟩ = _
      rw [UVBioState.pending_snoc, g.array_content, ← List.append_assoc, h.stream]
    · rw [hcl] at hd
      cases hd
  have hput : (ByteArray.ofBuffer (some (g.bytes ++ g.spare)) (castInt g.bytes.length)
      (castInt ((g.bytes ++ g.spare).length : ℕ)) >>= w.bio.ptr.putNewBuffer) =
      .ok ⟨w.bio.ptr.bufs ++ [g.array]⟩ := by
    rw [g.array_eq]
    exact UVBioState.putNewBuffer_eq g.array_wellFormed
  have hs := h.stage
  rw [hst] at hs
  generalize hws : w.state = ws at hs
  cases hs with
  | starved hp hg hd hall =>
    refine ⟨_, hstep, ?_⟩
    have hws' : (w.observe (.onRead g.bytes.length 0)).state = .starvedSSLConnect := hws
    rw [onRead_put hlen.1 (.inl hws') hput, if_pos hws']
    refine ⟨hbase.of_eq rfl rfl rfl rfl, ?_⟩
    show Stage S _ d w.state (.sslConnect _ :: w.stack)
    rw [hws, hst]
    exact .sslConnect hk hp hg
  | idle hd hall hg =>
    refine ⟨_, hstep, ?_⟩
    have hws' : (w.observe (.onRead g.bytes.length 0)).state = .established := hws
    rw [onRead_put hlen.1 (.inr hws') hput, if_neg (by simp [hws'])]
    have hflow := (flow_handleStarvedDone hbase hst hws hd hk).1
    simp only [handleStarvedDone, if_true] at hflow
    exact hflow

/-- A connection whose thread has been started and whose socket is going to connect. -/
structure Ready (w : World) : Prop where
  phase : w.phase = .running
  stack : w.stack = []
  state : w.state = .preConnect
  connecting : w.connecting = true
  opn : ¬ w.closed .tcpsock
  read : w.handlers.read = true
  fresh : payloads w = []

/-- `OnConnect` is called. -/
theorem flow_onConnect (hw : Ready w) : ∃ w', step w (.event (.onConnect 0 0 ⟨0, ""⟩)) = some w' ∧
    Flow S [] w' .new := by
  have hguard : w.connecting = true ∧ (w.closed .tcpsock → (0 : ℤ) = -1) :=
    ⟨hw.connecting, fun hc => absurd hc hw.opn⟩
  refine ⟨handleStarvedConnectState .onConnect
      { w with connecting := false, bio := .create, state := .starvedSSLConnect }, ?_, ?_⟩
  · simp only [step, if_pos (And.intro hw.phase hw.stack), stepEvent, if_pos hguard]
    rw [onConnect, if_neg (by simp [hw.state]), if_neg (by decide), if_neg (by decide)]
  · refine ⟨⟨hw.phase, hw.read, hw.opn, UVBioState.clean_nil, rfl, by simp [Progress.new],
      Nat.zero_le _, ?_⟩, ?_⟩
    · exact hw.fresh.trans (List.take_zero).symm
    · show Stage S [] .new .starvedSSLConnect (.sslConnect .onConnect :: w.stack)
      rw [hw.stack]
      exact .sslConnect rfl S.inPreamble_nil rfl

/-! ### Streams -/

@[simp] theorem bytes_cons (g : Segment) (gs : List Segment) :
    bytes (g :: gs) = g.bytes ++ bytes gs := rfl

@[simp] theorem bytes_nil : bytes [] = [] := rfl

theorem feed_append (n : ℕ) : ∀ (gs hs : List Segment) (s : World × Progress),
    feed S n (gs ++ hs) s = (feed S n gs s).bind (feed S n hs)
  | [], _, _ => rfl
  | g :: gs, hs, s => by
    have ih : feed S n (gs ++ hs) = fun t => (feed S n gs t).bind (feed S n hs) :=
      funext (feed_append n gs hs)
    rw [List.cons_append, feed, feed, ih]
    simp only [Option.bind_assoc]

theorem feed_sound {n : ℕ} : ∀ {gs : List Segment} {rcv : List UInt8} {s t : World × Progress},
    (∀ c, c <+: rcv ++ bytes gs → S.fails c = none) → Flow S rcv s.1 s.2 → s.1.stack = [] →
      feed S n gs s = some t → Flow S (rcv ++ bytes gs) t.1 t.2 ∧ t.1.stack = []
  | [], rcv, s, t, _, h, hst, hf => by
    obtain rfl := Option.some.inj hf
    rw [bytes_nil, List.append_nil]
    exact ⟨h, hst⟩
  | g :: gs, rcv, s, t, hfail, h, hst, hf => by
    obtain ⟨w', hs, hflow⟩ := flow_onRead h hst g
    rw [feed, hs, Option.bind_some] at hf
    obtain ⟨u, hu, hf⟩ := Option.bind_eq_some_iff.mp hf
    rw [bytes_cons, ← List.append_assoc] at hfail ⊢
    have hfail' : ∀ c, c <+: rcv ++ g.bytes → S.fails c = none := fun c hc =>
      hfail c (hc.trans (List.prefix_append _ _))
    obtain ⟨hflow', hst'⟩ := settle_sound hfail' hflow hu
    exact feed_sound hfail hflow' hst' hf

theorem feed_ends : ∀ {gs : List Segment} {rcv : List UInt8} {s : World × Progress},
    (∀ c, c <+: rcv ++ bytes gs → S.fails c = none) → Flow S rcv s.1 s.2 → s.1.stack = [] →
      ∃ N, ∀ n, N ≤ n → ∃ t, feed S n gs s = some t
  | [], _, s, _, _, _ => ⟨0, fun _ _ => ⟨s, rfl⟩⟩
  | g :: gs, rcv, s, hfail, h, hst => by
    obtain ⟨w', hs, hflow⟩ := flow_onRead h hst g
    rw [bytes_cons, ← List.append_assoc] at hfail
    have hfail' : ∀ c, c <+: rcv ++ g.bytes → S.fails c = none := fun c hc =>
      hfail c (hc.trans (List.prefix_append _ _))
    obtain ⟨u, hu⟩ := @settle_ends _ _ hfail' _ (w', s.2) hflow le_rfl
    obtain ⟨hflow', hst'⟩ := settle_sound hfail' hflow hu
    obtain ⟨N, hN⟩ := feed_ends hfail hflow' hst'
    refine ⟨max (toDo S (rcv ++ g.bytes) w' s.2) N, fun n hn => ?_⟩
    obtain ⟨t, ht⟩ := hN n (le_of_max_le_right hn)
    refine ⟨t, ?_⟩
    rw [feed, hs, Option.bind_some, settle_mono hu (le_of_max_le_left hn)]
    exact ht

theorem start_flow (hfail : ∀ c, c <+: [] → S.fails c = none) (hw : Ready w) :
    ∃ N s, (∀ n, N ≤ n → start S n w = some s) ∧ Flow S [] s.1 s.2 ∧ s.1.stack = [] := by
  obtain ⟨w', hs, hflow⟩ := @flow_onConnect S w hw
  obtain ⟨s, hu⟩ := @settle_ends _ _ hfail _ (w', .new) hflow le_rfl
  refine ⟨toDo S [] w' .new, s, fun n hn => ?_, settle_sound hfail hflow hu⟩
  rw [start, hs, Option.bind_some]
  exact settle_mono hu hn

/-- **What the read handler receives does not depend on TCP segmentation.** Two cuts of a stream on
which the session does not fail: with enough steps every `OnRead` returns, with nothing left behind,
and both times the read handler has received what the stream decodes to. -/
theorem segmentation_irrelevant (S : Session) {w : World} (hw : Ready w) {input : List UInt8}
    (hfail : ∀ c, c <+: input → S.fails c = none) {gs hs : List Segment} (hg : bytes gs = input)
    (hh : bytes hs = input) :
    ∃ N, ∀ n, N ≤ n → ∃ s t u, start S n w = some s ∧ feed S n gs s = some t ∧
      feed S n hs s = some u ∧ payloads t.1 = payloads u.1 ∧ payloads t.1 = S.plain input ∧
      ∀ pre, pre <+: gs ∨ pre <+: hs →
        ∃ v, feed S n pre s = some v ∧ Idle S (bytes pre) v.1 := by
  have hfail0 : ∀ c, c <+: [] → S.fails c = none := fun c hc =>
    hfail c (hc.trans (List.nil_prefix))
  obtain ⟨N0, s, hs0, hflow, hst⟩ := start_flow hfail0 hw
  have hfg : ∀ c, c <+: [] ++ bytes gs → S.fails c = none := by
    rw [List.nil_append, hg]
    exact hfail
  have hfh : ∀ c, c <+: [] ++ bytes hs → S.fails c = none := by
    rw [List.nil_append, hh]
    exact hfail
  obtain ⟨N1, h1⟩ := feed_ends hfg hflow hst
  obtain ⟨N2, h2⟩ := feed_ends hfh hflow hst
  refine ⟨max N0 (max N1 N2), fun n hn => ?_⟩
  have hn1 := le_of_max_le_right hn
  obtain ⟨t, ht⟩ := h1 n (le_of_max_le_left hn1)
  obtain ⟨u, hu⟩ := h2 n (le_of_max_le_right hn1)
  obtain ⟨hft, hstt⟩ := feed_sound hfg hflow hst ht
  obtain ⟨hfu, hstu⟩ := feed_sound hfh hflow hst hu
  have hpt := (hft.idle hstt).payloads
  have hpu := (hfu.idle hstu).payloads
  rw [List.nil_append, hg] at hpt
  rw [List.nil_append, hh] at hpu
  refine ⟨s, t, u, hs0 n (le_of_max_le_left hn), ht, hu, hpt.trans hpu.symm, hpt, ?_⟩
  -- what holds at the end of a stream holds at the end of each of its beginnings
  have hpre : ∀ (all pre : List Segment) (x : World × Progress), pre <+: all → bytes all = input →
      feed S n all s = some x → ∃ v, feed S n pre s = some v ∧ Idle S (bytes pre) v.1 := by
    rintro all pre x ⟨rest, rfl⟩ hall hx
    rw [feed_append] at hx
    obtain ⟨v, hv, -⟩ := Option.bind_eq_some_iff.mp hx
    have hfp : ∀ c, c <+: [] ++ bytes pre → S.fails c = none := by
      intro c hc
      refine hfail c (hc.trans ?_)
      rw [← hall, List.nil_append]
      exact ⟨bytes rest, by simp [bytes]⟩
    obtain ⟨hfv, hstv⟩ := feed_sound hfp hflow hst hv
    have hidle := hfv.idle hstv
    rw [List.nil_append] at hidle
    exact ⟨v, hv, hidle⟩
  intro pre hp
  rcases hp with hp | hp
  · exact hpre gs pre t hp hg ht
  · exact hpre hs pre u hp hh hu

/-- A handshake of two bytes, and then the plaintext itself. -/
def twoByteSession : Session where
  done c := 2 ≤ c.length
  needs c := max 1 (2 - c.length)
  plain c := c.drop 2
  asks c given _ := if given < (c.drop 2).length then none else some 5
  gives c given room := min room ((c.drop 2).length - given)
  needs_pos c := by omega
  needs_only c y z hd hy hz hle := by
    have hy' := List.length_pos_iff.mpr hy
    have hz' := List.length_pos_iff.mpr hz
    simp only [decide_eq_false_iff_not, List.length_append] at hd hle ⊢
    omega
  plain_mono c x := by
    rw [List.drop_append]
    exact List.prefix_append _ _
  plain_preamble c h := by
    by_contra hne
    have hlen : 2 < c.length := by
      by_contra hle
      exact hne (List.drop_eq_nil_of_le (by omega))
    have heq := h (c.take 2) (List.take_prefix _ _)
      (by simp only [List.length_take, decide_eq_true_eq]; omega)
    have := congrArg List.length heq
    rw [List.length_take] at this
    omega
  asks_pos c given _ n h := by
    split_ifs at h
    have := Option.some.inj h
    omega
  asks_none c given _ h := by
    split_ifs at h
    assumption
  gives_pos c given room h0 h1 := by omega
  gives_le c given room h0 h1 := by omega
  fails _ := none
  verifies c := 1 ≤ c.length
  certs := [⟨1, 1, [48]⟩]
  ders := [[48]]
  certs_ok := rfl

/-- The thread of a new connection has been started. -/
def started : World :=
  threadStart 1 (connect ⟨openHandlers, 0, 0, 0, ⟨0, ""⟩⟩ (new openHandlers .invalid)).2

/-- The handshake ends in the middle of a segment, in one cut of the stream and in another. -/
theorem segmentation_irrelevant_middle : ∃ N, ∀ n, N ≤ n → ∃ s t u,
    start twoByteSession n started = some s ∧
      feed twoByteSession n [⟨[1, 2, 3], [0], [], by decide, by decide⟩,
        ⟨[4], [], [], by decide, by decide⟩] s = some t ∧
      feed twoByteSession n [⟨[1], [], [], by decide, by decide⟩,
        ⟨[2, 3, 4], [], [], by decide, by decide⟩] s = some u ∧
      payloads t.1 = payloads u.1 ∧ payloads t.1 = [3, 4] := by
  have hready : Ready started := ⟨rfl, rfl, rfl, rfl, by decide, rfl, rfl⟩
  obtain ⟨N, hN⟩ := @segmentation_irrelevant twoByteSession started hready [1, 2, 3, 4]
    (fun _ _ => rfl) [⟨[1, 2, 3], [0], [], by decide, by decide⟩, ⟨[4], [], [], by decide, by decide⟩]
    [⟨[1], [], [], by decide, by decide⟩, ⟨[2, 3, 4], [], [], by decide, by decide⟩] rfl rfl
  refine ⟨N, fun n hn => ?_⟩
  obtain ⟨s, t, u, hs, ht, hu, heq, hp, -⟩ := hN n hn
  exact ⟨s, t, u, hs, ht, hu, heq, hp⟩

end LibMumble.TLSConnection.Segmentation
