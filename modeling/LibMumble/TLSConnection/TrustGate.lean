import LibMumble.TLSConnection.Protocol
import LibMumble.X509.PEMVerifier
import LibMumble.X509.UnixRoots

/-! # What an established connection says about the server

Without a chain verify handler the connection asks the system verifier, which on Unix is an
`X509PEMVerifier` with the roots of a bundle. Under `AsksUnix` the verdict in a step is that of this
verifier, on the certificates that `SSLVerifyCallback` made of what the peer sent. So an established
connection has seen a chain that the roots vouch for, to the name that the code asks for
(`established_is_trusted`), and where there is no bundle there is no such connection. -/

namespace LibMumble.TLSConnection.TrustGate

open World Lib Protocol

variable {w w' : World}

/-! ### The verdict of the system verifier -/

/-- `SSLVerifyCallback` returned what the system verifier said. -/
def verdict : Obs → Bool
  | .verifyCallback (some (.system _)) _ => true
  | _ => false

/-- The log has no new verdict. -/
def NoVerdict (w w' : World) : Prop := ∀ o ∈ w'.log, verdict o = true → o ∈ w.log

namespace NoVerdict

theorem refl (w : World) : NoVerdict w w := fun _ ho _ => ho

theorem of_log (h : w'.log = w.log) : NoVerdict w w' := fun o ho _ => by rwa [← h]

theorem trans {u : World} (h1 : NoVerdict w u) (h2 : NoVerdict u w') : NoVerdict w w' :=
  fun o ho hv => h1 o (h2 o ho hv) hv

theorem of_append {new : List Obs} (h : w'.log = w.log ++ new)
    (hn : ∀ o ∈ new, verdict o = false) : NoVerdict w w' := by
  intro o ho hv
  rw [h, List.mem_append] at ho
  refine ho.resolve_right fun hnew => ?_
  rw [hn o hnew] at hv
  cases hv

theorem observe {o : Obs} (ho : verdict o = false) (w : World) : NoVerdict w (w.observe o) :=
  of_append rfl (by simpa using ho)

theorem shutdown (s : ConnState) (w : World) : NoVerdict w (shutdown s w) := by
  obtain ⟨new, hlog, hnew⟩ := log_shutdown s w
  refine of_append hlog fun o ho => ?_
  rcases hnew o ho with rfl | ⟨h, rfl⟩ <;> rfl

theorem shutdownError (e : Error) (w : World) : NoVerdict w (shutdownError e w) := shutdown _ _

theorem shutdownRemote (w : World) : NoVerdict w (shutdownRemote w) := shutdown _ w

theorem uvAsyncSend (h : Handle) (w : World) : NoVerdict w (uvAsyncSend h w) := by
  cases h
  · exact refl w
  · exact of_append rfl (by simp [verdict])
  · exact of_append rfl (by simp [verdict])

theorem disconnect (us : ℕ) (w : World) : NoVerdict w (disconnect us w) := by
  unfold TLSConnection.disconnect
  split
  · exact shutdown _ w
  · exact uvAsyncSend _ w
  · exact refl w

theorem write (us : ℕ) (buf : ByteArray) (queued : Option ℕ) (w : World) :
    NoVerdict w (write us buf queued w) := by
  unfold TLSConnection.write
  split
  · exact of_append rfl (by simp [verdict])
  · exact of_append rfl (by simp [verdict])
  · exact refl w

theorem onReadEstablished (nread : ℤ) (heap : List UInt8) (w : World) :
    NoVerdict w (onReadEstablished nread heap w) := by
  unfold TLSConnection.onReadEstablished
  split
  · split <;> exact refl w
  · exact refl w

theorem handleStarvedDone (k : Caller) (ok : Bool) (w : World) :
    NoVerdict w (handleStarvedDone k ok w) := by
  unfold TLSConnection.handleStarvedDone
  split
  · exact refl w
  · split
    · exact onReadEstablished _ _ w
    · exact refl w

theorem transition (k : Caller) (w : World) :
    NoVerdict w (transitionToConnectionEstablishedState k w) := by
  have h : NoVerdict w ({ w with state := .established }.observe .transition) :=
    of_append rfl (by simp [verdict])
  unfold transitionToConnectionEstablishedState
  dsimp only
  split
  · exact h.trans (observe rfl _)
  · exact h.trans (handleStarvedDone k true _)

theorem sslConnectReturned (k : Caller) (ret err : ℤ) (w : World) :
    NoVerdict w (sslConnectReturned k ret err w) := by
  unfold TLSConnection.sslConnectReturned
  split
  · split
    · exact handleStarvedDone k false w
    · exact (shutdownError _ w).trans (handleStarvedDone k false _)
  · split
    · exact (shutdownRemote w).trans (handleStarvedDone k false _)
    · split
      · exact transition k w
      · exact refl w

theorem sslReadReturned (processed : ByteArray) (ret err : ℤ) (data : List UInt8) (w : World) :
    NoVerdict w (sslReadReturned processed ret err data w) := by
  unfold TLSConnection.sslReadReturned
  split
  · split
    · exact refl w
    · exact shutdownError _ w
  · split
    · exact shutdownRemote w
    · dsimp only
      split
      · exact refl w
      · split
        · exact of_append rfl (by simp [verdict])
        · exact refl w

theorem sslWriteReturned (ret err : ℤ) (w : World) : NoVerdict w (sslWriteReturned ret err w) := by
  unfold TLSConnection.sslWriteReturned
  split
  · exact shutdownError _ w
  · split
    · exact shutdownRemote w
    · exact refl w

theorem onRead (nread : ℤ) (buf heap : List UInt8) (last : UVErr) (w : World) :
    NoVerdict w (onRead nread buf heap last w) := by
  unfold TLSConnection.onRead
  split
  · exact refl w
  · split
    · split
      · exact shutdownRemote w
      · exact shutdownError _ w
    · split
      · exact shutdownRemote w
      · split
        · exact refl w
        · dsimp only
          split
          · exact refl w
          · exact onReadEstablished _ _ _

theorem bioRead (len : ℤ) (w : World) : NoVerdict w (bioRead len w) := by
  unfold TLSConnection.bioRead
  split <;> exact refl w

theorem onConnect (status readStart : ℤ) (last : UVErr) (w : World) :
    NoVerdict w (onConnect status readStart last w) := by
  unfold TLSConnection.onConnect
  split
  · exact refl w
  · split
    · exact shutdownError _ w
    · split
      · exact shutdownError _ w
      · exact refl w

theorem drainLoop (w : World) : NoVerdict w (drainLoop w) := by
  unfold TLSConnection.drainLoop
  split
  · exact refl w
  · exact write _ _ _ _

theorem loopDelete (w : World) : NoVerdict w (loopDelete w) := of_append rfl (by simp [verdict])

theorem callFinalHandler (w : World) : NoVerdict w (callFinalHandler w) := by
  unfold TLSConnection.callFinalHandler
  split
  · rename_i calls hcalls
    refine of_append rfl fun o ho => ?_
    rcases mem_finalCall hcalls ho with ⟨-, rfl⟩ | ⟨-, rfl⟩ | ⟨-, rfl⟩ <;> rfl
  · exact refl w

end NoVerdict

/-- What `SSLVerifyCallback` asked of the system verifier, in a step. -/
structure Asked (w : World) (a : Act) (o : Obs) (ders : List (List UInt8)) (now : ℤ) : Prop where
  act : ∃ chain last system, a = .inner (.sslVerify chain last system now) ∧
    encodeChain chain = .ok (some ders) ∧
    o = .verifyCallback (some (.system (verifierOptions now))) system
  unset : w.handlers.chainVerify = false

theorem sslVerify_verdict {chain : List PeerCert} {last : CryptoErr} {system : Bool} {now : ℤ}
    {o : Obs} (ho : o ∈ (sslVerifyCallback chain last system now w).log) (hv : verdict o = true) :
    o ∈ w.log ∨ ∃ ders, Asked w (.inner (.sslVerify chain last system now)) o ders now := by
  unfold sslVerifyCallback at ho
  split at ho
  · exact Or.inl ho
  · simp only at ho
    split at ho
    · exact Or.inl (NoVerdict.shutdownError _ w o ho hv)
    · rcases mem_observe.mp ho with ho | rfl
      · exact Or.inl (NoVerdict.shutdownError _ w o ho hv)
      · cases hv
  · rename_i ders hders
    split at ho
    · rcases mem_observe.mp ho with ho | rfl
      · exact Or.inl ho
      · cases hv
    · rename_i hunset
      rcases mem_observe.mp ho with ho | rfl
      · exact Or.inl ho
      · exact Or.inr ⟨ders, ⟨_, _, _, rfl, hders, rfl⟩, by simpa using hunset⟩

/-- **The step lemma**: a verdict is given where the system verifier is asked. -/
theorem verdict_of_rule {a : Act} {o : Obs} (h : Rule w a w') (ho : o ∈ w'.log)
    (hv : verdict o = true) : o ∈ w.log ∨ ∃ ders now, Asked w a o ders now := by
  cases h with
  | @connect r hp =>
    rw [(fresh_connect r w).log] at ho
    cases ho
  | sslVerify hp hst =>
    rcases sslVerify_verdict ho hv with ho | ⟨ders, hasked⟩
    · exact Or.inl ho
    · exact Or.inr ⟨ders, _, hasked⟩
  | start hp ht => exact Or.inl ho
  | uvRunReturned hp hst hc =>
    rw [uvRunReturned_eq] at ho
    exact Or.inl ho
  | storeZero hp => exact Or.inl ho
  | loopDelete hp => exact Or.inl (NoVerdict.loopDelete w o ho hv)
  | clearQueue hp => exact Or.inl ho
  | callFinalHandler hp => exact Or.inl (NoVerdict.callFinalHandler w o ho hv)
  | onConnect hp hst hg hc =>
    have hmem := NoVerdict.onConnect _ _ _ _ o ho hv
    exact Or.inl hmem
  | onRead hp hst hc hn hb =>
    have hmem := NoVerdict.onRead _ _ _ _ _ o ho hv
    exact Or.inl (NoVerdict.observe rfl w o hmem hv)
  | onDrainWriteQueue hp hst hg hc =>
    unfold onDrainWriteQueue at ho
    split at ho
    · have hmem := NoVerdict.drainLoop _ o ho hv
      exact Or.inl hmem
    · exact Or.inl ho
  | onDisconnectRequest hp hst hg hc =>
    have hmem := NoVerdict.shutdown _ _ o ho hv
    exact Or.inl hmem
  | bioRead hp hst hf hl => exact Or.inl (NoVerdict.bioRead _ w o ho hv)
  | sslConnectReturned hp hst =>
    have hmem := NoVerdict.sslConnectReturned _ _ _ _ o ho hv
    exact Or.inl (NoVerdict.observe rfl _ o hmem hv)
  | sslReadReturned hp hst hd hr =>
    have hmem := NoVerdict.sslReadReturned _ _ _ _ _ o ho hv
    exact Or.inl (NoVerdict.observe rfl _ o hmem hv)
  | sslWriteReturned hp hst =>
    have hmem := NoVerdict.sslWriteReturned _ _ _ o ho hv
    exact Or.inl (NoVerdict.observe rfl _ o hmem hv)
  | disconnect hp hst hf => exact Or.inl (NoVerdict.disconnect _ w o ho hv)
  | write hp hst hf => exact Or.inl (NoVerdict.write _ _ _ w o ho hv)
  | verifyHandlerReturned hp hst =>
    have hmem := NoVerdict.observe rfl _ o ho hv
    exact Or.inl hmem
  | establishedHandlerReturned hp hst =>
    have hmem := NoVerdict.handleStarvedDone _ _ _ o ho hv
    exact Or.inl hmem
  | readHandlerReturned hp hst => exact Or.inl ho
  | drainReturned hp hst =>
    have hmem := NoVerdict.drainLoop _ o ho hv
    exact Or.inl hmem
  | begin hp => exact Or.inl ho
  | loadOff hp hi hc hd => exact Or.inl ho
  | loadDropped hp hi hc hd => exact Or.inl ho
  | push hp hi hl => exact Or.inl ho
  | sendDisconnect hp hi => exact Or.inl (NoVerdict.uvAsyncSend .dcasync w o ho hv)
  | sendWrite hp hi => exact Or.inl (NoVerdict.uvAsyncSend .wqasync w o ho hv)

/-- An entry that was there all along was made in this connection. -/
theorem no_connect {o : Obs} {ok : World → Act → Prop} {as : List Act}
    (h : Run step (fun u a => ok u a ∧ o ∈ u.log) w as w') (ho : o ∈ w'.log) :
    ∀ r, .connect r ∉ as := by
  induction h with
  | nil => simp
  | @cons u v w' a as hok hs hrest ih =>
    intro r hr
    rcases List.mem_cons.mp hr with rfl | hr
    · have hv : o ∈ v.log := by
        cases hrest with
        | nil => exact ho
        | cons hok' _ _ => exact hok'.2
      cases step_rule hs with
      | connect hp =>
        rw [(fresh_connect r u).log] at hv
        cases hv
    · exact ih ho r hr

/-! ### The verifier of Unix -/

section Unix

variable {Cert : Type} (S : X509.OpenSSL) (P : X509.Libc) (nb na : ℤ)
  (verify : List Cert → X509.X509StoreCtx → ℤ) (roots : List Cert)

/-- The local `verification_vector`. -/
def verificationVector (ders : List (List UInt8)) : List X509.X509CertificatePrivate :=
  ders.map fun der => X509.fromRawDERData S P nb na ⟨some der, der.length, der.length⟩ .null

/-- The system verifier is an `X509PEMVerifier` with these roots, at some time. -/
def AsksUnix : Act → Prop
  | .inner (.sslVerify chain _ system now) => ∀ ders, encodeChain chain = .ok (some ders) →
    ∃ stdTime, system = X509.pemVerifyChain S ⟨verify roots, stdTime⟩
      (verificationVector S P nb na ders) (verifierOptions now)
  | _ => True

/-- The roots vouch for a chain that the peer sent, to the name that is asked for. -/
def Vouched (chain : List PeerCert) (now : ℤ) : Prop :=
  ∃ ders leaf rest stdTime, encodeChain chain = .ok (some ders) ∧
    verificationVector S P nb na ders = leaf :: rest ∧
    X509.verifyHostname leaf (ascii "www.google.com") = true ∧
    verify roots (X509.storeCtx S (leaf :: rest) ((verifierOptions now).at stdTime) true) = 1

variable {S P nb na verify roots}

theorem vouched_of_verifyChain {chain : List PeerCert} {ders : List (List UInt8)} {now stdTime : ℤ}
    (hders : encodeChain chain = .ok (some ders))
    (h : X509.pemVerifyChain S ⟨verify roots, stdTime⟩ (verificationVector S P nb na ders)
      (verifierOptions now) = true) : Vouched S P nb na verify roots chain now := by
  obtain ⟨leaf, rest, hchain, htrust, hname⟩ := X509.pem_checked h
  have hne : ascii "www.google.com" ≠ [] := by decide
  refine ⟨ders, leaf, rest, stdTime, hders, hchain, hname hne, ?_⟩
  rw [hchain] at htrust
  simpa [X509.pemJudge, verifierOptions, hne] using htrust

/-- **An established connection was vouched for**, in its own handshake, by the certificates of the
bundle, if no chain verify handler is set. -/
theorem established_is_trusted {fs : X509.FileSystem} {D : X509.PEM Cert} {heap junk : ℕ → UInt8}
    {handlers : Handlers} {s : ConnState} {as : List Act}
    (hfile : ∀ fn ∈ X509.bundles, ((fs.file fn).getD []).length < 2 ^ 31)
    (hroots : X509.readUnixRoots fs D heap junk = .ok roots) (hnone : ∀ ctx, verify [] ctx ≠ 1)
    (h : Run step (fun u a => Contract u a ∧ AsksUnix S P nb na verify roots a) (new handlers s) as w)
    (hest : .transition ∈ w.log) (hunset : w.handlers.chainVerify = false) :
    X509.goodPrefix (D.blocks (X509.firstBundle fs X509.bundles)) ≠ [] ∧
    ∃ pre chain last now post, as = pre ++ .inner (.sslVerify chain last true now) :: post ∧
      (∀ r, .connect r ∉ post) ∧ Vouched S P nb na verify
        (X509.goodPrefix (D.blocks (X509.firstBundle fs X509.bundles))) chain now := by
  have h0 : Inv (new handlers s) := ⟨history_nil, by simp [new], nofun, nofun, nofun⟩
  obtain ⟨-, hi⟩ := invariant_of_run h h0 fun _ _ _ hr hl hok hi => inv_step hr hl hok.1 hi
  rw [X509.readUnixRoots_eq hfile] at hroots
  rw [Except.ok.inj hroots]
  -- the verdict that the transition rests on
  obtain ⟨log, rest, hlog, -, v, hv, hask⟩ := hi.hist.of_mem hest
  obtain ⟨opts, rfl⟩ : ∃ opts, v = .system opts := by
    cases v with
    | handler => simp [hunset] at hask
    | system opts => exact ⟨opts, rfl⟩
  have hmem : .verifyCallback (some (.system opts)) true ∈ w.log := by
    rw [hlog]
    exact List.mem_append_left _ hv
  -- and the step that gave it
  obtain ⟨pre, a, post, u, u', rfl, -, hok, hs, hbefore, hafter, hpost⟩ :=
    h.last_change (P := fun u => .verifyCallback (some (.system opts)) true ∈ u.log) (by simp [new]) hmem
  obtain ⟨ders, now, ⟨⟨chain, last, system, rfl, hders, ho⟩, -⟩⟩ :=
    (verdict_of_rule (step_rule hs) hafter rfl).resolve_left hbefore
  obtain ⟨rfl, rfl⟩ : opts = verifierOptions now ∧ true = system := by simpa using ho
  obtain ⟨stdTime, hsys⟩ := hok.2 ders hders
  have hvouched : Vouched S P nb na verify roots chain now := vouched_of_verifyChain hders hsys.symm
  refine ⟨?_, pre, chain, last, now, post, rfl, no_connect hpost hmem, hvouched⟩
  rintro rfl
  obtain ⟨_, _, _, _, _, _, _, hone⟩ := hvouched
  exact hnone _ hone

/-- A server with the name that is asked for. -/
def google : X509.OpenSSL :=
  X509.oneCertificate ⟨[some ⟨some .commonName, some ⟨12, ascii "www.google.com"⟩⟩], [], none, none, none⟩

/-- A bundle with one certificate. -/
def oneBundle : X509.FileSystem where
  readdir _ := none
  file fn := if fn ∈ X509.bundles then some (X509.blockText (ascii "MIIB\n")) else none

/-- A verifier that trusts every chain as soon as it has roots. -/
def anyRoot (roots : List (List UInt8)) (_ : X509.X509StoreCtx) : ℤ := if roots = [] then 0 else 1

def plainLibc : X509.Libc := ⟨X509.CompatWin.strptime, X509.Tm.instant⟩

theorem firstBundle_oneBundle :
    X509.goodPrefix (X509.textPEM.blocks (X509.firstBundle oneBundle X509.bundles)) =
      [ascii "MIIB\n"] := by
  have hfirst : X509.firstBundle oneBundle X509.bundles = X509.blockText (ascii "MIIB\n") := by decide
  rw [hfirst, X509.blocks_blockText]
  rfl

/-- The handshake of the examples, with that server. -/
theorem established_is_trusted_google : ∃ w, Run step (fun u a => Contract u a ∧
      AsksUnix google plainLibc 0 0 anyRoot [ascii "MIIB\n"] a) (new openHandlers .invalid)
      establishing w ∧
    ∃ chain now, Vouched google plainLibc 0 0 anyRoot [ascii "MIIB\n"] chain now := by
  have hexec : (exec step Contract establishing (new openHandlers .invalid)).any
      (fun w => .transition ∈ w.log ∧ w.handlers.chainVerify = false) = true := by decide
  obtain ⟨w, hrun, hw⟩ := exists_run_of_exec hexec
  obtain ⟨hest, hunset⟩ := of_decide_eq_true hw
  have hasks : ∀ a ∈ establishing, AsksUnix google plainLibc 0 0 anyRoot [ascii "MIIB\n"] a := by
    simp only [establishing, opening, finishing, List.cons_append, List.nil_append, List.forall_mem_cons,
      AsksUnix, true_and, List.not_mem_nil, false_implies, implies_true, and_true]
    intro ders hders
    obtain rfl : [[48]] = ders := Option.some.inj (Except.ok.inj hders)
    exact ⟨0, by decide⟩
  have hroots : X509.readUnixRoots oneBundle X509.textPEM (fun _ => 0) (fun _ => 0) =
      .ok [ascii "MIIB\n"] := by
    rw [X509.readUnixRoots_eq (by decide), firstBundle_oneBundle]
  have hrun' := hrun.and_forall hasks
  obtain ⟨-, -, chain, -, now, -, -, -, hvouched⟩ :=
    established_is_trusted (by decide) hroots (by simp [anyRoot]) hrun' hest hunset
  rw [firstBundle_oneBundle] at hvouched
  exact ⟨w, hrun', chain, now, hvouched⟩

end Unix

end LibMumble.TLSConnection.TrustGate
