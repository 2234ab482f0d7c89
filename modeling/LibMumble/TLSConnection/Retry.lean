import LibMumble.TLSConnection.Shutdown

/-! # Operations that have to be retried

What `SSL_get_error` says about a negative result depends on the error queue of the thread, which
handlers and library functions leave entries on: with entries there it says `SSL_ERROR_SSL`, also of
an operation that would only block. `SSL_connect` clears the queue on entry, `SSL_read` and
`SSL_write` do not. So a `RetryWorld` is a connection with the queue of its thread, and in its runs
the results of SSL functions are told apart by what is true of them and not by what is reported. -/

namespace LibMumble.TLSConnection.Retry

open World Lib

variable {w w' : World}

/-- A connection, and the number of entries on the error queue of its thread. -/
structure RetryWorld where
  world : World
  errors : ℕ

inductive RetryAct
  /-- any step but the return of an SSL function -/
  | act (a : Act)
  /-- code that the loop thread runs leaves this many entries on the queue -/
  | library (errors : ℕ)
  /-- an SSL function returns a negative result because it would block -/
  | wouldBlock (ret want : ℤ)
  /-- an SSL function returns for another reason -/
  | result (ret err : ℤ) (data : List UInt8)

/-- `SSL_get_error` after a result that is negative because the operation would block. -/
def sslGetError (errors : ℕ) (want : ℤ) : ℤ := if errors = 0 then want else sslErrorSSL

/-- The entries after a step: a new thread has a queue of its own, and `SSL_connect` clears it. -/
def errorsAfter (w w' : World) (errors : ℕ) : Act → ℕ
  | .thread (.start _) => 0
  | _ => match w.stack, w'.stack with
    | [], .sslConnect _ :: _ => 0
    | _, _ => errors

def RetryWorld.step (u : RetryWorld) : RetryAct → Option RetryWorld
  | .act (.inner (.sslReturn _ _ _)) => none
  | .act a => (TLSConnection.step u.world a).map fun w => ⟨w, errorsAfter u.world w u.errors a⟩
  | .library errors =>
    if u.world.phase = .running ∧ u.world.stack ≠ [] then some ⟨u.world, errors⟩ else none
  | .wouldBlock ret want =>
    if ret < 0 ∧ isWant want = true then
      (TLSConnection.step u.world (.inner (.sslReturn ret (sslGetError u.errors want) []))).map
        (⟨·, u.errors⟩)
    else none
  | .result ret err data =>
    if ret < 0 → isWant err = false then
      (TLSConnection.step u.world (.inner (.sslReturn ret err data))).map (⟨·, u.errors⟩)
    else none

/-- An operation would block only in `SSL_connect` or `SSL_read`, and with nothing on the error queue
where the result is asked about. -/
def AsksCleanly (u : RetryWorld) : RetryAct → Prop
  | .wouldBlock ret _ => match u.world.stack with
    | .sslConnect _ :: _ => u.errors = 0
    | .sslRead _ :: _ => ret = -1 → u.errors = 0
    | .sslWrite :: _ => False
    | _ => True
  | _ => True

instance (u : RetryWorld) : DecidablePred (AsksCleanly u) := fun a => by
  unfold AsksCleanly
  split
  · split <;> infer_instance
  · infer_instance

/-- `Shutdown` is not run, the state does not become a disconnected one, and a `Write` keeps at its
buffer. -/
structure GoesOn (w w' : World) : Prop where
  shutdowns : shutdowns w' = shutdowns w
  state : w'.state = w.state ∨ w'.state.disconnected = false
  writing : ∀ stack, w.stack = .sslWrite :: stack → .sslWrite ∈ w'.stack

/-! ### One result -/

theorem isWant_sslErrorSSL : isWant sslErrorSSL = false := rfl

theorem isWant_sslGetError {errors : ℕ} {want : ℤ} (hw : isWant want = true) :
    isWant (sslGetError errors want) = true ↔ errors = 0 := by
  unfold sslGetError
  split_ifs with h
  · exact iff_of_true hw h
  · rw [isWant_sslErrorSSL]
    exact iff_of_false nofun h

theorem connectEnds_retry {ret want : ℤ} {errors : ℕ} (hr : ret < 0) (hw : isWant want = true) :
    connectEnds ret (sslGetError errors want) = none ↔ errors = 0 := by
  rw [connectEnds, if_pos hr, ← isWant_sslGetError hw]
  split_ifs with h <;> simp [h]

theorem readEnds_retry {ret want : ℤ} {errors : ℕ} (hr : ret < 0) (hw : isWant want = true) :
    readEnds ret (sslGetError errors want) = none ↔ (ret = -1 → errors = 0) := by
  unfold readEnds
  rw [← isWant_sslGetError hw]
  split_ifs with h1 h2 h3
  · simp [h2]
  · simp [h1, h2]
  · omega
  · simp [h1]

theorem writeEnds_retry {ret : ℤ} (hr : ret < 0) : writeEnds ret ≠ none := by
  simp [writeEnds, hr]

/-- A step goes on exactly if it does not run `Shutdown`. -/
theorem goesOn_of_ends {o : Option ConnState} (h : Ends w w' o)
    (hw : ∀ stack, w.stack ≠ .sslWrite :: stack) : GoesOn w w' ↔ o = none := by
  cases h with
  | calm hs _ _ hst => exact iff_of_true ⟨hs, hst, fun stack hst => absurd hst (hw stack)⟩ rfl
  | shut s _ hs _ _ =>
    refine iff_of_false (fun h => ?_) nofun
    have hsame := h.shutdowns
    rw [hs] at hsame
    simp at hsame

/-- **The step lemma**: an operation that would block lets the connection go on exactly if it asks
cleanly. -/
theorem goesOn_iff {u v : RetryWorld} {ret want : ℤ} (hl : Linked u.world)
    (hs : u.step (.wouldBlock ret want) = some v) :
    GoesOn u.world v.world ↔ AsksCleanly u (.wouldBlock ret want) := by
  simp only [RetryWorld.step, Option.ite_none_right_eq_some, Option.map_eq_some_iff] at hs
  obtain ⟨⟨hret, hwant⟩, w', hs, rfl⟩ := hs
  have hr := step_rule hs
  have hends := ends_of_rule hr hl (by simp) (by simp)
  cases hr with
  | sslConnectReturned hp hst =>
    simp only [ends, hst] at hends
    simp only [AsksCleanly, hst]
    rw [goesOn_of_ends hends (by simp [hst])]
    exact connectEnds_retry hret hwant
  | sslReadReturned hp hst =>
    simp only [ends, hst] at hends
    simp only [AsksCleanly, hst]
    rw [goesOn_of_ends hends (by simp [hst])]
    exact readEnds_retry hret hwant
  | sslWriteReturned hp hst =>
    simp only [ends, hst] at hends
    simp only [AsksCleanly, hst, iff_false]
    intro h
    cases hw : writeEnds ret with
    | none => exact writeEnds_retry hret hw
    | some s =>
      rw [hw] at hends
      cases hends with
      | shut _ _ hshut _ _ =>
        have hsame := h.shutdowns
        rw [hshut] at hsame
        simp at hsame

/-! ### Runs -/

/-- Every step is one of the connection, or changes the error queue only. -/
theorem step_world {u v : RetryWorld} {a : RetryAct} (hs : u.step a = some v) :
    v.world = u.world ∨ ∃ b, TLSConnection.step u.world b = some v.world := by
  unfold RetryWorld.step at hs
  split at hs
  · cases hs
  · obtain ⟨w, h, rfl⟩ := Option.map_eq_some_iff.mp hs
    exact Or.inr ⟨_, h⟩
  · simp only [Option.ite_none_right_eq_some, Option.some.injEq] at hs
    obtain ⟨-, rfl⟩ := hs
    exact Or.inl rfl
  · simp only [Option.ite_none_right_eq_some, Option.map_eq_some_iff] at hs
    obtain ⟨-, w, h, rfl⟩ := hs
    exact Or.inr ⟨_, h⟩
  · simp only [Option.ite_none_right_eq_some, Option.map_eq_some_iff] at hs
    obtain ⟨-, w, h, rfl⟩ := hs
    exact Or.inr ⟨_, h⟩

theorem linked_step {u v : RetryWorld} {a : RetryAct} (hl : Linked u.world)
    (hs : u.step a = some v) : Linked v.world := by
  rcases step_world hs with hw | ⟨b, hb⟩
  · rw [hw]
    exact hl
  · exact linked_of_rule (step_rule hb) hl

/-- A step as it is while nothing is on the error queue, where the report is the truth. -/
def truthful : Act → RetryAct
  | .inner (.sslReturn ret err data) =>
    if ret < 0 ∧ isWant err = true then .wouldBlock ret err else .result ret err data
  | a => .act a

/-- After a negative result no bytes are read. -/
theorem sslReturn_neg {ret err : ℤ} {data : List UInt8} (hr : ret < 0)
    (hs : sslReturn w ret err data = some w') : sslReturn w ret err [] = some w' := by
  unfold sslReturn at hs ⊢
  split at hs
  · exact hs
  · simp only [Option.ite_none_right_eq_some] at hs
    obtain ⟨⟨hlen, hcap⟩, hs⟩ := hs
    have hnil : data = [] := by
      rw [← List.length_eq_zero_iff]
      omega
    subst hnil
    simp only [if_pos (And.intro hlen hcap)]
    exact hs
  · exact hs
  · cases hs

theorem errorsAfter_zero (w w' : World) (a : Act) : errorsAfter w w' 0 a = 0 := by
  unfold errorsAfter
  split
  · rfl
  · split <;> rfl

theorem step_truthful {a : Act} (hs : TLSConnection.step w a = some w') :
    RetryWorld.step ⟨w, 0⟩ (truthful a) = some ⟨w', 0⟩ := by
  have hact : (TLSConnection.step w a).map (fun v => RetryWorld.mk v (errorsAfter w v 0 a)) =
      some ⟨w', 0⟩ := by
    rw [hs, Option.map_some, errorsAfter_zero]
  cases a with
  | inner i =>
    cases i with
    | sslReturn ret err data =>
      by_cases h : ret < 0 ∧ isWant err = true
      · have hneg : TLSConnection.step w (.inner (.sslReturn ret err [])) = some w' := by
          simp only [TLSConnection.step, stepInner, Option.ite_none_right_eq_some] at hs ⊢
          exact ⟨hs.1, sslReturn_neg h.1 hs.2⟩
        simp only [truthful, if_pos h, RetryWorld.step, sslGetError, if_true, hneg, Option.map_some]
      · have hok : ret < 0 → isWant err = false := fun hr => by simpa [hr] using h
        simp only [truthful, if_neg h, RetryWorld.step, if_pos hok, hs, Option.map_some]
    | _ => exact hact
  | _ => exact hact

/-- **The runs of a connection are runs here**, with nothing on the error queue. -/
theorem run_truthful {as : List Act} (h : Run TLSConnection.step Any w as w') :
    Run RetryWorld.step Any ⟨w, 0⟩ (as.map truthful) ⟨w', 0⟩ := by
  induction h with
  | nil => exact .nil _
  | cons _ hs _ ih => exact .cons trivial (step_truthful hs) ih

/-- **When an operation that would block never ends the connection**: a run asks cleanly exactly if the
connection goes on after each such operation in it. -/
theorem retry_goes_on_iff {handlers : Handlers} {s : ConnState} {as : List RetryAct}
    {u : RetryWorld} (h : Run RetryWorld.step Any ⟨new handlers s, 0⟩ as u) :
    Run RetryWorld.step AsksCleanly ⟨new handlers s, 0⟩ as u ↔
      ∀ pre ret want post v v', as = pre ++ .wouldBlock ret want :: post →
        Run RetryWorld.step Any ⟨new handlers s, 0⟩ pre v →
        v.step (.wouldBlock ret want) = some v' → GoesOn v.world v'.world := by
  have hlinked : ∀ pre v, Run RetryWorld.step Any ⟨new handlers s, 0⟩ pre v → Linked v.world :=
    fun pre v hv => hv.invariant (I := fun v => Linked v.world) (linked_new handlers s)
      fun _ _ _ hl _ hs => linked_step hl hs
  rw [h.iff_forall]
  constructor
  · intro hall pre ret want post v v' has hv hs
    exact (goesOn_iff (hlinked pre v hv) hs).mpr (hall pre _ post v v' has hv hs)
  · intro hall pre a post v v' has hv hs
    cases a with
    | act | library | result => exact trivial
    | wouldBlock ret want =>
      exact (goesOn_iff (hlinked pre v hv) hs).mp (hall pre ret want post v v' has hv hs)

/-- `SSL_connect` and `SSL_read` would block, before and after the handshake is through. -/
theorem retry_goes_on_handshake : ∃ u,
    Run RetryWorld.step Any ⟨new openHandlers .invalid, 0⟩ (establishing.map truthful) u ∧
    u.world.state = .established ∧
    ∀ pre ret want post v v', establishing.map truthful = pre ++ .wouldBlock ret want :: post →
      Run RetryWorld.step Any ⟨new openHandlers .invalid, 0⟩ pre v →
      v.step (.wouldBlock ret want) = some v' → GoesOn v.world v'.world := by
  have hexec : (exec RetryWorld.step AsksCleanly (establishing.map truthful)
      ⟨new openHandlers .invalid, 0⟩).any (fun u => u.world.state = .established) = true := by decide
  obtain ⟨u, hr, hu⟩ := exists_run_of_exec hexec
  have hany := hr.mono fun _ _ _ => trivial
  exact ⟨u, hany, of_decide_eq_true hu, (retry_goes_on_iff hany).mp hr⟩

/-- The handler that is told of the connection writes, and `SSL_write` would block. -/
def blockedWrite : List RetryAct :=
  (establishing.take 9).map truthful ++ [.act (.inner (.write ⟨some [7], 1, 1⟩))]

/-- The handler that is told of the connection leaves an entry on the error queue, and `SSL_read`
would block. -/
def staleError : List RetryAct :=
  (establishing.take 9).map truthful ++ [.library 1, .act (.inner (.handlerReturn true))]

/-- These steps lead to an established connection that ends with an error if an operation would block
next. -/
def EndsNext (as : List RetryAct) : Prop :=
  ∃ u v, Run RetryWorld.step Any ⟨new openHandlers .invalid, 0⟩ as u ∧
    u.step (.wouldBlock (-1) sslErrorWantRead) = some v ∧
    u.world.state = .established ∧ v.world.state = .disconnectedError

theorem endsNext_of_exec {as : List RetryAct}
    (h : (exec RetryWorld.step Any as ⟨new openHandlers .invalid, 0⟩).any (fun u =>
      u.world.state = .established ∧ (u.step (.wouldBlock (-1) sslErrorWantRead)).any
        (fun v => v.world.state = .disconnectedError) = true) = true) : EndsNext as := by
  obtain ⟨u, hr, hu⟩ := exists_run_of_exec h
  obtain ⟨hstate, hv⟩ := of_decide_eq_true hu
  obtain ⟨v, hs, hv⟩ := (Option.any_eq_true _ _).mp hv
  exact ⟨u, v, hr, hs, hstate, of_decide_eq_true hv⟩

/-- An operation that would block ends the connection in both. -/
theorem retry_ends_connection : EndsNext blockedWrite ∧ EndsNext staleError := by
  constructor
  · exact endsNext_of_exec (by decide)
  · exact endsNext_of_exec (by decide)

end LibMumble.TLSConnection.Retry
