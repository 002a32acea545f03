import EasyGrpc.Proof.Pipeline
import EasyGrpc.Server.CallHandlers

/-!
# The lifetime of a call handler

A handler lives from its registration to the shutdown of its queue, and its actions point to it without
owning it. `stop` deletes the handlers of a queue before the tags that `Server::Shutdown` has returned are
polled, so whether an action outlives its handler depends on how far the polling thread has come.
-/

namespace EasyGrpc.Server

variable {Context Request Response ε : Type} [Inhabited Context] [Inhabited Request] [Inhabited Response]

section Handlers

theorem AsyncUnaryCallHandler.isAwaited_step
    {h h' : AsyncUnaryCallHandler Context Request Response ε}
    {e : AsyncUnaryCallHandler.Event Context Request Response ε} (hstep : h.step e = some h')
    (hawaited : (CallHandler.unary h').isAwaited = true) :
    (CallHandler.unary h).isAwaited = true ∨ ∃ id response, e = .perform id (.ok response) := by
  cases e with
  | asyncNext id ok context request inline =>
      obtain ⟨-, a, ha, -⟩ := asyncNext_step hstep
      have hfound := List.find?_some ha
      rw [decide_eq_true_eq] at hfound
      exact .inl (List.any_eq_true.mpr ⟨a, List.mem_of_find?_eq_some ha, hfound.2⟩)
  | perform id outcome =>
      cases outcome with
      | ok response => exact .inr ⟨id, response, rfl⟩
      | error exn =>
          obtain ⟨-, a, -, rfl⟩ := perform_step hstep
          obtain ⟨b, hb, htag⟩ := List.any_eq_true.mp hawaited
          cases List.mem_append.mp hb with
          | inl hold => exact .inl (List.any_eq_true.mpr ⟨b, List.mem_of_mem_eraseP hold, htag⟩)
          | inr hthrew =>
              obtain rfl := List.mem_singleton.mp hthrew
              cases htag

/-- `perform` sets the alarm, so the queue is to return the action. -/
theorem AsyncUnaryCallHandler.isAwaited_perform
    {h h' : AsyncUnaryCallHandler Context Request Response ε} {id : Nat} {response : Response}
    (hstep : h.step (.perform id (.ok response)) = some h') :
    (CallHandler.unary h').isAwaited = true := by
  obtain ⟨-, a, -, rfl⟩ := perform_step hstep
  exact List.any_eq_true.mpr ⟨_, List.mem_append_right _ List.mem_cons_self, rfl⟩

omit [Inhabited Request] in
theorem AsyncClientStreamCallHandler.onFinished_actions (reader : Nat)
    (h : AsyncClientStreamCallHandler Request) : (h.onFinished reader).actions = h.actions := by
  unfold onFinished
  split <;> rfl

omit [Inhabited Context] [Inhabited Response] in
theorem AsyncClientStreamCallHandler.isAwaited_step {h h' : AsyncClientStreamCallHandler Request}
    {e : AsyncClientStreamCallHandler.Event Request} (hstep : h.step e = some h')
    (hawaited : (CallHandler.clientStream h' : CallHandler Context Request Response ε).isAwaited = true) :
    (CallHandler.clientStream h : CallHandler Context Request Response ε).isAwaited = true := by
  obtain ⟨b, hb, hrequest⟩ := List.any_eq_true.mp hawaited
  cases e with
  | moveNext reader =>
      simp only [step] at hstep
      split at hstep
      · obtain rfl := Option.some.inj hstep
        cases List.mem_append.mp hb with
        | inl hold => exact List.any_eq_true.mpr ⟨b, hold, hrequest⟩
        | inr hread =>
            obtain rfl := List.mem_singleton.mp hread
            cases hrequest
      · cases hstep
  | asyncNext id ok message =>
      simp only [step] at hstep
      split at hstep
      · obtain ⟨a, ha, rfl⟩ := Option.map_eq_some_iff.mp hstep
        have hmem := List.mem_of_find?_eq_some ha
        cases hkind : a.kind with
        | requestStream reader =>
            refine List.any_eq_true.mpr ⟨a, hmem, ?_⟩
            rw [Action.streamReader, hkind]
            rfl
        | read reader =>
            have hactions : b ∈ h.actions.eraseP (·.id = id) := by
              cases ok with
              | true => simpa [finalizeResult, hkind, setReader] using hb
              | false => simpa [finalizeResult, hkind, setReader, onFinished_actions] using hb
            exact List.any_eq_true.mpr ⟨b, List.mem_of_mem_eraseP hactions, hrequest⟩
      · cases hstep

end Handlers

namespace CallHandlers

variable {s s' : CallHandlers Context Request Response ε} {e : Event Context Request Response ε}
  {k : Nat} {handler : CallHandler Context Request Response ε}

inductive Move (s : CallHandlers Context Request Response ε) :
    Event Context Request Response ε → CallHandlers Context Request Response ε → Prop where
  | start (hstage : s.stage = .running) : Move s .start { s with started := true }
  | registerUnary {queue : Nat} {hasHandleFunc : Bool} (hstage : s.stage = .running)
      (hinserting : s.inserting = none) :
      Move s (.registerUnary queue hasHandleFunc)
        (s.newCallHandler queue (.unary (.initial Context Request Response ε)))
  | registerClientStream {queue : Nat} {hasHandleFunc : Bool} (hstage : s.stage = .running)
      (hinserting : s.inserting = none) :
      Move s (.registerClientStream queue hasHandleFunc)
        (s.newCallHandler queue (.clientStream (.initial Request)))
  | unaryRejected {queue : Nat} {hasHandleFunc : Bool} : Move s (.registerUnary queue hasHandleFunc) s
  | clientStreamRejected {queue : Nat} {hasHandleFunc : Bool} :
      Move s (.registerClientStream queue hasHandleFunc) s
  | insert {k : Nat} (hinserting : s.inserting = some k) :
      Move s .insertCallHandler (s.insertCallHandler k)
  | unary {k : Nat} {h h' : AsyncUnaryCallHandler Context Request Response ε}
      {e : AsyncUnaryCallHandler.Event Context Request Response ε}
      (hk : s.handlers k = some (.unary h)) (hstep : h.step e = some h') :
      Move s (.unary k e) (s.setHandler k (.unary h'))
  | clientStream {k : Nat} {h h' : AsyncClientStreamCallHandler Request}
      {e : AsyncClientStreamCallHandler.Event Request} (hk : s.handlers k = some (.clientStream h))
      (hstep : h.step e = some h') : Move s (.clientStream k e) (s.setHandler k (.clientStream h'))
  | shutdownServer (hinserting : s.inserting = none) :
      Move s .shutdownServer { s with stage := .serverShutdown }
  | serverShutdown (hstage : s.stage = .serverShutdown) :
      Move s .serverShutdown { s with stage := .queue 0 false }
  | deleteAllCallHandlers {i : Nat} (hstage : s.stage = .queue i false) :
      Move s .deleteAllCallHandlers (s.deleteAllCallHandlers i)
  | shutdownQueue {i : Nat} (hstage : s.stage = .queue i true) :
      Move s .shutdownQueue { s with stage := .queue (i + 1) false }

omit [Inhabited Context] [Inhabited Request] [Inhabited Response] in
theorem registered_cases {queue : Nat} {hasHandleFunc : Bool}
    (h : s.registered queue hasHandleFunc handler = some s') :
    s.stage = .running ∧ s.inserting = none ∧ (s' = s ∨ s' = s.newCallHandler queue handler) := by
  unfold registered at h
  split at h
  · rename_i hguard
    refine ⟨hguard.1, hguard.2, ?_⟩
    unfold registerCallHandler at h
    split at h
    · rename_i hresult
      obtain rfl := Option.some.inj h
      split at hresult
      · split at hresult
        · exact .inr (Except.ok.inj hresult).symm
        · cases hresult
      · cases hresult
    · exact .inl (Option.some.inj h).symm
  · cases h

theorem step_cases (h : s.step e = some s') : Move s e s' := by
  unfold step at h
  split at h
  · cases h
  · cases e with
    | start =>
        simp only at h
        split at h
        · exact Option.some.inj h ▸ .start ‹_›
        · cases h
    | registerUnary queue hasHandleFunc =>
        obtain ⟨hstage, hinserting, rfl | rfl⟩ := registered_cases h
        · exact .unaryRejected
        · exact .registerUnary hstage hinserting
    | registerClientStream queue hasHandleFunc =>
        obtain ⟨hstage, hinserting, rfl | rfl⟩ := registered_cases h
        · exact .clientStreamRejected
        · exact .registerClientStream hstage hinserting
    | insertCallHandler =>
        obtain ⟨k, hk, rfl⟩ := Option.map_eq_some_iff.mp h
        exact .insert hk
    | unary k e =>
        simp only at h
        split at h
        · rename_i handler hk
          obtain ⟨h', hstep, rfl⟩ := Option.map_eq_some_iff.mp h
          exact .unary hk hstep
        · cases h
    | clientStream k e =>
        simp only at h
        split at h
        · rename_i handler hk
          obtain ⟨h', hstep, rfl⟩ := Option.map_eq_some_iff.mp h
          exact .clientStream hk hstep
        · cases h
    | shutdownServer =>
        simp only at h
        split at h
        · rename_i hguard
          exact Option.some.inj h ▸ .shutdownServer hguard.2.2
        · cases h
    | serverShutdown =>
        simp only at h
        split at h
        · exact Option.some.inj h ▸ .serverShutdown ‹_›
        · cases h
    | deleteAllCallHandlers =>
        simp only at h
        split at h
        · rename_i i hstage
          split at h
          · exact Option.some.inj h ▸ .deleteAllCallHandlers hstage
          · cases h
        · cases h
    | shutdownQueue =>
        simp only at h
        split at h
        · rename_i i hstage
          exact Option.some.inj h ▸ .shutdownQueue hstage
        · cases h

section Live

omit [Inhabited Context] [Inhabited Request] [Inhabited Response]

/-- Every action whose tag gRPC holds points to a handler that was not deleted. -/
def HandlersLive (s : CallHandlers Context Request Response ε) : Prop :=
  ∀ k handler, s.handlers k = some handler → handler.isAwaited = true → s.Live k

/-- The handlers of a queue are deleted when gRPC holds none of their tags, and `perform` sets its alarm
only for a handler that was not deleted. -/
structure DeletesIdle (s : CallHandlers Context Request Response ε)
    (e : Event Context Request Response ε) : Prop where
  deletion : e = .deleteAllCallHandlers → ∀ i, s.stage = .queue i false → ∀ k handler,
    s.handlers k = some handler → s.queueOf k = i → handler.isAwaited = false
  performed : ∀ k id response, e = .unary k (.perform id (.ok response)) → s.Live k

def RegisteredBefore (s : CallHandlers Context Request Response ε) : Prop :=
  s.inserting = none ∨ s.stage = .running

theorem RegisteredBefore.inserting (h : s.RegisteredBefore) (hstage : s.stage ≠ .running) :
    s.inserting = none :=
  h.resolve_right hstage

theorem HandlersLive.congr (h : s.HandlersLive) (hhandlers : s'.handlers = s.handlers)
    (hlive : ∀ k, s.Live k → s'.Live k) : s'.HandlersLive := by
  intro k handler hk hawaited
  rw [hhandlers] at hk
  exact hlive k (h k handler hk hawaited)

/-- A handler that makes a step is the only one that can come to be awaited. -/
theorem HandlersLive.setHandler_iff (h : s.HandlersLive) :
    (s.setHandler k handler).HandlersLive ↔ (handler.isAwaited = true → s.Live k) := by
  constructor
  · exact fun h' => h' k handler (Function.update_self _ _ _)
  · intro hlive j other hj hawaited
    have hj' : Function.update s.handlers k (some handler) j = some other := hj
    by_cases hjk : j = k
    · subst hjk
      rw [Function.update_self] at hj'
      obtain rfl := Option.some.inj hj'
      exact hlive hawaited
    · rw [Function.update_of_ne hjk] at hj'
      exact h j other hj' hawaited

theorem HandlersLive.newCallHandler (h : s.HandlersLive) (hinserting : s.inserting = none)
    (queue : Nat) : (s.newCallHandler queue handler).HandlersLive := by
  intro j other hj hawaited
  have hj' : Function.update s.handlers s.nextHandler (some handler) j = some other := hj
  by_cases hnew : j = s.nextHandler
  · exact .inr (congrArg some hnew.symm)
  · rw [Function.update_of_ne hnew] at hj'
    refine .inl ?_
    change j ∈ s.callHandlers (Function.update s.queueOf s.nextHandler queue j)
    rw [Function.update_of_ne hnew]
    refine (h j other hj' hawaited).resolve_right fun hsome => ?_
    rw [hinserting] at hsome
    cases hsome

theorem live_insertCallHandler {j : Nat} (hk : s.inserting = some k) (h : s.Live j) :
    (s.insertCallHandler k).Live j := by
  refine .inl ?_
  change j ∈ Function.update s.callHandlers (s.queueOf k) (insert k (s.callHandlers (s.queueOf k)))
    (s.queueOf j)
  by_cases hqueue : s.queueOf j = s.queueOf k
  · rw [hqueue, Function.update_self, Finset.mem_insert]
    refine h.symm.imp (fun hj => ?_) fun hj => hqueue ▸ hj
    exact Option.some.inj (hj.symm.trans hk)
  · rw [Function.update_of_ne hqueue]
    refine h.resolve_right fun hj => hqueue ?_
    rw [Option.some.inj (hj.symm.trans hk)]

theorem HandlersLive.deleteAllCallHandlers_iff (h : s.HandlersLive) (hinserting : s.inserting = none)
    (i : Nat) : (s.deleteAllCallHandlers i).HandlersLive ↔
      ∀ k handler, s.handlers k = some handler → s.queueOf k = i → handler.isAwaited = false := by
  have hlive : ∀ j, (s.deleteAllCallHandlers i).Live j ↔ s.queueOf j ≠ i ∧ s.Live j := by
    intro j
    have hnone : s.inserting ≠ some j := by
      rw [hinserting]
      exact Option.some_ne_none j |>.symm
    change j ∈ Function.update s.callHandlers i ∅ (s.queueOf j) ∨ s.inserting = some j ↔
      s.queueOf j ≠ i ∧ (j ∈ s.callHandlers (s.queueOf j) ∨ s.inserting = some j)
    by_cases hqueue : s.queueOf j = i
    · rw [hqueue, Function.update_self]
      simp [hnone]
    · rw [Function.update_of_ne hqueue]
      simp [hqueue]
  constructor
  · intro h' k handler hk hqueue
    rw [← Bool.not_eq_true]
    intro hawaited
    exact ((hlive k).mp (h' k handler hk hawaited)).1 hqueue
  · intro hidle k handler hk hawaited
    refine (hlive k).mpr ⟨fun hqueue => ?_, h k handler hk hawaited⟩
    rw [hidle k handler hk hqueue] at hawaited
    cases hawaited

end Live

theorem RegisteredBefore.move (h : s.RegisteredBefore) (hmove : Move s e s') :
    s'.RegisteredBefore := by
  cases hmove with
  | start hstage | registerUnary hstage _ | registerClientStream hstage _ => exact .inr hstage
  | unaryRejected | clientStreamRejected | unary _ _ | clientStream _ _ => exact h
  | insert _ => exact .inl rfl
  | shutdownServer hinserting => exact .inl hinserting
  | serverShutdown hstage | deleteAllCallHandlers hstage | shutdownQueue hstage =>
      refine .inl (h.inserting fun hrunning => ?_)
      rw [hstage] at hrunning
      cases hrunning

theorem handlersLive_move_iff (h : s.HandlersLive) (hregistered : s.RegisteredBefore)
    (hmove : Move s e s') : s'.HandlersLive ↔ s.DeletesIdle e := by
  cases hmove with
  | start _ | unaryRejected | clientStreamRejected | shutdownServer _ | serverShutdown _
  | shutdownQueue _ =>
      exact iff_of_true (h.congr rfl fun _ hlive => hlive) ⟨nofun, nofun⟩
  | registerUnary _ hinserting | registerClientStream _ hinserting =>
      exact iff_of_true (h.newCallHandler hinserting _) ⟨nofun, nofun⟩
  | insert hk =>
      exact iff_of_true (h.congr rfl fun _ => live_insertCallHandler hk) ⟨nofun, nofun⟩
  | @unary k g g' e hk hstep =>
      rw [h.setHandler_iff]
      constructor
      · intro hlive
        refine ⟨nofun, fun j id response he => ?_⟩
        obtain ⟨rfl, rfl⟩ := Event.unary.inj he
        exact hlive (AsyncUnaryCallHandler.isAwaited_perform hstep)
      · intro hdeletes hawaited
        obtain hold | ⟨id, response, rfl⟩ := AsyncUnaryCallHandler.isAwaited_step hstep hawaited
        · exact h k (.unary g) hk hold
        · exact hdeletes.performed k id response rfl
  | @clientStream k g g' e hk hstep =>
      rw [h.setHandler_iff]
      refine iff_of_true (fun hawaited => ?_) ⟨nofun, nofun⟩
      exact h k (.clientStream g) hk (AsyncClientStreamCallHandler.isAwaited_step hstep hawaited)
  | @deleteAllCallHandlers i hstage =>
      have hinserting : s.inserting = none := by
        apply hregistered.inserting
        rw [hstage]
        nofun
      rw [h.deleteAllCallHandlers_iff hinserting]
      constructor
      · intro hidle
        refine ⟨fun _ j hj => ?_, nofun⟩
        obtain ⟨rfl, -⟩ := StopStage.queue.inj (hstage.symm.trans hj)
        exact hidle
      · exact fun hdeletes => hdeletes.deletion rfl i hstage

/-- A server with one unary handler is stopped before its polling thread gets the refused request. -/
def stopWithRequest : List (Event String String String String) :=
  [.registerUnary 0 true, .insertCallHandler, .start, .shutdownServer, .serverShutdown,
    .deleteAllCallHandlers, .shutdownQueue, .unary 0 (.asyncNext 0 false "" "" none)]

end CallHandlers

end EasyGrpc.Server
