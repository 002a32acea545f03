import EasyGrpc.Proof.Pipeline

/-!
# The history of a call

What happened to a call of the handler can be read off the action that holds it. A call waiting for
its RPC has no history, one in handling was accepted once, one being finished was handled once and
its Finish carries what the handler returned.
-/

namespace EasyGrpc.Server.AsyncUnaryCallHandler

variable {Context Request Response ε : Type}

@[ext]
structure CallLog (Context Request Response ε : Type) where
  accepted : List (Accepted Context Request) := []
  invocations : List (Invocation Context Request Response ε) := []
  finishes : List (Finish Response) := []
  escaped : List Escaped := []

def logOf (h : AsyncUnaryCallHandler Context Request Response ε) (c : Nat) :
    CallLog Context Request Response ε where
  accepted := h.accepted.filter (·.call = c)
  invocations := h.invocations.filter (·.call = c)
  finishes := h.finishes.filter (·.call = c)
  escaped := h.escaped.filter (·.call = c)

def acceptedLog (c : Nat) (call : Call Context Request Response) :
    CallLog Context Request Response ε :=
  { accepted := [⟨c, call.context, call.request⟩] }

def invokedLog (c : Nat) (call : Call Context Request Response) (outcome : Except ε Response) :
    CallLog Context Request Response ε :=
  { accepted := [⟨c, call.context, call.request⟩]
    invocations := [⟨c, call.context, call.request, outcome⟩] }

def escapedLog (c : Nat) (call : Call Context Request Response) (e : ε) (onPollingThread : Bool) :
    CallLog Context Request Response ε :=
  { invokedLog c call (.error e) with escaped := [⟨c, onPollingThread⟩] }

def finishedLog (c : Nat) (call : Call Context Request Response) :
    CallLog Context Request Response ε :=
  { invokedLog c call (.ok call.response) with finishes := [⟨c, call.response, .OK⟩] }

def Logged (c : Nat) (call : Call Context Request Response)
    (log : CallLog Context Request Response ε) : CallHandlerActionKind → Prop
  | .serviceRequest => log = {}
  | .callHandling .dispatched => log = acceptedLog c call
  | .callHandling .alarmSet => log = invokedLog c call (.ok call.response)
  | .callHandling .threw => ∃ e onPollingThread, log = escapedLog c call e onPollingThread
  | .callFinish => log = finishedLog c call

def Closed (c : Nat) (log : CallLog Context Request Response ε) : Prop :=
  log = {} ∨ ∃ call : Call Context Request Response,
    log = invokedLog c call (.ok call.response) ∨ log = finishedLog c call

structure History (h : AsyncUnaryCallHandler Context Request Response ε)
    (held : List CallHandlerAction) : Prop where
  live : ∀ a ∈ held ++ h.actions, Logged a.call (h.calls a.call) (h.logOf a.call) a.kind
  dead : ∀ c ∈ h.deleted, Closed c (h.logOf c)
  fresh : ∀ c, h.nextCall ≤ c → h.logOf c = {}

structure CallLog.Sound (c : Nat) (log : CallLog Context Request Response ε) : Prop where
  acceptedOnce : log.accepted.length ≤ 1
  invoked : ∀ i ∈ log.invocations,
    log.invocations = [i] ∧ log.accepted = [⟨c, i.context, i.request⟩]
  finished : ∀ f ∈ log.finishes, log.finishes = [f] ∧ f.status = .OK ∧
    ∃ i ∈ log.invocations, i.outcome = .ok f.response

theorem sound_empty (c : Nat) : ({} : CallLog Context Request Response ε).Sound c :=
  ⟨Nat.zero_le 1, nofun, nofun⟩

theorem sound_invokedLog (c : Nat) (call : Call Context Request Response)
    (outcome : Except ε Response) : (invokedLog c call outcome).Sound c := by
  refine ⟨Nat.le_refl 1, fun i hi => ?_, nofun⟩
  obtain rfl := List.mem_singleton.mp hi
  exact ⟨rfl, rfl⟩

theorem sound_finishedLog (c : Nat) (call : Call Context Request Response) :
    (finishedLog c call : CallLog Context Request Response ε).Sound c := by
  refine ⟨Nat.le_refl 1, (sound_invokedLog c call _).invoked, fun f hf => ?_⟩
  obtain rfl := List.mem_singleton.mp hf
  exact ⟨rfl, rfl, _, List.mem_singleton.mpr rfl, rfl⟩

theorem Logged.sound {c : Nat} {call : Call Context Request Response}
    {log : CallLog Context Request Response ε} {kind : CallHandlerActionKind}
    (h : Logged c call log kind) : log.Sound c := by
  cases kind with
  | serviceRequest =>
      obtain rfl := h
      exact sound_empty c
  | callHandling stage =>
      cases stage with
      | dispatched =>
          obtain rfl := h
          exact ⟨Nat.le_refl 1, nofun, nofun⟩
      | alarmSet =>
          obtain rfl := h
          exact sound_invokedLog c call _
      | threw =>
          obtain ⟨e, onPollingThread, rfl⟩ := h
          exact ⟨Nat.le_refl 1, (sound_invokedLog c call (.error e)).invoked, nofun⟩
  | callFinish =>
      obtain rfl := h
      exact sound_finishedLog c call

theorem Closed.sound {c : Nat} {log : CallLog Context Request Response ε} (h : Closed c log) :
    log.Sound c := by
  obtain rfl | ⟨call, rfl | rfl⟩ := h
  · exact sound_empty c
  · exact sound_invokedLog c call _
  · exact sound_finishedLog c call

section Frame

variable {g : AsyncUnaryCallHandler Context Request Response ε} {c : Nat} {a : CallHandlerAction}

theorem logOf_accept_of_ne (context : Context) (request : Request) (hc : c ≠ a.call) :
    (g.accept a.call context request).logOf c = g.logOf c := by
  ext1 <;> simp [logOf, accept, List.filter_append, hc.symm]

theorem logOf_accept_self (context : Context) (request : Request) :
    (g.accept c context request).logOf c =
      { g.logOf c with accepted := (g.logOf c).accepted ++ [⟨c, context, request⟩] } := by
  ext1 <;> simp [logOf, accept, List.filter_append]

theorem logOf_perform_of_ne (onPollingThread : Bool) (outcome : Except ε Response)
    (hc : c ≠ a.call) : (g.perform a onPollingThread outcome).logOf c = g.logOf c := by
  cases outcome <;> ext1 <;> simp [logOf, perform, List.filter_append, hc.symm]

theorem logOf_newCallFinish_of_ne (status : Status) (hc : c ≠ a.call) :
    (g.newCallFinish a.call status).logOf c = g.logOf c := by
  ext1 <;> simp [logOf, newCallFinish, newAction, List.filter_append, hc.symm]

end Frame

section Rules

variable {h g g' : AsyncUnaryCallHandler Context Request Response ε} {a a' : CallHandlerAction}
  {held : List CallHandlerAction}

theorem History.taken (hist : History h []) (htaken : Taken h a g) : History g [a] := by
  obtain ⟨hperm, hothers⟩ := htaken
  rw [hothers]
  exact { hist with live := fun b hb => hist.live b (hperm.mem_iff.mpr hb) }

theorem History.release (hist : History g [a]) :
    History { g with actions := g.actions ++ [a] } [] := by
  refine { hist with live := fun b hb => hist.live b ?_ }
  have hperm : (g.actions ++ [a]).Perm ([a] ++ g.actions) := List.perm_append_comm
  exact hperm.mem_iff.mp hb

/-- The call in hand goes from `a` to `a'`; the history of the other calls stays. -/
theorem History.handOn (g' : AsyncUnaryCallHandler Context Request Response ε)
    (a' : CallHandlerAction) (hinv : Inv g [a]) (hist : History g [a])
    (hactions : g'.actions = g.actions) (hdeleted : g'.deleted = g.deleted)
    (hnext : g'.nextCall = g.nextCall)
    (hothers : ∀ c, c ≠ a.call → g'.logOf c = g.logOf c ∧ g'.calls c = g.calls c)
    (hcall : a'.call = a.call)
    (hlogged : Logged a.call (g'.calls a.call) (g'.logOf a.call) a'.kind) : History g' [a'] := by
  have hunshared : ∀ b ∈ g.actions, b.call ≠ a.call := by
    intro b hb heq
    have hnodup := hinv.ledger.held_nodup
    rw [List.singleton_append, List.map_cons, List.nodup_cons] at hnodup
    exact hnodup.1 (heq ▸ List.mem_map_of_mem hb)
  have hlive : ∀ c ∈ g.deleted, c ≠ a.call := by
    rintro c hc rfl
    exact hinv.ledger.not_mem_freed (List.mem_map_of_mem List.mem_cons_self) hc
  have hallocated : a.call < g.nextCall :=
    hinv.ledger.mem_held_or_freed.mpr (.inl (List.mem_map_of_mem List.mem_cons_self))
  refine ⟨?_, ?_, ?_⟩
  · intro b hb
    rw [hactions, List.singleton_append, List.mem_cons] at hb
    cases hb with
    | inl hb =>
        rw [hb, hcall]
        exact hlogged
    | inr hb =>
        obtain ⟨hlog, hmem⟩ := hothers b.call (hunshared b hb)
        rw [hlog, hmem]
        exact hist.live b (List.mem_cons_of_mem a hb)
  · intro c hc
    rw [hdeleted] at hc
    rw [(hothers c (hlive c hc)).1]
    exact hist.dead c hc
  · intro c hc
    rw [hnext] at hc
    rw [(hothers c (Nat.ne_of_gt (Nat.lt_of_lt_of_le hallocated hc))).1]
    exact hist.fresh c hc

theorem History.deleteCall (hist : History g [a]) (hclosed : Closed a.call (g.logOf a.call)) :
    History (g.deleteCall a.call) [] := by
  refine ⟨fun b hb => hist.live b (List.mem_cons_of_mem a hb), ?_, hist.fresh⟩
  intro c hc
  rw [AsyncUnaryCallHandler.deleteCall, List.mem_append, List.mem_singleton] at hc
  cases hc with
  | inl hc => exact hist.dead c hc
  | inr hc => exact hc ▸ hclosed

variable [Inhabited Context] [Inhabited Request] [Inhabited Response]

theorem History.newCallRequest (hist : History g held)
    (hallocated : ∀ b ∈ held ++ g.actions, b.call < g.nextCall) :
    History g.newCallRequest held := by
  refine ⟨?_, hist.dead, fun c hc => hist.fresh c (Nat.le_of_succ_le hc)⟩
  intro b hb
  have hb' : b ∈ held ++ g.actions ∨ b = ⟨g.nextAction, g.nextCall, .serviceRequest⟩ := by
    simpa [AsyncUnaryCallHandler.newCallRequest, newAction, or_assoc] using hb
  cases hb' with
  | inl hold =>
      have hcalls : g.newCallRequest.calls b.call = g.calls b.call :=
        Function.update_of_ne (Nat.ne_of_lt (hallocated b hold)) _ _
      rw [hcalls]
      exact hist.live b hold
  | inr hnew =>
      rw [hnew]
      exact hist.fresh g.nextCall (Nat.le_refl _)

omit [Inhabited Context] [Inhabited Request] [Inhabited Response] in
theorem History.perform (hinv : Inv g [a]) (hist : History g [a])
    (hkind : a.kind = .callHandling .dispatched) (onPollingThread : Bool)
    (outcome : Except ε Response) : History (g.perform a onPollingThread outcome) [] := by
  have hlog : g.logOf a.call = acceptedLog a.call (g.calls a.call) := by
    have hlogged := hist.live a List.mem_cons_self
    rwa [hkind] at hlogged
  have hothers := fun c (hc : c ≠ a.call) => g.logOf_perform_of_ne onPollingThread outcome hc
  simp only [logOf, acceptedLog, CallLog.mk.injEq] at hlog
  obtain ⟨haccepted, hinvocations, hfinishes, hescaped⟩ := hlog
  cases outcome with
  | ok response =>
      refine (History.handOn { g.perform a onPollingThread (.ok response) with
        actions := g.actions } { a with kind := .callHandling .alarmSet }
        hinv hist rfl rfl rfl ?_ rfl ?_).release
      · exact fun c hc => ⟨hothers c hc, Function.update_of_ne hc _ _⟩
      · ext1 <;> simp [logOf, AsyncUnaryCallHandler.perform, invokedLog,
          List.filter_append, haccepted, hinvocations, hfinishes, hescaped]
  | error e =>
      refine (History.handOn { g.perform a onPollingThread (.error e) with
        actions := g.actions } { a with kind := .callHandling .threw }
        hinv hist rfl rfl rfl ?_ rfl ?_).release
      · exact fun c hc => ⟨hothers c hc, rfl⟩
      · refine ⟨e, onPollingThread, ?_⟩
        ext1 <;> simp [logOf, AsyncUnaryCallHandler.perform, escapedLog, invokedLog,
          List.filter_append, haccepted, hinvocations, hfinishes, hescaped]

omit [Inhabited Context] [Inhabited Request] [Inhabited Response] in
theorem History.accept (hinv : Inv g [a]) (hist : History g [a]) (hkind : a.kind = .serviceRequest)
    (context : Context) (request : Request) (id : Nat) :
    History (g.accept a.call context request) [⟨id, a.call, .callHandling .dispatched⟩] := by
  have hlog : g.logOf a.call = {} := by
    have hlogged := hist.live a List.mem_cons_self
    rwa [hkind] at hlogged
  refine hist.handOn _ _ hinv rfl rfl rfl (fun c hc => ?_) rfl ?_
  · exact ⟨logOf_accept_of_ne context request hc, Function.update_of_ne hc _ _⟩
  · change (g.accept a.call context request).logOf a.call = _
    rw [logOf_accept_self, hlog]
    simp [AsyncUnaryCallHandler.accept, acceptedLog]

omit [Inhabited Context] [Inhabited Request] [Inhabited Response] in
theorem History.newCallHandling
    (hinv : Inv g [⟨g.nextAction, a.call, .callHandling .dispatched⟩])
    (hist : History g [⟨g.nextAction, a.call, .callHandling .dispatched⟩])
    (inline : Option (Except ε Response)) : History (g.newCallHandling a.call inline) [] := by
  cases inline with
  | none => exact { hist.release with }
  | some outcome =>
      have hmade : Inv { g with nextAction := g.nextAction + 1 }
        [⟨g.nextAction, a.call, .callHandling .dispatched⟩] := { hinv with }
      have hist' : History { g with nextAction := g.nextAction + 1 }
        [⟨g.nextAction, a.call, .callHandling .dispatched⟩] := { hist with }
      exact hist'.perform hmade rfl true outcome

omit [Inhabited Context] [Inhabited Request] [Inhabited Response] in
theorem History.newCallFinish (hinv : Inv g [a]) (hist : History g [a])
    (hkind : a.kind = .callHandling .alarmSet) : History (g.newCallFinish a.call .OK) [] := by
  have hlog : g.logOf a.call = invokedLog a.call (g.calls a.call) (.ok (g.calls a.call).response) := by
    have hlogged := hist.live a List.mem_cons_self
    rwa [hkind] at hlogged
  simp only [logOf, invokedLog, CallLog.mk.injEq] at hlog
  obtain ⟨haccepted, hinvocations, hfinishes, hescaped⟩ := hlog
  have hothers : ∀ c, c ≠ a.call → (g.newCallFinish a.call .OK).logOf c = g.logOf c :=
    fun c hc => logOf_newCallFinish_of_ne .OK hc
  have hnext := History.handOn { g.newCallFinish a.call .OK with actions := g.actions }
    ⟨g.nextAction, a.call, .callFinish⟩ hinv hist rfl rfl rfl
    (fun c hc => ⟨hothers c hc, rfl⟩) rfl ?_
  · exact { hnext.release with }
  · change _ = finishedLog a.call (g.calls a.call)
    ext1 <;> simp [logOf, AsyncUnaryCallHandler.newCallFinish, newAction, finishedLog, invokedLog,
      List.filter_append, haccepted, hinvocations, hfinishes, hescaped]

theorem Move.logOf_of_ne {h' : AsyncUnaryCallHandler Context Request Response ε}
    {e : Event Context Request Response ε} (hmove : Move a g e h') {c : Nat} (hc : c ≠ a.call) :
    h'.logOf c = g.logOf c := by
  cases hmove with
  | @accepted context request inline hkind =>
      have haccept : (g.accept a.call context request).logOf c = g.logOf c :=
        logOf_accept_of_ne context request hc
      cases inline with
      | none => exact haccept
      | some outcome =>
          refine Eq.trans ?_ haccept
          exact logOf_perform_of_ne (a := ⟨_, a.call, _⟩) true outcome hc
  | refused hkind | alarmFailed hkind | finished hkind => rfl
  | handled hkind => exact logOf_newCallFinish_of_ne .OK hc
  | performed hkind => exact logOf_perform_of_ne false _ hc

theorem History.move {h' : AsyncUnaryCallHandler Context Request Response ε}
    {e : Event Context Request Response ε} (hinv : Inv g [a]) (hist : History g [a])
    (hmove : Move a g e h') : History h' [] := by
  have hlogged := hist.live a List.mem_cons_self
  cases hmove with
  | accepted hkind =>
      refine History.newCallHandling (hinv.accept hkind _ _ _) ?_ _
      refine (hist.accept hinv hkind _ _ _).newCallRequest fun b hb => ?_
      have hb' : b.call ∈ ([a] ++ g.actions).map (·.call) := by
        simpa [AsyncUnaryCallHandler.accept] using List.mem_map_of_mem (f := (·.call)) hb
      exact hinv.ledger.mem_held_or_freed.mpr (.inl hb')
  | refused hkind =>
      rw [hkind] at hlogged
      exact { hist.deleteCall (.inl hlogged) with }
  | handled hkind => exact hist.newCallFinish hinv hkind
  | alarmFailed hkind =>
      rw [hkind] at hlogged
      exact hist.deleteCall (.inr ⟨_, .inl hlogged⟩)
  | finished hkind =>
      rw [hkind] at hlogged
      exact hist.deleteCall (.inr ⟨_, .inr hlogged⟩)
  | performed hkind => exact hist.perform hinv hkind _ _

theorem History.step {h h' : AsyncUnaryCallHandler Context Request Response ε}
    {e : Event Context Request Response ε} (hinv : Inv h []) (hist : History h [])
    (hstep : h.step e = some h') : History h' [] := by
  obtain ⟨-, a, g, htaken, hmove⟩ := step_cases hstep
  exact (hist.taken htaken).move (hinv.taken htaken) hmove

variable (Context Request Response ε) in
theorem initial_history : History (initial Context Request Response ε) [] := by
  refine History.newCallRequest ⟨nofun, nofun, ?_⟩ nofun
  exact fun c _ => rfl

theorem history_of_reachable {h : AsyncUnaryCallHandler Context Request Response ε}
    (hh : (system Context Request Response ε).Reachable h) : Inv h [] ∧ History h [] := by
  refine hh.invariant (I := fun h => Inv h [] ∧ History h []) ?_ ?_
  · rintro _ rfl
    exact ⟨initial_inv .., initial_history ..⟩
  · rintro g e g' ⟨hinv, hist⟩ - hstep
    exact ⟨hinv.step hstep, hist.step hinv hstep⟩

/-- **The history of a call.** Every RPC is accepted once for its call, handled at most once with its
own context and request, and finished at most once with what its handler returned. -/
theorem soundLog_of_reachable {h : AsyncUnaryCallHandler Context Request Response ε}
    (hh : (system Context Request Response ε).Reachable h) (c : Nat) : (h.logOf c).Sound c := by
  obtain ⟨hinv, hist⟩ := history_of_reachable hh
  by_cases hc : c < h.nextCall
  · cases hinv.ledger.mem_held_or_freed.mp hc with
    | inl hheld =>
        obtain ⟨a, ha, rfl⟩ := List.mem_map.mp hheld
        exact (hist.live a ha).sound
    | inr hdeleted => exact (hist.dead c hdeleted).sound
  · rw [hist.fresh c (Nat.le_of_not_lt hc)]
    exact sound_empty c

end Rules

end EasyGrpc.Server.AsyncUnaryCallHandler
