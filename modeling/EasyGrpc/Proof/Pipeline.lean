import EasyGrpc.Outstanding
import EasyGrpc.Server.AsyncUnaryCallHandler

/-!
# The pipeline of the unary call handler

A completion takes its action out of the live ones and, holding it, makes the next one or deletes
the call. The accounts therefore speak of the live actions and of the one in hand together.

An action whose `perform` threw is live, and nobody will complete it. The accounts come out for the
outstanding actions alone as long as there is none.
-/

namespace EasyGrpc.Server.AsyncUnaryCallHandler

variable {Context Request Response ε : Type}

structure Taken (h : AsyncUnaryCallHandler Context Request Response ε) (a : CallHandlerAction)
    (g : AsyncUnaryCallHandler Context Request Response ε) : Prop where
  actions : h.actions.Perm (a :: g.actions)
  others : g = { h with actions := g.actions }

theorem taken_of_find? {h : AsyncUnaryCallHandler Context Request Response ε}
    {p : CallHandlerAction → Bool} {a : CallHandlerAction} (ha : h.actions.find? p = some a) :
    Taken h a { h with actions := h.actions.eraseP p } :=
  ⟨perm_cons_eraseP_of_find? ha, rfl⟩

structure KeepsCalls (g g' : AsyncUnaryCallHandler Context Request Response ε) : Prop where
  nextCall : g'.nextCall = g.nextCall
  deleted : g'.deleted = g.deleted
  requestsClosed : g'.requestsClosed = g.requestsClosed
  accepted : g'.accepted = g.accepted
  finishes : g'.finishes = g.finishes

theorem perform_keepsCalls (a : CallHandlerAction) (onPollingThread : Bool)
    (outcome : Except ε Response) (g : AsyncUnaryCallHandler Context Request Response ε) :
    KeepsCalls g (g.perform a onPollingThread outcome) := by
  cases outcome <;> exact ⟨rfl, rfl, rfl, rfl, rfl⟩

theorem newCallHandling_keepsCalls (call : Nat) (inline : Option (Except ε Response))
    (g : AsyncUnaryCallHandler Context Request Response ε) :
    KeepsCalls g (g.newCallHandling call inline) := by
  cases inline with
  | none => exact ⟨rfl, rfl, rfl, rfl, rfl⟩
  | some outcome => exact { perform_keepsCalls _ true outcome { g with nextAction := _ } with }

section Move

variable [Inhabited Context] [Inhabited Request] [Inhabited Response]

inductive Move (a : CallHandlerAction) (g : AsyncUnaryCallHandler Context Request Response ε) :
    Event Context Request Response ε → AsyncUnaryCallHandler Context Request Response ε → Prop where
  | accepted {context : Context} {request : Request} {inline : Option (Except ε Response)}
      (hkind : a.kind = .serviceRequest) :
      Move a g (.asyncNext a.id true context request inline)
        ((g.accept a.call context request).newCallRequest.newCallHandling a.call inline)
  | refused {context : Context} {request : Request} {inline : Option (Except ε Response)}
      (hkind : a.kind = .serviceRequest) :
      Move a g (.asyncNext a.id false context request inline)
        { g.deleteCall a.call with requestsClosed := true }
  | handled {context : Context} {request : Request} {inline : Option (Except ε Response)}
      (hkind : a.kind = .callHandling .alarmSet) :
      Move a g (.asyncNext a.id true context request inline) (g.newCallFinish a.call .OK)
  | alarmFailed {context : Context} {request : Request} {inline : Option (Except ε Response)}
      (hkind : a.kind = .callHandling .alarmSet) :
      Move a g (.asyncNext a.id false context request inline) (g.deleteCall a.call)
  | finished {ok : Bool} {context : Context} {request : Request}
      {inline : Option (Except ε Response)} (hkind : a.kind = .callFinish) :
      Move a g (.asyncNext a.id ok context request inline) (g.deleteCall a.call)
  | performed {outcome : Except ε Response} (hkind : a.kind = .callHandling .dispatched) :
      Move a g (.perform a.id outcome) (g.perform a false outcome)

theorem move_finalizeResult {a : CallHandlerAction}
    (g : AsyncUnaryCallHandler Context Request Response ε) (ha : a.isTag = true) (ok : Bool)
    (context : Context) (request : Request) (inline : Option (Except ε Response)) :
    Move a g (.asyncNext a.id ok context request inline)
      (g.finalizeResult a ok context request inline) := by
  unfold finalizeResult
  cases hkind : a.kind with
  | serviceRequest =>
      cases ok with
      | true => exact .accepted hkind
      | false => exact .refused hkind
  | callHandling stage =>
      have hstage : stage = .alarmSet := by simpa [CallHandlerAction.isTag, hkind] using ha
      subst hstage
      cases ok with
      | true => exact .handled hkind
      | false => exact .alarmFailed hkind
  | callFinish => exact .finished hkind

theorem asyncNext_step {h h' : AsyncUnaryCallHandler Context Request Response ε} {id : Nat} {ok : Bool}
    {context : Context} {request : Request} {inline : Option (Except ε Response)}
    (hstep : h.step (.asyncNext id ok context request inline) = some h') :
    h.terminated = false ∧ ∃ a, h.actions.find? (fun a => a.id = id ∧ a.isTag) = some a ∧
      h' = finalizeResult a ok context request inline
        { h with actions := h.actions.eraseP fun a => a.id = id ∧ a.isTag } := by
  simp only [step] at hstep
  split at hstep
  · cases hstep
  · rename_i hterm
    obtain ⟨a, ha, rfl⟩ := Option.map_eq_some_iff.mp hstep
    exact ⟨by simpa using hterm, a, ha, rfl⟩

theorem perform_step {h h' : AsyncUnaryCallHandler Context Request Response ε} {id : Nat}
    {outcome : Except ε Response} (hstep : h.step (.perform id outcome) = some h') :
    h.terminated = false ∧ ∃ a, h.actions.find? (fun a => a.id = id ∧ a.isDispatched) = some a ∧
      h' = perform a false outcome
        { h with actions := h.actions.eraseP fun a => a.id = id ∧ a.isDispatched } := by
  simp only [step] at hstep
  split at hstep
  · cases hstep
  · rename_i hterm
    obtain ⟨a, ha, rfl⟩ := Option.map_eq_some_iff.mp hstep
    exact ⟨by simpa using hterm, a, ha, rfl⟩

theorem step_cases {h h' : AsyncUnaryCallHandler Context Request Response ε}
    {e : Event Context Request Response ε} (hstep : h.step e = some h') :
    h.terminated = false ∧ ∃ a g, Taken h a g ∧ Move a g e h' := by
  cases e with
  | asyncNext id ok context request inline =>
      obtain ⟨hterm, a, ha, rfl⟩ := asyncNext_step hstep
      have hfound := List.find?_some ha
      simp only [decide_eq_true_eq] at hfound
      obtain ⟨rfl, htag⟩ := hfound
      exact ⟨hterm, a, _, taken_of_find? ha, move_finalizeResult _ htag ..⟩
  | perform id outcome =>
      obtain ⟨hterm, a, ha, rfl⟩ := perform_step hstep
      have hfound := List.find?_some ha
      simp only [decide_eq_true_eq] at hfound
      obtain ⟨rfl, hdispatched⟩ := hfound
      have hkind : a.kind = .callHandling .dispatched := by
        simpa [CallHandlerAction.isDispatched] using hdispatched
      exact ⟨hterm, a, _, taken_of_find? ha, .performed hkind⟩

end Move

/-- The accounts of the live actions and of those in hand: each call below `nextCall` has one action
or was deleted, and a request is open until a request tag fails. -/
structure Inv (h : AsyncUnaryCallHandler Context Request Response ε)
    (held : List CallHandlerAction) : Prop where
  ledger : Ledger ((held ++ h.actions).map (·.call)) h.deleted h.nextCall
  requests : (held ++ h.actions).countP (·.isServiceRequest) = if h.requestsClosed then 0 else 1

section Accounts

variable {h g : AsyncUnaryCallHandler Context Request Response ε} {a : CallHandlerAction}
  {held : List CallHandlerAction}

theorem Inv.taken (hinv : Inv h []) (htaken : Taken h a g) : Inv g [a] := by
  obtain ⟨hperm, hothers⟩ := htaken
  rw [hothers]
  refine ⟨hinv.ledger.of_perm (hperm.map _), ?_⟩
  rw [← hinv.requests]
  exact (hperm.countP_eq _).symm

theorem Inv.release (hinv : Inv g [a]) : Inv { g with actions := g.actions ++ [a] } [] := by
  have hperm : ([a] ++ g.actions).Perm (g.actions ++ [a]) := List.perm_append_comm
  refine ⟨hinv.ledger.of_perm (hperm.map _), ?_⟩
  rw [← hinv.requests]
  exact (hperm.countP_eq _).symm

theorem Inv.handOn (hinv : Inv g [a]) (id : Nat) (kind : CallHandlerActionKind)
    (hrequest : (kind = .serviceRequest) = (a.kind = .serviceRequest)) :
    Inv g [⟨id, a.call, kind⟩] := by
  refine ⟨hinv.ledger, ?_⟩
  rw [← hinv.requests]
  simp [CallHandlerAction.isServiceRequest, List.countP_cons, hrequest]

theorem Inv.deleteCall (hinv : Inv g [a]) (hkind : a.kind ≠ .serviceRequest) :
    Inv (g.deleteCall a.call) [] := by
  refine ⟨hinv.ledger.free, ?_⟩
  have hrequests := hinv.requests
  have hnone : [a].countP (·.isServiceRequest) = 0 := by
    simp [CallHandlerAction.isServiceRequest, hkind]
  rw [List.countP_append, hnone, Nat.zero_add] at hrequests
  exact hrequests

theorem Inv.refuse (hinv : Inv g [a]) (hkind : a.kind = .serviceRequest) :
    Inv { g.deleteCall a.call with requestsClosed := true } [] := by
  refine ⟨hinv.ledger.free, ?_⟩
  have hrequests := hinv.requests
  have hopen : [a].countP (·.isServiceRequest) = 1 := by
    simp [CallHandlerAction.isServiceRequest, hkind]
  rw [List.countP_append, hopen] at hrequests
  change g.actions.countP (·.isServiceRequest) = 0
  split at hrequests <;> omega

section Handler

variable [Inhabited Context] [Inhabited Request] [Inhabited Response]

theorem Inv.newCallRequest (hledger : Ledger ((held ++ g.actions).map (·.call)) g.deleted g.nextCall)
    (hnone : (held ++ g.actions).countP (·.isServiceRequest) = 0)
    (hclosed : g.requestsClosed = false) : Inv g.newCallRequest held := by
  refine ⟨?_, ?_⟩
  · have halloc := hledger.alloc
    simpa [AsyncUnaryCallHandler.newCallRequest, newAction] using halloc
  · have hone : [(⟨g.nextAction, g.nextCall, .serviceRequest⟩ : CallHandlerAction)].countP
        (·.isServiceRequest) = 1 := rfl
    simp only [AsyncUnaryCallHandler.newCallRequest, newAction, hclosed]
    rw [← List.append_assoc, List.countP_append, hnone, hone]
    rfl

theorem Inv.accept (hinv : Inv g [a]) (hkind : a.kind = .serviceRequest) (context : Context)
    (request : Request) (id : Nat) :
    Inv (g.accept a.call context request).newCallRequest
      [⟨id, a.call, .callHandling .dispatched⟩] := by
  have hrequests := hinv.requests
  have hopen : [a].countP (·.isServiceRequest) = 1 := by
    simp [CallHandlerAction.isServiceRequest, hkind]
  rw [List.countP_append, hopen] at hrequests
  have hclosed : g.requestsClosed = false := by
    cases hc : g.requestsClosed with
    | false => rfl
    | true => simp [hc] at hrequests
  refine Inv.newCallRequest hinv.ledger ?_ hclosed
  have hnone : g.actions.countP (·.isServiceRequest) = 0 := by
    rw [hclosed] at hrequests
    simpa using hrequests
  rw [List.countP_append]
  exact (Nat.zero_add _).trans hnone

omit [Inhabited Context] [Inhabited Request] [Inhabited Response] in
theorem Inv.perform (hinv : Inv g [a]) (hkind : a.kind = .callHandling .dispatched)
    (onPollingThread : Bool) (outcome : Except ε Response) :
    Inv (g.perform a onPollingThread outcome) [] := by
  have hrequest : ∀ stage, (CallHandlerActionKind.callHandling stage = .serviceRequest) =
      (a.kind = .serviceRequest) := by simp [hkind]
  cases outcome with
  | ok response => exact { (hinv.handOn a.id _ (hrequest .alarmSet)).release with }
  | error e => exact { (hinv.handOn a.id _ (hrequest .threw)).release with }

omit [Inhabited Context] [Inhabited Request] [Inhabited Response] in
theorem Inv.newCallHandling
    (hinv : Inv g [⟨g.nextAction, a.call, .callHandling .dispatched⟩])
    (inline : Option (Except ε Response)) : Inv (g.newCallHandling a.call inline) [] := by
  cases inline with
  | none => exact { hinv.release with }
  | some outcome =>
      have hmade : Inv { g with nextAction := g.nextAction + 1 }
        [⟨g.nextAction, a.call, .callHandling .dispatched⟩] := { hinv with }
      exact hmade.perform rfl true outcome

theorem Inv.move {h' : AsyncUnaryCallHandler Context Request Response ε}
    {e : Event Context Request Response ε} (hinv : Inv g [a]) (hmove : Move a g e h') :
    Inv h' [] := by
  cases hmove with
  | accepted hkind => exact (hinv.accept hkind _ _ _).newCallHandling _
  | refused hkind => exact hinv.refuse hkind
  | handled hkind =>
      have hnext := hinv.handOn g.nextAction .callFinish (by simp [hkind])
      exact { hnext.release with }
  | alarmFailed hkind => exact hinv.deleteCall (by simp [hkind])
  | finished hkind => exact hinv.deleteCall (by simp [hkind])
  | performed hkind => exact hinv.perform hkind _ _

theorem Inv.step {h h' : AsyncUnaryCallHandler Context Request Response ε}
    {e : Event Context Request Response ε} (hinv : Inv h []) (hstep : h.step e = some h') :
    Inv h' [] := by
  obtain ⟨-, a, g, htaken, hmove⟩ := step_cases hstep
  exact (hinv.taken htaken).move hmove

variable (Context Request Response ε) in
theorem initial_inv : Inv (initial Context Request Response ε) [] :=
  Inv.newCallRequest .empty rfl rfl

theorem inv_of_reachable {h : AsyncUnaryCallHandler Context Request Response ε}
    (hh : (system Context Request Response ε).Reachable h) : Inv h [] :=
  hh.invariant (fun _ hinit => hinit ▸ initial_inv ..) fun _ _ _ hinv _ hstep => hinv.step hstep

end Handler

end Accounts

theorem CallHandlerAction.isOutstanding_iff {a : CallHandlerAction} :
    a.isOutstanding = true ↔ a.kind ≠ .callHandling .threw := by
  unfold isOutstanding isTag isDispatched
  cases a.kind with
  | serviceRequest | callFinish => simp
  | callHandling stage => cases stage <;> simp

/-- What holds between completions of the requests, of the calls and of the outstanding actions that hold
them. -/
structure Pipeline (h : AsyncUnaryCallHandler Context Request Response ε) : Prop where
  requests : h.outstanding.countP (·.isServiceRequest) = if h.requestsClosed then 0 else 1
  owned : ∀ c < h.nextCall, c ∉ h.deleted → h.outstanding.countP (·.call = c) = 1
  unshared : (h.outstanding.map (·.call)).Nodup
  deletedOnce : h.deleted.Nodup
  deletedUnreferenced : ∀ c ∈ h.deleted, ∀ a ∈ h.outstanding, a.call ≠ c
  balance : h.nextCall = h.deleted.length + h.outstanding.length

def AllOutstanding (h : AsyncUnaryCallHandler Context Request Response ε) : Prop :=
  ∀ a ∈ h.actions, a.isOutstanding = true

theorem AllOutstanding.outstanding_eq {h : AsyncUnaryCallHandler Context Request Response ε}
    (hall : h.AllOutstanding) : h.outstanding = h.actions := List.filter_eq_self.mpr hall

theorem Inv.pipeline {h : AsyncUnaryCallHandler Context Request Response ε} (hinv : Inv h [])
    (hall : h.AllOutstanding) : h.Pipeline where
  requests := by
    rw [hall.outstanding_eq]
    exact hinv.requests
  owned := by
    intro c hc hlive
    have hheld := (hinv.ledger.mem_held_or_freed.mp hc).resolve_right hlive
    have hcount := List.count_eq_one_of_mem hinv.ledger.held_nodup hheld
    rw [List.count, List.countP_map] at hcount
    rw [hall.outstanding_eq]
    simpa [Function.comp_def, beq_eq_decide] using hcount
  unshared := by
    rw [hall.outstanding_eq]
    exact hinv.ledger.held_nodup
  deletedOnce := hinv.ledger.freed_nodup
  deletedUnreferenced := by
    rintro c hc a ha rfl
    rw [hall.outstanding_eq] at ha
    exact hinv.ledger.not_mem_freed (List.mem_map_of_mem ha) hc
  balance := by
    have hbalance := hinv.ledger.balance
    rw [hall.outstanding_eq]
    simpa using hbalance

/-- A call whose action is forgotten is neither deleted nor accounted for. -/
theorem Inv.pipeline_iff {h : AsyncUnaryCallHandler Context Request Response ε} (hinv : Inv h []) :
    h.Pipeline ↔ h.AllOutstanding := by
  refine ⟨fun hp => ?_, hinv.pipeline⟩
  have hledger := hinv.ledger.balance
  have hbalance := hp.balance
  rw [List.nil_append, List.length_map] at hledger
  have hlength : (h.actions.filter (·.isOutstanding)).length = h.actions.length := by
    rw [outstanding] at hbalance
    omega
  exact List.length_filter_eq_length_iff.mp hlength

/-- The requests are kept whatever the user's function does. -/
theorem Inv.outstanding_requests {h : AsyncUnaryCallHandler Context Request Response ε} (hinv : Inv h []) :
    h.outstanding.countP (·.isServiceRequest) = if h.requestsClosed then 0 else 1 := by
  have hrequest : ∀ a : CallHandlerAction, a.isServiceRequest = true → a.isOutstanding = true := by
    intro a ha
    have hkind : a.kind = .serviceRequest := of_decide_eq_true ha
    simp [CallHandlerAction.isOutstanding_iff, hkind]
  rw [outstanding, List.countP_filter, ← hinv.requests]
  refine List.countP_congr fun a _ => ?_
  rw [Bool.and_eq_true]
  exact and_iff_left_of_imp (hrequest a)

def HandlingStage.after : Option (Except ε Response) → HandlingStage
  | none => .dispatched
  | some (.ok _) => .alarmSet
  | some (.error _) => .threw

theorem isOutstanding_after_iff (id call : Nat) (called : Option (Except ε Response)) :
    (⟨id, call, .callHandling (.after called)⟩ : CallHandlerAction).isOutstanding = true ↔
      ¬ ∃ e, called = some (.error e) := by
  rcases called with _ | _ | _ <;> simp [HandlingStage.after, CallHandlerAction.isOutstanding_iff]

theorem perform_actions (a : CallHandlerAction) (onPollingThread : Bool) (outcome : Except ε Response)
    (g : AsyncUnaryCallHandler Context Request Response ε) :
    (g.perform a onPollingThread outcome).actions =
      g.actions ++ [⟨a.id, a.call, .callHandling (.after (some outcome))⟩] := by
  cases outcome <;> rfl

theorem newCallHandling_actions (call : Nat) (inline : Option (Except ε Response))
    (g : AsyncUnaryCallHandler Context Request Response ε) :
    (g.newCallHandling call inline).actions =
      g.actions ++ [⟨g.nextAction, call, .callHandling (.after inline)⟩] := by
  cases inline with
  | none => rfl
  | some outcome => exact perform_actions _ true outcome _

theorem AllOutstanding.append_iff {g h' : AsyncUnaryCallHandler Context Request Response ε}
    {a : CallHandlerAction} (hall : g.AllOutstanding) (hactions : h'.actions = g.actions ++ [a]) :
    h'.AllOutstanding ↔ a.isOutstanding = true := by
  rw [AllOutstanding, hactions, List.forall_mem_append, List.forall_mem_singleton]
  exact and_iff_right hall

theorem AllOutstanding.erase {h : AsyncUnaryCallHandler Context Request Response ε}
    (hall : h.AllOutstanding) (p : CallHandlerAction → Bool) :
    AllOutstanding { h with actions := h.actions.eraseP p } :=
  fun a ha => hall a (List.mem_of_mem_eraseP ha)

variable [Inhabited Context] [Inhabited Request] [Inhabited Response]

def Refuses (h : AsyncUnaryCallHandler Context Request Response ε) :
    Event Context Request Response ε → Prop
  | .asyncNext id ok _ _ _ =>
      ok = false ∧ ∃ a, h.actions.find? (fun a => a.id = id ∧ a.isTag) = some a ∧ a.isServiceRequest
  | .perform _ _ => False

theorem requestsClosed_step_iff {h h' : AsyncUnaryCallHandler Context Request Response ε}
    {e : Event Context Request Response ε} (hstep : h.step e = some h') :
    h'.requestsClosed = true ↔ h.requestsClosed = true ∨ h.Refuses e := by
  cases e with
  | asyncNext id ok context request inline =>
      obtain ⟨-, a, ha, rfl⟩ := asyncNext_step hstep
      simp only [Refuses, ha, Option.some.injEq, exists_eq_left', finalizeResult]
      cases hkind : a.kind with
      | serviceRequest =>
          cases ok with
          | true =>
              simp only [finalizeCallRequest, if_true,
                (newCallHandling_keepsCalls _ _ _).requestsClosed]
              simp [newCallRequest, newAction, accept]
          | false => simp [finalizeCallRequest, CallHandlerAction.isServiceRequest, hkind]
      | callHandling stage =>
          cases ok <;> simp [finalizeCallHandling, newCallFinish, newAction, deleteCall,
            CallHandlerAction.isServiceRequest, hkind]
      | callFinish =>
          simp [finalizeCallFinish, deleteCall, CallHandlerAction.isServiceRequest, hkind]
  | perform id outcome =>
      obtain ⟨-, a, -, rfl⟩ := perform_step hstep
      simp [Refuses, (perform_keepsCalls _ _ _ _).requestsClosed]

def Throws (h : AsyncUnaryCallHandler Context Request Response ε) :
    Event Context Request Response ε → Prop
  | .asyncNext id ok _ _ inline =>
      ok = true ∧ (∃ e, inline = some (.error e)) ∧
        ∃ a, h.actions.find? (fun a => a.id = id ∧ a.isTag) = some a ∧ a.isServiceRequest
  | .perform _ outcome => ∃ e, outcome = .error e

theorem allOutstanding_step_iff {h h' : AsyncUnaryCallHandler Context Request Response ε}
    {e : Event Context Request Response ε} (hall : h.AllOutstanding) (hstep : h.step e = some h') :
    h'.AllOutstanding ↔ ¬ h.Throws e := by
  cases e with
  | asyncNext id ok context request inline =>
      obtain ⟨-, a, ha, rfl⟩ := asyncNext_step hstep
      have hrest := hall.erase fun a => a.id = id ∧ a.isTag
      simp only [Throws, ha, Option.some.injEq, exists_eq_left', finalizeResult]
      cases hkind : a.kind with
      | serviceRequest =>
          cases ok with
          | true =>
              have hopened : AllOutstanding (newCallRequest (accept a.call context request
                  { h with actions := h.actions.eraseP fun a => a.id = id ∧ a.isTag })) :=
                (hrest.append_iff rfl).mpr rfl
              simp only [finalizeCallRequest, if_true]
              rw [hopened.append_iff (newCallHandling_actions _ _ _), isOutstanding_after_iff]
              simp [CallHandlerAction.isServiceRequest, hkind]
          | false => exact iff_of_true hrest (by simp)
      | callHandling stage =>
          refine iff_of_true ?_ (by simp [CallHandlerAction.isServiceRequest, hkind])
          cases ok with
          | true => exact (hrest.append_iff rfl).mpr rfl
          | false => exact hrest
      | callFinish => exact iff_of_true hrest (by simp [CallHandlerAction.isServiceRequest, hkind])
  | perform id outcome =>
      obtain ⟨-, a, -, rfl⟩ := perform_step hstep
      have hrest := hall.erase fun a => a.id = id ∧ a.isDispatched
      rw [hrest.append_iff (perform_actions _ _ _ _), isOutstanding_after_iff]
      simp [Throws]

variable (Context Request Response ε) in
theorem initial_allOutstanding : AllOutstanding (initial Context Request Response ε) := by
  intro a ha
  obtain rfl := List.mem_singleton.mp ha
  rfl

/-- The pipeline after a step, in which `requestsClosed` records whether a request tag has failed. -/
structure PipelineStep (h : AsyncUnaryCallHandler Context Request Response ε)
    (e : Event Context Request Response ε) (h' : AsyncUnaryCallHandler Context Request Response ε) :
    Prop where
  pipeline : h'.Pipeline
  requestsClosed : h'.requestsClosed = true ↔ h.requestsClosed = true ∨ h.Refuses e

/-- **The pipeline of the handler.** Along every run one request is open until a request tag fails and none
afterwards, the live calls and the outstanding actions match one to one, and every call is deleted at most
once, when no action refers to it any more, exactly when the user's function never throws. -/
theorem pipeline_iff_noneThrows (es : List (Event Context Request Response ε)) :
    ((initial Context Request Response ε).Pipeline ∧
        (system Context Request Response ε).AllSteps PipelineStep (initial Context Request Response ε) es) ↔
      (system Context Request Response ε).AllSteps (fun h e _ => ¬ h.Throws e)
        (initial Context Request Response ε) es := by
  have hinitial := initial_inv Context Request Response ε
  have hfirst := initial_allOutstanding Context Request Response ε
  rw [and_iff_right (hinitial.pipeline hfirst)]
  refine TransitionSystem.allSteps_congr (I := fun h => Inv h [] ∧ h.AllOutstanding) ?_ ?_
    ⟨hinitial, hfirst⟩ es
  · rintro h e h' ⟨hinv, hall⟩ hstep
    rw [← allOutstanding_step_iff hall hstep, ← (hinv.step hstep).pipeline_iff]
    exact ⟨PipelineStep.pipeline, fun hp => ⟨hp, requestsClosed_step_iff hstep⟩⟩
  · rintro h e h' ⟨hinv, -⟩ hstep hp
    exact ⟨hinv.step hstep, (hinv.step hstep).pipeline_iff.mp hp.pipeline⟩

/-- The function throws on a thread of the executor: its call is not deleted, and nothing refers to it. -/
def throwing : List (Event String String String String) :=
  [.asyncNext 0 true "peer" "request" none, .perform 2 (.error "boom")]

theorem throwing_unaccounted :
    ∃ h, (system String String String String).run (initial String String String String) throwing = some h ∧
      h.terminated = false ∧ h.nextCall = 2 ∧ h.deleted = [] ∧
      h.outstanding = [⟨1, 1, .serviceRequest⟩] ∧ ¬ h.Pipeline := by
  refine ⟨_, rfl, rfl, rfl, rfl, rfl, fun hp => ?_⟩
  cases hp.balance

end EasyGrpc.Server.AsyncUnaryCallHandler
