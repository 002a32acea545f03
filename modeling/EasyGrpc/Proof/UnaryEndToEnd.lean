import EasyGrpc.Proof.CallHistory
import EasyGrpc.Proof.ClientResponses
import EasyGrpc.UnaryRpc

/-!
# End-to-end correctness of unary calls

Each component of a composite run has run on its own, so what was proved of one client and of one
handler holds here. What joins them is that the calls a handler accepted are the RPCs matched to it,
and that an `OK` answer came from the Finish of the matched call.
-/

namespace EasyGrpc.UnaryRpc

open Client Server

variable {ι κ Tid Context Request Response ε : Type}

section Handler

open AsyncUnaryCallHandler

variable [Inhabited Context] [Inhabited Request] [Inhabited Response]
  {h h' : AsyncUnaryCallHandler Context Request Response ε}

def newlyAccepted (h : AsyncUnaryCallHandler Context Request Response ε) :
    AsyncUnaryCallHandler.Event Context Request Response ε → List (Accepted Context Request)
  | .asyncNext id true context request _ =>
      ((requestTag h id).map fun a => ⟨a.call, context, request⟩).toList
  | _ => []

theorem accepted_step {e : AsyncUnaryCallHandler.Event Context Request Response ε}
    (hstep : h.step e = some h') : h'.accepted = h.accepted ++ newlyAccepted h e := by
  cases e with
  | asyncNext id ok context request inline =>
      simp only [AsyncUnaryCallHandler.step] at hstep
      split at hstep
      · cases hstep
      · obtain ⟨a, ha, rfl⟩ := Option.map_eq_some_iff.mp hstep
        have htag : requestTag h id = if a.isServiceRequest then some a else none := by
          rw [requestTag, ha]
          rfl
        cases ok with
        | true =>
            rw [newlyAccepted, htag]
            cases hkind : a.kind with
            | serviceRequest =>
                simp only [finalizeResult, hkind, finalizeCallRequest, if_true,
                  (newCallHandling_keepsCalls _ _ _).accepted]
                simp [newCallRequest, newAction, accept, CallHandlerAction.isServiceRequest, hkind]
            | callHandling stage =>
                simp [finalizeResult, hkind, finalizeCallHandling, newCallFinish, newAction,
                  CallHandlerAction.isServiceRequest]
            | callFinish =>
                simp [finalizeResult, hkind, finalizeCallFinish, deleteCall,
                  CallHandlerAction.isServiceRequest]
        | false =>
            cases hkind : a.kind <;> simp [newlyAccepted, finalizeResult, hkind,
              finalizeCallRequest, finalizeCallHandling, finalizeCallFinish, deleteCall]
  | perform id outcome =>
      simp only [AsyncUnaryCallHandler.step] at hstep
      split at hstep
      · cases hstep
      · obtain ⟨a, -, rfl⟩ := Option.map_eq_some_iff.mp hstep
        simp [newlyAccepted, (perform_keepsCalls _ _ _ _).accepted]

omit [Inhabited Context] [Inhabited Request] [Inhabited Response] in
theorem newlyAccepted_of_not_isAccept {e : AsyncUnaryCallHandler.Event Context Request Response ε}
    (he : isAccept h e = false) : newlyAccepted h e = [] := by
  cases e with
  | asyncNext id ok context request inline =>
      cases ok with
      | true =>
          have hnone : requestTag h id = none := by simpa [isAccept] using he
          rw [newlyAccepted, hnone]
          rfl
      | false => rfl
  | perform id outcome => rfl

theorem finishes_step {e : AsyncUnaryCallHandler.Event Context Request Response ε}
    (hstep : h.step e = some h') : ∀ f ∈ h.finishes, f ∈ h'.finishes := by
  obtain ⟨-, a, g, htaken, hmove⟩ := AsyncUnaryCallHandler.step_cases hstep
  have hsame : g.finishes = h.finishes := by
    rw [htaken.others]
  rw [← hsame]
  intro f hf
  cases hmove with
  | accepted _ =>
      rw [(newCallHandling_keepsCalls _ _ _).finishes]
      exact hf
  | handled _ => exact List.mem_append_left _ hf
  | performed _ =>
      rw [(perform_keepsCalls _ _ _ _).finishes]
      exact hf
  | refused _ | alarmFailed _ | finished _ => exact hf

end Handler

/-- gRPC may tell the client `OK` with this response: the matched call was finished with it. -/
def AnsweredWith (s : UnaryRpc ι κ Tid Context Request Response ε) (rpc : Rpc ι)
    (response : Option Response) : Prop :=
  ∃ m ∈ s.matched, m.rpc = rpc ∧
    ∃ f ∈ (s.handlers m.handler).finishes, f.call = m.call ∧ response = some f.response

section Steps

variable [DecidableEq ι] [DecidableEq κ] [DecidableEq Tid]
  [Inhabited Context] [Inhabited Request] [Inhabited Response]
  {s s' : UnaryRpc ι κ Tid Context Request Response ε}

inductive Move (s : UnaryRpc ι κ Tid Context Request Response ε) :
    UnaryRpc ι κ Tid Context Request Response ε → Prop where
  | client {i : ι} {e : AsyncClient.Event Tid Request Response}
      {client : AsyncClient Tid Request Response} (hstep : (s.clients i).step e = some client)
      (hanswer : ∀ c ok status response, e = .asyncNext (.unaryFinish c) ok status response →
        status.ok = true → s.AnsweredWith ⟨i, c⟩ response) :
      Move s { s with clients := Function.update s.clients i client }
  | handler {k : κ} {e : AsyncUnaryCallHandler.Event Context Request Response ε}
      {handler : AsyncUnaryCallHandler Context Request Response ε}
      (hstep : (s.handlers k).step e = some handler)
      (hnone : newlyAccepted (s.handlers k) e = []) :
      Move s { s with handlers := Function.update s.handlers k handler }
  | accept {m : Match ι κ Context Request}
      {e : AsyncUnaryCallHandler.Event Context Request Response ε}
      {handler : AsyncUnaryCallHandler Context Request Response ε}
      (hstep : (s.handlers m.handler).step e = some handler)
      (hnew : newlyAccepted (s.handlers m.handler) e = [m.accepted])
      (hunmatched : m.rpc ∉ s.matched.map (·.rpc))
      (hrequest : (m.rpc.call, m.request) ∈ (s.clients m.rpc.client).requests) :
      Move s { s with
        handlers := Function.update s.handlers m.handler handler
        matched := s.matched ++ [m] }

theorem step_cases {e : Event ι κ Tid Context Request Response ε} (h : s.step e = some s') :
    Move s s' := by
  cases e with
  | client i e =>
      simp only [step] at h
      split at h
      · cases h
      · rename_i hnotOk
        obtain ⟨client, hstep, rfl⟩ := Option.map_eq_some_iff.mp h
        refine .client hstep ?_
        rintro c ok status response rfl hok
        exact absurd hok hnotOk
  | answer rpc ok =>
      obtain ⟨m, hm, hrest⟩ := Option.bind_eq_some_iff.mp h
      obtain ⟨f, hf, hlast⟩ := Option.bind_eq_some_iff.mp hrest
      obtain ⟨client, hstep, rfl⟩ := Option.map_eq_some_iff.mp hlast
      have hrpc : m.rpc = rpc := by simpa using List.find?_some hm
      have hcall : f.call = m.call ∧ f.status.ok = true := by simpa using List.find?_some hf
      refine .client hstep ?_
      rintro c ok' status response heq -
      simp only [AsyncClient.Event.asyncNext.injEq, AsyncClient.Tag.unaryFinish.injEq] at heq
      obtain ⟨rfl, -, -, rfl⟩ := heq
      exact ⟨m, List.mem_of_find?_eq_some hm, hrpc, f, List.mem_of_find?_eq_some hf, hcall.1, rfl⟩
  | handler k e =>
      simp only [step] at h
      split at h
      · cases h
      · rename_i hnot
        obtain ⟨handler, hstep, rfl⟩ := Option.map_eq_some_iff.mp h
        exact .handler hstep (newlyAccepted_of_not_isAccept (by simpa using hnot))
  | accept rpc k id context inline =>
      simp only [step] at h
      split at h
      · cases h
      · rename_i hunmatched
        obtain ⟨⟨c, request⟩, hp, hrest⟩ := Option.bind_eq_some_iff.mp h
        obtain ⟨a, ha, hmap⟩ := Option.bind_eq_some_iff.mp hrest
        obtain ⟨t, ht, rfl⟩ := Option.map_eq_some_iff.mp hmap
        obtain ⟨handler, hstep, rfl⟩ := Option.map_eq_some_iff.mp ht
        have hc : c = rpc.call := by simpa using List.find?_some hp
        subst hc
        refine .accept (m := ⟨rpc, k, a.call, context, request⟩) hstep ?_ hunmatched
          (List.mem_of_find?_eq_some hp)
        rw [newlyAccepted, ha]
        rfl

theorem client_reachable (hs : (system ι κ Tid Context Request Response ε).Reachable s) (i : ι) :
    (AsyncClient.system Tid Request Response).Reachable (s.clients i) := by
  apply hs.project fun s => s.clients i
  · exact fun s hinit => congrFun (congrArg clients hinit) i
  · intro s e s' hstep
    cases step_cases hstep with
    | client hclient _ => exact TransitionSystem.step_update hclient
    | handler _ _ | accept _ _ _ _ => exact .inl rfl

theorem handler_reachable (hs : (system ι κ Tid Context Request Response ε).Reachable s) (k : κ) :
    (AsyncUnaryCallHandler.system Context Request Response ε).Reachable (s.handlers k) := by
  apply hs.project fun s => s.handlers k
  · exact fun s hinit => congrFun (congrArg handlers hinit) k
  · intro s e s' hstep
    cases step_cases hstep with
    | client _ _ => exact .inl rfl
    | handler hhandler _ | accept hhandler _ _ _ => exact TransitionSystem.step_update hhandler

end Steps

structure Linked [DecidableEq κ] (s : UnaryRpc ι κ Tid Context Request Response ε) : Prop where
  acceptedOnce : (s.matched.map (·.rpc)).Nodup
  requested : ∀ m ∈ s.matched, (m.rpc.call, m.request) ∈ (s.clients m.rpc.client).requests
  accepted : ∀ k, (s.handlers k).accepted =
    (s.matched.filter (·.handler = k)).map Match.accepted
  answered : ∀ i, ∀ d ∈ (s.clients i).delivered, d.status.ok = true →
    s.AnsweredWith ⟨i, d.call⟩ d.response

section Links

variable {s s' : UnaryRpc ι κ Tid Context Request Response ε}

theorem AnsweredWith.mono {rpc : Rpc ι} {response : Option Response}
    (h : s.AnsweredWith rpc response) (hmatched : ∀ m ∈ s.matched, m ∈ s'.matched)
    (hfinishes : ∀ k, ∀ f ∈ (s.handlers k).finishes, f ∈ (s'.handlers k).finishes) :
    s'.AnsweredWith rpc response := by
  obtain ⟨m, hm, hrpc, f, hf, hrest⟩ := h
  exact ⟨m, hmatched m hm, hrpc, f, hfinishes _ f hf, hrest⟩

section Handler

variable [DecidableEq κ] [Inhabited Context] [Inhabited Request] [Inhabited Response]

theorem finishes_update {k : κ} {e : AsyncUnaryCallHandler.Event Context Request Response ε}
    {handler : AsyncUnaryCallHandler Context Request Response ε}
    (hstep : (s.handlers k).step e = some handler) (j : κ) :
    ∀ f ∈ (s.handlers j).finishes, f ∈ (Function.update s.handlers k handler j).finishes := by
  by_cases hj : j = k
  · subst hj
    rw [Function.update_self]
    exact finishes_step hstep
  · rw [Function.update_of_ne hj]
    exact fun f hf => hf

theorem Linked.handler (h : s.Linked) {k : κ}
    {e : AsyncUnaryCallHandler.Event Context Request Response ε}
    {handler : AsyncUnaryCallHandler Context Request Response ε}
    (hstep : (s.handlers k).step e = some handler) (hnone : newlyAccepted (s.handlers k) e = []) :
    Linked { s with handlers := Function.update s.handlers k handler } := by
  refine ⟨h.acceptedOnce, h.requested, fun j => ?_, fun i d hd hok => ?_⟩
  · change (Function.update s.handlers k handler j).accepted = _
    by_cases hj : j = k
    · subst hj
      rw [Function.update_self, accepted_step hstep, hnone, List.append_nil]
      exact h.accepted j
    · rw [Function.update_of_ne hj]
      exact h.accepted j
  · exact (h.answered i d hd hok).mono (fun _ hm => hm) (finishes_update hstep)

theorem Linked.accept (h : s.Linked) {m : Match ι κ Context Request}
    {e : AsyncUnaryCallHandler.Event Context Request Response ε}
    {handler : AsyncUnaryCallHandler Context Request Response ε}
    (hstep : (s.handlers m.handler).step e = some handler)
    (hnew : newlyAccepted (s.handlers m.handler) e = [m.accepted])
    (hunmatched : m.rpc ∉ s.matched.map (·.rpc))
    (hrequest : (m.rpc.call, m.request) ∈ (s.clients m.rpc.client).requests) :
    Linked { s with
      handlers := Function.update s.handlers m.handler handler
      matched := s.matched ++ [m] } := by
  refine ⟨?_, fun b hb => ?_, fun j => ?_, fun i d hd hok => ?_⟩
  · rw [List.map_append, List.map_singleton]
    exact (List.nodup_cons.mpr ⟨hunmatched, h.acceptedOnce⟩).perm
      (List.perm_append_singleton _ _).symm
  · rw [List.mem_append, List.mem_singleton] at hb
    cases hb with
    | inl hold => exact h.requested b hold
    | inr heq => exact heq ▸ hrequest
  · change (Function.update s.handlers m.handler handler j).accepted =
      ((s.matched ++ [m]).filter (·.handler = j)).map Match.accepted
    rw [List.filter_append, List.map_append, ← h.accepted j]
    by_cases hj : j = m.handler
    · subst hj
      rw [Function.update_self, accepted_step hstep, hnew]
      simp
    · have hne : m.handler ≠ j := fun heq => hj heq.symm
      rw [Function.update_of_ne hj]
      simp [hne]
  · exact (h.answered i d hd hok).mono (fun _ hm => List.mem_append_left _ hm)
      (finishes_update hstep)

end Handler

variable [DecidableEq ι] [DecidableEq κ] [DecidableEq Tid] [Inhabited Response]

theorem Linked.client (h : s.Linked) {i : ι} {e : AsyncClient.Event Tid Request Response}
    {client : AsyncClient Tid Request Response} (hstep : (s.clients i).step e = some client)
    (hanswer : ∀ c ok status response, e = .asyncNext (.unaryFinish c) ok status response →
      status.ok = true → s.AnsweredWith ⟨i, c⟩ response) :
    Linked { s with clients := Function.update s.clients i client } := by
  obtain ⟨hrequests, hdelivered⟩ := AsyncClient.requests_delivered_step hstep
  refine ⟨h.acceptedOnce, fun m hm => ?_, h.accepted, fun j d hd hok => ?_⟩
  · have hold := h.requested m hm
    by_cases hi : m.rpc.client = i
    · subst hi
      change _ ∈ (Function.update s.clients m.rpc.client client m.rpc.client).requests
      rw [Function.update_self]
      exact hrequests _ hold
    · change _ ∈ (Function.update s.clients i client m.rpc.client).requests
      rwa [Function.update_of_ne hi]
  · by_cases hj : j = i
    · subst hj
      change d ∈ (Function.update s.clients j client j).delivered at hd
      rw [Function.update_self] at hd
      obtain hsame | ⟨c, ok, status, response, he, hmore⟩ := hdelivered
      · exact h.answered j d (hsame ▸ hd) hok
      · rw [hmore, List.mem_append, List.mem_singleton] at hd
        cases hd with
        | inl hold => exact h.answered j d hold hok
        | inr hnew =>
            subst hnew
            exact hanswer c ok status response he hok
    · change d ∈ (Function.update s.clients i client j).delivered at hd
      rw [Function.update_of_ne hj] at hd
      exact h.answered j d hd hok

variable [Inhabited Context] [Inhabited Request]

theorem linked_of_reachable (hs : (system ι κ Tid Context Request Response ε).Reachable s) :
    s.Linked := by
  refine hs.invariant (I := Linked) ?_ ?_
  · rintro _ rfl
    exact ⟨List.nodup_nil, nofun, fun _ => rfl, nofun⟩
  · intro s e s' h _ hstep
    cases step_cases hstep with
    | client hclient hanswer => exact h.client hclient hanswer
    | handler hhandler hnone => exact h.handler hhandler hnone
    | accept hhandler hnew hunmatched hrequest =>
        exact h.accept hhandler hnew hunmatched hrequest

end Links

def invocationsOf (s : UnaryRpc ι κ Tid Context Request Response ε) (m : Match ι κ Context Request) :
    List (AsyncUnaryCallHandler.Invocation Context Request Response ε) :=
  (s.handlers m.handler).invocations.filter (·.call = m.call)

def finishesOf (s : UnaryRpc ι κ Tid Context Request Response ε) (m : Match ι κ Context Request) :
    List (AsyncUnaryCallHandler.Finish Response) :=
  (s.handlers m.handler).finishes.filter (·.call = m.call)

structure Handled (s : UnaryRpc ι κ Tid Context Request Response ε) (m : Match ι κ Context Request) :
    Prop where
  requested : (m.rpc.call, m.request) ∈ (s.clients m.rpc.client).requests
  invoked : s.invocationsOf m = [] ∨
    ∃ outcome, s.invocationsOf m = [⟨m.call, m.context, m.request, outcome⟩]
  finished : s.finishesOf m = [] ∨ ∃ response, s.finishesOf m = [⟨m.call, response, .OK⟩] ∧
    s.invocationsOf m = [⟨m.call, m.context, m.request, .ok response⟩]

structure Responded (s : UnaryRpc ι κ Tid Context Request Response ε) (rpc : Rpc ι)
    (call : AsyncUnaryCall Response) : Prop where
  fulfilledOnce : (s.clients rpc.client).poller = .unary rpc.call .responding →
    call.responsePromise = .pending
  value : ∀ r, call.responsePromise = .value r → ∃ m ∈ s.matched, m.rpc = rpc ∧
    s.invocationsOf m = [⟨m.call, m.context, m.request, .ok r⟩]
  exception : ∀ e, call.responsePromise = .exception e → ∃ d ∈ (s.clients rpc.client).delivered,
    d.call = rpc.call ∧ d.status.ok = false ∧ e = .new d.status
  callbackOnce : (s.clients rpc.client).callbackCount rpc.call ≤ 1
  callbackAfter : 0 < (s.clients rpc.client).callbackCount rpc.call →
    call.responsePromise.Fulfilled

structure EndToEnd (s : UnaryRpc ι κ Tid Context Request Response ε) : Prop where
  requestedOnce : ∀ i, ((s.clients i).requests.map Prod.fst).Nodup
  acceptedOnce : (s.matched.map (·.rpc)).Nodup
  unshared : ∀ m ∈ s.matched, ∀ m' ∈ s.matched, m.handler = m'.handler → m.call = m'.call → m = m'
  handled : ∀ m ∈ s.matched, s.Handled m
  invoked : ∀ k, ∀ i ∈ (s.handlers k).invocations, ∃ m ∈ s.matched, m.handler = k ∧ m.call = i.call
  finished : ∀ k, ∀ f ∈ (s.handlers k).finishes, ∃ m ∈ s.matched, m.handler = k ∧ m.call = f.call
  responded : ∀ rpc call, (s.clients rpc.client).unaryCalls rpc.call = some call →
    s.Responded rpc call

section EndToEnd

variable [DecidableEq κ] {s : UnaryRpc ι κ Tid Context Request Response ε}

theorem Linked.acceptedLog (h : s.Linked) (k : κ) (c : Nat) :
    ((s.handlers k).logOf c).accepted =
      (s.matched.filter fun m => m.call = c ∧ m.handler = k).map Match.accepted := by
  simp only [AsyncUnaryCallHandler.logOf, h.accepted k, List.filter_map, List.filter_filter,
    Bool.decide_and]
  rfl

theorem Linked.eq_of_call (h : s.Linked) {m m' : Match ι κ Context Request}
    (hsound : ((s.handlers m.handler).logOf m.call).Sound m.call)
    (hm : m ∈ s.matched) (hm' : m' ∈ s.matched) (hhandler : m.handler = m'.handler)
    (hcall : m.call = m'.call) : m = m' := by
  have hlength := hsound.acceptedOnce
  rw [h.acceptedLog, List.length_map] at hlength
  have hmem : m ∈ s.matched.filter fun b => b.call = m.call ∧ b.handler = m.handler :=
    List.mem_filter.mpr ⟨hm, by simp⟩
  have hmem' : m' ∈ s.matched.filter fun b => b.call = m.call ∧ b.handler = m.handler :=
    List.mem_filter.mpr ⟨hm', by simp [hhandler, hcall]⟩
  have hone := Nat.le_antisymm hlength (List.length_pos_of_mem hmem)
  obtain ⟨b, hb⟩ := List.length_eq_one_iff.mp hone
  rw [hb, List.mem_singleton] at hmem hmem'
  exact hmem.trans hmem'.symm

theorem Linked.invocationsOf_eq (h : s.Linked) {m : Match ι κ Context Request}
    (hsound : ((s.handlers m.handler).logOf m.call).Sound m.call) (hm : m ∈ s.matched)
    {i : AsyncUnaryCallHandler.Invocation Context Request Response ε}
    (hi : i ∈ s.invocationsOf m) :
    s.invocationsOf m = [⟨m.call, m.context, m.request, i.outcome⟩] := by
  obtain ⟨hone, haccepted⟩ := hsound.invoked i hi
  have hmem : m.accepted ∈ ((s.handlers m.handler).logOf m.call).accepted := by
    rw [h.acceptedLog]
    exact List.mem_map_of_mem (List.mem_filter.mpr ⟨hm, by simp⟩)
  rw [haccepted, List.mem_singleton] at hmem
  have hcall : i.call = m.call := by simpa using (List.mem_filter.mp hi).2
  simp only [Match.accepted, AsyncUnaryCallHandler.Accepted.mk.injEq, true_and] at hmem
  rw [hmem.1, hmem.2, ← hcall]
  exact hone

theorem Linked.handled (h : s.Linked) {m : Match ι κ Context Request}
    (hsound : ((s.handlers m.handler).logOf m.call).Sound m.call) (hm : m ∈ s.matched) :
    s.Handled m := by
  refine ⟨h.requested m hm, ?_, ?_⟩
  · cases hlist : s.invocationsOf m with
    | nil => exact .inl rfl
    | cons i l =>
        have hi : i ∈ s.invocationsOf m := hlist ▸ List.mem_cons_self
        exact .inr ⟨i.outcome, hlist ▸ h.invocationsOf_eq hsound hm hi⟩
  · cases hlist : s.finishesOf m with
    | nil => exact .inl rfl
    | cons f l =>
        have hf : f ∈ s.finishesOf m := hlist ▸ List.mem_cons_self
        obtain ⟨hone, hstatus, i, hi, houtcome⟩ := hsound.finished f hf
        have hcall : f.call = m.call := by simpa using (List.mem_filter.mp hf).2
        refine .inr ⟨f.response, ?_, houtcome ▸ h.invocationsOf_eq hsound hm hi⟩
        rw [← hlist, ← hcall, ← hstatus]
        exact hone

theorem Linked.exists_match (h : s.Linked) {k : κ} {c : Nat}
    (haccepted : ((s.handlers k).logOf c).accepted ≠ []) :
    ∃ m ∈ s.matched, m.handler = k ∧ m.call = c := by
  rw [h.acceptedLog, ne_eq, List.map_eq_nil_iff] at haccepted
  obtain ⟨m, hm⟩ := List.exists_mem_of_ne_nil _ haccepted
  obtain ⟨hmem, hboth⟩ := List.mem_filter.mp hm
  have hboth' : m.call = c ∧ m.handler = k := by simpa using hboth
  exact ⟨m, hmem, hboth'.2, hboth'.1⟩

theorem Linked.responded (h : s.Linked)
    (hsound : ∀ k c, ((s.handlers k).logOf c).Sound c) {rpc : Rpc ι}
    (hresponses : (s.clients rpc.client).ResponseOk rpc.call) {call : AsyncUnaryCall Response}
    (hcall : (s.clients rpc.client).unaryCalls rpc.call = some call) : s.Responded rpc call := by
  have hanswer := hresponses.answerOk hcall
  have htruthful := hanswer.truthful
  refine ⟨fun hat => hanswer.pending (.inr hat), fun r hr => ?_, fun e he => ?_,
    hanswer.callbackOnce, fun hcount => hanswer.fulfilled (.inr hcount)⟩
  · rw [hr] at htruthful
    obtain ⟨d, hd, hdcall, hok, x, hresponse⟩ := htruthful
    obtain ⟨m, hm, hrpc, f, hf, hfcall, hstored⟩ := h.answered _ d hd hok
    rw [hstored] at hresponse
    have hfm : f ∈ s.finishesOf m := List.mem_filter.mpr ⟨hf, by simpa using hfcall⟩
    obtain ⟨-, -, i, hi, houtcome⟩ := (hsound _ _).finished f hfm
    have hinvocations := h.invocationsOf_eq (hsound _ _) hm hi
    rw [houtcome] at hinvocations
    refine ⟨m, hm, ?_, hresponse ▸ hinvocations⟩
    rw [hrpc, hdcall]
  · rw [he] at htruthful
    exact htruthful

variable [DecidableEq ι] [DecidableEq Tid]
  [Inhabited Context] [Inhabited Request] [Inhabited Response]

/-- **End to end.** However the steps of the clients and of the handlers interleave, every accepted RPC
is handled at most once, with its own context and request, and finished at most once with what its
handler returned, and a client's future gets that response or the error of its status, and stays. -/
theorem endToEnd_of_reachable (hs : (system ι κ Tid Context Request Response ε).Reachable s) :
    s.EndToEnd ∧ ∀ e s', s.step e = some s' → ∀ i c p, p.Fulfilled →
      ((s.clients i).unaryCalls c).map (·.responsePromise) = some p →
      ((s'.clients i).unaryCalls c).map (·.responsePromise) = some p := by
  have hlinked := linked_of_reachable hs
  have hclients := fun i => AsyncClient.responses_of_reachable (client_reachable hs i)
  have hsound := fun k => AsyncUnaryCallHandler.soundLog_of_reachable (handler_reachable hs k)
  refine ⟨⟨fun i => (hclients i).2.requestsNodup, hlinked.acceptedOnce, ?_, ?_, ?_, ?_, ?_⟩, ?_⟩
  · exact fun m hm m' hm' => hlinked.eq_of_call (hsound _ _) hm hm'
  · exact fun m hm => hlinked.handled (hsound _ _) hm
  · intro k i hi
    apply hlinked.exists_match
    rw [((hsound k i.call).invoked i (List.mem_filter.mpr ⟨hi, by simp⟩)).2]
    exact List.cons_ne_nil _ _
  · intro k f hf
    obtain ⟨-, -, i, hi, -⟩ := (hsound k f.call).finished f (List.mem_filter.mpr ⟨hf, by simp⟩)
    apply hlinked.exists_match
    rw [((hsound k f.call).invoked i hi).2]
    exact List.cons_ne_nil _ _
  · exact fun rpc call hcall => hlinked.responded hsound ((hclients rpc.client).2.calls _) hcall
  · intro e s' hstep i c p hfulfilled hp
    cases step_cases hstep with
    | handler _ _ | accept _ _ _ _ => exact hp
    | @client j e client hclient _ =>
        change ((Function.update s.clients j client i).unaryCalls c).map _ = _
        by_cases hi : i = j
        · subst hi
          rw [Function.update_self]
          exact AsyncClient.responsePromise_step (hclients i).1 hclient hp hfulfilled
        · rwa [Function.update_of_ne hi]

end EndToEnd

/-- Two clients call one handler, which answers in the other order, the first RPC inline. -/
theorem endToEnd_two_clients : ∃ s, (system Bool Unit Nat String String String String).run
    (initial Bool Unit Nat String String String String)
    [.client false (.callUnary "x" true), .client true (.callUnary "y" false),
      .accept ⟨true, 0⟩ () 0 "peer b" none, .accept ⟨false, 0⟩ () 1 "peer a" (some (.ok "X")),
      .handler () (.perform 2 (.ok "Y")), .handler () (.asyncNext 4 true "" "" none),
      .handler () (.asyncNext 2 true "" "" none), .answer ⟨false, 0⟩ true,
      .client false (.poll .returned), .client false (.poll .returned)] = some s ∧
    ((s.clients false).unaryCalls 0).map (·.responsePromise) = some (.value "X") ∧
    (s.clients false).callbackRuns = [0] ∧ s.EndToEnd := by
  refine ⟨_, rfl, rfl, rfl, (endToEnd_of_reachable ?_).1⟩
  exact TransitionSystem.reachable_of_run [.client false (.callUnary "x" true),
    .client true (.callUnary "y" false), .accept ⟨true, 0⟩ () 0 "peer b" none,
    .accept ⟨false, 0⟩ () 1 "peer a" (some (.ok "X")), .handler () (.perform 2 (.ok "Y")),
    .handler () (.asyncNext 4 true "" "" none), .handler () (.asyncNext 2 true "" "" none),
    .answer ⟨false, 0⟩ true, .client false (.poll .returned), .client false (.poll .returned)]
    (.init rfl) rfl

end EasyGrpc.UnaryRpc
