import EasyGrpc.Proof.ClientResponses

/-!
# The status of a finished call

gRPC stores a status in the call, and `finalizeFinished` builds an `AsyncCallError` out of it when it is
not OK. The error copies the message for `what()` before its member takes the strings, so it reports all
that gRPC delivered. The call keeps the code and two empty strings.
-/

namespace EasyGrpc.Client

variable {Tid Request Response : Type}

/-- Who reads the status of a finished call: `status()` of the call, and `status()` and `what()` of the
error in its response future. -/
inductive StatusObserver where
  | call
  | errorStatus
  | errorWhat
  deriving DecidableEq, Repr

namespace AsyncUnaryCall

/-- The observer reports what gRPC delivered. There is an error to read unless the status is OK. -/
def Reports (call : AsyncUnaryCall Response) (status : Status) : StatusObserver → Prop
  | .call => call.status = status
  | .errorStatus => status.ok = false → ∃ e, call.responsePromise = .exception e ∧ e.status = status
  | .errorWhat =>
      status.ok = false → ∃ e, call.responsePromise = .exception e ∧ e.what = status.errorMessage

inductive Settled (status : Status) (call : AsyncUnaryCall Response) : Prop where
  | value (r : Response) (hok : status.ok = true) (hstatus : call.status = status)
      (hpromise : call.responsePromise = .value r)
  | exception (hok : status.ok = false) (hstatus : call.status = status.movedFrom)
      (hpromise : call.responsePromise = .exception (.new status))

theorem setResponse_settled {call call' : AsyncUnaryCall Response}
    (hset : call.setResponse = some call') :
    call.responsePromise = .pending ∧ Settled call.status call' := by
  unfold setResponse at hset
  split at hset
  · rename_i hok
    obtain ⟨p, hp, rfl⟩ := Option.map_eq_some_iff.mp hset
    obtain ⟨hpending, rfl⟩ := Promise.setValue_eq_some_iff.mp hp
    exact ⟨hpending, .value call.response hok rfl rfl⟩
  · rename_i hok
    obtain ⟨p, hp, rfl⟩ := Option.map_eq_some_iff.mp hset
    obtain ⟨hpending, rfl⟩ := Promise.setException_eq_some_iff.mp hp
    exact ⟨hpending, .exception (eq_false_of_ne_true hok) rfl rfl⟩

/-- The error always reports what gRPC delivered. -/
theorem Settled.error_reports {status : Status} {call : AsyncUnaryCall Response}
    (h : Settled status call) : call.Reports status .errorStatus ∧ call.Reports status .errorWhat := by
  cases h with
  | value r hok _ _ =>
      refine ⟨fun hnotOk => ?_, fun hnotOk => ?_⟩ <;>
        rw [hok] at hnotOk <;> cases hnotOk
  | exception _ _ hpromise => exact ⟨fun _ => ⟨_, hpromise, rfl⟩, fun _ => ⟨_, hpromise, rfl⟩⟩

theorem movedFrom_eq_self_iff {status : Status} :
    status.movedFrom = status ↔ status.errorMessage = "" ∧ status.errorDetails = "" := by
  cases status
  simp only [Status.movedFrom, Status.mk.injEq, true_and, eq_comm]

/-- The call itself reports it as long as the move had no text to take. -/
theorem Settled.call_reports_iff {status : Status} {call : AsyncUnaryCall Response}
    (h : Settled status call) : call.Reports status .call ↔
      status.ok = true ∨ (status.errorMessage = "" ∧ status.errorDetails = "") := by
  cases h with
  | value r hok hstatus _ => exact iff_of_true hstatus (.inl hok)
  | exception hok hstatus _ =>
      calc
        call.status = status ↔ status.movedFrom = status := by rw [hstatus]
        _ ↔ status.errorMessage = "" ∧ status.errorDetails = "" := movedFrom_eq_self_iff
        _ ↔ status.ok = true ∨ (status.errorMessage = "" ∧ status.errorDetails = "") := by simp [hok]

theorem Settled.congr {status : Status} {call call' : AsyncUnaryCall Response}
    (h : Settled status call) (hstatus : call'.status = call.status)
    (hpromise : call'.responsePromise = call.responsePromise) : Settled status call' := by
  cases h with
  | value r hok hs hp => exact .value r hok (hstatus.trans hs) (hpromise.trans hp)
  | exception hok hs hp => exact .exception hok (hstatus.trans hs) (hpromise.trans hp)

end AsyncUnaryCall

namespace AsyncClient

variable {s s' : AsyncClient Tid Request Response} {c : Nat} {call : AsyncUnaryCall Response}

structure StatusOk (s : AsyncClient Tid Request Response) (c : Nat)
    (call : AsyncUnaryCall Response) : Prop where
  undelivered : call.responsePromise = .pending → s.poller ≠ .unary c .responding →
    ∀ d ∈ s.delivered, d.call ≠ c
  stored : s.poller = .unary c .responding → ∀ d ∈ s.delivered, d.call = c → call.status = d.status
  settled : call.responsePromise ≠ .pending → ∀ d ∈ s.delivered, d.call = c →
    AsyncUnaryCall.Settled d.status call

structure Statuses (s : AsyncClient Tid Request Response) : Prop where
  allocated : ∀ d ∈ s.delivered, d.call < s.nextCall
  calls : ∀ c call, s.unaryView c = some call → s.StatusOk c call

/-- What a step does not touch in the call `c`. -/
theorem StatusOk.congr (h : s.StatusOk c call) (hdelivered : ∀ d ∈ s'.delivered, d.call = c → d ∈ s.delivered)
    (hpoller : s'.poller = .unary c .responding ↔ s.poller = .unary c .responding) :
    s'.StatusOk c call where
  undelivered hpending hnot d hd hdc :=
    h.undelivered hpending (fun hat => hnot (hpoller.mpr hat)) d (hdelivered d hd hdc) hdc
  stored hat d hd hdc := h.stored (hpoller.mp hat) d (hdelivered d hd hdc) hdc
  settled hfulfilled d hd hdc := h.settled hfulfilled d (hdelivered d hd hdc) hdc

theorem Statuses.congr (h : s.Statuses)
    (hpoller : ∀ c, s'.poller = .unary c .responding ↔ s.poller = .unary c .responding)
    (hview : s'.unaryView = s.unaryView := by rfl)
    (hnext : s.nextCall ≤ s'.nextCall := by exact Nat.le_refl _)
    (hdelivered : s'.delivered = s.delivered := by rfl) : s'.Statuses where
  allocated d hd := Nat.lt_of_lt_of_le (h.allocated d (hdelivered ▸ hd)) hnext
  calls c call hcall := by
    refine (h.calls c call (hview ▸ hcall)).congr (fun d hd _ => hdelivered ▸ hd) (hpoller c)

/-- A step that writes one call only, `c`. -/
theorem Statuses.update (h : s.Statuses) (c : Nat)
    (hothers : ∀ b, b ≠ c → s'.unaryView b = s.unaryView b)
    (hdelivered : ∀ d ∈ s'.delivered, d.call ≠ c → d ∈ s.delivered)
    (hpoller : ∀ b, b ≠ c → s'.poller ≠ .unary b .responding)
    (hpoller' : ∀ b, b ≠ c → s.poller ≠ .unary b .responding)
    (hallocated : ∀ d ∈ s'.delivered, d.call < s'.nextCall)
    (hself : ∀ call, s'.unaryView c = some call → s'.StatusOk c call) : s'.Statuses := by
  refine ⟨hallocated, fun b call hcall => ?_⟩
  by_cases hb : b = c
  · subst hb
    exact hself call hcall
  · refine (h.calls b call (hothers b hb ▸ hcall)).congr ?_ ?_
    · intro d hd hdb
      exact hdelivered d hd (hdb.symm ▸ hb)
    · exact iff_of_false (hpoller b hb) (hpoller' b hb)

theorem unaryView_eq_some (hcall : s.unaryCalls c = some call) :
    s.unaryView c = some { call with weakThis := false } := by
  rw [unaryView, hcall]
  rfl

theorem Statuses.statusOk (h : s.Statuses) (hcall : s.unaryCalls c = some call) : s.StatusOk c call := by
  have hview := h.calls c _ (unaryView_eq_some hcall)
  refine ⟨hview.undelivered, hview.stored, fun hfulfilled d hd hdc => ?_⟩
  exact (hview.settled hfulfilled d hd hdc).congr rfl rfl

theorem Statuses.newUnaryCall [Inhabited Response] (h : s.Statuses) (request : Request)
    (hasCallback : Bool) : (s.newUnaryCall request hasCallback).Statuses := by
  have hnone : ∀ d ∈ s.delivered, d.call ≠ s.nextCall := fun d hd => Nat.ne_of_lt (h.allocated d hd)
  refine ⟨fun d hd => Nat.lt_succ_of_lt (h.allocated d hd), fun c call hcall => ?_⟩
  by_cases hc : c = s.nextCall
  · subst hc
    have hnew : (s.newUnaryCall request hasCallback).unaryView s.nextCall =
        some { response := default, hasResponseCallback := hasCallback } := by
      simp [unaryView, AsyncClient.newUnaryCall]
    obtain rfl := Option.some.inj (hnew.symm.trans hcall)
    refine ⟨fun _ _ => hnone, fun _ d hd hdc => absurd hdc (hnone d hd), ?_⟩
    exact fun hfulfilled => absurd rfl hfulfilled
  · have hsame : (s.newUnaryCall request hasCallback).unaryView c = s.unaryView c :=
      unaryView_update_of_ne _ hc
    exact { h.calls c call (hsame ▸ hcall) with }

theorem Statuses.gotUnaryFinish (h : s.Statuses) (hresponses : s.Responses) {status : Status}
    {response : Option Response} (hpoller : s.poller = .idle) (htag : .unaryFinish c ∈ s.tags)
    (hcall : s.unaryCalls c = some call) (hlt : c < s.nextCall) :
    Statuses { s with
      tags := s.tags.erase (.unaryFinish c)
      unaryCalls := Function.update s.unaryCalls c
        (some { call with status := status, response := response.getD call.response })
      delivered := s.delivered ++ [⟨c, status, response⟩]
      poller := .unary c .responding } := by
  have hpending : call.responsePromise = .pending :=
    ((hresponses.calls c).answerOk hcall).pending (.inl htag)
  have hfresh : ∀ d ∈ s.delivered, d.call ≠ c := by
    apply (h.statusOk hcall).undelivered hpending
    rw [hpoller]
    exact fun hat => by cases hat
  refine h.update c (fun b hb => unaryView_update_of_ne _ hb) ?_ ?_ ?_ ?_ ?_
  · intro d hd hdc
    refine (List.mem_append.mp hd).resolve_right fun hnew => hdc ?_
    rw [List.mem_singleton.mp hnew]
  · intro b hb hat
    exact hb (Poller.unary.inj hat).1.symm
  · intro b _ hat
    rw [hpoller] at hat
    cases hat
  · intro d hd
    rcases List.mem_append.mp hd with hold | hnew
    · exact h.allocated d hold
    · rw [List.mem_singleton.mp hnew]
      exact hlt
  · intro call' hcall'
    have hnow := Option.some.inj ((unaryView_eq_some (Function.update_self ..)).symm.trans hcall')
    subst hnow
    refine ⟨fun _ hnot => absurd rfl hnot, fun _ d hd hdc => ?_, fun hfulfilled => ?_⟩
    · have hnew := (List.mem_append.mp hd).resolve_left fun hold => hfresh d hold hdc
      rw [List.mem_singleton.mp hnew]
    · exact absurd hpending hfulfilled

theorem Statuses.responded (h : s.Statuses) {call' : AsyncUnaryCall Response}
    (hpoller : s.poller = .unary c .responding) (hcall : s.unaryCalls c = some call)
    (hset : call.setResponse = some call') :
    Statuses { s with
      unaryCalls := Function.update s.unaryCalls c (some call')
      poller := .unary c .callingBack } := by
  obtain ⟨hpending, hsettled⟩ := AsyncUnaryCall.setResponse_settled hset
  have hold := h.statusOk hcall
  refine h.update c (fun b hb => unaryView_update_of_ne _ hb) (fun d hd _ => hd) ?_ ?_ h.allocated ?_
  · intro b _ hat
    cases hat
  · intro b hb hat
    exact hb (Poller.unary.inj (hpoller.symm.trans hat)).1.symm
  · intro call'' hcall''
    have hnow := Option.some.inj ((unaryView_eq_some (Function.update_self ..)).symm.trans hcall'')
    subst hnow
    have hdone : ∀ d ∈ s.delivered, d.call = c → AsyncUnaryCall.Settled d.status call' := by
      intro d hd hdc
      rw [← hold.stored hpoller d hd hdc]
      exact hsettled
    refine ⟨fun hnot => ?_, (fun hat => by cases hat), fun _ d hd hdc => (hdone d hd hdc).congr rfl rfl⟩
    cases hsettled with
    | value r _ _ hpromise | exception _ _ hpromise =>
        exact absurd (hpromise.symm.trans hnot) (fun hp => by cases hp)

theorem Statuses.calledBack (h : s.Statuses) (hresponses : s.Responses) {run : CallbackRun}
    (hpoller : s.poller = .unary c .callingBack) (hcall : s.unaryCalls c = some call) :
    Statuses { s.responseCallback c call run with poller := .unary c .sharing } := by
  by_cases hhas : call.hasResponseCallback = true
  · have hfulfilled := ((hresponses.calls c).answerOk hcall).fulfilled (.inl hpoller)
    have hcalls : (s.responseCallback c call run).unaryCalls =
        Function.update s.unaryCalls c (some call.takeResponseCallback) := by
      rw [responseCallback, if_pos hhas]
    obtain ⟨-, -, hnext, -⟩ := responseCallback_others c call run s
    obtain ⟨-, hdelivered⟩ := responseCallback_requests c call run s
    refine h.update c (fun b hb => ?_) (fun d hd _ => hdelivered ▸ hd) ?_ ?_ ?_ ?_
    · rw [unaryView, hcalls]
      exact unaryView_update_of_ne _ hb
    · intro b _ hat
      cases hat
    · intro b _ hat
      rw [hpoller] at hat
      cases hat
    · intro d hd
      rw [hnext]
      exact h.allocated d (hdelivered ▸ hd)
    · intro call' hcall'
      have hself : (s.responseCallback c call run).unaryCalls c = some call.takeResponseCallback := by
        rw [hcalls, Function.update_self]
      have hnow := Option.some.inj ((unaryView_eq_some hself).symm.trans hcall')
      subst hnow
      refine ⟨fun hpending => absurd hpending hfulfilled, (fun hat => by cases hat), fun _ d hd hdc => ?_⟩
      exact ((h.statusOk hcall).settled hfulfilled d (hdelivered ▸ hd) hdc).congr rfl rfl
  · rw [responseCallback, if_neg hhas]
    refine h.congr fun b => iff_of_false (fun hat => by cases hat) fun hat => ?_
    rw [hpoller] at hat
    cases hat

theorem Statuses.move [DecidableEq Tid] [Inhabited Response] {e : Event Tid Request Response}
    (h : s.Statuses) (hinv : s.Inv) (hresponses : s.Responses) (hmove : Move s e s') :
    s'.Statuses := by
  have helsewhere : ∀ {p : Poller}, s.poller = p → (∀ b, p ≠ .unary b .responding) →
      ∀ b, s.poller ≠ .unary b .responding := by
    intro p hp hnot b hat
    exact hnot b (hp.symm.trans hat)
  cases hmove with
  | callUnary => exact h.newUnaryCall _ _
  | callClientStream => exact h.congr (fun _ => Iff.rfl) rfl (Nat.le_succ _)
  | createWriter _ _ | addStreamingCall _ | returned _ | dropRef | futureError _ _ _
  | badWeakPtr _ _ _ | streamWriterReadyTwice _ _ _ | writer _ _ _ | runCallback _ =>
      exact h.congr fun _ => Iff.rfl
  | installOwner _ => exact h.congr (fun _ => Iff.rfl) (map_map_update_of_eq _ fun _ => rfl)
  | gotUnaryFinish hpoller htag hcall =>
      exact h.gotUnaryFinish hresponses hpoller htag hcall (hinv.calls.unary (by rw [hcall]; rfl)).1
  | responded hpoller hcall hset => exact h.responded hpoller hcall hset
  | calledBack hpoller hcall => exact h.calledBack hresponses hpoller hcall
  | gotCallStart hpoller _ | gotStreamAction hpoller _ _ | sharedFromThis hpoller _ _
  | onCallDead hpoller | released hpoller | streamWriterReady hpoller _ _ =>
      refine h.congr fun b => iff_of_false (fun hat => by cases hat) ?_
      exact helsewhere hpoller (fun _ hat => by cases hat) b
  | writerCompletion hpoller _ _ hnext =>
      refine h.congr fun b => iff_of_false (fun hat => ?_) ?_
      · cases hnext with
        | inl heq => subst heq; cases hat
        | inr heq => subst heq; cases hat
      · exact helsewhere hpoller (fun _ hat => by cases hat) b

section Runs

variable [DecidableEq Tid] [Inhabited Response]

theorem statuses_of_reachable (hs : (system Tid Request Response).Reachable s) :
    (s.Inv ∧ s.Responses) ∧ s.Statuses := by
  refine hs.invariant (I := fun s => (s.Inv ∧ s.Responses) ∧ s.Statuses) ?_ ?_
  · rintro _ rfl
    refine ⟨⟨initial_inv .., initial_responses ..⟩, fun d hd => (by cases hd), ?_⟩
    intro c call hcall
    cases hcall
  · rintro s e s' ⟨⟨hinv, hresponses⟩, h⟩ - hstep
    have hmove := (step_cases hstep).2
    exact ⟨⟨hinv.step hstep, hresponses.move hinv hmove⟩, h.move hinv hresponses hmove⟩

structure FinalizeRan (s : AsyncClient Tid Request Response) (c : Nat) (status : Status) : Prop where
  delivered : ∃ d ∈ s.delivered, d.call = c ∧ d.status = status
  past : s.poller ≠ .unary c .responding

/-- **The observers of a finished call.** From the end of the `try` block of `finalizeFinished` on, the call
and the error in its response future report what gRPC delivered, whoever reads when, exactly when the status
is OK or has neither a message nor details. -/
theorem observersReport_iff (s : AsyncClient Tid Request Response) (c : Nat)
    (call : AsyncUnaryCall Response) (status : Status)
    (hs : (system Tid Request Response).Reachable s) (hcall : s.unaryCalls c = some call)
    (hran : s.FinalizeRan c status) :
    (∀ o, call.Reports status o) ↔
      status.ok = true ∨ (status.errorMessage = "" ∧ status.errorDetails = "") := by
  obtain ⟨d, hd, hdc, rfl⟩ := hran.delivered
  have hok := (statuses_of_reachable hs).2.statusOk hcall
  have hfulfilled : call.responsePromise ≠ .pending := by
    intro hpending
    exact hok.undelivered hpending hran.past d hd hdc
  have hsettled := hok.settled hfulfilled d hd hdc
  rw [← hsettled.call_reports_iff]
  constructor
  · exact fun hall => hall .call
  · intro hreports o
    cases o with
    | call => exact hreports
    | errorStatus => exact hsettled.error_reports.1
    | errorWhat => exact hsettled.error_reports.2

end Runs

def refusedCall (status : Status) : List (Event Nat String String) :=
  [.callUnary "request" false, .frame 0, .frame 0, .frame 0,
    .asyncNext (.unaryFinish 0) true status none, .poll .dispatched, .poll .dispatched,
    .poll .dispatched, .poll .dispatched, .poll .dispatched]

def refused : Status := ⟨.unavailable, "refused", "by policy"⟩

/-- The error has the text and the call has lost it. -/
theorem refusedCall_status_emptied : ∃ s call,
    (system Nat String String).run {} (refusedCall refused) = some s ∧ s.unaryCalls 0 = some call ∧
    s.FinalizeRan 0 refused ∧ s.poller = .idle ∧ call.responsePromise = .exception (.new refused) ∧
    call.status = ⟨.unavailable, "", ""⟩ ∧ ¬ ∀ o, call.Reports refused o := by
  refine ⟨_, _, rfl, rfl, ⟨⟨_, List.mem_cons_self, rfl, rfl⟩, fun hat => by cases hat⟩, rfl, rfl, rfl, ?_⟩
  intro hall
  exact absurd (congrArg Status.errorMessage (hall .call)) (by decide)

theorem refusedCall_without_text : ∃ s call,
    (system Nat String String).run {} (refusedCall ⟨.cancelled, "", ""⟩) = some s ∧
    s.unaryCalls 0 = some call ∧ ∀ o, call.Reports ⟨.cancelled, "", ""⟩ o := by
  obtain ⟨s, hrun⟩ : ∃ s, (system Nat String String).run {} (refusedCall ⟨.cancelled, "", ""⟩) = some s :=
    ⟨_, rfl⟩
  have hreach := TransitionSystem.reachable_of_run _ (.init rfl) hrun
  obtain rfl := Option.some.inj hrun
  refine ⟨_, _, rfl, rfl, (observersReport_iff _ 0 _ ⟨.cancelled, "", ""⟩ hreach rfl ?_).mpr ?_⟩
  · exact ⟨⟨_, List.mem_cons_self, rfl, rfl⟩, fun hat => by cases hat⟩
  · exact .inr ⟨rfl, rfl⟩

end AsyncClient

end EasyGrpc.Client
