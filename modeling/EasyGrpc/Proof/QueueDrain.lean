import EasyGrpc.Proof.ActionLoss
import EasyGrpc.Proof.CallHistory
import EasyGrpc.Proof.CallLifetime
import EasyGrpc.Proof.HandlerLifetime

/-!
# Operations started while a queue drains

`Shutdown` of a completion queue promises gRPC that no operation follows. The polling thread goes on
with the tags that are still to come, and some finalisers start the next operation. On a client only
one of them can still do so: with no user inside a writer every queue is empty, so nothing but the
Finish that follows a failed Write is left to be handed over.

On a server every handled RPC is past its Finish when `Server::Shutdown` returns, and the requests
that are still open fail.
-/

namespace EasyGrpc.Client

variable {Tid Request Response : Type}

section Writer

variable {w w' : AsyncClientStreamWriter Tid Request Response}

/-- The polling thread is before the `tryPerformAction` of the Finish that follows a failed Write, and
finds an action to hand over. -/
def AsyncClientStreamWriter.StartsAutomaticFinish
    (w : AsyncClientStreamWriter Tid Request Response) : Prop :=
  (∃ a, w.completion = .finishPushed a) ∧ w.actions ≠ [] ∧ w.state = .ready

theorem AsyncClientStreamWriter.tryPerformAction_handed_iff
    (w : AsyncClientStreamWriter Tid Request Response) :
    w.tryPerformAction.handed = w.handed ↔ w.actions = [] ∨ w.state ≠ .ready := by
  rcases w.tryPerformAction_cases with ⟨hq, heq⟩ | ⟨a, rest, hq, ⟨hs, heq⟩ | ⟨hs, heq⟩ | ⟨hs, heq⟩⟩
  · simp [heq, hq]
  · simp [heq, hq, hs, perform, assertThat, popAction]
  · simp [heq, hs, setException, popAction]
  · simp [heq, hs, popAction]

/-- With an empty queue and nobody to fill it, only the Finish after a failed Write is started. -/
theorem AsyncClientStreamWriter.completion_handed_iff [DecidableEq Tid] (hbounded : w.QueueBounded)
    (hcallers : w.callers = []) (hmove : Move w .completion w') :
    w'.handed = w.handed ↔ ¬ w.StartsAutomaticFinish := by
  have hdrain : ∀ a, w.completion = .stateReady a true → a.isWrite = true →
      ((drain a.isLastMessage false w.actions w).handed = w.handed ↔
        handsOver a.isLastMessage w.actions = []) := by
    intro a _ _
    rw [(drain_handedOver a.isLastMessage w.actions w).handed, List.append_right_eq_self]
  have hpops := pops_move_iff (P := fun v => v.handed = w.handed) (fun _ _ _ => Iff.rfl) hmove
    (fun hpops => hpops.handed) w.tryPerformAction_handed_iff hdrain
  have hempty : ∀ a ok, w.completion = .stateReady a ok → w.actions = [] := by
    intro a ok hpc
    rw [QueueBounded, hcallers, hpc] at hbounded
    exact List.eq_nil_of_length_eq_zero (Nat.le_zero.mp hbounded)
  rw [hpops]
  constructor
  · rintro ⟨htry, -⟩ ⟨hpushed, hqueued, hready⟩
    rcases htry hpushed with hnone | hbusy
    · exact hqueued hnone
    · exact hbusy hready
  · intro hnot
    refine ⟨fun hpushed => ?_, fun _ a hpc _ => ?_⟩
    · by_contra hboth
      push Not at hboth
      exact hnot ⟨hpushed, hboth⟩
    · rw [hempty a true hpc]
      cases a.isLastMessage <;> rfl

theorem AsyncClientStreamWriter.asyncNext_handed [DecidableEq Tid] {id : Nat} {ok : Bool}
    {status : Status} {response : Option Response}
    (hstep : w.step (.asyncNext id ok status response) = some w') :
    w'.handed = w.handed ∧ w'.callers = w.callers := by
  cases (step_cases hstep).2
  exact ⟨rfl, rfl⟩

theorem AsyncClientStreamWriter.completion_callers [DecidableEq Tid]
    (hstep : w.step .completion = some w') : w'.callers = w.callers := by
  cases (step_cases hstep).2 with
  | setResult _ | stateReady _ | finalizeWriteFailed _ _ | finalizeFinish _ _ | delete _ => rfl
  | @finalizeWriteOk a _ _ => exact (drain_handedOver a.isLastMessage w.actions w).callers
  | finishPushed _ => exact w.tryPerformAction_callers

end Writer

namespace AsyncClient

variable {s s' : AsyncClient Tid Request Response}

def handed (s : AsyncClient Tid Request Response) (c : Nat) : Option (List (StreamAction Request)) :=
  (s.streamCalls c).map (·.handed)

def callers (s : AsyncClient Tid Request Response) (c : Nat) : Option (List Tid) :=
  (s.streamCalls c).map (·.callers)

/-- gRPC is given no operation: no call starts, no Finish of a unary call, no action of a writer. -/
def StartsNothing (s s' : AsyncClient Tid Request Response) : Prop :=
  s'.tags ⊆ s.tags ∧ s'.handed = s.handed

def StartsAutomaticFinish (s : AsyncClient Tid Request Response) :
    Event Tid Request Response → Prop
  | .poll _ => ∃ c w, s.poller = .writer c ∧ s.streamCalls c = some w ∧ w.StartsAutomaticFinish
  | _ => False

theorem handed_update_iff {c : Nat} {w w' : AsyncClientStreamWriter Tid Request Response}
    (hcall : s.streamCalls c = some w)
    (hcalls : s'.streamCalls = Function.update s.streamCalls c (some w')) :
    s'.handed = s.handed ↔ w'.handed = w.handed := by
  constructor
  · intro h
    have hc := congrFun h c
    simpa [handed, hcalls, hcall] using hc
  · intro h
    have hmap := map_update_of_eq (g := fun v : AsyncClientStreamWriter Tid Request Response =>
      v.handed) hcall h
    funext b
    simpa [handed, hcalls] using congrFun hmap b

theorem callers_poll [DecidableEq Tid] [Inhabited Response] {run : CallbackRun}
    (hmove : Move s (.poll run) s') : s'.callers = s.callers := by
  cases hmove with
  | responded _ _ _ | futureError _ _ _ | sharedFromThis _ _ _ | badWeakPtr _ _ _ | onCallDead _
  | released _ | streamWriterReadyTwice _ _ _ => rfl
  | @calledBack c run call _ _ =>
      funext b
      simp only [callers, (responseCallback_others c call run s).1]
  | streamWriterReady _ hcall _ => exact map_update_of_eq hcall rfl
  | writerCompletion _ hcall hstep _ =>
      exact map_update_of_eq hcall (AsyncClientStreamWriter.completion_callers hstep)

theorem startsNothing_poll_iff [DecidableEq Tid] [Inhabited Response] {run : CallbackRun}
    (hbounded : ∀ c w, s.streamCalls c = some w → w.QueueBounded)
    (hcallers : ∀ c w, s.streamCalls c = some w → w.callers = []) (hmove : Move s (.poll run) s') :
    s.StartsNothing s' ↔ ¬ s.StartsAutomaticFinish (.poll run) := by
  have hother : (∀ c, s.poller ≠ .writer c) → s.StartsNothing s' →
      (s.StartsNothing s' ↔ ¬ s.StartsAutomaticFinish (.poll run)) := by
    intro hpoller hnothing
    refine iff_of_true hnothing ?_
    rintro ⟨c, w, hc, -⟩
    exact hpoller c hc
  cases hmove with
  | responded hpoller _ _ | futureError hpoller _ _ | sharedFromThis hpoller _ _
  | badWeakPtr hpoller _ _ | onCallDead hpoller | released hpoller
  | streamWriterReadyTwice hpoller _ _ =>
      exact hother (by simp [hpoller]) ⟨List.Subset.refl _, rfl⟩
  | @calledBack c run call hpoller _ =>
      obtain ⟨hstream, -, -, -, htags, -⟩ := responseCallback_others c call run s
      refine hother (by simp [hpoller]) ⟨htags ▸ List.Subset.refl _, ?_⟩
      funext b
      simp only [handed, hstream]
  | streamWriterReady hpoller hcall _ =>
      refine hother (by simp [hpoller]) ⟨List.Subset.refl _, ?_⟩
      rw [handed_update_iff hcall rfl]
  | @writerCompletion c run poller w w' hpoller hcall hstep _ =>
      have hwriter := AsyncClientStreamWriter.completion_handed_iff (hbounded c w hcall)
        (hcallers c w hcall) (AsyncClientStreamWriter.step_cases hstep).2
      have hstarts : s.StartsAutomaticFinish (.poll run) ↔ w.StartsAutomaticFinish := by
        constructor
        · rintro ⟨b, v, hb, hv, hstarts⟩
          obtain rfl : c = b := by simpa [hpoller] using hb
          obtain rfl := Option.some.inj (hcall.symm.trans hv)
          exact hstarts
        · exact fun hstarts => ⟨c, w, hpoller, hcall, hstarts⟩
      rw [hstarts, ← hwriter]
      exact (and_iff_right (List.Subset.refl _)).trans (handed_update_iff hcall rfl)

end AsyncClient

namespace ClientLifetime

variable [DecidableEq Tid] [Inhabited Response] {s s' : ClientLifetime Tid Request Response}

/-- Once the completion queue was shut down, the step starts no operation. -/
def StartsNothing (s : ClientLifetime Tid Request Response) (_ : Event Tid Request Response)
    (s' : ClientLifetime Tid Request Response) : Prop :=
  s.stage ≠ .alive → s.client.StartsNothing s'.client

/-- Once the completion queue was shut down, no Write has failed whose Finish is still to be started. -/
def NoAutomaticFinish (s : ClientLifetime Tid Request Response) :
    Event Tid Request Response → Prop
  | .client e => s.stage ≠ .alive → ¬ s.client.StartsAutomaticFinish e
  | _ => True

structure DrainInv (s : ClientLifetime Tid Request Response) : Prop where
  inv : s.Inv
  bounded : ∀ c w, s.client.streamCalls c = some w → w.QueueBounded
  unused : s.stage ≠ .alive → ∀ c w, s.client.streamCalls c = some w → w.callers = []

omit [DecidableEq Tid] [Inhabited Response] in
theorem callers_of_unused (h : s.client.Inv) (hunused : s.client.unused = true) :
    ∀ c w, s.client.streamCalls c = some w → w.callers = [] := by
  intro c w hw
  have hall := (of_decide_eq_true hunused c (h.calls.stream (by rw [hw]; rfl)).1).2
  rw [hw] at hall
  exact List.isEmpty_iff.mp hall

/-- What may go on after the shutdown. -/
theorem goesOn_cases {e : AsyncClient.Event Tid Request Response}
    {client : AsyncClient Tid Request Response} (hstage : s.stage ≠ .alive)
    (hmay : s.mayGoOn e = true) (hmove : AsyncClient.Move s.client e client) :
    (∃ run, e = .poll run) ∨
      (s.client.StartsNothing client ∧ ¬ s.client.StartsAutomaticFinish e ∧
        client.callers = s.client.callers) := by
  cases e with
  | poll run => exact .inl ⟨run, rfl⟩
  | dropRef b =>
      cases hmove
      exact .inr ⟨⟨List.Subset.refl _, rfl⟩, id, rfl⟩
  | runCallback b =>
      cases hmove
      exact .inr ⟨⟨List.Subset.refl _, rfl⟩, id, rfl⟩
  | asyncNext tag ok status response =>
      refine .inr ?_
      cases hmove with
      | gotUnaryFinish _ _ _ | gotCallStart _ _ =>
          exact ⟨⟨List.erase_subset, rfl⟩, id, rfl⟩
      | @gotStreamAction b id ok status response v v' _ hcall hstep =>
          obtain ⟨hhanded, hcallers⟩ := AsyncClientStreamWriter.asyncNext_handed hstep
          refine ⟨⟨List.Subset.refl _, ?_⟩, fun hno => hno,
            AsyncClient.map_update_of_eq hcall hcallers⟩
          exact (AsyncClient.handed_update_iff hcall rfl).mpr hhanded
  | callUnary _ _ | callClientStream | frame _ | writer _ _ => simp [mayGoOn, hstage] at hmay

theorem DrainInv.step {e : Event Tid Request Response} (h : s.DrainInv)
    (hstep : s.step e = some s') : s'.DrainInv := by
  have hinv := h.inv.step hstep
  cases (step_cases hstep).2 with
  | @client e client hmay hclient =>
      have hmove := (AsyncClient.step_cases hclient).2
      refine ⟨hinv, ?_, fun hstage => ?_⟩
      · refine AsyncClient.writers_move (P := fun w => w.QueueBounded) (Nat.zero_le _)
          (fun _ _ hw => hw) ?_ hmove h.bounded
        exact fun w e w' hw hstep => hw.move (AsyncClientStreamWriter.step_cases hstep).2
      · have hquiet : s.stage ≠ .alive := hstage
        have hcallers : client.callers = s.client.callers := by
          rcases goesOn_cases hquiet hmay hmove with ⟨run, rfl⟩ | ⟨-, -, hcallers⟩
          · exact AsyncClient.callers_poll hmove
          · exact hcallers
        intro c w hw
        have hc := congrFun hcallers c
        rw [AsyncClient.callers, AsyncClient.callers] at hc
        have hw' : client.streamCalls c = some w := hw
        rw [hw'] at hc
        obtain ⟨v, hv, hsame⟩ := Option.map_eq_some_iff.mp hc.symm
        exact hsame.symm.trans (h.unused hquiet c v hv)
  | shutdown hstage hunused =>
      have hclient := (h.inv.client (by rw [hstage]; nofun)).1
      exact ⟨hinv, h.bounded, fun _ => callers_of_unused hclient hunused⟩
  | join hstage _ => exact ⟨hinv, h.bounded, fun _ => h.unused (by rw [hstage]; nofun)⟩
  | destroyMembers hstage => exact ⟨hinv, h.bounded, fun _ => h.unused (by rw [hstage]; nofun)⟩

theorem startsNothing_move_iff {e : Event Tid Request Response} (h : s.DrainInv)
    (hmove : Move s e s') : s.StartsNothing e s' ↔ s.NoAutomaticFinish e := by
  cases hmove with
  | @client e client hmay hclient =>
      refine forall_congr' fun hstage => ?_
      have hmove := (AsyncClient.step_cases hclient).2
      rcases goesOn_cases hstage hmay hmove with ⟨run, rfl⟩ | ⟨hnothing, hnot, -⟩
      · exact AsyncClient.startsNothing_poll_iff h.bounded (h.unused hstage) hmove
      · exact iff_of_true hnothing hnot
  | shutdown _ _ | join _ _ | destroyMembers _ =>
      exact iff_of_true (fun _ => ⟨List.Subset.refl _, rfl⟩) trivial

variable (Tid Request Response) in
theorem initial_drainInv : DrainInv ({} : ClientLifetime Tid Request Response) where
  inv := inv_of_reachable (.init rfl)
  bounded c w hw := by cases hw
  unused hstage := absurd rfl hstage

theorem drainInv_of_reachable (hs : (system Tid Request Response).Reachable s) : s.DrainInv := by
  refine hs.invariant (I := DrainInv) ?_ fun s e s' h _ hstep => h.step hstep
  rintro s rfl
  exact initial_drainInv Tid Request Response

theorem allSteps_startsNothing_iff (es : List (Event Tid Request Response)) :
    (system Tid Request Response).AllSteps StartsNothing {} es ↔
      (system Tid Request Response).AllSteps (fun s e _ => s.NoAutomaticFinish e) {} es :=
  TransitionSystem.allSteps_congr (I := DrainInv)
    (fun _ _ _ h hstep => startsNothing_move_iff h (step_cases hstep).2)
    (fun _ _ _ h hstep _ => h.step hstep) (initial_drainInv Tid Request Response) es

end ClientLifetime

end EasyGrpc.Client

namespace EasyGrpc.Server

variable {Context Request Response ε : Type}

def CallHandler.tags : CallHandler Context Request Response ε → List Nat
  | .unary handler => (handler.actions.filter (·.isTag)).map (·.id)
  | .clientStream handler => handler.actions.map (·.id)

namespace AsyncUnaryCallHandler

variable {h h' : AsyncUnaryCallHandler Context Request Response ε}

def HandlingDone (h : AsyncUnaryCallHandler Context Request Response ε) : Prop :=
  ∀ a ∈ h.actions, a.kind = .serviceRequest ∨ a.kind = .callFinish

def AcceptedFinished (h : AsyncUnaryCallHandler Context Request Response ε) : Prop :=
  ∀ r ∈ h.accepted, (∃ f ∈ h.finishes, f.call = r.call) ∨ r.call ∈ h.deleted

variable [Inhabited Context] [Inhabited Request] [Inhabited Response]

theorem handlingDone_of_acceptedFinished (hh : (system Context Request Response ε).Reachable h)
    (hfinished : h.AcceptedFinished) : h.HandlingDone := by
  obtain ⟨hinv, hist⟩ := history_of_reachable hh
  intro a ha
  have hlogged := hist.live a ha
  have hkept : a.call ∉ h.deleted := hinv.ledger.not_mem_freed (List.mem_map_of_mem ha)
  -- A call in handling was accepted and has no Finish.
  have hcontra : (∃ r, r ∈ (h.logOf a.call).accepted) → (h.logOf a.call).finishes = [] → False := by
    rintro ⟨r, hr⟩ hnone
    obtain ⟨hr, hcall⟩ := List.mem_filter.mp hr
    rw [decide_eq_true_eq] at hcall
    rcases hfinished r hr with ⟨f, hf, hfcall⟩ | hdeleted
    · have hmem : f ∈ (h.logOf a.call).finishes :=
        List.mem_filter.mpr ⟨hf, decide_eq_true (hfcall.trans hcall)⟩
      rw [hnone] at hmem
      cases hmem
    · exact hkept (hcall ▸ hdeleted)
  cases hkind : a.kind with
  | serviceRequest => exact .inl rfl
  | callFinish => exact .inr rfl
  | callHandling stage =>
      rw [hkind] at hlogged
      refine (hcontra ?_ ?_).elim
      · cases stage with
        | dispatched | alarmSet =>
            rw [show h.logOf a.call = _ from hlogged]
            exact ⟨_, List.mem_cons_self⟩
        | threw =>
            obtain ⟨e, onPollingThread, hlog⟩ := hlogged
            rw [hlog]
            exact ⟨_, List.mem_cons_self⟩
      · cases stage with
        | dispatched | alarmSet =>
            rw [show h.logOf a.call = _ from hlogged]
            rfl
        | threw =>
            obtain ⟨e, onPollingThread, hlog⟩ := hlogged
            rw [hlog]
            rfl

def AcceptsRequest (h : AsyncUnaryCallHandler Context Request Response ε) :
    Event Context Request Response ε → Prop
  | .asyncNext id ok _ _ _ => ok = true ∧ ∃ a ∈ h.actions, a.id = id ∧ a.kind = .serviceRequest
  | .perform _ _ => False

/-- Refused requests and finished calls are all that is left, and they start nothing. -/
theorem HandlingDone.actions_step {e : Event Context Request Response ε} (hdone : h.HandlingDone)
    (hclosed : ¬ h.AcceptsRequest e) (hstep : h.step e = some h') : h'.actions ⊆ h.actions := by
  obtain ⟨-, a, g, htaken, hmove⟩ := step_cases hstep
  have ha : a ∈ h.actions := htaken.actions.mem_iff.mpr List.mem_cons_self
  have hrest : g.actions ⊆ h.actions := fun b hb =>
    htaken.actions.mem_iff.mpr (List.mem_cons_of_mem a hb)
  have hkind := hdone a ha
  cases hmove with
  | accepted hrequest => exact absurd ⟨rfl, a, ha, rfl, hrequest⟩ hclosed
  | refused _ | finished _ => exact hrest
  | handled hhandling | alarmFailed hhandling | performed hhandling =>
      rw [hhandling] at hkind
      rcases hkind with hkind | hkind <;> cases hkind

end AsyncUnaryCallHandler

namespace AsyncClientStreamCallHandler

variable {h h' : AsyncClientStreamCallHandler Request}

def AcceptsRequest (h : AsyncClientStreamCallHandler Request) : Event Request → Prop
  | .asyncNext id ok _ => ok = true ∧ ∃ a ∈ h.actions, a.id = id ∧ a.streamReader.isSome
  | .moveNext _ => False

theorem actions_step [Inhabited Request] {id : Nat} {ok : Bool} {message : Request}
    (hclosed : ¬ h.AcceptsRequest (.asyncNext id ok message))
    (hstep : h.step (.asyncNext id ok message) = some h') : h'.actions ⊆ h.actions := by
  simp only [step] at hstep
  split at hstep
  · obtain ⟨a, ha, rfl⟩ := Option.map_eq_some_iff.mp hstep
    have hid : a.id = id := by simpa using List.find?_some ha
    have hrest : h.actions.eraseP (·.id = id) ⊆ h.actions := List.eraseP_subset
    cases hkind : a.kind with
    | requestStream reader =>
        cases ok with
        | true =>
            refine absurd ⟨rfl, a, List.mem_of_find?_eq_some ha, hid, ?_⟩ hclosed
            rw [Action.streamReader, hkind]
            rfl
        | false => simpa [finalizeResult, hkind, deleteReader] using hrest
    | read reader =>
        cases ok with
        | true => simpa [finalizeResult, hkind, setReader] using hrest
        | false => simpa [finalizeResult, hkind, setReader, onFinished_actions] using hrest
  · cases hstep

end AsyncClientStreamCallHandler

namespace CallHandlers

def ServerStopped (s : CallHandlers Context Request Response ε) : Prop :=
  ∃ i handlersDeleted, s.stage = .queue i handlersDeleted

def AcceptsRequest (s : CallHandlers Context Request Response ε) :
    Event Context Request Response ε → Prop
  | .unary k e => ∃ h, s.handlers k = some (.unary h) ∧ h.AcceptsRequest e
  | .clientStream k e => ∃ h, s.handlers k = some (.clientStream h) ∧ h.AcceptsRequest e
  | _ => False

/-- What gRPC promises of `Server::Shutdown`. -/
structure ShutdownContract (s : CallHandlers Context Request Response ε)
    (e : Event Context Request Response ε) : Prop where
  finished : e = .serverShutdown → ∀ k h, s.handlers k = some (.unary h) → h.AcceptedFinished
  closed : s.ServerStopped → ¬ s.AcceptsRequest e

/-- No operation is started on a completion queue that was shut down. -/
def StartsNothing (s s' : CallHandlers Context Request Response ε) : Prop :=
  ∀ k, s.isShutdown (s.queueOf k) = true → ∀ handler', s'.handlers k = some handler' →
    ∃ handler, s.handlers k = some handler ∧ handler'.tags ⊆ handler.tags

def IsMoveNext (e : Event Context Request Response ε) : Prop :=
  ∃ k reader, e = .clientStream k (.moveNext reader)

variable {s s' : CallHandlers Context Request Response ε} {e : Event Context Request Response ε}

theorem serverStopped_of_isShutdown {queue : Nat} (h : s.isShutdown queue = true) :
    s.ServerStopped := by
  unfold isShutdown at h
  split at h
  · exact ⟨_, _, ‹_›⟩
  · cases h

variable [Inhabited Context] [Inhabited Request] [Inhabited Response]

structure DrainInv (s : CallHandlers Context Request Response ε) : Prop where
  reachable : ∀ k h, s.handlers k = some (.unary h) →
    (AsyncUnaryCallHandler.system Context Request Response ε).Reachable h
  handlingDone : s.ServerStopped → ∀ k h, s.handlers k = some (.unary h) → h.HandlingDone

omit [Inhabited Context] [Inhabited Request] [Inhabited Response] in
theorem forall_unary_update {P : AsyncUnaryCallHandler Context Request Response ε → Prop} {j : Nat}
    {handler : CallHandler Context Request Response ε}
    (h : ∀ k g, s.handlers k = some (.unary g) → P g) (hnew : ∀ g, handler = .unary g → P g) :
    ∀ k g, Function.update s.handlers j (some handler) k = some (.unary g) → P g := by
  intro k g hg
  by_cases hk : k = j
  · subst hk
    rw [Function.update_self] at hg
    exact hnew g (Option.some.inj hg)
  · rw [Function.update_of_ne hk] at hg
    exact h k g hg

theorem DrainInv.step (h : s.DrainInv) (hcontract : s.ShutdownContract e)
    (hstep : s.step e = some s') : s'.DrainInv := by
  have hrunning : ∀ {t : CallHandlers Context Request Response ε}, t.stage = .running →
      ¬ t.ServerStopped := by
    rintro t ht ⟨i, b, hstage⟩
    rw [ht] at hstage
    cases hstage
  cases step_cases hstep with
  | start hstage => exact ⟨h.reachable, fun hstopped => absurd hstopped (hrunning hstage)⟩
  | registerUnary hstage _ =>
      refine ⟨forall_unary_update h.reachable fun g hg => ?_,
        fun hstopped => absurd hstopped (hrunning hstage)⟩
      obtain rfl := CallHandler.unary.inj hg
      exact .init rfl
  | registerClientStream hstage _ =>
      exact ⟨forall_unary_update h.reachable (by rintro g ⟨⟩),
        fun hstopped => absurd hstopped (hrunning hstage)⟩
  | unaryRejected | clientStreamRejected => exact h
  | insert _ => exact ⟨h.reachable, h.handlingDone⟩
  | @unary k g g' e hk hg =>
      refine ⟨forall_unary_update h.reachable ?_, fun hstopped => forall_unary_update
        (h.handlingDone hstopped) ?_⟩
      · rintro _ ⟨⟩
        exact (h.reachable k g hk).step trivial hg
      · rintro _ ⟨⟩ a ha
        have hdone := h.handlingDone hstopped k g hk
        exact hdone a (hdone.actions_step
          (fun haccepts => hcontract.closed hstopped ⟨g, hk, haccepts⟩) hg ha)
  | clientStream hk hg =>
      exact ⟨forall_unary_update h.reachable (by rintro g ⟨⟩),
        fun hstopped => forall_unary_update (h.handlingDone hstopped) (by rintro g ⟨⟩)⟩
  | shutdownServer _ => exact ⟨h.reachable, by rintro ⟨i, b, hstage⟩; cases hstage⟩
  | serverShutdown hstage =>
      refine ⟨h.reachable, fun _ k g hk => ?_⟩
      exact AsyncUnaryCallHandler.handlingDone_of_acceptedFinished (h.reachable k g hk)
        (hcontract.finished rfl k g hk)
  | deleteAllCallHandlers hstage | shutdownQueue hstage =>
      exact ⟨h.reachable, fun _ => h.handlingDone ⟨_, _, hstage⟩⟩

variable (Context Request Response ε) in
theorem initial_drainInv (n : Nat) :
    DrainInv ({ numQueues := n } : CallHandlers Context Request Response ε) :=
  ⟨nofun, by rintro ⟨i, b, hstage⟩; cases hstage⟩

omit [Inhabited Context] [Inhabited Request] [Inhabited Response] in
theorem contract_of_refuses (hreturns : e ≠ .serverShutdown) (hrefuses : ¬ s.AcceptsRequest e) :
    s.ShutdownContract e :=
  ⟨fun he => absurd he hreturns, fun _ => hrefuses⟩

omit [Inhabited Context] [Inhabited Request] [Inhabited Response] in
theorem tags_setHandler {j : Nat} {handler handler' : CallHandler Context Request Response ε}
    (hj : s.handlers j = some handler) (htags : handler'.tags ⊆ handler.tags) :
    s.StartsNothing (s.setHandler j handler') := by
  intro k _ other hk
  have hk' : Function.update s.handlers j (some handler') k = some other := hk
  by_cases hkj : k = j
  · subst hkj
    rw [Function.update_self] at hk'
    obtain rfl := Option.some.inj hk'
    exact ⟨handler, hj, htags⟩
  · rw [Function.update_of_ne hkj] at hk'
    exact ⟨other, hk', List.Subset.refl _⟩

theorem startsNothing_of_contract (h : s.DrainInv) (hcontract : s.ShutdownContract e)
    (hstep : s.step e = some s') (hread : ¬ IsMoveNext e) : s.StartsNothing s' := by
  have hsame : s'.handlers = s.handlers → s.StartsNothing s' := by
    intro hhandlers k _ handler' hk
    exact ⟨handler', hhandlers ▸ hk, List.Subset.refl _⟩
  have hrunning : s.stage = .running → s.StartsNothing s' := by
    intro hstage k hshut
    rw [isShutdown, hstage] at hshut
    cases hshut
  cases step_cases hstep with
  | registerUnary hstage _ | registerClientStream hstage _ => exact hrunning hstage
  | start _ | unaryRejected | clientStreamRejected | insert _ | shutdownServer _ | serverShutdown _
  | deleteAllCallHandlers _ | shutdownQueue _ => exact hsame rfl
  | @unary k g g' e hk hg =>
      intro j hshut
      have hstopped := serverStopped_of_isShutdown hshut
      refine tags_setHandler hk ?_ j hshut
      have hsubset := (h.handlingDone hstopped k g hk).actions_step
        (fun haccepts => hcontract.closed hstopped ⟨g, hk, haccepts⟩) hg
      exact List.map_subset _ (List.filter_subset _ hsubset)
  | @clientStream k g g' e hk hg =>
      intro j hshut
      have hstopped := serverStopped_of_isShutdown hshut
      refine tags_setHandler hk ?_ j hshut
      cases e with
      | moveNext reader => exact absurd ⟨k, reader, rfl⟩ hread
      | asyncNext id ok message =>
          exact List.map_subset _ (AsyncClientStreamCallHandler.actions_step
            (fun haccepts => hcontract.closed hstopped ⟨g, hk, haccepts⟩) hg)

end CallHandlers

end EasyGrpc.Server

namespace EasyGrpc

open Client Server

variable {Tid Context Request Response ε : Type} [DecidableEq Tid] [Inhabited Context]
  [Inhabited Request] [Inhabited Response]

/-- **Draining.** For every run of a client, and every run of a server whose `Server::Shutdown` keeps its
contract: no finaliser starts an operation on a queue that was shut down, if and only if after the
shutdown the client does not come to the Finish of a failed Write. -/
theorem startsNothing_iff_noAutomaticFinish (es : List (ClientLifetime.Event Tid Request Response))
    (n : Nat) (fs : List (CallHandlers.Event Context Request Response ε))
    (hcontract : (CallHandlers.system Context Request Response ε).AllSteps
      (fun s e _ => s.ShutdownContract e) { numQueues := n } fs) :
    ((ClientLifetime.system Tid Request Response).AllSteps ClientLifetime.StartsNothing {} es ∧
        (CallHandlers.system Context Request Response ε).AllSteps
          (fun s e s' => ¬ CallHandlers.IsMoveNext e → s.StartsNothing s') { numQueues := n } fs) ↔
      (ClientLifetime.system Tid Request Response).AllSteps (fun s e _ => s.NoAutomaticFinish e)
        {} es := by
  have hserver : (CallHandlers.system Context Request Response ε).AllSteps
      (fun s e s' => ¬ CallHandlers.IsMoveNext e → s.StartsNothing s') { numQueues := n } fs := by
    refine hcontract.imp (I := CallHandlers.DrainInv) ?_ ?_ (CallHandlers.initial_drainInv _ _ _ _ n)
    · exact fun s e s' h hstep hc => CallHandlers.startsNothing_of_contract h hc hstep
    · exact fun s e s' h hstep hc => h.step hc hstep
  rw [and_iff_left hserver]
  exact ClientLifetime.allSteps_startsNothing_iff es

/-- A Write is in flight when the client is destroyed, and fails. -/
def writeInFlight : List (ClientLifetime.Event Nat String String) :=
  [.client .callClientStream, .client (.frame 0), .client (.frame 0), .client (.frame 0),
    .client (.frame 0), .client (.asyncNext (.callStart 0) true .OK none), .client (.poll .returned),
    .client (.writer 0 (.write 1 "message" {})), .client (.writer 0 (.tryPerformAction 1)), .shutdown,
    .client (.asyncNext (.streamAction 0 0) false .OK none), .client (.poll .returned),
    .client (.poll .returned), .client (.poll .returned)]

def requestInFlight : List (CallHandlers.Event String String String String) :=
  [.registerUnary 0 true, .insertCallHandler, .start, .shutdownServer, .serverShutdown,
    .deleteAllCallHandlers, .shutdownQueue, .unary 0 (.asyncNext 0 false "" "" none)]

theorem writeInFlight_starts_finish :
    ∃ s s', (ClientLifetime.system Nat String String).run {} writeInFlight = some s ∧
      s.stage = .shutdown ∧ s.step (.client (.poll .returned)) = some s' ∧
      s.client.handed 0 = some [⟨0, .write "message" {}⟩] ∧
      s'.client.handed 0 = some [⟨0, .write "message" {}⟩, ⟨1, .finish⟩] ∧
      ¬ (ClientLifetime.system Nat String String).AllSteps ClientLifetime.StartsNothing {}
        (writeInFlight ++ [.client (.poll .returned)]) := by
  refine ⟨_, _, rfl, rfl, rfl, rfl, rfl, fun hall => ?_⟩
  have hlast := hall.last rfl rfl (fun hstage => by cases hstage)
  have hsame := congrFun hlast.2 0
  cases hsame

theorem requestInFlight_contract :
    (CallHandlers.system String String String String).AllSteps (fun s e _ => s.ShutdownContract e)
      { numQueues := 1 } requestInFlight := by
  have hother : ∀ {s : CallHandlers String String String String}
      {e : CallHandlers.Event String String String String}, e ≠ .serverShutdown →
      ¬ s.AcceptsRequest e → s.ShutdownContract e :=
    fun hreturns hrefuses => CallHandlers.contract_of_refuses hreturns hrefuses
  intro s₁ h₁
  refine ⟨hother nofun id, fun s₂ h₂ => ⟨hother nofun id, fun s₃ h₃ => ⟨hother nofun id,
    fun s₄ h₄ => ⟨hother nofun id, fun s₅ _ => ⟨⟨fun _ k h hk => ?_, fun _ => id⟩,
      fun s₆ _ => ⟨hother nofun id, fun s₇ _ => ⟨hother nofun id, fun s₈ _ => ⟨hother nofun ?_,
        trivial⟩⟩⟩⟩⟩⟩⟩⟩
  · obtain rfl := Option.some.inj h₁
    obtain rfl := Option.some.inj h₂
    obtain rfl := Option.some.inj h₃
    obtain rfl := Option.some.inj h₄
    by_cases hzero : k = 0
    · subst hzero
      obtain rfl := CallHandler.unary.inj (Option.some.inj hk)
      exact nofun
    · have hnone : Function.update (fun _ => none) 0 _ k = some (CallHandler.unary h) := hk
      rw [Function.update_of_ne hzero] at hnone
      cases hnone
  · rintro ⟨h, -, hok, -⟩
    cases hok

def callInFlight : List (ClientLifetime.Event Nat String String) :=
  [.client (.callUnary "request" false), .client (.frame 0), .client (.frame 0), .client (.frame 0),
    .shutdown, .client (.asyncNext (.unaryFinish 0) true .OK (some "response"))]

theorem inFlight_startsNothing :
    (ClientLifetime.system Nat String String).AllSteps ClientLifetime.StartsNothing {} callInFlight ∧
      (CallHandlers.system String String String String).AllSteps
        (fun s e s' => ¬ CallHandlers.IsMoveNext e → s.StartsNothing s') { numQueues := 1 }
        requestInFlight := by
  refine (startsNothing_iff_noAutomaticFinish callInFlight 1 _ requestInFlight_contract).mpr ?_
  exact fun s₁ _ => ⟨fun _ => id, fun s₂ _ => ⟨fun _ => id, fun s₃ _ => ⟨fun _ => id,
    fun s₄ _ => ⟨fun _ => id, fun s₅ _ => ⟨trivial, fun s₆ _ => ⟨fun _ => id, trivial⟩⟩⟩⟩⟩⟩

end EasyGrpc
