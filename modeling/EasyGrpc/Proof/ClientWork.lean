import EasyGrpc.Proof.ClientDrain
import EasyGrpc.Proof.ClientResponses

/-!
# What a call costs

A user thread that starts a call or an action gives the client something to do. Each such event is
charged for all the steps that can follow from it: the tag and its completion, what is left of the
function that the thread is in, the callback, and for a Write the Finish that a failure starts. Every
other step is one of those.
-/

namespace EasyGrpc.Client

variable {Tid Request Response : Type}

namespace AsyncClientStreamWriter

def Event.calls : Event Tid Request Response → Bool
  | .write _ _ _ => true
  | .finish _ => true
  | _ => false

def work (w : AsyncClientStreamWriter Tid Request Response) : Nat := w.remaining + w.callers.length

variable {w w' : AsyncClientStreamWriter Tid Request Response} {t : Tid}

theorem work_newAction (t : Tid) (kind : StreamActionKind Request) :
    work { w.newAction kind with callers := t :: w.callers } ≤ w.work + 12 := by
  have hone : load [(⟨w.nextId, kind⟩ : StreamAction Request)] ≤ 11 := by
    rw [load_cons, actionWork]
    split <;> simp [load]
  simp only [work, remaining, newAction, load_append, List.length_cons]
  omega

variable [DecidableEq Tid]

theorem work_tryPerformAction (ht : t ∈ w.callers) :
    work { w.tryPerformAction with callers := w.callers.erase t } < w.work := by
  have hload := w.load_tryPerformAction
  have hpos := List.length_pos_of_mem ht
  obtain ⟨l, hover, -⟩ := w.tryPerformAction_handedOver
  simp only [work, remaining, hover.completion, List.length_erase_of_mem ht]
  omega

/-- A user thread is charged for the action it pushes. -/
theorem work_user {e : Event Tid Request Response} (hmay : AsyncClient.mayUse w e = true)
    (hmove : Move w e w') :
    w'.work + 1 ≤ w.work + if e.calls then 13 else 0 := by
  cases hmove with
  | @write t message options _ => exact Nat.succ_le_succ (work_newAction t (.write message options))
  | @finish t _ => exact Nat.succ_le_succ (work_newAction t .finish)
  | tryPerformAction ht _ => exact work_tryPerformAction ht
  | asyncNext _ _ | setResult _ | stateReady _ | finalizeWriteOk _ _ | finalizeWriteFailed _ _
  | finalizeFinish _ _ | finishPushed _ | delete _ => cases hmay

end AsyncClientStreamWriter

namespace AsyncClient

def Event.calls : Event Tid Request Response → Bool
  | .callUnary _ _ => true
  | .callClientStream => true
  | .writer _ e => e.calls
  | _ => false

def frameWork : FrameStage → Nat
  | .started => 5
  | .writerCreated => 4
  | .shared => 3
  | .added => 2

def framesWork (s : AsyncClient Tid Request Response) : Nat :=
  ∑ c ∈ Finset.range s.nextCall, (s.frames c).elim 0 frameWork

def callersWork (s : AsyncClient Tid Request Response) : Nat :=
  ∑ c ∈ Finset.range s.nextCall, (s.callers c).elim 0 List.length

def work (s : AsyncClient Tid Request Response) : Nat := s.remaining + s.framesWork + s.callersWork

section Work

variable {s s' : AsyncClient Tid Request Response} {c : Nat}

/-- The constructor of the call has nothing to do with the actions of the writer. -/
theorem writersWork_setOwner (hlt : c < s.nextCall)
    (f : AsyncClientStreamCall Response → AsyncClientStreamCall Response)
    (hcalls : s'.streamCalls =
      Function.update s.streamCalls c ((s.streamCalls c).map fun w => { w with owner := f w.owner }))
    (hnext : s'.nextCall = s.nextCall) : s'.writersWork = s.writersWork := by
  have hsum := sum_elim_update (f := s.streamCalls) (·.remaining) hlt
    ((s.streamCalls c).map fun w => { w with owner := f w.owner })
  have hsame : ((s.streamCalls c).map fun w => { w with owner := f w.owner }).elim 0 (·.remaining) =
      (s.streamCalls c).elim 0 (·.remaining) := by
    cases s.streamCalls c <;> rfl
  rw [hsame] at hsum
  rw [writersWork, hcalls, hnext]
  exact Nat.add_right_cancel hsum

theorem callersWork_congr (hcallers : s'.callers = s.callers) (hnext : s'.nextCall = s.nextCall) :
    s'.callersWork = s.callersWork := by
  rw [callersWork, hcallers, hnext, ← callersWork]

/-- The frame of a call goes on to the next stage, or it is over. -/
theorem work_lt_of_frame {stage : Option FrameStage} (hcalls : s.CallsOk) (hframe : s.frames c ≠ none)
    (hframes : s'.frames = Function.update s.frames c stage) (hnext : s'.nextCall = s.nextCall)
    (hcallers : s'.callers = s.callers)
    (hpaid : s'.remaining + stage.elim 0 frameWork < s.remaining + (s.frames c).elim 0 frameWork) :
    s'.work < s.work := by
  have hsum := sum_elim_update (f := s.frames) frameWork (hcalls.lt_of_frame hframe) stage
  rw [← hframes, ← hnext, ← framesWork, hnext, ← framesWork] at hsum
  rw [work, work, callersWork_congr hcallers hnext]
  omega

theorem frameStep_isSome (hframe : s.frames c ≠ none) : (s.frameStep c).isSome = true := by
  unfold frameStep
  cases hstage : s.frames c with
  | none => exact absurd hstage hframe
  | some stage =>
      cases stage with
      | started =>
          dsimp only
          split <;> rfl
      | writerCreated | shared | added => rfl

variable [DecidableEq Tid] [Inhabited Response]

/-- A step inside `call` brings it on. -/
theorem work_frame (hcalls : s.CallsOk) (hmove : Move s (.frame c) s') : s'.work < s.work := by
  cases hmove with
  | createWriter hframe _ =>
      have hframe' : s.frames c ≠ none := by simp [hframe]
      have hwriters : (s.createWriter c).writersWork = s.writersWork := writersWork_setOwner
        (hcalls.lt_of_frame hframe') (fun owner => { owner with streamWriter := .created }) rfl rfl
      have hcallers : (s.createWriter c).callers = s.callers := map_map_update_of_eq c fun w => rfl
      refine work_lt_of_frame hcalls hframe' rfl rfl hcallers ?_
      rw [remaining, hwriters, hframe]
      exact Nat.add_lt_add_left (by decide) s.remaining
  | installOwner hframe =>
      have hframe' : s.frames c ≠ none := by
        rcases hframe with ⟨hframe, -⟩ | hframe <;> simp [hframe]
      have hwriters : (s.installOwner c).writersWork = s.writersWork := writersWork_setOwner
        (hcalls.lt_of_frame hframe') (fun owner => { owner with weakThis := true }) rfl rfl
      have hcallers : (s.installOwner c).callers = s.callers := map_map_update_of_eq c fun w => rfl
      refine work_lt_of_frame hcalls hframe' rfl rfl hcallers ?_
      rw [remaining, hwriters]
      apply Nat.add_lt_add_left (k := s.remaining)
      rcases hframe with ⟨hframe, -⟩ | hframe <;> rw [hframe] <;> decide
  | addStreamingCall hframe =>
      have hframe' : s.frames c ≠ none := by simp [hframe]
      refine work_lt_of_frame hcalls hframe' rfl rfl rfl ?_
      rw [hframe]
      exact Nat.add_lt_add_left (by decide) s.remaining
  | returned hframe =>
      have hframe' : s.frames c ≠ none := by simp [hframe]
      refine work_lt_of_frame hcalls hframe' rfl rfl rfl ?_
      simp only [remaining, writersWork, hframe, List.length_append, List.length_singleton,
        Option.elim_none, Option.elim_some, frameWork]
      omega

theorem goesOn_keeps {e : Event Tid Request Response} (he : GoesOn e) (hmove : Move s e s') :
    s'.callers = s.callers ∧ s'.frames = s.frames ∧ s'.nextCall = s.nextCall ∧
    s'.requests = s.requests := by
  cases e with
  | callUnary _ _ | callClientStream | frame _ | writer _ _ => exact he.elim
  | dropRef b | runCallback b =>
      cases hmove
      exact ⟨rfl, rfl, rfl, rfl⟩
  | asyncNext tag ok status response =>
      cases hmove with
      | gotUnaryFinish _ _ _ | gotCallStart _ _ => exact ⟨rfl, rfl, rfl, rfl⟩
      | gotStreamAction _ hcall hstep =>
          exact ⟨map_update_of_eq hcall (AsyncClientStreamWriter.asyncNext_handed hstep).2, rfl, rfl,
            rfl⟩
  | poll run =>
      refine ⟨callers_poll hmove, ?_⟩
      cases hmove with
      | @calledBack b run call _ _ =>
          obtain ⟨-, hframes, hnext, -⟩ := responseCallback_others b call run s
          exact ⟨hframes, hnext, (responseCallback_requests b call run s).1⟩
      | responded _ _ _ | futureError _ _ _ | sharedFromThis _ _ _ | badWeakPtr _ _ _ | onCallDead _
      | released _ | streamWriterReady _ _ _ | streamWriterReadyTwice _ _ _
      | writerCompletion _ _ _ _ => exact ⟨rfl, rfl, rfl⟩

omit [DecidableEq Tid] [Inhabited Response] in
theorem sum_elim_alloc {α : Type} {f g : Nat → Option α} {n : Nat} (work : α → Nat)
    (hold : ∀ i < n, g i = f i) :
    ∑ i ∈ Finset.range (n + 1), (g i).elim 0 work =
      ∑ i ∈ Finset.range n, (f i).elim 0 work + (g n).elim 0 work := by
  rw [Finset.sum_range_succ]
  congr 1
  apply Finset.sum_congr rfl
  intro i hi
  rw [hold i (Finset.mem_range.mp hi)]

omit [DecidableEq Tid] [Inhabited Response] in
/-- A call is added, with a writer that has nothing to do if it has one. -/
theorem works_alloc (s' : AsyncClient Tid Request Response) (hnext : s'.nextCall = s.nextCall + 1)
    (hframes : s'.frames = Function.update s.frames s.nextCall (some .started))
    (hstreams : ∀ c < s.nextCall, s'.streamCalls c = s.streamCalls c)
    (hnew : ∀ w, s'.streamCalls s.nextCall = some w → w.remaining = 0 ∧ w.callers = []) :
    s'.writersWork = s.writersWork ∧ s'.framesWork = s.framesWork + 5 ∧
    s'.callersWork = s.callersWork := by
  have hcallers : ∀ c < s.nextCall, s'.callers c = s.callers c := by
    intro c hc
    rw [callers, hstreams c hc, ← callers]
  have hold : ∀ c < s.nextCall, s'.frames c = s.frames c := by
    intro c hc
    rw [hframes, Function.update_of_ne (Nat.ne_of_lt hc)]
  rw [writersWork, framesWork, callersWork, hnext, sum_elim_alloc _ hstreams, sum_elim_alloc _ hold,
    sum_elim_alloc _ hcallers, hframes, Function.update_self, callers]
  refine ⟨?_, rfl, ?_⟩
  all_goals
    cases hw : s'.streamCalls s.nextCall with
    | none => rfl
    | some w => simp [hnew w hw, writersWork, callersWork]

omit [DecidableEq Tid] [Inhabited Response] in
theorem work_setWriter {w : AsyncClientStreamWriter Tid Request Response}
    (w' : AsyncClientStreamWriter Tid Request Response) (hcalls : s.CallsOk)
    (hcall : s.streamCalls c = some w) :
    work { s with streamCalls := Function.update s.streamCalls c (some w') } + w.work = s.work + w'.work := by
  have hlt := (hcalls.stream (by rw [hcall]; rfl)).1
  have hwriters := writersWork_update (t := { s with
    streamCalls := Function.update s.streamCalls c (some w') }) w' hlt hcall rfl rfl
  have hthreads : callers { s with streamCalls := Function.update s.streamCalls c (some w') } =
      Function.update s.callers c (some w'.callers) := by
    funext b
    by_cases hb : b = c
    · subst hb
      simp [callers]
    · simp [callers, Function.update_of_ne hb]
  have hsum := sum_elim_update (f := s.callers) List.length hlt (some w'.callers)
  have hself : s.callers c = some w.callers := by
    rw [callers, hcall]
    rfl
  rw [hself, ← hthreads] at hsum
  simp only [Option.elim_some] at hsum
  simp only [work, remaining, AsyncClientStreamWriter.work, callersWork, framesWork]
  omega

/-- A user thread is charged for what it asks for, and not for going on with it. -/
theorem work_user {e : Event Tid Request Response} (hcalls : s.CallsOk) (he : ¬ GoesOn e)
    (hmove : Move s e s') : s'.work + 1 ≤ s.work + if e.calls then 13 else 0 := by
  cases e with
  | asyncNext _ _ _ _ | poll _ | dropRef _ | runCallback _ => exact absurd trivial he
  | frame c =>
      have hlt := work_frame hcalls hmove
      simp only [Event.calls]
      omega
  | callUnary request hasCallback =>
      cases hmove
      have hnone : ∀ w, s.streamCalls s.nextCall ≠ some w := by
        intro w hw
        exact Nat.lt_irrefl _ (hcalls.stream (by rw [hw]; rfl)).1
      obtain ⟨hwriters, hframes, hthreads⟩ := works_alloc (s.newUnaryCall request hasCallback)
        rfl rfl (fun _ _ => rfl) fun w hw => absurd hw (hnone w)
      simp only [work, remaining, hwriters, hframes, hthreads]
      simp only [newUnaryCall, List.map_append, List.sum_append, Event.calls]
      simp [tagWork]
      omega
  | callClientStream =>
      cases hmove
      have hself : s.newStreamCall.streamCalls s.nextCall = some { owner := { response := default } } :=
        Function.update_self _ _ _
      have hold : ∀ c < s.nextCall, s.newStreamCall.streamCalls c = s.streamCalls c :=
        fun c hc => Function.update_of_ne (Nat.ne_of_lt hc) _ _
      have hnew : ∀ w, s.newStreamCall.streamCalls s.nextCall = some w → w.remaining = 0 ∧
        w.callers = [] := by
        intro w hw
        obtain rfl := Option.some.inj (hself.symm.trans hw)
        exact ⟨rfl, rfl⟩
      obtain ⟨hwriters, hframes, hthreads⟩ := works_alloc s.newStreamCall rfl rfl hold hnew
      simp only [work, remaining, hwriters, hframes, hthreads]
      simp only [newStreamCall, List.map_append, List.sum_append, Event.calls]
      simp [tagWork]
      omega
  | writer c e =>
      cases hmove with
      | @writer _ _ w w' hcall hmay hstep =>
          have hsum := work_setWriter w' hcalls hcall
          have hpaid := AsyncClientStreamWriter.work_user hmay
            (AsyncClientStreamWriter.step_cases hstep).2
          rw [Event.calls]
          omega

/-- Only a call makes a request. -/
theorem requests_move {e : Event Tid Request Response} (hmove : Move s e s') :
    s'.requests = s.requests ∨ e.calls = true ∧ ∃ p, s'.requests = s.requests ++ [p] := by
  by_cases he : GoesOn e
  · exact .inl (goesOn_keeps he hmove).2.2.2
  · cases hmove with
    | callUnary => exact .inr ⟨rfl, _, rfl⟩
    | callClientStream | createWriter _ _ | installOwner _ | addStreamingCall _ | returned _
    | writer _ _ _ => exact .inl rfl
    | dropRef | gotUnaryFinish _ _ _ | gotCallStart _ _ | gotStreamAction _ _ _ | responded _ _ _
    | futureError _ _ _ | calledBack _ _ | sharedFromThis _ _ _ | badWeakPtr _ _ _ | onCallDead _
    | released _ | streamWriterReady _ _ _ | streamWriterReadyTwice _ _ _ | writerCompletion _ _ _ _
    | runCallback _ => exact absurd trivial he

/-- **What a call costs.** With thirteen steps charged for each call every step of the client is paid
for. -/
theorem work_step {e : Event Tid Request Response} (hcalls : s.CallsOk) (hpolls : s.Polls)
    (hstep : s.step e = some s') : s'.work + 1 ≤ s.work + if e.calls then 13 else 0 := by
  have hmove := (step_cases hstep).2
  by_cases he : GoesOn e
  · obtain ⟨hcallers, hframes, hnext, -⟩ := goesOn_keeps he hmove
    have hlt := remaining_lt hcalls hpolls he hstep
    have hframesWork : s'.framesWork = s.framesWork := by
      rw [framesWork, hframes, hnext, ← framesWork]
    rw [work, work, hframesWork, callersWork_congr hcallers hnext]
    omega
  · exact work_user hcalls he hmove

end Work

end AsyncClient

end EasyGrpc.Client
