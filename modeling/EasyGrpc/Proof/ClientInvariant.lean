import EasyGrpc.Proof.ClientSteps
import EasyGrpc.Outstanding

/-!
# The invariant of the client

Three parts, each of them kept by every step. A call object is as far as the frame that builds it.
The Finish of a unary call is a tag, is with the polling thread, or is done, once for each call; the
same for the start of a stream call. A call that is neither inserted nor on its way to be is dead.
-/

namespace EasyGrpc.Client.AsyncClient

variable {Tid Request Response : Type}

def Tag.unary? : Tag → Option Nat
  | .unaryFinish c => some c
  | _ => none

def Tag.start? : Tag → Option Nat
  | .callStart c => some c
  | _ => none

def Poller.unary? : Poller → List Nat
  | .unary _ .releasing => []
  | .unary c _ => [c]
  | _ => []

def Poller.start? : Poller → List Nat
  | .callStart c => [c]
  | _ => []

def weakThis (s : AsyncClient Tid Request Response) (c : Nat) : Option Bool :=
  (s.unaryCalls c).map (·.weakThis)

def streamWriter (s : AsyncClient Tid Request Response) (c : Nat) : Option StreamWriterPtr :=
  (s.streamCalls c).map (·.owner.streamWriter)

def streamWriterPromise (s : AsyncClient Tid Request Response) (c : Nat) :
    Option (Promise StreamWriterPtr AsyncCallError) :=
  (s.streamCalls c).map (·.owner.streamWriterPromise)

def CallOk (s : AsyncClient Tid Request Response) (c : Nat) : Prop :=
  (s.nextCall ≤ c ∧ s.weakThis c = none ∧ s.streamWriter c = none ∧ s.frames c = none) ∨
  (c < s.nextCall ∧ s.weakThis c = some (decide (s.frames c ≠ some .started)) ∧
    s.streamWriter c = none ∧ s.frames c ≠ some .writerCreated) ∨
  (c < s.nextCall ∧ s.weakThis c = none ∧
    s.streamWriter c = some (if s.frames c = some .started then .uninitialised else .created))

def CallsOk (s : AsyncClient Tid Request Response) : Prop := ∀ c, s.CallOk c

def unaryIds (s : AsyncClient Tid Request Response) : List Nat :=
  s.tags.filterMap Tag.unary? ++ s.poller.unary? ++ s.dead

def startIds (s : AsyncClient Tid Request Response) : List Nat :=
  s.tags.filterMap Tag.start? ++ s.poller.start?

structure Completing (s : AsyncClient Tid Request Response) : Prop where
  unaryNodup : s.unaryIds.Nodup
  unaryCall : ∀ c ∈ s.unaryIds, (s.unaryCalls c).isSome
  startNodup : s.startIds.Nodup
  startPending : ∀ c ∈ s.startIds, s.streamWriterPromise c = some .pending

def Pending (s : AsyncClient Tid Request Response) (c : Nat) : Prop :=
  s.frames c = some .started ∨ s.frames c = some .writerCreated ∨ s.frames c = some .shared

structure Tracking (s : AsyncClient Tid Request Response) : Prop where
  inserted : ∀ c ∈ s.streamingCalls, c < s.nextCall ∧ ¬ s.Pending c
  kept : ∀ c < s.nextCall, c ∉ s.streamingCalls → ¬ s.Pending c → c ∈ s.dead

structure Inv (s : AsyncClient Tid Request Response) : Prop where
  calls : s.CallsOk
  completing : s.Completing
  tracking : s.Tracking

theorem map_update_of_eq {α β : Type} {f : Nat → Option α} {g : α → β} {c : Nat} {a a' : α}
    (hc : f c = some a) (heq : g a' = g a) :
    (fun n => (Function.update f c (some a') n).map g) = fun n => (f n).map g := by
  funext n
  by_cases hn : n = c
  · subst hn
    rw [Function.update_self, hc, Option.map_some, Option.map_some, heq]
  · rw [Function.update_of_ne hn]

section Calls

variable {s s' : AsyncClient Tid Request Response}

theorem CallsOk.congr (h : s.CallsOk) (hweak : s'.weakThis = s.weakThis := by rfl)
    (hwriter : s'.streamWriter = s.streamWriter := by rfl)
    (hframes : s'.frames = s.frames := by rfl)
    (hnext : s'.nextCall = s.nextCall := by rfl) : s'.CallsOk := by
  intro c
  have hc := h c
  unfold CallOk at hc ⊢
  rw [hweak, hwriter, hframes, hnext]
  exact hc

theorem CallsOk.update (h : s.CallsOk) (c₀ : Nat) (hnext : s'.nextCall = s.nextCall)
    (hothers : ∀ c, c ≠ c₀ → s'.weakThis c = s.weakThis c ∧ s'.streamWriter c = s.streamWriter c ∧
      s'.frames c = s.frames c) (hself : s'.CallOk c₀) : s'.CallsOk := by
  intro c
  by_cases hc : c = c₀
  · exact hc ▸ hself
  · obtain ⟨hweak, hwriter, hframe⟩ := hothers c hc
    have hold := h c
    unfold CallOk at hold ⊢
    rw [hweak, hwriter, hframe, hnext]
    exact hold

theorem CallsOk.alloc (h : s.CallsOk) (hnext : s'.nextCall = s.nextCall + 1)
    (hothers : ∀ c, c ≠ s.nextCall → s'.weakThis c = s.weakThis c ∧
      s'.streamWriter c = s.streamWriter c ∧ s'.frames c = s.frames c)
    (hself : s'.CallOk s.nextCall) : s'.CallsOk := by
  intro c
  by_cases hc : c = s.nextCall
  · exact hc ▸ hself
  · obtain ⟨hweak, hwriter, hframe⟩ := hothers c hc
    have hold := h c
    unfold CallOk at hold ⊢
    rw [hweak, hwriter, hframe, hnext]
    have hle : s.nextCall + 1 ≤ c ↔ s.nextCall ≤ c := by omega
    have hlt : c < s.nextCall + 1 ↔ c < s.nextCall := by omega
    rw [hle, hlt]
    exact hold

theorem CallsOk.unary (h : s.CallsOk) {c : Nat} (hc : (s.unaryCalls c).isSome) :
    c < s.nextCall ∧ s.weakThis c = some (decide (s.frames c ≠ some .started)) ∧
      s.streamWriter c = none ∧ s.frames c ≠ some .writerCreated := by
  have hsome : s.weakThis c ≠ none := by
    simpa [weakThis, Option.isSome_iff_ne_none] using hc
  obtain ⟨-, hnone, -⟩ | hok | ⟨-, hnone, -⟩ := h c
  · exact absurd hnone hsome
  · exact hok
  · exact absurd hnone hsome

theorem CallsOk.stream (h : s.CallsOk) {c : Nat} (hc : (s.streamCalls c).isSome) :
    c < s.nextCall ∧ s.weakThis c = none ∧
      s.streamWriter c = some (if s.frames c = some .started then .uninitialised else .created) := by
  have hsome : s.streamWriter c ≠ none := by
    simpa [streamWriter, Option.isSome_iff_ne_none] using hc
  obtain ⟨-, -, hnone, -⟩ | ⟨-, -, hnone, -⟩ | hok := h c
  · exact absurd hnone hsome
  · exact absurd hnone hsome
  · exact hok

theorem CallsOk.fresh (h : s.CallsOk) :
    s.weakThis s.nextCall = none ∧ s.streamWriter s.nextCall = none ∧
      s.frames s.nextCall = none := by
  obtain ⟨-, hok⟩ | ⟨hlt, -⟩ | ⟨hlt, -⟩ := h s.nextCall
  · exact hok
  · exact absurd hlt (Nat.lt_irrefl _)
  · exact absurd hlt (Nat.lt_irrefl _)

theorem CallsOk.lt_of_frame (h : s.CallsOk) {c : Nat} (hframe : s.frames c ≠ none) :
    c < s.nextCall := by
  obtain ⟨-, -, -, hnone⟩ | ⟨hlt, -⟩ | ⟨hlt, -⟩ := h c
  · exact absurd hnone hframe
  · exact hlt
  · exact hlt

theorem CallsOk.newUnaryCall [Inhabited Response] (h : s.CallsOk) (request : Request)
    (hasCallback : Bool) : (s.newUnaryCall request hasCallback).CallsOk := by
  refine h.alloc rfl (fun c hc => ?_) (.inr (.inl ?_))
  · simp [weakThis, streamWriter, AsyncClient.newUnaryCall, hc]
  · have hfresh := h.fresh.2.1
    simpa [weakThis, streamWriter, AsyncClient.newUnaryCall] using hfresh

theorem CallsOk.newStreamCall [Inhabited Response] (h : s.CallsOk) : s.newStreamCall.CallsOk := by
  refine h.alloc rfl (fun c hc => ?_) (.inr (.inr ?_))
  · simp [weakThis, streamWriter, AsyncClient.newStreamCall, hc]
  · have hfresh := h.fresh.1
    simpa [weakThis, streamWriter, AsyncClient.newStreamCall] using hfresh

theorem CallsOk.createWriter (h : s.CallsOk) {c : Nat} (hframe : s.frames c = some .started)
    (hcall : s.unaryCalls c = none) : (s.createWriter c).CallsOk := by
  have hlt := h.lt_of_frame (by rw [hframe]; nofun)
  have hnone : s.weakThis c = none := by rw [weakThis, hcall]; rfl
  have hsome : ∃ w, s.streamCalls c = some w := by
    obtain ⟨hle, -⟩ | ⟨-, hweak, -⟩ | ⟨-, -, hwriter⟩ := h c
    · exact absurd hlt (Nat.not_lt.mpr hle)
    · rw [hnone] at hweak
      cases hweak
    · obtain ⟨w, hw, -⟩ := Option.map_eq_some_iff.mp hwriter
      exact ⟨w, hw⟩
  obtain ⟨w, hw⟩ := hsome
  refine h.update c rfl (fun b hb => ?_) (.inr (.inr ⟨hlt, hnone, ?_⟩))
  · simp [weakThis, streamWriter, AsyncClient.createWriter, hb]
  · simp [streamWriter, AsyncClient.createWriter, hw]

theorem CallsOk.installOwner (h : s.CallsOk) {c : Nat}
    (hframe : (s.frames c = some .started ∧ (s.unaryCalls c).isSome) ∨
      s.frames c = some .writerCreated) : (s.installOwner c).CallsOk := by
  have hlt : c < s.nextCall := by
    apply h.lt_of_frame
    cases hframe with
    | inl hframe => rw [hframe.1]; nofun
    | inr hframe => rw [hframe]; nofun
  refine h.update c rfl (fun b hb => ?_) ?_
  · simp [weakThis, streamWriter, AsyncClient.installOwner, hb]
  · obtain ⟨hle, -⟩ | ⟨-, hweak, hwriter, -⟩ | ⟨-, hweak, hwriter⟩ := h c
    · exact absurd hlt (Nat.not_lt.mpr hle)
    · obtain ⟨call, hcall, -⟩ := Option.map_eq_some_iff.mp hweak
      have hnone : s.streamCalls c = none := Option.map_eq_none_iff.mp hwriter
      refine .inr (.inl ⟨hlt, ?_, ?_, ?_⟩) <;>
        simp [weakThis, streamWriter, AsyncClient.installOwner, hcall, hnone]
    · obtain ⟨w, hw, hptr⟩ := Option.map_eq_some_iff.mp hwriter
      have hnone : s.unaryCalls c = none := Option.map_eq_none_iff.mp hweak
      have hcreated : s.frames c = some .writerCreated := by
        refine hframe.resolve_left fun hstarted => ?_
        rw [hnone] at hstarted
        cases hstarted.2
      rw [hcreated] at hptr
      refine .inr (.inr ⟨hlt, ?_, ?_⟩)
      · simp [weakThis, AsyncClient.installOwner, hnone]
      · simpa [streamWriter, AsyncClient.installOwner, hw] using hptr

theorem CallsOk.setFrame (h : s.CallsOk) {c : Nat} {stage : Option FrameStage}
    (hold : s.frames c = some .shared ∨ s.frames c = some .added)
    (hnew : stage = some .added ∨ stage = none)
    (hframes : s'.frames = Function.update s.frames c stage := by rfl)
    (hnext : s'.nextCall = s.nextCall := by rfl) (hweak : s'.weakThis = s.weakThis := by rfl)
    (hwriter : s'.streamWriter = s.streamWriter := by rfl) : s'.CallsOk := by
  have hlt : c < s.nextCall := by
    apply h.lt_of_frame
    cases hold with
    | inl hold => rw [hold]; nofun
    | inr hold => rw [hold]; nofun
  have hpast : s.frames c ≠ some .started := by
    cases hold with
    | inl hold => rw [hold]; nofun
    | inr hold => rw [hold]; nofun
  have hpast' : stage ≠ some .started ∧ stage ≠ some .writerCreated := by
    cases hnew with
    | inl hnew => subst hnew; exact ⟨nofun, nofun⟩
    | inr hnew => subst hnew; exact ⟨nofun, nofun⟩
  refine h.update c hnext (fun b hb => ?_) ?_
  · rw [hweak, hwriter, hframes]
    exact ⟨rfl, rfl, Function.update_of_ne hb _ _⟩
  · unfold CallOk
    rw [hnext, hweak, hwriter, hframes, Function.update_self]
    obtain ⟨hle, -⟩ | hunary | hstream := h c
    · exact absurd hlt (Nat.not_lt.mpr hle)
    · simp only [ne_eq, hpast, hpast', not_false_eq_true, decide_true] at hunary ⊢
      exact .inr (.inl ⟨hunary.1, hunary.2.1, hunary.2.2.1, trivial⟩)
    · simp only [hpast, hpast', if_false] at hstream ⊢
      exact .inr (.inr hstream)

theorem setResponse_weakThis {call call' : AsyncUnaryCall Response}
    (h : call.setResponse = some call') : call'.weakThis = call.weakThis := by
  unfold AsyncUnaryCall.setResponse at h
  split at h <;>
  · obtain ⟨p, -, rfl⟩ := Option.map_eq_some_iff.mp h
    rfl

theorem markStreamWriterReady_streamWriter {owner owner' : AsyncClientStreamCall Response}
    (h : owner.markStreamWriterReady = some owner') : owner'.streamWriter = owner.streamWriter := by
  obtain ⟨p, -, rfl⟩ := Option.map_eq_some_iff.mp h
  rfl

theorem responseCallback_weakThis {c : Nat} {call : AsyncUnaryCall Response} (run : CallbackRun)
    (hcall : s.unaryCalls c = some call) :
    (s.responseCallback c call run).weakThis = s.weakThis := by
  unfold responseCallback
  split
  · exact map_update_of_eq hcall rfl
  · rfl

theorem responseCallback_others (c : Nat) (call : AsyncUnaryCall Response) (run : CallbackRun)
    (s : AsyncClient Tid Request Response) :
    (s.responseCallback c call run).streamCalls = s.streamCalls ∧
      (s.responseCallback c call run).frames = s.frames ∧
      (s.responseCallback c call run).nextCall = s.nextCall ∧
      (s.responseCallback c call run).streamingCalls = s.streamingCalls ∧
      (s.responseCallback c call run).tags = s.tags ∧
      (s.responseCallback c call run).dead = s.dead := by
  unfold responseCallback
  split <;> exact ⟨rfl, rfl, rfl, rfl, rfl, rfl⟩

theorem nextCall_move [DecidableEq Tid] [Inhabited Response] {e : Event Tid Request Response}
    (hmove : Move s e s') : s.nextCall ≤ s'.nextCall := by
  cases hmove with
  | callUnary | callClientStream => exact Nat.le_succ _
  | @calledBack c run call _ _ =>
      obtain ⟨-, -, hnext, -⟩ := responseCallback_others c call run s
      exact Nat.le_of_eq hnext.symm
  | createWriter _ _ | installOwner _ | addStreamingCall _ | returned _ | dropRef
  | gotUnaryFinish _ _ _ | gotCallStart _ _ | gotStreamAction _ _ _ | responded _ _ _
  | futureError _ _ _ | sharedFromThis _ _ _ | badWeakPtr _ _ _ | onCallDead _ | released _
  | streamWriterReady _ _ _ | streamWriterReadyTwice _ _ _ | writerCompletion _ _ _ _
  | runCallback _ | writer _ _ _ => exact Nat.le_refl _

theorem CallsOk.move [DecidableEq Tid] [Inhabited Response] {e : Event Tid Request Response}
    (h : s.CallsOk) (hmove : Move s e s') : s'.CallsOk := by
  cases hmove with
  | callUnary => exact h.newUnaryCall _ _
  | callClientStream => exact h.newStreamCall
  | createWriter hframe hcall => exact h.createWriter hframe hcall
  | installOwner hframe => exact h.installOwner hframe
  | addStreamingCall hframe => exact h.setFrame (.inl hframe) (.inl rfl)
  | returned hframe => exact h.setFrame (.inr hframe) (.inr rfl)
  | dropRef | gotCallStart _ _ | futureError _ _ _ | sharedFromThis _ _ _ | badWeakPtr _ _ _
  | onCallDead _ | released _ | streamWriterReadyTwice _ _ _ | runCallback _ => exact h.congr
  | gotUnaryFinish _ _ hcall => exact h.congr (map_update_of_eq hcall rfl)
  | responded _ hcall hset =>
      exact h.congr (map_update_of_eq hcall (setResponse_weakThis hset))
  | @calledBack c run call _ hcall =>
      obtain ⟨hstream, hframes, hnext, -⟩ := responseCallback_others c call run s
      refine h.congr (responseCallback_weakThis run hcall) ?_ hframes hnext
      funext b
      simp only [streamWriter, hstream]
  | streamWriterReady _ hcall hset =>
      exact h.congr rfl (map_update_of_eq hcall (markStreamWriterReady_streamWriter hset))
  | gotStreamAction _ hcall hstep | writerCompletion _ hcall hstep _ | writer hcall _ hstep =>
      have hkept := (AsyncClientStreamWriter.step_streamWriter hstep).1
      exact h.congr rfl (map_update_of_eq hcall hkept)

end Calls

section Completing

variable {s s' : AsyncClient Tid Request Response}

theorem Completing.of_perm (h : s.Completing) (hunary : s.unaryIds.Perm s'.unaryIds)
    (hstart : s.startIds.Perm s'.startIds)
    (hcalls : ∀ c, (s.unaryCalls c).isSome → (s'.unaryCalls c).isSome)
    (hpromise : ∀ c ∈ s'.startIds, s.streamWriterPromise c = some .pending →
      s'.streamWriterPromise c = some .pending) : s'.Completing where
  unaryNodup := hunary.nodup_iff.mp h.unaryNodup
  unaryCall c hc := hcalls c (h.unaryCall c (hunary.mem_iff.mpr hc))
  startNodup := hstart.nodup_iff.mp h.startNodup
  startPending c hc := hpromise c hc (h.startPending c (hstart.mem_iff.mpr hc))

theorem Completing.congr (h : s.Completing)
    (hpromise : s'.streamWriterPromise = s.streamWriterPromise := by rfl)
    (hpoller : (s'.poller.unary?, s'.poller.start?) = (s.poller.unary?, s.poller.start?) := by rfl)
    (hcalls : ∀ c, (s.unaryCalls c).isSome → (s'.unaryCalls c).isSome := by exact fun _ hc => hc)
    (htags : s'.tags = s.tags := by rfl) (hdead : s'.dead = s.dead := by rfl) :
    s'.Completing := by
  obtain ⟨hunary, hstart⟩ := Prod.mk.inj hpoller
  have hunaryIds : s'.unaryIds = s.unaryIds := by
    rw [unaryIds, unaryIds, htags, hunary, hdead]
  have hstartIds : s'.startIds = s.startIds := by
    rw [startIds, startIds, htags, hstart]
  exact h.of_perm (hunaryIds ▸ .refl _) (hstartIds ▸ .refl _) hcalls
    fun c _ hpending => hpromise ▸ hpending

/-- A Finish that the polling thread is working on is nowhere else. -/
theorem Completing.finalizing (h : s.Completing) {c : Nat} (hpoller : s.poller.unary? = [c]) :
    (s.unaryCalls c).isSome ∧ .unaryFinish c ∉ s.tags ∧ c ∉ s.dead := by
  have hnodup := h.unaryNodup
  rw [unaryIds, hpoller, List.nodup_append, List.nodup_append] at hnodup
  obtain ⟨⟨-, -, htags⟩, -, hdead⟩ := hnodup
  refine ⟨?_, fun hmem => ?_, fun hmem => ?_⟩
  · apply h.unaryCall c
    rw [unaryIds, hpoller]
    exact List.mem_append_left _ (List.mem_append_right _ List.mem_cons_self)
  · exact htags c (List.mem_filterMap.mpr ⟨_, hmem, rfl⟩) c List.mem_cons_self rfl
  · exact hdead c (List.mem_append_right _ List.mem_cons_self) c hmem rfl

theorem isSome_update {α : Type} {f : Nat → Option α} {c : Nat} (a : α) (b : Nat)
    (hb : (f b).isSome) : (Function.update f c (some a) b).isSome := by
  by_cases heq : b = c
  · subst heq
    rw [Function.update_self]
    rfl
  · rwa [Function.update_of_ne heq]

theorem Completing.newUnaryCall [Inhabited Response] (h : s.Completing) (hcalls : s.CallsOk)
    (request : Request) (hasCallback : Bool) : (s.newUnaryCall request hasCallback).Completing := by
  have hfresh : s.nextCall ∉ s.unaryIds := by
    intro hmem
    have hlt := (hcalls.unary (h.unaryCall _ hmem)).1
    exact Nat.lt_irrefl _ hlt
  have hids : (s.nextCall :: s.unaryIds).Perm (s.newUnaryCall request hasCallback).unaryIds := by
    simp only [unaryIds, AsyncClient.newUnaryCall, List.filterMap_append, List.append_assoc]
    exact List.perm_middle.symm
  have hstart : (s.newUnaryCall request hasCallback).startIds = s.startIds := by
    simp [startIds, AsyncClient.newUnaryCall, Tag.start?]
  refine ⟨?_, ?_, hstart ▸ h.startNodup, fun c hc => h.startPending c (hstart ▸ hc)⟩
  · exact hids.nodup_iff.mp (List.nodup_cons.mpr ⟨hfresh, h.unaryNodup⟩)
  · intro c hc
    have hor := List.mem_cons.mp (hids.mem_iff.mpr hc)
    cases hor with
    | inl heq => simp [AsyncClient.newUnaryCall, heq]
    | inr hold => exact isSome_update _ c (h.unaryCall c hold)

theorem Completing.newStreamCall [Inhabited Response] (h : s.Completing) (hcalls : s.CallsOk) :
    s.newStreamCall.Completing := by
  have hstream : ∀ c ∈ s.startIds, c ≠ s.nextCall := by
    rintro c hc rfl
    obtain ⟨w, hw, -⟩ := Option.map_eq_some_iff.mp (h.startPending _ hc)
    have hlt := (hcalls.stream (by rw [hw]; rfl)).1
    exact Nat.lt_irrefl _ hlt
  have hids : (s.nextCall :: s.startIds).Perm s.newStreamCall.startIds := by
    simp only [startIds, AsyncClient.newStreamCall, List.filterMap_append, List.append_assoc]
    exact List.perm_middle.symm
  have hunary : s.newStreamCall.unaryIds = s.unaryIds := by
    simp [unaryIds, AsyncClient.newStreamCall, Tag.unary?]
  refine ⟨hunary ▸ h.unaryNodup, fun c hc => h.unaryCall c (hunary ▸ hc), ?_, ?_⟩
  · refine hids.nodup_iff.mp (List.nodup_cons.mpr ⟨fun hmem => ?_, h.startNodup⟩)
    exact hstream _ hmem rfl
  · intro c hc
    have hor := List.mem_cons.mp (hids.mem_iff.mpr hc)
    cases hor with
    | inl heq => simp [streamWriterPromise, AsyncClient.newStreamCall, heq]
    | inr hold =>
        have hne := hstream c hold
        have hpending := h.startPending c hold
        simpa [streamWriterPromise, AsyncClient.newStreamCall, hne] using hpending

theorem isSome_map_update {α : Type} {f : Nat → Option α} {c : Nat} (g : α → α) (b : Nat)
    (hb : (f b).isSome) : (Function.update f c ((f c).map g) b).isSome := by
  by_cases heq : b = c
  · subst heq
    rw [Function.update_self, Option.isSome_map]
    exact hb
  · rwa [Function.update_of_ne heq]

theorem map_map_update_of_eq {α β : Type} {f : Nat → Option α} {g : α → β} {u : α → α} (c : Nat)
    (heq : ∀ a, g (u a) = g a) :
    (fun n => (Function.update f c ((f c).map u) n).map g) = fun n => (f n).map g := by
  funext n
  by_cases hn : n = c
  · subst hn
    rw [Function.update_self, Option.map_map]
    exact congrArg (fun k => (f n).map k) (funext heq)
  · rw [Function.update_of_ne hn]

theorem Completing.gotUnaryFinish (h : s.Completing) {c : Nat} {call : AsyncUnaryCall Response}
    {delivered : List (Delivered Response)} (hpoller : s.poller = .idle)
    (htag : .unaryFinish c ∈ s.tags) :
    Completing { s with
      tags := s.tags.erase (.unaryFinish c)
      unaryCalls := Function.update s.unaryCalls c (some call)
      delivered := delivered
      poller := .unary c .responding } := by
  have htags := List.perm_cons_erase htag
  refine h.of_perm ?_ ?_ (isSome_update _) fun _ _ hpending => hpending
  · have hperm := (htags.filterMap Tag.unary?).append_right s.dead
    simp only [unaryIds, hpoller, Poller.unary?, List.append_nil]
    apply hperm.trans
    rw [List.append_assoc]
    exact List.perm_middle.symm
  · have hperm := htags.filterMap Tag.start?
    rw [List.filterMap_cons_none rfl] at hperm
    simpa [startIds, hpoller, Poller.start?] using hperm

theorem Completing.gotCallStart (h : s.Completing) {c : Nat} (hpoller : s.poller = .idle)
    (htag : .callStart c ∈ s.tags) :
    Completing { s with tags := s.tags.erase (.callStart c), poller := .callStart c } := by
  have htags := List.perm_cons_erase htag
  refine h.of_perm ?_ ?_ (fun _ hc => hc) fun _ _ hpending => hpending
  · have hperm := (htags.filterMap Tag.unary?).append_right s.dead
    rw [List.filterMap_cons_none rfl] at hperm
    simpa [unaryIds, hpoller, Poller.unary?] using hperm
  · have hperm := htags.filterMap Tag.start?
    simp only [startIds, hpoller, Poller.start?, List.append_nil]
    exact hperm.trans (List.perm_append_singleton _ _).symm

theorem Completing.streamWriterReady (h : s.Completing) {c : Nat}
    {w : AsyncClientStreamWriter Tid Request Response} (hpoller : s.poller = .callStart c) :
    Completing { s with
      streamCalls := Function.update s.streamCalls c (some w)
      poller := .idle } := by
  have hnodup := h.startNodup
  have hids : s.startIds = s.tags.filterMap Tag.start? ++ [c] := by
    rw [startIds, hpoller]
    rfl
  rw [hids] at hnodup
  have hunary : s.unaryIds = s.tags.filterMap Tag.unary? ++ s.dead := by
    rw [unaryIds, hpoller]
    exact congrArg (· ++ s.dead) (List.append_nil _)
  refine ⟨?_, ?_, ?_, ?_⟩
  · have hold := h.unaryNodup
    rw [hunary] at hold
    simpa [unaryIds, Poller.unary?] using hold
  · intro b hb
    apply h.unaryCall b
    rw [hunary]
    simpa [unaryIds, Poller.unary?] using hb
  · simpa [startIds, Poller.start?] using hnodup.of_append_left
  · intro b hb
    have hb' : b ∈ s.tags.filterMap Tag.start? := by
      simpa [startIds, Poller.start?] using hb
    have hne : b ≠ c := fun heq =>
      (List.nodup_append.mp hnodup).2.2 b hb' c List.mem_cons_self heq
    have hpending := h.startPending b (hids ▸ List.mem_append_left _ hb')
    simpa [streamWriterPromise, hne] using hpending

theorem Completing.move [DecidableEq Tid] [Inhabited Response] {e : Event Tid Request Response}
    (h : s.Completing) (hcalls : s.CallsOk) (hmove : Move s e s') : s'.Completing := by
  cases hmove with
  | callUnary => exact h.newUnaryCall hcalls _ _
  | callClientStream => exact h.newStreamCall hcalls
  | createWriter _ _ =>
      exact h.congr (map_map_update_of_eq _ fun _ => rfl)
  | installOwner _ =>
      exact h.congr (map_map_update_of_eq _ fun _ => rfl) rfl (isSome_map_update _)
  | addStreamingCall _ | returned _ | dropRef | futureError _ _ _ | badWeakPtr _ _ _
  | streamWriterReadyTwice _ _ _ | runCallback _ => exact h.congr
  | gotUnaryFinish hpoller htag _ => exact h.gotUnaryFinish hpoller htag
  | gotCallStart hpoller htag => exact h.gotCallStart hpoller htag
  | gotStreamAction hpoller hcall hstep =>
      have hkept := (AsyncClientStreamWriter.step_streamWriter hstep).2
      exact h.congr (map_update_of_eq hcall hkept) (by rw [hpoller]; rfl)
  | responded hpoller hcall _ =>
      exact h.congr rfl (by rw [hpoller]; rfl) (isSome_update _)
  | @calledBack c run call hpoller hcall =>
      obtain ⟨hstream, -, -, -, htags, hdead⟩ := responseCallback_others c call run s
      refine h.congr ?_ (by rw [hpoller]; rfl) ?_ htags hdead
      · funext b
        simp only [streamWriterPromise, hstream]
      · simp only [responseCallback]
        split
        · exact isSome_update _
        · exact fun _ hc => hc
  | sharedFromThis hpoller _ _ =>
      exact h.congr rfl (by rw [hpoller]; rfl)
  | onCallDead hpoller =>
      refine h.of_perm ?_ (by simp [startIds, hpoller, Poller.start?, AsyncClient.onCallDead,
        removeStreamingCall]) (fun _ hc => hc) fun _ _ hpending => hpending
      simp only [unaryIds, hpoller, Poller.unary?, AsyncClient.onCallDead, removeStreamingCall,
        List.append_nil, List.append_assoc]
      exact List.perm_append_comm.append_left _
  | released hpoller =>
      exact h.congr rfl (by rw [hpoller]; rfl)
  | streamWriterReady hpoller _ _ => exact h.streamWriterReady hpoller
  | writerCompletion hpoller hcall hstep hnext =>
      have hkept := (AsyncClientStreamWriter.step_streamWriter hstep).2
      refine h.congr (map_update_of_eq hcall hkept) ?_
      rw [hpoller]
      cases hnext with
      | inl heq => subst heq; rfl
      | inr heq => subst heq; rfl
  | writer hcall _ hstep =>
      have hkept := (AsyncClientStreamWriter.step_streamWriter hstep).2
      exact h.congr (map_update_of_eq hcall hkept)

end Completing

section Tracking

variable {s s' : AsyncClient Tid Request Response}

theorem Tracking.congr (h : s.Tracking) (hframes : s'.frames = s.frames := by rfl)
    (hnext : s'.nextCall = s.nextCall := by rfl)
    (hset : s'.streamingCalls = s.streamingCalls := by rfl)
    (hdead : s'.dead = s.dead := by rfl) : s'.Tracking := by
  have hpending : s'.Pending = s.Pending := by
    funext c
    simp only [Pending, hframes]
  refine ⟨?_, ?_⟩
  · rw [hset, hnext, hpending]
    exact h.inserted
  · rw [hset, hnext, hpending, hdead]
    exact h.kept

theorem Tracking.alloc (h : s.Tracking) (hnext : s'.nextCall = s.nextCall + 1 := by rfl)
    (hframes : s'.frames = Function.update s.frames s.nextCall (some .started) := by rfl)
    (hset : s'.streamingCalls = s.streamingCalls := by rfl)
    (hdead : s'.dead = s.dead := by rfl) : s'.Tracking := by
  have hothers : ∀ c, c ≠ s.nextCall → (s'.Pending c ↔ s.Pending c) := by
    intro c hc
    simp only [Pending, hframes, Function.update_of_ne hc]
  refine ⟨fun c hc => ?_, fun c hc hout hnot => ?_⟩
  · rw [hset] at hc
    obtain ⟨hlt, hdone⟩ := h.inserted c hc
    rw [hnext, hothers c (Nat.ne_of_lt hlt)]
    exact ⟨Nat.lt_succ_of_lt hlt, hdone⟩
  · rw [hset] at hout
    rw [hdead]
    by_cases hnew : c = s.nextCall
    · refine absurd ?_ hnot
      left
      rw [hframes, hnew, Function.update_self]
    · rw [hothers c hnew] at hnot
      exact h.kept c (by omega) hout hnot

theorem Tracking.advance (h : s.Tracking) {c : Nat} {stage : FrameStage} (hold : s.Pending c)
    (hstage : stage = .writerCreated ∨ stage = .shared)
    (hframes : s'.frames = Function.update s.frames c (some stage) := by rfl)
    (hnext : s'.nextCall = s.nextCall := by rfl)
    (hset : s'.streamingCalls = s.streamingCalls := by rfl)
    (hdead : s'.dead = s.dead := by rfl) : s'.Tracking := by
  have hpending : s'.Pending = s.Pending := by
    funext b
    by_cases hb : b = c
    · subst hb
      refine propext (iff_of_true ?_ hold)
      right
      rw [hframes, Function.update_self, Option.some.injEq, Option.some.injEq]
      exact hstage
    · simp only [Pending, hframes, Function.update_of_ne hb]
  refine ⟨?_, ?_⟩
  · rw [hset, hnext, hpending]
    exact h.inserted
  · rw [hset, hnext, hpending, hdead]
    exact h.kept

theorem Tracking.add (h : s.Tracking) (hcalls : s.CallsOk) {c : Nat}
    (hframe : s.frames c = some .shared) :
    Tracking { s.addStreamingCall c with frames := Function.update s.frames c (some .added) } := by
  refine ⟨fun b hb => ?_, fun b hb hout hnot => ?_⟩
  · have hor : b = c ∨ b ∈ s.streamingCalls := Finset.mem_insert.mp hb
    by_cases heq : b = c
    · subst heq
      refine ⟨hcalls.lt_of_frame (by rw [hframe]; nofun), ?_⟩
      simp [Pending]
    · obtain ⟨hlt, hdone⟩ := h.inserted b (hor.resolve_left heq)
      refine ⟨hlt, ?_⟩
      simpa [Pending, heq] using hdone
  · have hnotin : b ≠ c ∧ b ∉ s.streamingCalls := by
      simpa [addStreamingCall, not_or] using hout
    apply h.kept b hb hnotin.2
    simpa [Pending, hnotin.1] using hnot

theorem Tracking.returned (h : s.Tracking) {c : Nat} (hframe : s.frames c = some .added) :
    Tracking { s with frames := Function.update s.frames c none, userRefs := s.userRefs ++ [c] } := by
  have hpending : ∀ b, (Function.update s.frames c none b = some .started ∨
      Function.update s.frames c none b = some .writerCreated ∨
      Function.update s.frames c none b = some .shared) ↔ s.Pending b := by
    intro b
    by_cases hb : b = c
    · subst hb
      simp [Pending, hframe]
    · simp only [Pending, Function.update_of_ne hb]
  refine ⟨fun b hb => ?_, fun b hb hout hnot => ?_⟩
  · obtain ⟨hlt, hdone⟩ := h.inserted b hb
    exact ⟨hlt, fun hnew => hdone ((hpending b).mp hnew)⟩
  · exact h.kept b hb hout fun hold => hnot ((hpending b).mpr hold)

theorem Tracking.onCallDead (h : s.Tracking) (c : Nat) (poller : Poller) :
    Tracking { s.onCallDead c with poller := poller } := by
  refine ⟨fun b hb => h.inserted b (Finset.mem_of_mem_erase hb), fun b hb hout hnot => ?_⟩
  change b ∈ s.dead ++ [c]
  by_cases heq : b = c
  · exact List.mem_append_right _ (heq ▸ List.mem_cons_self)
  · refine List.mem_append_left _ (h.kept b hb (fun hin => hout ?_) hnot)
    exact Finset.mem_erase.mpr ⟨heq, hin⟩

theorem Tracking.move [DecidableEq Tid] [Inhabited Response] {e : Event Tid Request Response}
    (h : s.Tracking) (hcalls : s.CallsOk) (hmove : Move s e s') : s'.Tracking := by
  cases hmove with
  | callUnary | callClientStream => exact h.alloc
  | createWriter hframe _ => exact h.advance (.inl hframe) (.inl rfl)
  | installOwner hframe =>
      refine h.advance ?_ (.inr rfl)
      cases hframe with
      | inl hframe => exact .inl hframe.1
      | inr hframe => exact .inr (.inl hframe)
  | addStreamingCall hframe => exact h.add hcalls hframe
  | returned hframe => exact h.returned hframe
  | onCallDead _ => exact h.onCallDead _ _
  | @calledBack c run call _ _ =>
      obtain ⟨-, hframes, hnext, hset, -, hdead⟩ := responseCallback_others c call run s
      exact h.congr hframes hnext hset hdead
  | dropRef | gotUnaryFinish _ _ _ | gotCallStart _ _ | gotStreamAction _ _ _ | responded _ _ _
  | futureError _ _ _ | sharedFromThis _ _ _ | badWeakPtr _ _ _ | released _
  | streamWriterReady _ _ _ | streamWriterReadyTwice _ _ _ | writerCompletion _ _ _ _
  | runCallback _ | writer _ _ _ => exact h.congr

end Tracking

section Runs

variable [DecidableEq Tid] [Inhabited Response] {s s' : AsyncClient Tid Request Response}

theorem Inv.move {e : Event Tid Request Response} (h : s.Inv) (hmove : Move s e s') : s'.Inv :=
  ⟨h.calls.move hmove, h.completing.move h.calls hmove, h.tracking.move h.calls hmove⟩

theorem Inv.step {e : Event Tid Request Response} (h : s.Inv) (hstep : s.step e = some s') :
    s'.Inv :=
  h.move (step_cases hstep).2

omit [DecidableEq Tid] [Inhabited Response] in
variable (Tid Request Response) in
theorem initial_inv : Inv ({} : AsyncClient Tid Request Response) where
  calls c := .inl ⟨Nat.zero_le c, rfl, rfl, rfl⟩
  completing := ⟨List.nodup_nil, nofun, List.nodup_nil, nofun⟩
  tracking := ⟨nofun, nofun⟩

theorem inv_of_run {es : List (Event Tid Request Response)}
    (hrun : (system Tid Request Response).run {} es = some s) : s.Inv :=
  TransitionSystem.run_invariant (fun _ _ _ h hstep => h.step hstep)
    (initial_inv Tid Request Response) hrun

end Runs

end EasyGrpc.Client.AsyncClient
