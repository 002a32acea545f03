import EasyGrpc.Client.ClientLifetime
import EasyGrpc.Proof.ClientTracking

/-!
# The lifetime of a call

An action points to its call and owns nothing. A call with an operation that gRPC or the polling
thread still has is not dead, so it is in the set of the client or its frame of `call` has yet to insert
it; the dead callback brings its own owner. And once a call has no owner it never gets one again.
-/

namespace EasyGrpc.Client

variable {Tid Request Response : Type}

namespace AsyncClient

variable {s s' : AsyncClient Tid Request Response}

/-- An operation of the call is outstanding, or the polling thread is in its finaliser. -/
def InUse (s : AsyncClient Tid Request Response) (c : Nat) : Prop :=
  .unaryFinish c ∈ s.tags ∨ .callStart c ∈ s.tags ∨
    (∃ w, s.streamCalls c = some w ∧ w.outstanding ≠ []) ∨
    (∃ stage, s.poller = .unary c stage) ∨ s.poller = .callStart c ∨ s.poller = .writer c

/-- The call is in the set, or `call` has yet to insert it, or the dead callback was given an owner. -/
def KeptAlive (s : AsyncClient Tid Request Response) (c : Nat) : Prop :=
  c ∈ s.streamingCalls ∨ s.Pending c ∨ s.poller = .unary c .burying ∨ s.poller = .unary c .releasing

def Tag.call : Tag → Nat
  | .unaryFinish c => c
  | .callStart c => c
  | .streamAction c _ => c

def Poller.call? : Poller → Option Nat
  | .idle => none
  | .unary c _ => some c
  | .callStart c => some c
  | .writer c => some c

def Accesses (s : AsyncClient Tid Request Response) (c : Nat) : Event Tid Request Response → Prop
  | .asyncNext tag _ _ _ => tag.call = c
  | .poll _ => s.poller.call? = some c
  | _ => False

theorem KeptAlive.held {c : Nat} (h : s.KeptAlive c) : s.Held c := by
  rcases h with hin | hpending | hburying | hreleasing
  · exact .inl (.inl hin)
  · rcases hpending with hstarted | hcreated | hshared
    · exact .inr (.inl hstarted)
    · exact .inr (.inr hcreated)
    · exact .inl (.inr (.inl hshared))
  · exact .inl (by simp [Owned, hburying])
  · exact .inl (by simp [Owned, hreleasing])

def WriterPolled (s : AsyncClient Tid Request Response) : Prop :=
  ∀ c, s.poller = .writer c → (s.streamCalls c).isSome

theorem Inv.keptAlive_of_not_dead (h : s.Inv) {c : Nat} (hlt : c < s.nextCall) (halive : c ∉ s.dead) :
    s.KeptAlive c := by
  by_cases hin : c ∈ s.streamingCalls
  · exact .inl hin
  · by_cases hpending : s.Pending c
    · exact .inr (.inl hpending)
    · exact absurd (h.tracking.kept c hlt hin hpending) halive

theorem Inv.keptAlive_of_stream (h : s.Inv) {c : Nat} (hc : (s.streamCalls c).isSome) :
    s.KeptAlive c :=
  h.keptAlive_of_not_dead (h.calls.stream hc).1 (h.not_dead_of_stream hc)

theorem Inv.keptAlive_of_start (h : s.Inv) {c : Nat} (hc : c ∈ s.startIds) : s.KeptAlive c := by
  obtain ⟨w, hw, -⟩ := Option.map_eq_some_iff.mp (h.completing.startPending c hc)
  apply h.keptAlive_of_stream
  rw [hw]
  rfl

theorem Inv.keptAlive_of_finalizing (h : s.Inv) {c : Nat} (hpoller : s.poller.unary? = [c]) :
    s.KeptAlive c := by
  obtain ⟨hsome, -, halive⟩ := h.completing.finalizing hpoller
  exact h.keptAlive_of_not_dead (h.calls.unary hsome).1 halive

/-- **No gap between owners.** What is in use is kept alive. -/
theorem Inv.keptAlive (h : s.Inv) (hpolled : s.WriterPolled) {c : Nat} (hc : s.InUse c) :
    s.KeptAlive c := by
  rcases hc with htag | htag | ⟨w, hw, -⟩ | ⟨stage, hpoller⟩ | hpoller | hpoller
  · have hid : c ∈ s.tags.filterMap Tag.unary? := List.mem_filterMap.mpr ⟨_, htag, rfl⟩
    have hmem : c ∈ s.tags.filterMap Tag.unary? ++ s.poller.unary? := List.mem_append_left _ hid
    have hsome := h.completing.unaryCall c (List.mem_append_left _ hmem)
    apply h.keptAlive_of_not_dead (h.calls.unary hsome).1
    intro hdead
    exact (List.nodup_append.mp h.completing.unaryNodup).2.2 c hmem c hdead rfl
  · have hid : c ∈ s.tags.filterMap Tag.start? := List.mem_filterMap.mpr ⟨_, htag, rfl⟩
    exact h.keptAlive_of_start (List.mem_append_left _ hid)
  · apply h.keptAlive_of_stream
    rw [hw]
    rfl
  · cases stage with
    | responding | callingBack | sharing | burying =>
        exact h.keptAlive_of_finalizing (by rw [hpoller]; rfl)
    | releasing => exact .inr (.inr (.inr hpoller))
  · apply h.keptAlive_of_start
    rw [startIds, hpoller]
    exact List.mem_append_right _ List.mem_cons_self
  · exact h.keptAlive_of_stream (hpolled c hpoller)

theorem held_of_frame {c : Nat} {stage : FrameStage} (hframe : s.frames c = some stage) : s.Held c := by
  cases stage with
  | started => exact .inr (.inl hframe)
  | writerCreated => exact .inr (.inr hframe)
  | shared => exact .inl (.inr (.inl hframe))
  | added => exact .inl (.inr (.inr (.inl hframe)))

/-- A call that nobody holds is not held again: its first owner comes from its frame of `call`, and
whoever shares a call finds an owner. -/
theorem held_move [DecidableEq Tid] [Inhabited Response] {e : Event Tid Request Response}
    (hmove : Move s e s') {c : Nat} (hlt : c < s.nextCall) (hheld : s'.Held c) : s.Held c := by
  cases hmove with
  | callUnary | callClientStream =>
      have hne : c ≠ s.nextCall := Nat.ne_of_lt hlt
      simpa [Held, Owned, newUnaryCall, newStreamCall, hne] using hheld
  | @createWriter b hframe _ | @addStreamingCall b hframe | @returned b hframe =>
      by_cases hc : c = b
      · exact held_of_frame (hc ▸ hframe)
      · simpa [Held, Owned, createWriter, addStreamingCall, hc] using hheld
  | @installOwner b hframe =>
      by_cases hc : c = b
      · subst hc
        cases hframe with
        | inl hstarted => exact held_of_frame hstarted.1
        | inr hcreated => exact held_of_frame hcreated
      · simpa [Held, Owned, installOwner, hc] using hheld
  | dropRef =>
      refine hheld.imp_left fun howned => ?_
      rcases howned with hin | hshared | hadded | huser | hpoller
      · exact .inl hin
      · exact .inr (.inl hshared)
      · exact .inr (.inr (.inl hadded))
      · exact .inr (.inr (.inr (.inl (List.mem_of_mem_erase huser))))
      · exact .inr (.inr (.inr (.inr hpoller)))
  | gotUnaryFinish hpoller _ _ | gotCallStart hpoller _ | gotStreamAction hpoller _ _
  | responded hpoller _ _ | streamWriterReady hpoller _ _ =>
      simpa [Held, Owned, hpoller] using hheld
  | calledBack hpoller _ =>
      unfold responseCallback at hheld
      split at hheld <;> simpa [Held, Owned, hpoller] using hheld
  | @sharedFromThis b run call hpoller _ howned =>
      by_cases hc : c = b
      · exact hc ▸ .inl howned.2
      · simpa [Held, Owned, hpoller, Ne.symm hc] using hheld
  | @onCallDead b run hpoller =>
      by_cases hc : c = b
      · exact .inl (by simp [Owned, hpoller, hc])
      · simpa [Held, Owned, hpoller, hc, Ne.symm hc, onCallDead, removeStreamingCall] using hheld
  | @released b run hpoller =>
      by_cases hc : c = b
      · exact .inl (by simp [Owned, hpoller, hc])
      · simpa [Held, Owned, hpoller, Ne.symm hc] using hheld
  | writerCompletion hpoller _ _ hnext =>
      rcases hnext with rfl | rfl <;> simpa [Held, Owned, hpoller] using hheld
  | futureError _ _ _ | badWeakPtr _ _ _ | streamWriterReadyTwice _ _ _ | runCallback _
  | writer _ _ _ => exact hheld

theorem WriterPolled.move [DecidableEq Tid] [Inhabited Response] {e : Event Tid Request Response}
    (h : s.WriterPolled) (hmove : Move s e s') : s'.WriterPolled := by
  cases hmove with
  | callUnary | addStreamingCall _ | returned _ | dropRef | futureError _ _ _ | badWeakPtr _ _ _
  | streamWriterReadyTwice _ _ _ | runCallback _ => exact h
  | callClientStream => exact fun c hpoller => isSome_update _ c (h c hpoller)
  | createWriter _ _ | installOwner _ => exact fun c hpoller => isSome_map_update _ c (h c hpoller)
  | writer _ _ _ => exact fun c hpoller => isSome_update _ c (h c hpoller)
  | gotUnaryFinish _ _ _ | gotCallStart _ _ | responded _ _ _ | calledBack _ _
  | sharedFromThis _ _ _ | onCallDead _ | released _ | streamWriterReady _ _ _ =>
      intro c hpoller
      cases hpoller
  | gotStreamAction _ _ _ =>
      intro c hpoller
      cases hpoller
      simp
  | writerCompletion _ _ _ hnext =>
      intro c hpoller
      rcases hnext with rfl | rfl
      · cases hpoller
      · cases hpoller
        simp

end AsyncClient

namespace ClientLifetime

open AsyncClient (InUse KeptAlive Accesses)

variable [DecidableEq Tid] [Inhabited Response] {s s' : ClientLifetime Tid Request Response}

inductive Move (s : ClientLifetime Tid Request Response) :
    Event Tid Request Response → ClientLifetime Tid Request Response → Prop where
  | client {e : AsyncClient.Event Tid Request Response} {client : AsyncClient Tid Request Response}
      (hmay : s.mayGoOn e = true) (hstep : s.client.step e = some client) :
      Move s (.client e) (s.advance client)
  | shutdown (hstage : s.stage = .alive) (hunused : s.client.unused = true) :
      Move s .shutdown { s with stage := .shutdown }
  | join (hstage : s.stage = .shutdown) (hdrained : s.client.drained = true) :
      Move s .join { s with stage := .joined }
  | destroyMembers (hstage : s.stage = .joined) :
      Move s .destroyMembers
        { s.setClient { s.client with streamingCalls := ∅ } with stage := .membersDestroyed }

theorem step_cases {e : Event Tid Request Response} (h : s.step e = some s') :
    s.aborted = false ∧ Move s e s' := by
  unfold step at h
  split at h
  · cases h
  · rename_i hrun
    refine ⟨Bool.eq_false_iff.mpr hrun, ?_⟩
    cases e with
    | client e =>
        simp only at h
        split at h
        · rename_i hmay
          obtain ⟨client, hstep, rfl⟩ := Option.map_eq_some_iff.mp h
          exact .client hmay hstep
        · cases h
    | shutdown =>
        simp only at h
        split at h
        · rename_i hguard
          exact Option.some.inj h ▸ .shutdown hguard.1 hguard.2.1
        · cases h
    | join =>
        simp only at h
        split at h
        · rename_i hguard
          exact Option.some.inj h ▸ .join hguard.1 hguard.2.1
        · cases h
    | destroyMembers =>
        simp only at h
        split at h
        · rename_i hguard
          exact Option.some.inj h ▸ .destroyMembers hguard
        · cases h

structure Inv (s : ClientLifetime Tid Request Response) : Prop where
  client : s.stage ≠ .membersDestroyed → s.client.Inv ∧ s.client.WriterPolled
  released : ∀ c ∈ s.destroyed, c < s.client.nextCall ∧ ¬ s.client.Held c
  drained : s.stage = .joined ∨ s.stage = .membersDestroyed → ∀ c, ¬ s.client.InUse c

omit [DecidableEq Tid] [Inhabited Response] in
theorem setClient_released {client : AsyncClient Tid Request Response}
    (h : ∀ c ∈ s.destroyed, c < s.client.nextCall ∧ ¬ s.client.Held c)
    (hnext : s.client.nextCall ≤ client.nextCall)
    (hheld : ∀ c < s.client.nextCall, client.Held c → s.client.Held c) :
    ∀ c ∈ (s.setClient client).destroyed, c < client.nextCall ∧ ¬ client.Held c := by
  intro c hc
  cases Finset.mem_union.mp hc with
  | inl hold =>
      obtain ⟨hlt, hfree⟩ := h c hold
      exact ⟨by omega, fun hnew => hfree (hheld c hlt hnew)⟩
  | inr hnow =>
      obtain ⟨hlt, -, hfree⟩ := Finset.mem_filter.mp hnow
      exact ⟨Finset.mem_range.mp hlt, hfree⟩

omit [DecidableEq Tid] [Inhabited Response] in
theorem not_inUse_of_drained (h : s.client.Inv) (hdrained : s.client.drained = true) (c : Nat) :
    ¬ s.client.InUse c := by
  obtain ⟨hpoller, htags, hwriters⟩ := of_decide_eq_true hdrained
  rintro (htag | htag | ⟨w, hw, houtstanding⟩ | ⟨stage, hbusy⟩ | hbusy | hbusy)
  · simp [htags] at htag
  · simp [htags] at htag
  · have hempty := hwriters c (h.calls.stream (by rw [hw]; rfl)).1
    rw [hw] at hempty
    exact houtstanding (List.isEmpty_iff.mp hempty)
  all_goals simp [hpoller] at hbusy

/-- After the `join` only users and executors go on, which touch no operation. -/
theorem inUse_of_joined {e : AsyncClient.Event Tid Request Response}
    {client : AsyncClient Tid Request Response}
    (hstage : s.stage = .joined ∨ s.stage = .membersDestroyed) (hmay : s.mayGoOn e = true)
    (hmove : AsyncClient.Move s.client e client) (c : Nat) (hc : client.InUse c) :
    s.client.InUse c := by
  have hnot : s.stage ≠ .alive ∧ s.stage ≠ .shutdown := by
    rcases hstage with hstage | hstage <;> rw [hstage] <;> exact ⟨nofun, nofun⟩
  cases e with
  | dropRef b =>
      cases hmove
      exact hc
  | runCallback b =>
      cases hmove
      exact hc
  | callUnary _ _ | callClientStream | frame _ | asyncNext _ _ _ _ | poll _ | writer _ _ =>
      simp [mayGoOn, hnot] at hmay

theorem Inv.step {e : Event Tid Request Response} (h : s.Inv) (hstep : s.step e = some s') :
    s'.Inv := by
  cases (step_cases hstep).2 with
  | @client e client hmay hclient =>
      have hmove := (AsyncClient.step_cases hclient).2
      refine ⟨fun hstage => ?_, ?_, fun hstage c hc => ?_⟩
      · obtain ⟨hinv, hpolled⟩ := h.client hstage
        exact ⟨hinv.move hmove, hpolled.move hmove⟩
      · exact setClient_released h.released (AsyncClient.nextCall_move hmove)
          fun c hlt => AsyncClient.held_move hmove hlt
      · have hjoined : s.stage = .joined ∨ s.stage = .membersDestroyed := hstage
        exact h.drained hjoined c (inUse_of_joined hjoined hmay hmove c hc)
  | shutdown hstage _ =>
      refine ⟨fun _ => h.client (by rw [hstage]; nofun), h.released, fun hlater => ?_⟩
      rcases hlater with hlater | hlater <;> cases hlater
  | join hstage hdrained =>
      have hclient := h.client (by rw [hstage]; nofun)
      exact ⟨fun _ => hclient, h.released, fun _ => not_inUse_of_drained hclient.1 hdrained⟩
  | destroyMembers hstage =>
      refine ⟨fun hlater => absurd rfl hlater, ?_, fun _ => h.drained (.inl hstage)⟩
      refine setClient_released h.released (Nat.le_refl _) fun c _ hheld => ?_
      refine hheld.imp_left fun howned => .inr ?_
      exact howned.resolve_left (Finset.notMem_empty c)

theorem inv_of_reachable (hs : (system Tid Request Response).Reachable s) : s.Inv := by
  refine hs.invariant (I := Inv) ?_ fun s e s' h _ hstep => h.step hstep
  rintro s rfl
  refine ⟨fun _ => ⟨AsyncClient.initial_inv Tid Request Response, nofun⟩, nofun, ?_⟩
  rintro (hstage | hstage) <;> cases hstage

/-- Whatever the polling thread accesses is in use. -/
theorem inUse_of_accesses {e : AsyncClient.Event Tid Request Response}
    {client : AsyncClient Tid Request Response} (hmove : AsyncClient.Move s.client e client)
    {c : Nat} (hc : s.client.Accesses c e) : s.client.InUse c := by
  cases e with
  | asyncNext tag ok status response =>
      cases hmove with
      | gotUnaryFinish _ htag _ => exact .inl (hc ▸ htag)
      | gotCallStart _ htag => exact .inr (.inl (hc ▸ htag))
      | @gotStreamAction b id ok status response w w' _ hcall hstep =>
          obtain rfl : b = c := hc
          refine .inr (.inr (.inl ⟨w, hcall, fun hempty => ?_⟩))
          cases (AsyncClientStreamWriter.step_cases hstep).2 with
          | asyncNext _ ha =>
              rw [hempty] at ha
              cases ha
  | poll run =>
      have hcall : s.client.poller.call? = some c := hc
      cases hpoller : s.client.poller with
      | idle => simp [hpoller, AsyncClient.Poller.call?] at hcall
      | unary b stage =>
          obtain rfl : b = c := by simpa [hpoller, AsyncClient.Poller.call?] using hcall
          exact .inr (.inr (.inr (.inl ⟨stage, hpoller⟩)))
      | callStart b =>
          obtain rfl : b = c := by simpa [hpoller, AsyncClient.Poller.call?] using hcall
          exact .inr (.inr (.inr (.inr (.inl hpoller))))
      | writer b =>
          obtain rfl : b = c := by simpa [hpoller, AsyncClient.Poller.call?] using hcall
          exact .inr (.inr (.inr (.inr (.inr hpoller))))
  | callUnary _ _ | callClientStream | frame _ | dropRef _ | runCallback _ | writer _ _ => cases hc

/-- **Outstanding operations keep their call alive.** -/
theorem inUse_keptAlive (hs : (system Tid Request Response).Reachable s) :
    (∀ c, s.client.InUse c → c ∉ s.destroyed ∧ s.client.KeptAlive c) ∧
      ∀ e s', s.step (.client e) = some s' → ∀ c, s.client.Accesses c e → c ∉ s.destroyed := by
  have h := inv_of_reachable hs
  have halive : ∀ c, s.client.InUse c → c ∉ s.destroyed ∧ s.client.KeptAlive c := by
    intro c hc
    have hstage : s.stage ≠ .membersDestroyed := fun hgone => h.drained (.inr hgone) c hc
    obtain ⟨hinv, hpolled⟩ := h.client hstage
    have hkept := hinv.keptAlive hpolled hc
    exact ⟨fun hgone => (h.released c hgone).2 hkept.held, hkept⟩
  refine ⟨halive, fun e s' hstep c hc => ?_⟩
  cases (step_cases hstep).2 with
  | client _ hclient => exact (halive c (inUse_of_accesses (AsyncClient.step_cases hclient).2 hc)).1

def destroyedInFlight : List (Event Nat String String) :=
  [.client (.callUnary "request" false), .client (.frame 0), .client (.frame 0), .client (.frame 0),
    .client (.dropRef 0), .shutdown]

def finishedInFlight : List (Event Nat String String) :=
  [.client (.asyncNext (.unaryFinish 0) true .OK (some "response")), .client (.poll .returned),
    .client (.poll .returned), .client (.poll .returned), .client (.poll .returned),
    .client (.poll .returned), .join, .destroyMembers]

theorem destroyedInFlight_keptAlive :
    ∃ s, (system Nat String String).run {} destroyedInFlight = some s ∧ s.client.userRefs = [] ∧
      s.client.InUse 0 ∧ 0 ∉ s.destroyed ∧ s.client.KeptAlive 0 ∧
      ∃ s', (system Nat String String).run s finishedInFlight = some s' ∧ 0 ∈ s'.destroyed := by
  have hrun : ∃ s, (system Nat String String).run {} destroyedInFlight = some s ∧
      s.client.userRefs = [] ∧ s.client.tags = [.unaryFinish 0] ∧
      ∃ s', (system Nat String String).run s finishedInFlight = some s' ∧ 0 ∈ s'.destroyed :=
    ⟨_, rfl, rfl, rfl, _, rfl, by decide⟩
  obtain ⟨s, hrun, hrefs, htags, hrest⟩ := hrun
  have hinUse : s.client.InUse 0 := .inl (htags ▸ List.mem_cons_self)
  have hreach := TransitionSystem.reachable_of_run _ (.init rfl) hrun
  obtain ⟨hkept, -⟩ := inUse_keptAlive hreach
  exact ⟨s, hrun, hrefs, hinUse, (hkept 0 hinUse).1, (hkept 0 hinUse).2, hrest⟩

end ClientLifetime

end EasyGrpc.Client
