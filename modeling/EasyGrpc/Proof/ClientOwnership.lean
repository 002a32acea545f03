import EasyGrpc.Proof.ClientInvariant

/-!
# Completions on calls under construction

The constructor of a call starts its operation, so the tag may be back before the constructor is
over. The completion of a unary call then finds no owner to share, and that of a stream call
publishes a pointer nobody has set.
-/

namespace EasyGrpc.Client.AsyncClient

variable {Tid Request Response : Type} [DecidableEq Tid] [Inhabited Response]

structure CompletesConstructed (s : AsyncClient Tid Request Response)
    (e : Event Tid Request Response) (s' : AsyncClient Tid Request Response) : Prop where
  shared : ∀ c run, e = .poll run → s.poller = .unary c .sharing →
    s'.terminated = false ∧ s'.poller = .unary c .burying
  published : ∀ c run, e = .poll run → s.poller = .callStart c →
    s'.streamWriterPromise c = some (.value .created)

/-- When a completion takes `shared_from_this` or publishes the writer, `call` is past the constructor
of the call. -/
def ConstructorOver (s : AsyncClient Tid Request Response) (e : Event Tid Request Response) : Prop :=
  ∀ c run, e = .poll run → (s.poller = .unary c .sharing ∨ s.poller = .callStart c) →
    s.frames c ≠ some .started

variable {s s' : AsyncClient Tid Request Response}

omit [DecidableEq Tid] [Inhabited Response] in
theorem Inv.sharable_iff (h : s.Inv) {c : Nat} {call : AsyncUnaryCall Response}
    (hpoller : s.poller = .unary c .sharing) (hcall : s.unaryCalls c = some call) :
    (call.weakThis = true ∧ s.Owned c) ↔ s.frames c ≠ some .started := by
  obtain ⟨hsome, -, halive⟩ := h.completing.finalizing (c := c) (by rw [hpoller]; rfl)
  obtain ⟨hlt, hweak, -, hwriter⟩ := h.calls.unary hsome
  have hweak' : call.weakThis = decide (s.frames c ≠ some .started) := by
    rw [weakThis, hcall] at hweak
    exact Option.some.inj hweak
  rw [hweak', decide_eq_true_iff]
  refine and_iff_left_of_imp fun hstarted => ?_
  by_cases hin : c ∈ s.streamingCalls
  · exact .inl hin
  · have hpending : s.Pending c := by
      by_contra hnot
      exact halive (h.tracking.kept c hlt hin hnot)
    exact .inr (.inl ((hpending.resolve_left hstarted).resolve_left hwriter))

omit [DecidableEq Tid] [Inhabited Response] in
theorem Inv.published_iff (h : s.Inv) {c : Nat} {w : AsyncClientStreamWriter Tid Request Response}
    (hpoller : s.poller = .callStart c) (hcall : s.streamCalls c = some w) :
    w.owner.markStreamWriterReady =
        some { w.owner with streamWriterPromise := .value w.owner.streamWriter } ∧
      (w.owner.streamWriter = .created ↔ s.frames c ≠ some .started) := by
  have hmem : c ∈ s.startIds := by
    simp [startIds, hpoller, Poller.start?]
  have hpending : w.owner.streamWriterPromise = .pending := by
    have hpromise := h.completing.startPending c hmem
    rw [streamWriterPromise, hcall] at hpromise
    exact Option.some.inj hpromise
  obtain ⟨-, -, hwriter⟩ := h.calls.stream (c := c) (by rw [hcall]; rfl)
  rw [streamWriter, hcall] at hwriter
  have hptr : w.owner.streamWriter = _ := Option.some.inj hwriter
  refine ⟨?_, ?_⟩
  · simp [AsyncClientStreamCall.markStreamWriterReady, hpending, Promise.setValue_pending]
  · rw [hptr]
    by_cases hframe : s.frames c = some .started <;> simp [hframe]

theorem completesConstructed_move_iff {e : Event Tid Request Response} (h : s.Inv)
    (hrunning : s.terminated = false) (hmove : Move s e s') :
    CompletesConstructed s e s' ↔ s.ConstructorOver e := by
  cases hmove with
  | callUnary | callClientStream | createWriter _ _ | installOwner _ | addStreamingCall _
  | returned _ | dropRef | gotUnaryFinish _ _ _ | gotCallStart _ _ | gotStreamAction _ _ _
  | runCallback _ | writer _ _ _ => exact iff_of_true ⟨nofun, nofun⟩ nofun
  | responded hpoller _ _ | futureError hpoller _ _ | calledBack hpoller _ | onCallDead hpoller
  | released hpoller | writerCompletion hpoller _ _ _ =>
      refine iff_of_true ⟨fun c run _ heq => ?_, fun c run _ heq => ?_⟩ fun c run _ heq => ?_ <;>
        simp [hpoller] at heq
  | @sharedFromThis c run call hpoller hcall howned =>
      have hframe := (h.sharable_iff hpoller hcall).mp howned
      refine iff_of_true ⟨fun b _ _ heq => ?_, fun b _ _ heq => ?_⟩ fun b _ _ heq => ?_
      · have hb : c = b := by simpa [hpoller] using heq
        exact ⟨hrunning, hb ▸ rfl⟩
      · simp [hpoller] at heq
      · have hb : c = b := by simpa [hpoller] using heq
        exact hb ▸ hframe
  | badWeakPtr hpoller hcall howned =>
      have hframe := (h.sharable_iff hpoller hcall).not.mp howned
      refine iff_of_false (fun hok => ?_) fun hover => ?_
      · cases (hok.shared _ _ rfl hpoller).1
      · exact hframe (hover _ _ rfl (.inl hpoller))
  | @streamWriterReady c run w owner hpoller hcall hset =>
      obtain ⟨hready, hptr⟩ := h.published_iff hpoller hcall
      obtain rfl := Option.some.inj (hset.symm.trans hready)
      have hpublished : CompletesConstructed s (.poll run) { s with
          streamCalls := Function.update s.streamCalls c (some { w with
            owner := { w.owner with streamWriterPromise := .value w.owner.streamWriter } })
          poller := .idle } ↔ w.owner.streamWriter = .created := by
        constructor
        · intro hok
          have hvalue := hok.published c run rfl hpoller
          simpa [streamWriterPromise] using hvalue
        · intro hcreated
          refine ⟨fun b _ _ heq => ?_, fun b _ _ heq => ?_⟩
          · simp [hpoller] at heq
          · have hb : c = b := by simpa [hpoller] using heq
            subst hb
            simp [streamWriterPromise, hcreated]
      rw [hpublished, hptr]
      constructor
      · intro hframe b _ _ heq
        have hb : c = b := by simpa [hpoller] using heq
        exact hb ▸ hframe
      · exact fun hover => hover c run rfl (.inr hpoller)
  | streamWriterReadyTwice hpoller hcall hset =>
      obtain ⟨hready, -⟩ := h.published_iff hpoller hcall
      rw [hset] at hready
      cases hready

/-- **No completion on a half-constructed call**, along every run exactly when no completion takes
`shared_from_this` or publishes the writer while the constructor of its call is running. -/
theorem completesConstructed_iff_constructorOver (es : List (Event Tid Request Response)) :
    (system Tid Request Response).AllSteps CompletesConstructed {} es ↔
      (system Tid Request Response).AllSteps (fun s e _ => s.ConstructorOver e) {} es := by
  refine TransitionSystem.allSteps_congr (I := Inv) ?_ ?_ (initial_inv Tid Request Response) es
  · intro s e s' h hstep
    obtain ⟨hrunning, hmove⟩ := step_cases hstep
    exact completesConstructed_move_iff h hrunning hmove
  · exact fun s e s' h hstep _ => h.step hstep

def earlyUnaryFinish : List (Event Nat String String) :=
  [.callUnary "request" false, .asyncNext (.unaryFinish 0) true .OK (some "response"),
    .poll .returned, .poll .returned, .poll .returned]

def earlyCallStart : List (Event Nat String String) :=
  [.callClientStream, .asyncNext (.callStart 0) true .OK none, .poll .returned]

theorem earlyCompletions_on_halfConstructed :
    (∃ s, (system Nat String String).run {} earlyUnaryFinish = some s ∧ s.terminated = true) ∧
    (∃ s, (system Nat String String).run {} earlyCallStart = some s ∧
      s.streamWriterPromise 0 = some (.value .uninitialised)) ∧
    ¬ (system Nat String String).AllSteps CompletesConstructed {} earlyUnaryFinish ∧
    ¬ (system Nat String String).AllSteps CompletesConstructed {} earlyCallStart := by
  refine ⟨⟨_, rfl, rfl⟩, ⟨_, rfl, rfl⟩, fun hall => ?_, fun hall => ?_⟩
  · have hlast := ((((hall _ rfl).2 _ rfl).2 _ rfl).2 _ rfl).2 _ rfl
    cases (hlast.1.shared 0 .returned rfl rfl).1
  · have hlast := ((hall _ rfl).2 _ rfl).2 _ rfl
    cases hlast.1.published 0 .returned rfl rfl

end EasyGrpc.Client.AsyncClient
