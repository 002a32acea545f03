import EasyGrpc.Proof.ClientInvariant

/-!
# The calls the client tracks

A call whose final completion was processed is lost track of when it is still in the set, or still
on its way into it. Nothing takes a lost call out again: the dead callback of a unary call runs once,
and stream calls have none.
-/

namespace EasyGrpc.Client.AsyncClient

variable {Tid Request Response : Type}

def FinalProcessed (s : AsyncClient Tid Request Response) (c : Nat) : Prop :=
  c ∈ s.dead ∨ ∃ w, s.streamCalls c = some w ∧ 0 < w.onFinishedRuns

/-- No `call` is in progress and no finaliser runs. -/
def Quiescent (s : AsyncClient Tid Request Response) : Prop :=
  (∀ c, s.frames c = none) ∧ s.poller = .idle ∧ s.terminated = false

def Tracks (s : AsyncClient Tid Request Response) : Prop :=
  ∀ c, c ∈ s.streamingCalls ↔ c < s.nextCall ∧ ¬ s.FinalProcessed c

def Tracked (s : AsyncClient Tid Request Response) (c : Nat) : Prop :=
  c ∈ s.streamingCalls ∨ s.Pending c

def NoneLost (s : AsyncClient Tid Request Response) : Prop :=
  ∀ c, s.FinalProcessed c → ¬ s.Tracked c

/-- No dead callback runs before `addStreamingCall` of the same call, and no Finish of a stream is
processed. -/
def RemovesTracked (s : AsyncClient Tid Request Response) :
    Event Tid Request Response → Prop
  | .poll _ => (∀ c, s.poller = .unary c .burying → c ∈ s.streamingCalls) ∧
      ∀ c w, s.poller = .writer c → s.streamCalls c = some w → ¬ w.FinishArrived
  | _ => True

section States

variable {s s' : AsyncClient Tid Request Response}

theorem Inv.not_dead_of_stream (h : s.Inv) {c : Nat} (hc : (s.streamCalls c).isSome) :
    c ∉ s.dead := by
  intro hdead
  have hunary := h.calls.unary (h.completing.unaryCall c (List.mem_append_right _ hdead))
  have hstream := h.calls.stream hc
  rw [hunary.2.1] at hstream
  cases hstream.2.1

theorem tracks_iff_noneLost (h : s.Inv) (hquiet : s.Quiescent) : s.Tracks ↔ s.NoneLost := by
  have hnone : ∀ c, ¬ s.Pending c := by
    intro c
    simp [Pending, hquiet.1 c]
  constructor
  · intro htracks c hfinal htracked
    have hin := htracked.resolve_right (hnone c)
    exact ((htracks c).mp hin).2 hfinal
  · intro hlost c
    constructor
    · exact fun hin => ⟨(h.tracking.inserted c hin).1, fun hfinal => hlost c hfinal (.inl hin)⟩
    · rintro ⟨hlt, hfinal⟩
      by_contra hout
      exact hfinal (.inl (h.tracking.kept c hlt hout (hnone c)))

theorem noneLost_congr {p : Prop} (hp : p)
    (hfinal : ∀ c, s'.FinalProcessed c ↔ s.FinalProcessed c)
    (htracked : ∀ c, s.FinalProcessed c → (s'.Tracked c ↔ s.Tracked c)) :
    s'.NoneLost ↔ s.NoneLost ∧ p := by
  rw [and_iff_left hp]
  refine forall_congr' fun c => ?_
  rw [hfinal c]
  exact forall_congr' fun hc => not_congr (htracked c hc)

theorem finalProcessed_congr (hdead : s'.dead = s.dead)
    (hruns : (fun c => (s'.streamCalls c).map (·.onFinishedRuns)) =
      fun c => (s.streamCalls c).map (·.onFinishedRuns)) (c : Nat) :
    s'.FinalProcessed c ↔ s.FinalProcessed c := by
  have hform : ∀ t : AsyncClient Tid Request Response, t.FinalProcessed c ↔
      c ∈ t.dead ∨ ∃ n, (t.streamCalls c).map (·.onFinishedRuns) = some n ∧ 0 < n := by
    intro t
    simp [FinalProcessed]
  rw [hform s', hform s, hdead]
  exact or_congr_right (by rw [congrFun hruns c])

theorem tracked_congr (hframes : s'.frames = s.frames)
    (hset : s'.streamingCalls = s.streamingCalls) (c : Nat) : s'.Tracked c ↔ s.Tracked c := by
  rw [Tracked, Tracked, Pending, Pending, hframes, hset]

theorem tracked_setFrame {c : Nat} {stage : Option FrameStage}
    (hframes : s'.frames = Function.update s.frames c stage)
    (hothers : ∀ b, b ≠ c → (b ∈ s'.streamingCalls ↔ b ∈ s.streamingCalls))
    (hself : s'.Tracked c ↔ s.Tracked c) (b : Nat) : s'.Tracked b ↔ s.Tracked b := by
  by_cases hb : b = c
  · rw [hb]
    exact hself
  · rw [Tracked, Tracked, Pending, Pending, hframes, Function.update_of_ne hb, hothers b hb]

theorem finalProcessed_lt (h : s.Inv) {c : Nat} (hc : s.FinalProcessed c) : c < s.nextCall := by
  cases hc with
  | inl hdead => exact (h.calls.unary (h.completing.unaryCall c (List.mem_append_right _ hdead))).1
  | inr hstream =>
      obtain ⟨w, hw, -⟩ := hstream
      exact (h.calls.stream (by rw [hw]; rfl)).1

theorem tracked_alloc (h : s.Inv) {stage : Option FrameStage}
    (hframes : s'.frames = Function.update s.frames s.nextCall stage)
    (hset : s'.streamingCalls = s.streamingCalls) (c : Nat) (hc : s.FinalProcessed c) :
    s'.Tracked c ↔ s.Tracked c := by
  have hne : c ≠ s.nextCall := Nat.ne_of_lt (finalProcessed_lt h hc)
  rw [Tracked, Tracked, Pending, Pending, hframes, Function.update_of_ne hne, hset]

theorem noneLost_onCallDead (h : s.Inv) {c : Nat} (hpoller : s.poller = .unary c .burying) :
    NoneLost { s.onCallDead c with poller := .unary c .releasing } ↔
      s.NoneLost ∧ c ∈ s.streamingCalls := by
  obtain ⟨hsome, -, halive⟩ := h.completing.finalizing (c := c) (by rw [hpoller]; rfl)
  obtain ⟨hlt, -, hwriter, -⟩ := h.calls.unary hsome
  have hstream : s.streamCalls c = none := Option.map_eq_none_iff.mp hwriter
  have hunfinished : ¬ s.FinalProcessed c := by
    rintro (hdead | ⟨w, hw, -⟩)
    · exact halive hdead
    · rw [hstream] at hw
      cases hw
  have hsplit : NoneLost { s.onCallDead c with poller := .unary c .releasing } ↔
      ¬ s.Pending c ∧ ∀ b, b ≠ c → s.FinalProcessed b → ¬ s.Tracked b := by
    have hfinal : ∀ b, FinalProcessed { s.onCallDead c with poller := .unary c .releasing } b ↔
        b = c ∨ s.FinalProcessed b := by
      intro b
      simp only [FinalProcessed, AsyncClient.onCallDead, removeStreamingCall, List.mem_append,
        List.mem_singleton]
      tauto
    have htracked : ∀ b, Tracked { s.onCallDead c with poller := .unary c .releasing } b ↔
        (b ≠ c ∧ b ∈ s.streamingCalls) ∨ s.Pending b := by
      intro b
      simp [Tracked, Pending, AsyncClient.onCallDead, removeStreamingCall]
    constructor
    · intro hlost
      refine ⟨fun hpending => ?_, fun b hb hdone htrack => ?_⟩
      · exact hlost c ((hfinal c).mpr (.inl rfl)) ((htracked c).mpr (.inr hpending))
      · refine hlost b ((hfinal b).mpr (.inr hdone)) ((htracked b).mpr ?_)
        exact htrack.imp_left fun hin => ⟨hb, hin⟩
    · rintro ⟨hpending, hothers⟩ b hdone htrack
      by_cases hb : b = c
      · subst hb
        have hor := (htracked b).mp htrack
        exact hpending (hor.resolve_left fun hin => hin.1 rfl)
      · have hdone' := ((hfinal b).mp hdone).resolve_left hb
        exact hothers b hb hdone' (((htracked b).mp htrack).imp_left fun hin => hin.2)
  rw [hsplit]
  constructor
  · rintro ⟨hpending, hothers⟩
    refine ⟨fun b hdone => hothers b (fun hb => hunfinished (hb ▸ hdone)) hdone, ?_⟩
    by_contra hout
    exact halive (h.tracking.kept c hlt hout hpending)
  · rintro ⟨hlost, hin⟩
    exact ⟨(h.tracking.inserted c hin).2, fun b _ hdone => hlost b hdone⟩

end States

section Runs

variable [DecidableEq Tid] [Inhabited Response] {s s' : AsyncClient Tid Request Response}

omit [Inhabited Response] in
theorem noneLost_writer (h : s.Inv) {c : Nat} {poller : Poller} {terminated : Bool}
    {w w' : AsyncClientStreamWriter Tid Request Response}
    {e : AsyncClientStreamWriter.Event Tid Request Response} (hcall : s.streamCalls c = some w)
    (hstep : w.step e = some w') :
    NoneLost { s with
        streamCalls := Function.update s.streamCalls c (some w')
        poller := poller, terminated := terminated } ↔
      s.NoneLost ∧ ¬ (e = .completion ∧ w.FinishArrived) := by
  obtain ⟨hruns, hno⟩ | ⟨hruns, hyes⟩ := AsyncClientStreamWriter.step_onFinishedRuns hstep
  · refine noneLost_congr hno (finalProcessed_congr rfl ?_) fun b _ => tracked_congr rfl rfl b
    exact map_update_of_eq hcall hruns
  · refine iff_of_false (fun hlost => ?_) fun hkept => hkept.2 hyes
    have hsome : (s.streamCalls c).isSome := by rw [hcall]; rfl
    refine hlost c (.inr ⟨w', by simp, by omega⟩) ?_
    by_contra hout
    exact h.not_dead_of_stream hsome (h.tracking.kept c (h.calls.stream hsome).1
      (fun hin => hout (.inl hin)) fun hpending => hout (.inr hpending))

theorem noneLost_move_iff {e : Event Tid Request Response} (h : s.Inv) (hmove : Move s e s') :
    s'.NoneLost ↔ s.NoneLost ∧ s.RemovesTracked e := by
  cases hmove with
  | callUnary =>
      exact noneLost_congr trivial (fun _ => Iff.rfl) (tracked_alloc h rfl rfl)
  | callClientStream =>
      refine noneLost_congr trivial (fun c => ?_) (tracked_alloc h rfl rfl)
      have hfresh : s.streamCalls s.nextCall = none := Option.map_eq_none_iff.mp h.calls.fresh.2.1
      by_cases hc : c = s.nextCall
      · simp [FinalProcessed, newStreamCall, hc, hfresh]
      · simp [FinalProcessed, newStreamCall, hc]
  | createWriter hframe _ =>
      refine noneLost_congr trivial (finalProcessed_congr rfl (map_map_update_of_eq _ fun _ => rfl))
        fun b _ => tracked_setFrame rfl (fun _ _ => by rfl) ?_ b
      exact iff_of_true (.inr (by simp [Pending, createWriter])) (.inr (.inl hframe))
  | installOwner hframe =>
      refine noneLost_congr trivial (finalProcessed_congr rfl (map_map_update_of_eq _ fun _ => rfl))
        fun b _ => tracked_setFrame rfl (fun _ _ => by rfl) ?_ b
      refine iff_of_true (.inr (by simp [Pending, installOwner])) (.inr ?_)
      exact hframe.imp (fun hstarted => hstarted.1) .inl
  | addStreamingCall hframe =>
      refine noneLost_congr trivial (fun _ => Iff.rfl) fun b _ => tracked_setFrame rfl ?_ ?_ b
      · intro b hb
        simp [addStreamingCall, hb]
      · exact iff_of_true (.inl (Finset.mem_insert_self _ _)) (.inr (.inr (.inr hframe)))
  | returned hframe =>
      refine noneLost_congr trivial (fun _ => Iff.rfl) fun b _ =>
        tracked_setFrame rfl (fun _ _ => by rfl) ?_ b
      simp [Tracked, Pending, hframe]
  | gotStreamAction _ hcall hstep =>
      rw [noneLost_writer h hcall hstep]
      refine and_congr_right fun _ => iff_of_true ?_ trivial
      intro harrived
      cases harrived.1
  | @writer c e w w' hcall hmay hstep =>
      apply (noneLost_writer h hcall hstep).trans
      refine and_congr_right fun _ => iff_of_true ?_ trivial
      rintro ⟨rfl, -⟩
      cases hmay
  | @writerCompletion c run poller w w' hpoller hcall hstep _ =>
      rw [noneLost_writer h hcall hstep]
      refine and_congr_right fun _ => ⟨fun hno => ⟨?_, ?_⟩, fun hkept => ?_⟩
      · intro b hb
        simp [hpoller] at hb
      · intro b v hb hv harrived
        obtain rfl : c = b := by simpa [hpoller] using hb
        obtain rfl := Option.some.inj (hcall.symm.trans hv)
        exact hno ⟨rfl, harrived⟩
      · rintro ⟨-, harrived⟩
        exact hkept.2 c w hpoller hcall harrived
  | onCallDead hpoller =>
      rw [noneLost_onCallDead h hpoller]
      refine and_congr_right fun _ => ?_
      simp [RemovesTracked, hpoller]
  | dropRef | gotUnaryFinish _ _ _ | gotCallStart _ _ | runCallback _ =>
      exact noneLost_congr trivial (fun _ => Iff.rfl) fun _ _ => Iff.rfl
  | responded hpoller _ _ | futureError hpoller _ _ | sharedFromThis hpoller _ _
  | badWeakPtr hpoller _ _ | released hpoller | streamWriterReadyTwice hpoller _ _ =>
      exact noneLost_congr (by simp [RemovesTracked, hpoller]) (fun _ => Iff.rfl) fun _ _ => Iff.rfl
  | @calledBack c run call hpoller hcall =>
      obtain ⟨hstream, hframes, -, hset, -, hdead⟩ := responseCallback_others c call run s
      refine noneLost_congr (by simp [RemovesTracked, hpoller]) (finalProcessed_congr hdead ?_)
        fun b _ => tracked_congr hframes hset b
      simp only [hstream]
  | streamWriterReady hpoller hcall _ =>
      refine noneLost_congr (by simp [RemovesTracked, hpoller]) (finalProcessed_congr rfl ?_)
        fun _ _ => Iff.rfl
      exact map_update_of_eq hcall rfl

/-- **Tracking.** In the quiescent states of every run the client tracks exactly its live calls, if
and only if on the way no dead callback overtook `addStreamingCall` and no stream was finished. -/
theorem tracks_iff_removesTracked (es : List (Event Tid Request Response))
    (hrun : (system Tid Request Response).run {} es = some s) (hquiet : s.Quiescent) :
    s.Tracks ↔ (system Tid Request Response).AllSteps (fun s e _ => s.RemovesTracked e) {} es := by
  have hlost := TransitionSystem.run_iff_allSteps (I := Inv) (P := NoneLost)
    (C := fun s e _ => s.RemovesTracked e) (fun _ _ _ h hstep => h.step hstep)
    (fun _ _ _ h hstep => noneLost_move_iff h (step_cases hstep).2)
    (initial_inv Tid Request Response) hrun
  rw [tracks_iff_noneLost (inv_of_run hrun) hquiet, hlost]
  exact and_iff_right fun c hfinal => absurd hfinal (by simp [FinalProcessed])

end Runs

def insertedThenFinished : List (Event Nat String String) :=
  [.callUnary "request" false, .frame 0, .frame 0, .frame 0,
    .asyncNext (.unaryFinish 0) true .OK (some "response"), .poll .returned, .poll .returned,
    .poll .returned, .poll .returned, .poll .returned]

theorem insertedThenFinished_tracks :
    ∃ s, (system Nat String String).run {} insertedThenFinished = some s ∧ s.Quiescent ∧
      s.streamingCalls = ∅ ∧ s.Tracks ∧ (system Nat String String).AllSteps
        (fun s e _ => s.RemovesTracked e) {} insertedThenFinished := by
  have hrun : ∃ s, (system Nat String String).run {} insertedThenFinished = some s ∧
      s.frames 0 = none ∧ s.poller = .idle ∧ s.terminated = false ∧ s.streamingCalls = ∅ ∧
      s.nextCall = 1 ∧ s.dead = [0] := ⟨_, rfl, rfl, rfl, rfl, by decide, rfl, rfl⟩
  obtain ⟨s, hrun, hframe, hpoller, hrunning, hset, hnext, hdead⟩ := hrun
  have hquiet : s.Quiescent := by
    refine ⟨fun c => ?_, hpoller, hrunning⟩
    by_cases hc : c = 0
    · exact hc ▸ hframe
    · by_contra hsome
      have hlt := (inv_of_run hrun).calls.lt_of_frame hsome
      omega
  have htracks : s.Tracks := by
    intro c
    rw [hset, hnext]
    apply iff_of_false (Finset.notMem_empty c)
    rintro ⟨hlt, hlive⟩
    obtain rfl : c = 0 := by omega
    exact hlive (.inl (hdead ▸ List.mem_cons_self))
  exact ⟨s, hrun, hquiet, hset, htracks, (tracks_iff_removesTracked _ hrun hquiet).mp htracks⟩

def finishedThenInserted : List (Event Nat String String) :=
  [.callUnary "request" false, .frame 0, .asyncNext (.unaryFinish 0) true .OK (some "response"),
    .poll .returned, .poll .returned, .poll .returned, .poll .returned, .poll .returned,
    .frame 0, .frame 0]

def finishedStream : List (Event Nat String String) :=
  [.callClientStream, .frame 0, .frame 0, .frame 0, .frame 0,
    .asyncNext (.callStart 0) true .OK none, .poll .returned,
    .writer 0 (.finish 1), .writer 0 (.tryPerformAction 1),
    .asyncNext (.streamAction 0 0) true .OK (some "response"), .poll .returned, .poll .returned,
    .poll .returned, .poll .returned]

theorem finishedCalls_stay_tracked :
    (∃ s, (system Nat String String).run {} finishedThenInserted = some s ∧ s.poller = .idle ∧
      s.frames 0 = none ∧ 0 ∈ s.streamingCalls ∧ s.FinalProcessed 0 ∧ ¬ s.Tracks) ∧
    (∃ s, (system Nat String String).run {} finishedStream = some s ∧ s.poller = .idle ∧
      s.frames 0 = none ∧ 0 ∈ s.streamingCalls ∧ s.FinalProcessed 0 ∧ ¬ s.Tracks) := by
  refine ⟨⟨_, rfl, rfl, rfl, by decide, .inl (by decide), fun h => ?_⟩,
    ⟨_, rfl, rfl, rfl, by decide, .inr ⟨_, rfl, by decide⟩, fun h => ?_⟩⟩
  · exact ((h 0).mp (by decide)).2 (.inl (by decide))
  · exact ((h 0).mp (by decide)).2 (.inr ⟨_, rfl, by decide⟩)

end EasyGrpc.Client.AsyncClient
