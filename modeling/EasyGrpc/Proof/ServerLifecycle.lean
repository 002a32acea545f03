import EasyGrpc.Proof.QueueShutdown
import EasyGrpc.Server.AsyncServer

/-!
# The lifecycle of the server

`stop` never resets `_started`. A server stopped by its destructor alone is safe; after an explicit
`stop` it still calls itself started, and the destructor dereferences the null server. A `start` that
runs out of threads leaves the ones it made.
-/

namespace EasyGrpc.Server.AsyncServer

open AsyncActionQueue (Completion)

structure Safe (s : AsyncServer) (e : Event) (s' : AsyncServer) : Prop where
  fault : s'.fault = none
  started : s'.destroyed = false → (s'.started = true ↔ s'.lastEffective = some .start)
  stopIdle : ∀ completions, e = .stop completions → s.lastEffective ≠ some .start → s' = s
  startThrew : ∀ available, e = .start available → (s.start available).2.isSome → s' = s
  stopped : s.lastEffective = some .start →
    (∃ completions, e = .stop completions ∨ e = .destroy completions) →
    s'.unjoined = 0 ∧ s'.asyncActionThreads = [] ∧ s'.asyncActionQueues = [] ∧
      ∀ q ∈ s'.released, q.EndsDrained

/-- No `stop` is called on a started server, and `start` makes all of its threads or none. -/
def StoppedByDestructor (s : AsyncServer) : Event → Prop
  | .start available =>
      s.started = false → available = 0 ∨ s.asyncActionQueues.length ≤ available
  | .stop _ => s.started = false
  | _ => True

structure Alive (s : AsyncServer) : Prop where
  fault : s.fault = none
  hasServer : s.hasServer = true
  started : s.started = true ↔ s.lastEffective = some .start
  threads : s.started = false → s.asyncActionThreads = []
  unjoined : s.unjoined = s.asyncActionThreads.length
  released : s.released = []
  queues : ∀ q ∈ s.asyncActionQueues, q.Inv ∧ q.thrown = []

def Inv (s : AsyncServer) : Prop := s.destroyed = false → s.Alive

theorem inv_of_new {uris : List String} {n concurrency : Nat} {built : Bool} {s : AsyncServer}
    (hs : new uris n concurrency built = .ok s) : s.Inv := by
  unfold new at hs
  split at hs
  · cases hs
  · simp only at hs
    split at hs
    · obtain rfl := Except.ok.inj hs
      intro _
      refine ⟨rfl, rfl, by simp, fun _ => rfl, rfl, rfl, fun q hq => ?_⟩
      obtain rfl := List.eq_of_mem_replicate hq
      exact ⟨AsyncActionQueue.initial_inv, rfl⟩
    · cases hs

section Join

variable {q q' : AsyncActionQueue} {cs : List Completion}

theorem pollToShutdown_spec (hinv : q.Inv) (hthrown : q.thrown = [])
    (h : pollToShutdown cs q = some q') : q'.EndsDrained := by
  unfold pollToShutdown at h
  split at h
  · cases h
  · rename_i hthrows
    obtain ⟨hrun, hstatus⟩ := Option.filter_eq_some_iff.mp h
    have hkept := TransitionSystem.AllSteps.run_invariant
      (I := fun q => q.Inv ∧ q.thrown = []) (Q := fun _ e _ => AsyncActionQueue.NoThrow [e])
      ?_ ⟨hinv, hthrown⟩ ?_ hrun
    · exact hkept.1.endsDrained_iff.mpr ⟨by simpa using hstatus, hkept.2⟩
    · rintro m e m' ⟨hminv, hmthrown⟩ hstep hno
      exact ⟨hminv.step hstep, (AsyncActionQueue.thrown_step hstep).mpr ⟨hmthrown, hno⟩⟩
    · apply TransitionSystem.allSteps_of_forall
      intro e he m m' _ c hc
      obtain rfl := List.mem_singleton.mp hc
      by_contra hthrow
      apply hthrows
      simp only [List.mem_append, List.mem_cons, List.mem_map] at he
      rw [List.any_eq_true]
      refine ⟨c, ?_, by simpa using hthrow⟩
      simpa using he

theorem joinAll_spec {completions : List (List Completion)} {queues queues' : List AsyncActionQueue}
    (hqueues : ∀ q ∈ queues, q.Inv ∧ q.thrown = [])
    (h : joinAll completions queues = some queues') : ∀ q ∈ queues', q.EndsDrained := by
  induction queues generalizing completions queues' with
  | nil =>
      obtain rfl := Option.some.inj h
      nofun
  | cons q queues ih =>
      simp only [joinAll, Option.bind_eq_some_iff, Option.map_eq_some_iff] at h
      obtain ⟨q', hq', rest, hrest, rfl⟩ := h
      rw [List.forall_mem_cons] at hqueues ⊢
      exact ⟨pollToShutdown_spec hqueues.1.1 hqueues.1.2 hq', ih hqueues.2 hrest⟩

end Join

section Steps

variable {s s' : AsyncServer} {e : Event} {completions : List (List Completion)}

theorem stop_of_started (halive : s.Alive) (hstarted : s.started = true)
    (h : s.stop completions = some s') :
    s'.fault = none ∧ s'.started = true ∧ s'.lastEffective = some .stop ∧ s'.unjoined = 0 ∧
      s'.asyncActionThreads = [] ∧ s'.asyncActionQueues = [] ∧
      ∀ q ∈ s'.released, q.EndsDrained := by
  simp only [stop, hstarted, halive.hasServer] at h
  obtain ⟨queues, hqueues, rfl⟩ := Option.map_eq_some_iff.mp h
  refine ⟨halive.fault, rfl, rfl, ?_, rfl, rfl, ?_⟩
  · change s.unjoined - s.asyncActionThreads.length = 0
    rw [halive.unjoined, Nat.sub_self]
  · change ∀ q ∈ s.released ++ queues, q.EndsDrained
    rw [halive.released, List.nil_append]
    exact joinAll_spec halive.queues hqueues

theorem stop_of_not_started (hstarted : s.started = false) (h : s.stop completions = some s') :
    s' = s := by
  simp only [stop, hstarted, if_true] at h
  exact (Option.some.inj h).symm

theorem Alive.idle (halive : s.Alive) (hstarted : s.started = false) :
    s.lastEffective ≠ some .start := by
  intro hrunning
  have hon := halive.started.mpr hrunning
  rw [hstarted] at hon
  cases hon

theorem start_of_started (hstarted : s.started = true) (available : Nat) :
    s.start available = (s, some (.logicError "The server already started.")) := by
  simp [start, hstarted]

/-- A `start` that runs out of threads leaves the state as it was only if it made none. -/
theorem start_short_eq_iff {available : Nat} (hstarted : s.started = false)
    (hshort : available < s.asyncActionQueues.length) :
    (s.start available).2.isSome = true ∧ ((s.start available).1 = s ↔ available = 0) := by
  have hcreated : min available s.asyncActionQueues.length = available :=
    Nat.min_eq_left (Nat.le_of_lt hshort)
  simp only [start, hstarted, hcreated, hshort, if_true]
  refine ⟨rfl, fun heq => ?_, fun hzero => ?_⟩
  · have hunjoined := congrArg AsyncServer.unjoined heq
    simpa using hunjoined
  · subst hzero
    cases s
    cases hstarted
    simp

theorem start_full {available : Nat} (hstarted : s.started = false)
    (hfull : s.asyncActionQueues.length ≤ available) :
    s.start available = ({ s with
      asyncActionThreads := s.asyncActionThreads ++ List.range s.asyncActionQueues.length
      unjoined := s.unjoined + s.asyncActionQueues.length
      started := true
      lastEffective := some .start }, none) := by
  have hcreated : min available s.asyncActionQueues.length = s.asyncActionQueues.length :=
    Nat.min_eq_right hfull
  simp [start, hstarted, hcreated]

theorem Alive.start_full (halive : s.Alive) :
    Alive { s with
      asyncActionThreads := s.asyncActionThreads ++ List.range s.asyncActionQueues.length
      unjoined := s.unjoined + s.asyncActionQueues.length
      started := true
      lastEffective := some .start } :=
  { halive with
    started := by simp
    threads := nofun
    unjoined := by simp [halive.unjoined] }

theorem Alive.queue {i : Nat} {e : AsyncActionQueue.Event} {q q' : AsyncActionQueue}
    (halive : s.Alive) (hmay : s.mayDo i e = true) (hq : s.asyncActionQueues[i]? = some q)
    (hstep : q.step e = some q') :
    Alive { s with asyncActionQueues := s.asyncActionQueues.set i q' } := by
  refine { halive with queues := fun p hp => ?_ }
  cases List.mem_or_eq_of_mem_set hp with
  | inl hold => exact halive.queues p hold
  | inr hnew =>
      obtain ⟨hinv, hthrown⟩ := halive.queues q (List.mem_of_getElem? hq)
      subst hnew
      refine ⟨hinv.step hstep, (AsyncActionQueue.thrown_step hstep).mpr ⟨hthrown, fun c hc => ?_⟩⟩
      obtain rfl := List.mem_singleton.mp hc
      simp only [mayDo, decide_eq_true_eq] at hmay
      exact hmay.2

theorem Alive.safe_self (halive : s.Alive)
    (hstop : s.lastEffective = some .start →
      ¬ ∃ completions, e = .stop completions ∨ e = .destroy completions) : Safe s e s :=
  ⟨halive.fault, fun _ => halive.started, fun _ _ _ => rfl, fun _ _ _ => rfl,
    fun hrunning hcall => absurd hcall (hstop hrunning)⟩

theorem Alive.safe_of_alive (halive' : s'.Alive)
    (hcall : (∃ i e', e = .queue i e') ∨ ∃ available, e = .start available ∧
      (s.start available).2.isSome = false) : Safe s e s' := by
  refine ⟨halive'.fault, fun _ => halive'.started, ?_, ?_, ?_⟩
  · rintro completions rfl
    simp at hcall
  · rintro available rfl hthrew
    simp only [reduceCtorEq, exists_false, Event.start.injEq, exists_eq_left', false_or] at hcall
    rw [hcall] at hthrew
    cases hthrew
  · rintro - ⟨completions, rfl | rfl⟩ <;> simp at hcall

theorem safe_start_iff (halive : s.Alive) (available : Nat) :
    (Safe s (.start available) (s.start available).1 ↔ s.StoppedByDestructor (.start available)) ∧
      (Safe s (.start available) (s.start available).1 → (s.start available).1.Alive) := by
  have hself : Safe s (.start available) s := halive.safe_self (by simp)
  cases hstarted : s.started with
  | true =>
      rw [start_of_started hstarted]
      exact ⟨iff_of_true hself (by simp [StoppedByDestructor, hstarted]), fun _ => halive⟩
  | false =>
      by_cases hshort : available < s.asyncActionQueues.length
      · obtain ⟨hthrew, heq⟩ := start_short_eq_iff hstarted hshort
        have hiff : s.StoppedByDestructor (.start available) ↔ available = 0 := by
          simp only [StoppedByDestructor, hstarted, true_implies]
          omega
        have hkept : Safe s (.start available) (s.start available).1 → (s.start available).1 = s :=
          fun hsafe => hsafe.startThrew available rfl hthrew
        rw [hiff, ← heq]
        refine ⟨⟨hkept, fun hsame => ?_⟩, fun hsafe => ?_⟩
        · rw [hsame]
          exact hself
        · rw [hkept hsafe]
          exact halive
      · have hfull : s.asyncActionQueues.length ≤ available := Nat.le_of_not_lt hshort
        have halive' : (s.start available).1.Alive := by
          rw [AsyncServer.start_full hstarted hfull]
          exact halive.start_full
        refine ⟨iff_of_true (Alive.safe_of_alive halive' (.inr ⟨available, rfl, ?_⟩)) ?_,
          fun _ => halive'⟩
        · rw [AsyncServer.start_full hstarted hfull]
          rfl
        · exact fun _ => .inr hfull

theorem safe_stop_iff (halive : s.Alive) (hdestroyed : s.destroyed = false)
    (h : s.stop completions = some s') :
    (Safe s (.stop completions) s' ↔ s.StoppedByDestructor (.stop completions)) ∧
      (Safe s (.stop completions) s' → s'.Alive) := by
  cases hstarted : s.started with
  | true =>
      obtain ⟨-, hstarted', hlast, -⟩ := stop_of_started halive hstarted h
      have hdestroyed' : s'.destroyed = false := by
        simp only [stop, hstarted, halive.hasServer] at h
        obtain ⟨queues, -, rfl⟩ := Option.map_eq_some_iff.mp h
        exact hdestroyed
      -- the server still calls itself started
      have hunsafe : ¬ Safe s (.stop completions) s' := by
        intro hsafe
        have hrunning := (hsafe.started hdestroyed').mp hstarted'
        rw [hlast] at hrunning
        cases hrunning
      exact ⟨iff_of_false hunsafe (by simp [StoppedByDestructor, hstarted]),
        fun hsafe => absurd hsafe hunsafe⟩
  | false =>
      obtain rfl := stop_of_not_started hstarted h
      have hidle := halive.idle hstarted
      exact ⟨iff_of_true (halive.safe_self fun hrunning => absurd hrunning hidle) hstarted,
        fun _ => halive⟩

theorem safe_destroy (halive : s.Alive) (h : (s.stop completions).map destroyMembers = some s') :
    Safe s (.destroy completions) s' ∧ s'.destroyed = true := by
  obtain ⟨m, hm, rfl⟩ := Option.map_eq_some_iff.mp h
  cases hstarted : s.started with
  | true =>
      obtain ⟨hfault, -, -, hunjoined, hthreads, hqueues, hreleased⟩ :=
        stop_of_started halive hstarted hm
      have hmembers : m.destroyMembers = { m with hasServer := false, destroyed := true } := by
        cases m
        simp_all [destroyMembers]
      rw [hmembers]
      exact ⟨⟨hfault, nofun, nofun, nofun, fun _ _ => ⟨hunjoined, hthreads, hqueues, hreleased⟩⟩,
        rfl⟩
  | false =>
      obtain rfl := stop_of_not_started hstarted hm
      have hidle := halive.idle hstarted
      have hmembers : m.destroyMembers = { m with
          hasServer := false, asyncActionQueues := []
          released := m.released ++ m.asyncActionQueues, destroyed := true } := by
        simp [destroyMembers, halive.fault, halive.threads hstarted]
      rw [hmembers]
      exact ⟨⟨halive.fault, nofun, nofun, nofun, fun hrunning => absurd hrunning hidle⟩, rfl⟩

theorem safe_step_iff (hinv : s.Inv) (hstep : s.step e = some s') :
    (Safe s e s' ↔ s.StoppedByDestructor e) ∧ (Safe s e s' → s'.Inv) := by
  unfold step at hstep
  split at hstep
  · cases hstep
  · rename_i hguard
    have hdestroyed : s.destroyed = false := by
      push Not at hguard
      simpa using hguard.2
    have halive := hinv hdestroyed
    cases e with
    | start available =>
        obtain rfl := Option.some.inj hstep
        obtain ⟨hiff, hkept⟩ := safe_start_iff halive available
        exact ⟨hiff, fun hsafe _ => hkept hsafe⟩
    | stop completions =>
        obtain ⟨hiff, hkept⟩ := safe_stop_iff halive hdestroyed hstep
        exact ⟨hiff, fun hsafe _ => hkept hsafe⟩
    | destroy completions =>
        obtain ⟨hsafe, hgone⟩ := safe_destroy halive hstep
        refine ⟨iff_of_true hsafe trivial, fun _ hlive => ?_⟩
        rw [hgone] at hlive
        cases hlive
    | queue i e =>
        simp only at hstep
        split at hstep
        · rename_i hmay
          obtain ⟨q, hq, hmap⟩ := Option.bind_eq_some_iff.mp hstep
          obtain ⟨q', hq', rfl⟩ := Option.map_eq_some_iff.mp hmap
          have halive' := halive.queue hmay hq hq'
          exact ⟨iff_of_true (Alive.safe_of_alive halive' (.inl ⟨i, e, rfl⟩)) trivial,
            fun _ _ => halive'⟩
        · cases hstep

end Steps

/-- **The lifecycle of the server.** Along the life of a constructed server every call is safe exactly
when it is stopped by its destructor alone and no `start` runs out of threads half way. -/
theorem safe_iff_stoppedByDestructor {uris : List String} {n concurrency : Nat} {built : Bool}
    {s : AsyncServer} (hs : new uris n concurrency built = .ok s) (es : List Event) :
    system.AllSteps Safe s es ↔ system.AllSteps (fun s e _ => s.StoppedByDestructor e) s es :=
  TransitionSystem.allSteps_congr (I := Inv)
    (fun _ _ _ hinv hstep => (safe_step_iff hinv hstep).1)
    (fun _ _ _ hinv hstep hsafe => (safe_step_iff hinv hstep).2 hsafe) (inv_of_new hs) es

theorem startDestroy_safe : ∃ s, new ["0.0.0.0:80"] 2 4 true = .ok s ∧
    system.AllSteps Safe s [.start 2, .destroy []] := by
  refine ⟨_, rfl, ?_⟩
  have hnew : new ["0.0.0.0:80"] 2 4 true = .ok _ := rfl
  apply (safe_iff_stoppedByDestructor hnew _).mpr
  exact fun t _ => ⟨fun _ => .inr (by decide), fun u _ => ⟨trivial, trivial⟩⟩

theorem startStopDestroy_nullDereference : ∃ s t, new ["0.0.0.0:80"] 1 4 true = .ok s ∧
    system.run s [.start 1, .stop [], .destroy []] = some t ∧ t.fault = some .nullDereference ∧
    ¬ system.AllSteps Safe s [.start 1, .stop [], .destroy []] := by
  refine ⟨_, _, rfl, rfl, rfl, fun hsafe => ?_⟩
  have hlast := ((hsafe _ rfl).2 _ rfl).2 _ rfl
  cases hlast.1.fault

end EasyGrpc.Server.AsyncServer
