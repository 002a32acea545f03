import EasyGrpc.Proof.HandoverOrder

/-!
# The sections of `_actionsMutex` come to an end

A holder of `_actionsMutex` may wait for `_stateMutex`, which the polling thread holds while it fulfils a
promise; it asks for no `_actionsMutex` then. Every step of a thread that is inside the writer lowers a
measure, and as long as one is inside some step is possible. So without new submissions and new tags the
threads come to rest, whatever the schedule.

What the writer's own system reaches is exactly what is found here between two sections.
-/

namespace EasyGrpc.Client.ActionsMutex

variable {Tid Request Response : Type}

def Event.IsInternal : Event Tid Request Response → Prop
  | .holder => True
  | .outside (.tryPerformAction _) => True
  | .outside .completion => True
  | .outside _ => False

structure AtRest (s : ActionsMutex Tid Request Response) : Prop where
  holder : s.holder = none
  callers : s.writer.callers = []
  completion : s.writer.completion = .idle

section Work

def userWork : Option (MutexHolder Tid × SectionPc Request) → Nat
  | some (.user _, .pushing _) => 12
  | some (.user _, .trying) => 3
  | some (.user _, .popped _) => 2
  | some (.user _, .performing _) => 1
  | _ => 4

def completionWork : CompletionPc Request → Nat
  | .idle => 0
  | .gotEvent _ _ => 11
  | .resultSet _ _ => 10
  | .stateReady _ _ => 9
  | .finishPushed _ => 5
  | .finalized _ => 1

def pollingWork (completion : CompletionPc Request) :
    Option (MutexHolder Tid × SectionPc Request) → Nat
  | some (.polling, .pushing _) => 8
  | some (.polling, .trying) => 4
  | some (.polling, .popped _) => 3
  | some (.polling, .performing _) => 2
  | some (.polling, .draining _ _) => 2
  | some (.polling, .drainPopped _ _ _) => 3
  | _ => completionWork completion

/-- A queued action costs the drain loop a round, of two steps. -/
def work (s : ActionsMutex Tid Request Response) : Nat :=
  2 * s.writer.actions.length + 5 * s.writer.callers.length + userWork s.holder +
    pollingWork s.writer.completion s.holder + (!s.writer.terminated).toNat

end Work

section Descent

open AsyncClientStreamWriter

variable [DecidableEq Tid] {w w' : AsyncClientStreamWriter Tid Request Response}
  {s s' : ActionsMutex Tid Request Response} {who : MutexHolder Tid} {pc : SectionPc Request}

theorem Placed.work_lt_user {t : Tid} (h : Placed (.user t) pc w)
    (hstep : holderStep (.user t) w pc = some s) :
    s.work < work { writer := w, holder := some (.user t, pc) } := by
  have hleave : t ∈ w.callers → (w.callers.erase t).length + 1 = w.callers.length := by
    intro ht
    have hpos := List.length_pos_of_mem ht
    rw [List.length_erase_of_mem ht]
    omega
  have huser := h.user t rfl
  cases pc with
  | pushing kind =>
      obtain rfl := Option.some.inj hstep
      simp only [work, afterPush, newAction, userWork, pollingWork, List.length_append, List.length_cons,
        List.length_nil]
      omega
  | trying =>
      have hleft := hleave huser
      simp only [holderStep] at hstep
      split at hstep
      · rename_i hq
        obtain rfl := Option.some.inj hstep
        simp only [work, afterSection, userWork, pollingWork, hq]
        omega
      · rename_i a rest hq
        obtain rfl := Option.some.inj hstep
        simp only [work, AsyncClientStreamWriter.popAction, userWork, pollingWork, hq, List.length_cons]
        omega
  | popped a =>
      have hleft := hleave huser
      simp only [holderStep] at hstep
      split at hstep
      all_goals
        obtain rfl := Option.some.inj hstep
        simp only [work, afterSection, setException, userWork, pollingWork]
        omega
  | performing a =>
      have hleft := hleave huser
      simp only [holderStep] at hstep
      split at hstep
      · cases hstep
      · obtain rfl := Option.some.inj hstep
        simp only [work, afterSection, perform, assertThat, userWork, pollingWork]
        omega
  | draining _ _ | drainPopped _ _ _ => exact huser.elim

theorem Placed.work_lt_polling (h : Placed .polling pc w)
    (hstep : holderStep .polling w pc = some s) :
    s.work < work { writer := w, holder := some (.polling, pc) } := by
  have hpolling := h.polling rfl
  cases pc with
  | pushing kind =>
      obtain ⟨-, a, hpc, -⟩ := hpolling
      have hpc' : (w.newAction kind).completion = .stateReady a false := hpc
      obtain rfl := Option.some.inj hstep
      rw [afterPush_stateReady hpc']
      simp only [work, newAction, userWork, pollingWork, completionWork, List.length_append,
        List.length_cons, List.length_nil]
      omega
  | trying =>
      obtain ⟨a, hpc⟩ := hpolling
      simp only [holderStep] at hstep
      split at hstep
      · obtain rfl := Option.some.inj hstep
        rw [afterSection_finishPushed hpc]
        simp only [work, userWork, pollingWork, completionWork]
        omega
      · rename_i b rest hq
        obtain rfl := Option.some.inj hstep
        simp only [work, AsyncClientStreamWriter.popAction, userWork, pollingWork, hq, List.length_cons]
        omega
  | popped b =>
      obtain ⟨a, hpc⟩ := hpolling
      simp only [holderStep] at hstep
      split at hstep
      · obtain rfl := Option.some.inj hstep
        simp only [work, userWork, pollingWork]
        omega
      · obtain rfl := Option.some.inj hstep
        have hpc' : ∀ m, (w.setException b m).completion = .finishPushed a := fun _ => hpc
        rw [afterSection_finishPushed (hpc' _)]
        simp only [work, setException, userWork, pollingWork, completionWork]
        omega
      · obtain rfl := Option.some.inj hstep
        rw [afterSection_finishPushed hpc]
        simp only [work, userWork, pollingWork, completionWork]
        omega
  | performing b =>
      obtain ⟨a, hpc⟩ := hpolling
      have hpc' : (w.perform b).completion = .finishPushed a := hpc
      simp only [holderStep] at hstep
      split at hstep
      · cases hstep
      · obtain rfl := Option.some.inj hstep
        rw [afterSection_finishPushed hpc']
        simp only [work, perform, assertThat, userWork, pollingWork, completionWork]
        omega
  | draining last fin =>
      obtain ⟨a, hpc, -⟩ := hpolling
      simp only [holderStep] at hstep
      split at hstep
      · obtain rfl := Option.some.inj hstep
        rw [afterSection_stateReady hpc]
        simp only [work, userWork, pollingWork, completionWork]
        omega
      · rename_i b rest hq
        obtain rfl := Option.some.inj hstep
        simp only [work, AsyncClientStreamWriter.popAction, userWork, pollingWork, hq, List.length_cons]
        omega
  | drainPopped b last fin =>
      simp only [holderStep] at hstep
      split at hstep <;> split at hstep <;> try split at hstep
      all_goals
        obtain rfl := Option.some.inj hstep
        simp only [work, setException, perform, assertThat, userWork, pollingWork]
        omega

/-- What the polling thread does outside the sections brings it on, or ends the process. -/
theorem completionWork_lt (hterm : w.terminated = false) (hfree : entersSection w .completion = none)
    (hmove : Move w .completion w') :
    completionWork w'.completion + (!w'.terminated).toNat < completionWork w.completion + 1 ∧
      w'.actions = w.actions ∧ w'.callers = w.callers := by
  cases hmove with
  | setResult hpc | stateReady hpc | delete hpc =>
      refine ⟨?_, rfl, rfl⟩
      simp [hpc, hterm, completionWork, finalizeSetResult, setResult, assertThat]
  | finalizeFinish hpc ha =>
      refine ⟨?_, rfl, rfl⟩
      cases howner : w.owner.onStreamWriterFinish with
      | none => simp [howner, finalizeFinish, assertThat]
      | some owner => simp [howner, hpc, completionWork, finalizeFinish, assertThat]
  | finalizeWriteOk hpc ha | finalizeWriteFailed hpc ha =>
      exfalso
      simp only [entersSection, hpc] at hfree
      split at hfree
      · cases hfree
      · rename_i hkind
        simp [StreamAction.isWrite, hkind] at ha
  | finishPushed hpc => simp [entersSection, hpc] at hfree

omit [DecidableEq Tid] in
theorem work_lt_enter {e : AsyncClientStreamWriter.Event Tid Request Response}
    (hinternal : Event.IsInternal (.outside e)) (henter : entersSection w e = some (who, pc)) :
    work { writer := w, holder := some (who, pc) } < work { writer := w } := by
  cases e with
  | tryPerformAction t =>
      obtain ⟨rfl, rfl⟩ := Prod.mk.inj (Option.some.inj henter)
      simp only [work, userWork, pollingWork]
      omega
  | completion =>
      obtain ⟨rfl, ⟨a, hpc, -, rfl⟩ | ⟨a, hpc, -, rfl⟩ | ⟨a, hpc, rfl⟩⟩ :=
        entersSection_completion henter
      all_goals
        simp only [work, userWork, pollingWork, completionWork, hpc]
        omega
  | write _ _ _ | finish _ | asyncNext _ _ _ _ => exact hinternal.elim

theorem Inv.work_lt {l : Event Tid Request Response} (h : Inv s) (hinternal : l.IsInternal)
    (hstep : s.step l = some s') : s'.work < s.work := by
  obtain ⟨w, holder⟩ := s
  cases l with
  | outside e =>
      simp only [ActionsMutex.step] at hstep
      split at hstep
      · cases hstep
      · rename_i hterm
        have hterm' : w.terminated = false := by simpa using hterm
        split at hstep
        · rename_i entry henter
          split at hstep
          · rename_i hguard
            obtain rfl := Option.some.inj hstep
            obtain rfl : holder = none := by simpa using hguard.1
            exact work_lt_enter hinternal henter
          · cases hstep
        · rename_i hfree
          obtain ⟨v, hv, rfl⟩ := Option.map_eq_some_iff.mp hstep
          have hmove := (step_cases hv).2
          cases e with
          | completion =>
              obtain ⟨hlt, hactions, hcallers⟩ := completionWork_lt hterm' hfree hmove
              have hwork : ∀ u : AsyncClientStreamWriter Tid Request Response,
                  pollingWork u.completion holder = completionWork u.completion := by
                cases holder with
                | none => exact fun _ => rfl
                | some entry =>
                    obtain ⟨t, ht⟩ := (h entry.1 entry.2 rfl).eq_user hfree hmove
                    obtain ⟨who, pc⟩ := entry
                    obtain rfl : who = .user t := ht
                    exact fun _ => rfl
              simp only [work, hwork, hactions, hcallers, hterm', Bool.not_false, Bool.toNat_true]
              omega
          | tryPerformAction t => cases hfree
          | write _ _ _ | finish _ | asyncNext _ _ _ _ => exact hinternal.elim
  | holder =>
      simp only [ActionsMutex.step] at hstep
      split at hstep
      · cases hstep
      · obtain ⟨⟨who, pc⟩, hholder, hmove⟩ := Option.bind_eq_some_iff.mp hstep
        obtain rfl : holder = some (who, pc) := hholder
        have hplaced := h who pc rfl
        cases who with
        | user t => exact hplaced.work_lt_user hmove
        | polling => exact hplaced.work_lt_polling hmove

end Descent

section Progress

open AsyncClientStreamWriter

variable [DecidableEq Tid] {w : AsyncClientStreamWriter Tid Request Response}
  {s : ActionsMutex Tid Request Response} {who : MutexHolder Tid} {pc : SectionPc Request}

omit [DecidableEq Tid] in
theorem stateMutexHeld_iff : w.stateMutexHeld = true ↔ ∃ a ok, w.completion = .resultSet a ok := by
  unfold stateMutexHeld
  split
  · rename_i a ok hpc
    exact ⟨fun _ => ⟨a, ok, hpc⟩, fun _ => rfl⟩
  · rename_i hpc
    exact ⟨fun h => (by cases h), fun ⟨a, ok, h⟩ => (hpc a ok h).elim⟩

/-- A holder waits for `_stateMutex` or goes on. -/
theorem holderStep_isSome (h : w.stateMutexHeld = false) : (holderStep who w pc).isSome = true := by
  cases pc with
  | pushing _ => rfl
  | trying | popped _ | draining _ _ =>
      simp only [holderStep]
      split <;> rfl
  | performing a => simp [holderStep, h]
  | drainPopped a last fin =>
      simp only [holderStep]
      split <;> split <;> try split
      all_goals rfl

theorem step_completion_isSome (hterm : s.writer.terminated = false)
    (hbusy : s.writer.completion ≠ .idle)
    (hfree : s.holder = none ∨ entersSection s.writer .completion = none) :
    (s.step (.outside .completion)).isSome = true := by
  simp only [step, hterm, Bool.false_eq_true, if_false]
  cases henter : entersSection s.writer .completion with
  | some entry =>
      have hnone : s.holder = none := by simpa [henter] using hfree
      simp [hnone, mayEnter]
  | none =>
      rw [Option.isSome_map, step_completion hterm]
      exact completionStep_isSome hbusy

/-- Where no thread inside the writer can go on there is none. -/
theorem atRest_of_blocked (hterm : s.writer.terminated = false)
    (hblocked : ∀ l : Event Tid Request Response, l.IsInternal → s.step l = none) : s.AtRest := by
  have hcompletion : ¬ (s.step (.outside .completion)).isSome = true := by
    rw [hblocked (.outside .completion) trivial]
    nofun
  have hunheld : s.writer.stateMutexHeld = false := by
    rw [← Bool.not_eq_true, stateMutexHeld_iff]
    rintro ⟨a, ok, hpc⟩
    refine hcompletion (step_completion_isSome hterm (by simp [hpc]) (.inr ?_))
    simp only [entersSection, hpc]
  have hfree : s.holder = none := by
    cases hholder : s.holder with
    | none => rfl
    | some entry =>
        have hnone := hblocked .holder trivial
        have hsome : (holderStep entry.1 s.writer entry.2).isSome = true := holderStep_isSome hunheld
        simp only [step, hterm, hholder, Bool.false_eq_true, if_false, Option.bind_some] at hnone
        rw [hnone] at hsome
        cases hsome
  refine ⟨hfree, ?_, ?_⟩
  · cases hcallers : s.writer.callers with
    | nil => rfl
    | cons t ts =>
        have hnone := hblocked (.outside (.tryPerformAction t)) trivial
        simp [step, hterm, entersSection, hfree, mayEnter, hcallers] at hnone
  · by_contra hbusy
    exact hcompletion (step_completion_isSome hterm hbusy (.inl hfree))

/-- **No deadlock.** Whatever the schedule, the threads inside the writer come to rest within `work`
steps, unless the process ends: none waits for ever, and none runs for ever. -/
theorem comesToRest_of_reachable (response : Response) (s : ActionsMutex Tid Request Response)
    (hs : (system Tid Request response).Reachable s) :
    (system Tid Request response).Quiesces (fun _ e => e.IsInternal) (fun _ e => e.IsInternal) s.work
      (fun t => t.writer.terminated = true ∨ t.AtRest) s := by
  refine TransitionSystem.quiesces_of_descent (I := Inv) work ?_ ?_ (atomic_reachable hs).1
  · exact fun s l t h hinternal hstep => ⟨(h.step hstep).1, h.work_lt hinternal hstep⟩
  · intro s _ hblocked
    cases hterm : s.writer.terminated with
    | true => exact .inl rfl
    | false => exact .inr (atRest_of_blocked hterm hblocked)

/-- The polling thread pops the write of a user thread in the section that its own Finish asked for. -/
theorem comesToRest_crossedPops : ∃ s, (system Bool String "").run
    { writer := .initial Bool String "" } (crossedPops.take 15) = some s ∧ s.work = 15 ∧
    (system Bool String "").Quiesces (fun _ e => e.IsInternal) (fun _ e => e.IsInternal) s.work
      (fun t => t.writer.terminated = true ∨ t.AtRest) s := by
  refine ⟨_, rfl, rfl, comesToRest_of_reachable "" _ ?_⟩
  exact TransitionSystem.reachable_of_run (crossedPops.take 15) (.init rfl) rfl

end Progress

section Refinement

open AsyncClientStreamWriter

variable [DecidableEq Tid] {w w' : AsyncClientStreamWriter Tid Request Response} {response : Response}
  {who : MutexHolder Tid} {pc : SectionPc Request} {s s' : ActionsMutex Tid Request Response}

theorem reachable_holder (hterm : w.terminated = false)
    (hs : (system Tid Request response).Reachable { writer := w, holder := some (who, pc) })
    (hstep : holderStep who w pc = some s') : (system Tid Request response).Reachable s' := by
  refine hs.step (l := .holder) trivial ?_
  change ActionsMutex.step { writer := w, holder := some (who, pc) } .holder = some s'
  simpa only [ActionsMutex.step, hterm, Bool.false_eq_true, if_false, Option.bind_some] using hstep

theorem reachable_enter {e : AsyncClientStreamWriter.Event Tid Request Response}
    (hterm : w.terminated = false) (hs : (system Tid Request response).Reachable { writer := w })
    (henter : entersSection w e = some (who, pc)) (hmay : mayEnter w e = true) :
    (system Tid Request response).Reachable { writer := w, holder := some (who, pc) } := by
  refine hs.step (l := .outside e) trivial ?_
  change ActionsMutex.step { writer := w } (.outside e) = _
  simp only [ActionsMutex.step, hterm, Bool.false_eq_true, if_false, henter, hmay, Option.isNone_none,
    and_self, if_true]

/-- The rounds of the loop, one after the other. -/
theorem reachable_drain (last fin : Bool) {q : List (StreamAction Request)} (hq : w.actions = q)
    (hterm : w.terminated = false)
    (hs : (system Tid Request response).Reachable
      { writer := w, holder := some (who, .draining last fin) }) :
    (system Tid Request response).Reachable { writer := afterSection who (drain last fin q w) } := by
  induction q generalizing w fin with
  | nil => exact reachable_holder hterm hs (by simp only [holderStep, hq, drain])
  | cons a rest ih =>
      have hpopped : (system Tid Request response).Reachable
          { writer := w.popAction a rest, holder := some (who, .drainPopped a last fin) } :=
        reachable_holder hterm hs (by simp only [holderStep, hq])
      have hround : ∀ s', holderStep who (w.popAction a rest) (.drainPopped a last fin) = some s' →
          (system Tid Request response).Reachable s' := fun s' h =>
        reachable_holder (w := w.popAction a rest) hterm hpopped h
      simp only [drain]
      split
      · rename_i message options hkind
        split
        · rename_i hlast
          exact ih fin rfl hterm (hround _ (by simp only [holderStep, hkind, if_pos hlast]))
        · rename_i hlast
          split
          · rename_i hfin
            exact ih fin rfl hterm
              (hround _ (by simp only [holderStep, hkind, if_neg hlast, if_pos hfin]))
          · rename_i hfin
            exact ih fin rfl hterm
              (hround _ (by simp only [holderStep, hkind, if_neg hlast, if_neg hfin]))
      · rename_i hkind
        split
        · rename_i hfin
          exact ih fin rfl hterm (hround _ (by simp only [holderStep, hkind, if_pos hfin]))
        · rename_i hfin
          exact ih true rfl hterm (hround _ (by simp only [holderStep, hkind, if_neg hfin]))

/-- A section that tries to perform the front of the queue. -/
theorem reachable_try (hterm : w.terminated = false)
    (hmutex : w.state = .ready → w.stateMutexHeld = true → w.actions.isEmpty = true)
    (hs : (system Tid Request response).Reachable { writer := w, holder := some (who, .trying) }) :
    (system Tid Request response).Reachable { writer := afterSection who w.tryPerformAction } := by
  cases hq : w.actions with
  | nil =>
      have hsame : w.tryPerformAction = w := by simp only [tryPerformAction, hq]
      rw [hsame]
      exact reachable_holder hterm hs (by simp only [holderStep, hq])
  | cons a rest =>
      have hpopped : (system Tid Request response).Reachable
          { writer := w.popAction a rest, holder := some (who, .popped a) } :=
        reachable_holder hterm hs (by simp only [holderStep, hq])
      have htry : w.tryPerformAction = (w.popAction a rest).tryPerformPopped a := by
        simp only [tryPerformAction, hq]
      have hgo : ∀ s', holderStep who (w.popAction a rest) (.popped a) = some s' →
          (system Tid Request response).Reachable s' := fun s' h =>
        reachable_holder (w := w.popAction a rest) hterm hpopped h
      rw [htry]
      cases hstate : (w.popAction a rest).state with
      | ready =>
          have hheld : (w.popAction a rest).stateMutexHeld = false := by
            rw [← Bool.not_eq_true]
            intro hheld
            have hempty := hmutex hstate hheld
            simp [hq] at hempty
          have hready : (system Tid Request response).Reachable
              { writer := w.popAction a rest, holder := some (who, .performing a) } :=
            hgo _ (by simp only [holderStep, hstate])
          refine reachable_holder (w := w.popAction a rest) hterm hready ?_
          simp only [holderStep, hheld, Bool.false_eq_true, if_false, tryPerformPopped, hstate]
      | processing => exact hgo _ (by simp only [holderStep, hstate, tryPerformPopped])
      | finished => exact hgo _ (by simp only [holderStep, hstate, tryPerformPopped])

/-- Every step of the writer's own system is a section from its beginning to its end, or no section. -/
theorem reachable_writer_step {e : AsyncClientStreamWriter.Event Tid Request Response}
    (hs : (system Tid Request response).Reachable { writer := w }) (hstep : w.step e = some w') :
    (system Tid Request response).Reachable { writer := w' } := by
  obtain ⟨hterm, hmove⟩ := step_cases hstep
  have houtside : entersSection w e = none →
    (system Tid Request response).Reachable { writer := w' } := by
    intro hfree
    refine hs.step (l := .outside e) trivial ?_
    change ActionsMutex.step { writer := w } (.outside e) = _
    simp only [ActionsMutex.step, hterm, Bool.false_eq_true, if_false, hfree, hstep, Option.map_some]
  cases hmove with
  | @write t message options ht =>
      have henter := reachable_enter (e := .write t message options) hterm hs rfl
        (by simpa [mayEnter] using ht)
      exact reachable_holder hterm henter rfl
  | @finish t ht =>
      have henter := reachable_enter (e := .finish t) hterm hs rfl (by simpa [mayEnter] using ht)
      exact reachable_holder hterm henter rfl
  | @tryPerformAction t ht hmutex =>
      have henter := reachable_enter (e := .tryPerformAction t) hterm hs rfl
        (by simpa [mayEnter] using ht)
      have hdone := reachable_try hterm hmutex henter
      rwa [afterSection, tryPerformAction_callers] at hdone
  | asyncNext _ _ => exact houtside rfl
  | setResult hpc | stateReady hpc | delete hpc => exact houtside (by simp only [entersSection, hpc])
  | finalizeFinish hpc ha =>
      refine houtside ?_
      simp only [entersSection, hpc]
      split
      · rename_i hkind
        simp [StreamAction.isFinish, StreamAction.isWrite, hkind] at ha
      · rfl
  | @finalizeWriteOk a hpc ha =>
      have hentry : entersSection w .completion = some (.polling, .draining a.isLastMessage false) := by
        simp only [entersSection, hpc]
        split
        · rfl
        · rename_i hkind
          simp [StreamAction.isWrite, hkind] at ha
      have hdone := reachable_drain a.isLastMessage false rfl hterm (reachable_enter hterm hs hentry rfl)
      rwa [afterSection_stateReady ((drain_handedOver a.isLastMessage w.actions w).completion.trans hpc)]
        at hdone
  | @finalizeWriteFailed a hpc ha =>
      have hentry : entersSection w .completion = some (.polling, .pushing .finish) := by
        simp only [entersSection, hpc]
        split
        · rfl
        · rename_i hkind
          simp [StreamAction.isWrite, hkind] at ha
      have hpc' : (w.newAction .finish).completion = .stateReady a false := hpc
      have hdone := reachable_holder hterm (reachable_enter hterm hs hentry rfl) rfl
      rwa [afterPush_stateReady hpc'] at hdone
  | @finishPushed a hpc =>
      have hentry : entersSection w .completion = some (.polling, .trying) := by
        simp only [entersSection, hpc]
      have hdone := reachable_try hterm (by simp [stateMutexHeld, hpc])
        (reachable_enter hterm hs hentry rfl)
      rwa [afterSection_finishPushed (w.tryPerformAction_completion.trans hpc)] at hdone

/-- **Refinement, both ways.** Between two sections the writer is in a state that its own system reaches,
where a section is one step, and every state of that system is found between two sections. -/
theorem reachable_iff_betweenSections (response : Response)
    (w : AsyncClientStreamWriter Tid Request Response) :
    (AsyncClientStreamWriter.system Tid Request response).Reachable w ↔
      (system Tid Request response).Reachable { writer := w } := by
  constructor
  · intro hw
    refine hw.invariant (I := fun w => (system Tid Request response).Reachable { writer := w }) ?_ ?_
    · rintro w rfl
      exact .init rfl
    · exact fun w e w' h _ hstep => reachable_writer_step h hstep
  · exact fun hs => (atomic_reachable hs).2

end Refinement

end EasyGrpc.Client.ActionsMutex
