import EasyGrpc.AsyncActionQueue
import EasyGrpc.Outstanding
import Mathlib.Data.List.Induction

/-!
# The destructor of the action queue

The destructor ends, and ends on a drained queue, exactly when somebody polled the queue once more
after it was shut down and its last event delivered, and no finaliser threw. Owners that run a
polling thread up to `SHUTDOWN` and join it do so; a queue that is only shut down does not.
-/

namespace EasyGrpc.AsyncActionQueue

structure EndsDrained (q : AsyncActionQueue) : Prop where
  written : q.nextStatus = some .shutdown
  ends : ∀ garbage, ∃ fuel, q.waitForShutdown garbage fuel = some ()
  drained : ∀ garbage fuel, q.waitForShutdown garbage fuel = some () →
    q.completionQueue.shutdownCalled = true ∧
      ∀ id < q.nextAction, id ∈ q.finalized.map Prod.fst ∧ id ∈ q.deleted

/-- A poll of the history found the queue shut down and without events. -/
def PolledDry (es : List Event) : Prop :=
  ∃ before after m, es = before ++ .asyncNext none :: after ∧
    system.run {} before = some m ∧ m.completionQueue.Drained

def NoThrow (es : List Event) : Prop := ∀ c : Completion, .asyncNext (some c) ∈ es → c.throws = false

structure Inv (q : AsyncActionQueue) : Prop where
  ledger : Ledger (q.completionQueue.pending ++ q.thrown) q.deleted q.nextAction
  finalized : ∀ id ∈ q.deleted, id ∈ q.finalized.map Prod.fst
  dry : q.nextStatus = some .shutdown → q.completionQueue.Drained

section Steps

variable {q q' : AsyncActionQueue} {e : Event} {c : Completion}

structure Started (n : Nat) (q q' : AsyncActionQueue) : Prop where
  ledger : ∀ held freed, Ledger (q.completionQueue.pending ++ held) freed q.nextAction →
    Ledger (q'.completionQueue.pending ++ held) freed q'.nextAction
  pending : n = 0 → q'.completionQueue.pending = q.completionQueue.pending
  others : q' = { q with
    nextAction := q'.nextAction
    completionQueue := { q.completionQueue with pending := q'.completionQueue.pending } }

theorem startActions_started (n : Nat) (q : AsyncActionQueue) : Started n q (startActions n q) := by
  induction n generalizing q with
  | zero => exact ⟨fun _ _ h => h, fun _ => rfl, rfl⟩
  | succ n ih =>
      have hrest := ih { q with
        nextAction := q.nextAction + 1
        completionQueue :=
          { q.completionQueue with pending := q.completionQueue.pending ++ [q.nextAction] } }
      refine ⟨fun held freed h => hrest.ledger held freed ?_, nofun, hrest.others⟩
      apply h.alloc.of_perm
      rw [List.append_assoc, List.append_assoc]
      exact List.perm_append_comm.append_left _

theorem Inv.start (hinv : Inv q) (hopen : q.completionQueue.shutdownCalled = false) :
    Inv (startActions 1 q) := by
  have hstarted := startActions_started 1 q
  rw [hstarted.others]
  refine ⟨hstarted.ledger q.thrown q.deleted hinv.ledger, hinv.finalized, fun hdry => ?_⟩
  have hshutdown := (hinv.dry hdry).1
  rw [hopen] at hshutdown
  cases hshutdown

theorem finalizeResult_nextStatus (c : Completion) (q : AsyncActionQueue) :
    (q.finalizeResult c).nextStatus = if c.throws then q.nextStatus else some .gotEvent := by
  have hstarted := startActions_started c.starts { q with finalized := q.finalized ++ [(c.tag, c.ok)] }
  unfold finalizeResult
  rw [hstarted.others]
  by_cases hthrows : c.throws <;> simp [hthrows]

theorem finalizeResult_thrown (c : Completion) (q : AsyncActionQueue) :
    (q.finalizeResult c).thrown = if c.throws then q.thrown ++ [c.tag] else q.thrown := by
  have hstarted := startActions_started c.starts { q with finalized := q.finalized ++ [(c.tag, c.ok)] }
  unfold finalizeResult
  rw [hstarted.others]
  by_cases hthrows : c.throws <;> simp [hthrows]

theorem ledger_finalizeResult
    (hledger : Ledger (c.tag :: (q.completionQueue.pending ++ q.thrown)) q.deleted q.nextAction) :
    Ledger ((q.finalizeResult c).completionQueue.pending ++ (q.finalizeResult c).thrown)
      (q.finalizeResult c).deleted (q.finalizeResult c).nextAction := by
  have hstarted := startActions_started c.starts { q with finalized := q.finalized ++ [(c.tag, c.ok)] }
  have hperm : (c.tag :: (q.completionQueue.pending ++ q.thrown)).Perm
      (q.completionQueue.pending ++ (q.thrown ++ [c.tag])) := by
    rw [← List.append_assoc]
    exact (List.perm_append_singleton _ _).symm
  have hafter := hstarted.ledger (q.thrown ++ [c.tag]) q.deleted (hledger.of_perm hperm)
  unfold finalizeResult
  rw [hstarted.others]
  by_cases hthrows : c.throws
  · simp only [hthrows, if_true]
    exact hafter
  · simp only [hthrows]
    refine Ledger.free (hafter.of_perm ?_)
    rw [← List.append_assoc]
    exact List.perm_append_singleton _ _

theorem finalized_finalizeResult (hfinalized : ∀ id ∈ q.deleted, id ∈ q.finalized.map Prod.fst) :
    ∀ id ∈ (q.finalizeResult c).deleted, id ∈ (q.finalizeResult c).finalized.map Prod.fst := by
  have hstarted := startActions_started c.starts { q with finalized := q.finalized ++ [(c.tag, c.ok)] }
  unfold finalizeResult
  rw [hstarted.others]
  intro id hid
  by_cases hthrows : c.throws
  · simp only [hthrows, if_true] at hid ⊢
    simpa using Or.inl (List.mem_map.mp (hfinalized id hid))
  · simp only [hthrows] at hid ⊢
    have hor : id ∈ q.deleted ∨ id = c.tag := by simpa using hid
    cases hor with
    | inl hold => simpa using Or.inl (List.mem_map.mp (hfinalized id hold))
    | inr hnew => simp [hnew]

theorem Inv.asyncNext {event : Option Completion} (hinv : Inv q)
    (hstep : q.asyncNext event = some q') : Inv q' := by
  cases event with
  | none =>
      obtain rfl := Option.some.inj hstep
      refine { hinv with dry := fun hdry => ?_ }
      by_contra hnot
      have hanswer : q.completionQueue.noEvent = .shutdown := Option.some.inj hdry
      rw [CompletionQueue.noEvent, if_neg hnot] at hanswer
      cases hanswer
  | some c =>
      simp only [AsyncActionQueue.asyncNext] at hstep
      split at hstep
      · cases hstep
      · rename_i hguard
        push Not at hguard
        obtain rfl := Option.some.inj hstep
        have hperm := (List.perm_cons_erase hguard.1).append_right q.thrown
        refine ⟨ledger_finalizeResult (hinv.ledger.of_perm hperm),
          finalized_finalizeResult hinv.finalized, fun hdry => ?_⟩
        rw [finalizeResult_nextStatus] at hdry
        split at hdry
        · have hempty := (hinv.dry hdry).2
          rw [hempty] at hguard
          cases hguard.1
        · cases hdry

theorem Inv.step (hinv : Inv q) (hstep : q.step e = some q') : Inv q' := by
  cases e with
  | start =>
      simp only [AsyncActionQueue.step] at hstep
      split at hstep
      · cases hstep
      · rename_i hopen
        exact Option.some.inj hstep ▸ hinv.start (by simpa using hopen)
  | asyncNext event => exact hinv.asyncNext hstep
  | shutdown =>
      obtain rfl := Option.some.inj hstep
      exact { hinv with dry := fun hdry => ⟨rfl, (hinv.dry hdry).2⟩ }

theorem dry_step (hdry : q.completionQueue.Drained ∧ q.nextStatus = some .shutdown)
    (hstep : q.step e = some q') :
    q'.completionQueue.Drained ∧ q'.nextStatus = some .shutdown := by
  obtain ⟨⟨hshutdown, hempty⟩, hstatus⟩ := hdry
  cases e with
  | start => simp [AsyncActionQueue.step, hshutdown] at hstep
  | asyncNext event =>
      cases event with
      | none =>
          obtain rfl := Option.some.inj hstep
          refine ⟨⟨hshutdown, hempty⟩, ?_⟩
          simp [CompletionQueue.noEvent, CompletionQueue.Drained, hshutdown, hempty]
      | some c => simp [AsyncActionQueue.step, AsyncActionQueue.asyncNext, hempty] at hstep
  | shutdown =>
      obtain rfl := Option.some.inj hstep
      exact ⟨⟨rfl, hempty⟩, hstatus⟩

/-- Only a poll changes the stored status, and only one that gets no event can store `SHUTDOWN`. -/
theorem nextStatus_step (hstep : q.step e = some q') (hstatus : q'.nextStatus = some .shutdown) :
    q.nextStatus = some .shutdown ∨ (e = .asyncNext none ∧ q.completionQueue.Drained) := by
  cases e with
  | start =>
      simp only [AsyncActionQueue.step] at hstep
      split at hstep
      · cases hstep
      · obtain rfl := Option.some.inj hstep
        rw [(startActions_started 1 q).others] at hstatus
        exact .inl hstatus
  | shutdown =>
      obtain rfl := Option.some.inj hstep
      exact .inl hstatus
  | asyncNext event =>
      cases event with
      | none =>
          obtain rfl := Option.some.inj hstep
          right
          refine ⟨rfl, ?_⟩
          by_contra hnot
          have hanswer : q.completionQueue.noEvent = .shutdown := Option.some.inj hstatus
          rw [CompletionQueue.noEvent, if_neg hnot] at hanswer
          cases hanswer
      | some c =>
          simp only [AsyncActionQueue.step, AsyncActionQueue.asyncNext] at hstep
          split at hstep
          · cases hstep
          · obtain rfl := Option.some.inj hstep
            rw [finalizeResult_nextStatus] at hstatus
            split at hstatus
            · exact .inl hstatus
            · cases hstatus

theorem thrown_step (hstep : q.step e = some q') :
    q'.thrown = [] ↔ q.thrown = [] ∧ NoThrow [e] := by
  cases e with
  | start =>
      simp only [AsyncActionQueue.step] at hstep
      split at hstep
      · cases hstep
      · obtain rfl := Option.some.inj hstep
        rw [(startActions_started 1 q).others]
        simp [NoThrow]
  | shutdown =>
      obtain rfl := Option.some.inj hstep
      simp [NoThrow]
  | asyncNext event =>
      cases event with
      | none =>
          obtain rfl := Option.some.inj hstep
          simp [NoThrow]
      | some c =>
          simp only [AsyncActionQueue.step, AsyncActionQueue.asyncNext] at hstep
          split at hstep
          · cases hstep
          · obtain rfl := Option.some.inj hstep
            rw [finalizeResult_thrown]
            cases hthrows : c.throws <;> simp [NoThrow, hthrows]

end Steps

section Runs

variable {q : AsyncActionQueue} {es : List Event}

theorem initial_inv : Inv {} := ⟨.empty, nofun, nofun⟩

theorem inv_of_run (hrun : system.run {} es = some q) : Inv q :=
  TransitionSystem.run_invariant (fun _ _ _ hinv hstep => hinv.step hstep) initial_inv hrun

theorem thrown_eq_nil_iff (hrun : system.run {} es = some q) : q.thrown = [] ↔ NoThrow es := by
  induction es using List.reverseRecOn generalizing q with
  | nil =>
      obtain rfl := Option.some.inj hrun
      simp [NoThrow]
  | append_singleton es e ih =>
      obtain ⟨m, hm, hstep⟩ := TransitionSystem.run_concat_eq_some hrun
      rw [thrown_step hstep, ih hm]
      simp [NoThrow, or_imp, forall_and]

theorem nextStatus_eq_shutdown_iff (hrun : system.run {} es = some q) :
    q.nextStatus = some .shutdown ↔ PolledDry es := by
  constructor
  · intro hstatus
    induction es using List.reverseRecOn generalizing q with
    | nil =>
        obtain rfl := Option.some.inj hrun
        cases hstatus
    | append_singleton es e ih =>
        obtain ⟨m, hm, hstep⟩ := TransitionSystem.run_concat_eq_some hrun
        cases nextStatus_step hstep hstatus with
        | inl hbefore =>
            obtain ⟨before, after, m', rfl, hm', hdrained⟩ := ih hm hbefore
            exact ⟨before, after ++ [e], m', by simp, hm', hdrained⟩
        | inr hpoll => exact ⟨es, [], m, by rw [hpoll.1], hm, hpoll.2⟩
  · rintro ⟨before, after, m, rfl, hm, hdrained⟩
    rw [TransitionSystem.run_append, hm] at hrun
    have hpolled : system.run { m with nextStatus := some .shutdown } after = some q := by
      have hanswer : m.completionQueue.noEvent = .shutdown := if_pos hdrained
      rw [← hanswer]
      exact hrun
    have hdry := TransitionSystem.run_invariant
      (I := fun q => q.completionQueue.Drained ∧ q.nextStatus = some .shutdown)
      (fun _ _ _ h hstep => dry_step h hstep) ⟨hdrained, rfl⟩ hpolled
    exact hdry.2

theorem Inv.endsDrained_iff (hinv : Inv q) :
    q.EndsDrained ↔ q.nextStatus = some .shutdown ∧ q.thrown = [] := by
  constructor
  · intro h
    refine ⟨h.written, List.eq_nil_iff_forall_not_mem.mpr fun id hid => ?_⟩
    obtain ⟨fuel, hends⟩ := h.ends .shutdown
    have hheld : id ∈ q.completionQueue.pending ++ q.thrown := List.mem_append_right _ hid
    have hstarted := hinv.ledger.mem_held_or_freed.mpr (.inl hheld)
    have hdeleted := ((h.drained .shutdown fuel hends).2 id hstarted).2
    exact hinv.ledger.not_mem_freed hheld hdeleted
  · rintro ⟨hstatus, hthrown⟩
    have hdrained := hinv.dry hstatus
    refine ⟨hstatus, fun garbage => ⟨1, ?_⟩, fun garbage fuel _ => ⟨hdrained.1, fun id hid => ?_⟩⟩
    · simp [waitForShutdown, loadNextStatus, hstatus]
    · have hdeleted : id ∈ q.deleted := by
        have hplace := hinv.ledger.mem_held_or_freed.mp hid
        rw [hdrained.2, hthrown] at hplace
        exact hplace.resolve_left List.not_mem_nil
      exact ⟨hinv.finalized id hdeleted, hdeleted⟩

/-- **The destructor.** At the end of every history of a queue, the destructor ends after a full
drain exactly when the history polled the queue dry and no finaliser threw. -/
theorem endsDrained_iff_polledDry (hrun : system.run {} es = some q) :
    q.EndsDrained ↔ PolledDry es ∧ NoThrow es := by
  rw [(inv_of_run hrun).endsDrained_iff, nextStatus_eq_shutdown_iff hrun, thrown_eq_nil_iff hrun]

theorem joinedHistory_endsDrained : ∃ q, system.run {} [.start, .shutdown,
      .asyncNext (some { tag := 0, ok := true }), .asyncNext none] = some q ∧ q.EndsDrained := by
  refine ⟨_, rfl, ?_⟩
  have hrun : system.run {} [.start, .shutdown, .asyncNext (some { tag := 0, ok := true }),
    .asyncNext none] = some _ := rfl
  refine (endsDrained_iff_polledDry hrun).mpr ⟨?_, ?_⟩
  · exact ⟨[.start, .shutdown, .asyncNext (some { tag := 0, ok := true })], [], _, rfl, rfl,
      by decide⟩
  · simp [NoThrow]

theorem waitForShutdown_eq_none {garbage : NextStatus}
    (hstatus : q.loadNextStatus garbage ≠ .shutdown) (fuel : Nat) :
    q.waitForShutdown garbage fuel = none := by
  induction fuel with
  | zero => rfl
  | succ fuel ih => rw [waitForShutdown, if_neg hstatus, ih]

end Runs

def alarmHistory : List Event := [.start, .asyncNext (some { tag := 0, ok := true }), .shutdown]

theorem alarmHistory_spins : ∃ q, system.run {} alarmHistory = some q ∧ ¬ q.EndsDrained ∧
    ∀ garbage fuel, q.waitForShutdown garbage fuel = none := by
  have hrun : system.run {} alarmHistory = some
      { completionQueue := { shutdownCalled := true }, nextStatus := some .gotEvent
        nextAction := 1, finalized := [(0, true)], deleted := [0] } := by decide
  refine ⟨_, hrun, fun h => ?_, fun garbage fuel => ?_⟩
  · cases h.written
  · exact waitForShutdown_eq_none (by simp [loadNextStatus]) fuel

end EasyGrpc.AsyncActionQueue
