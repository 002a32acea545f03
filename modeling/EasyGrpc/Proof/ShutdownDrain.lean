import EasyGrpc.Proof.DrainBound
import EasyGrpc.Proof.HandlerLifetime
import Mathlib.Algebra.BigOperators.Ring.Finset
import Mathlib.Algebra.Order.BigOperators.Group.Finset

/-!
# The drain after a shutdown

From `Server::Shutdown` on no handler is registered, and a request tag opened since then can only be
refused. The completions that the actions of a queue may still lead to, summed over its handlers, are
fewer after each completion on it.
-/

namespace EasyGrpc.Server

namespace CallHandlers

open AsyncUnaryCallHandler (Sound)

variable {Context Request Response ε : Type}

def UnaryReturning : Event Context Request Response ε → Prop
  | .unary _ e => AsyncUnaryCallHandler.Returns e
  | .registerClientStream _ _ => False
  | .clientStream _ _ => False
  | _ => True

def ofUnary (f : AsyncUnaryCallHandler Context Request Response ε → Nat) :
    Option (CallHandler Context Request Response ε) → Nat
  | some (.unary h) => f h
  | _ => 0

def actionsMade (s : CallHandlers Context Request Response ε) (k : Nat) : Nat :=
  ofUnary (·.nextAction) (s.handlers k)

/-- A step after the shutdown in `s₀`: a request tag opened since then comes back with `ok` false. -/
structure AfterShutdown (s₀ s : CallHandlers Context Request Response ε)
    (e : Event Context Request Response ε) : Prop where
  returning : UnaryReturning e
  refusesLate : ∀ k e', e = .unary k e' → ∀ h, s.handlers k = some (.unary h) →
    AsyncUnaryCallHandler.RefusesLate (s₀.actionsMade k) h e'

def onQueue (s : CallHandlers Context Request Response ε) (queue : Nat)
    (f : Nat → AsyncUnaryCallHandler Context Request Response ε → Nat) : Nat :=
  ∑ k ∈ Finset.range s.nextHandler with s.queueOf k = queue, ofUnary (f k) (s.handlers k)

def requests (s : CallHandlers Context Request Response ε) (queue : Nat) : Nat :=
  s.onQueue queue fun _ h => h.requests

def handlings (s : CallHandlers Context Request Response ε) (queue : Nat) : Nat :=
  s.onQueue queue fun _ h => h.handlings

def finishings (s : CallHandlers Context Request Response ε) (queue : Nat) : Nat :=
  s.onQueue queue fun _ h => h.finishings

def isStepOn (s : CallHandlers Context Request Response ε) (queue : Nat) :
    Event Context Request Response ε → Bool
  | .unary k _ => s.queueOf k = queue
  | _ => false

def completionsOn (s : CallHandlers Context Request Response ε) (queue : Nat)
    (es : List (Event Context Request Response ε)) : Nat :=
  es.countP fun e => isStepOn s queue e && isCompletion e

def stepsOn (s : CallHandlers Context Request Response ε) (queue : Nat)
    (es : List (Event Context Request Response ε)) : Nat :=
  es.countP (isStepOn s queue)

def Drained (s : CallHandlers Context Request Response ε) (queue : Nat) : Prop :=
  ∀ k h, s.queueOf k = queue → s.handlers k = some (.unary h) → h.Drained

section Sums

variable {s s' : CallHandlers Context Request Response ε} {queue k : Nat}
  {h h' : AsyncUnaryCallHandler Context Request Response ε}
  {f g : Nat → AsyncUnaryCallHandler Context Request Response ε → Nat}

theorem onQueue_le (hfg : ∀ k h, f k h ≤ g k h) : s.onQueue queue f ≤ s.onQueue queue g := by
  apply Finset.sum_le_sum
  intro k _
  unfold ofUnary
  split
  · exact hfg _ _
  · exact Nat.le_refl _

theorem onQueue_add : (s.onQueue queue fun k h => f k h + g k h) =
    s.onQueue queue f + s.onQueue queue g := by
  unfold onQueue
  rw [← Finset.sum_add_distrib]
  apply Finset.sum_congr rfl
  intro k _
  unfold ofUnary
  split <;> rfl

theorem onQueue_mul (c : Nat) : (s.onQueue queue fun k h => c * f k h) = c * s.onQueue queue f := by
  unfold onQueue
  rw [Finset.mul_sum]
  apply Finset.sum_congr rfl
  intro k _
  unfold ofUnary
  split <;> rfl

/-- A step of one handler is paid for within its queue. -/
theorem onQueue_setHandler (queue : Nat)
    (h' : AsyncUnaryCallHandler Context Request Response ε) {cost : Nat} (hk : s.handlers k = some (.unary h))
    (hlt : k < s.nextHandler) (hpaid : f k h' + cost ≤ f k h) :
    (s.setHandler k (.unary h')).onQueue queue f + (if s.queueOf k = queue then cost else 0) ≤
      s.onQueue queue f := by
  have hself : (s.setHandler k (.unary h')).handlers k = some (.unary h') := Function.update_self _ _ _
  have hothers : ∀ j, j ≠ k → (s.setHandler k (.unary h')).handlers j = s.handlers j :=
    fun j hj => Function.update_of_ne hj _ _
  have hsame : ∀ l : Finset Nat, k ∉ l →
      ∑ j ∈ l, ofUnary (f j) ((s.setHandler k (.unary h')).handlers j) =
        ∑ j ∈ l, ofUnary (f j) (s.handlers j) := by
    intro l hl
    apply Finset.sum_congr rfl
    intro j hj
    rw [hothers j fun hjk => hl (hjk ▸ hj)]
  unfold onQueue
  change (∑ j ∈ (Finset.range s.nextHandler).filter fun j => s.queueOf j = queue, _) + _ ≤ _
  by_cases hqueue : s.queueOf k = queue
  · have hmem : k ∈ (Finset.range s.nextHandler).filter fun j => s.queueOf j = queue :=
      Finset.mem_filter.mpr ⟨Finset.mem_range.mpr hlt, hqueue⟩
    rw [if_pos hqueue, ← Finset.add_sum_erase _ _ hmem, ← Finset.add_sum_erase _ _ hmem,
      hsame _ (Finset.notMem_erase k _), hself, hk]
    simp only [ofUnary]
    omega
  · rw [if_neg hqueue, Nat.add_zero, hsame _ fun hmem => hqueue (Finset.mem_filter.mp hmem).2]

end Sums

section Shutdown

variable [Inhabited Context] [Inhabited Request] [Inhabited Response]
  {s s' s₀ t : CallHandlers Context Request Response ε} {e : Event Context Request Response ε}
  {queue k : Nat} {opened : Nat → Nat} {h h' : AsyncUnaryCallHandler Context Request Response ε}

omit [Inhabited Context] [Inhabited Request] [Inhabited Response] in
def AllSound (opened : Nat → Nat) (s : CallHandlers Context Request Response ε) : Prop :=
  ∀ k handler, s.handlers k = some handler →
    k < s.nextHandler ∧ ∃ h, handler = .unary h ∧ Sound (opened k) h

omit [Inhabited Context] [Inhabited Request] [Inhabited Response] in
theorem AllSound.unary (hs : AllSound opened s) (hk : s.handlers k = some (.unary h)) :
    k < s.nextHandler ∧ Sound (opened k) h := by
  obtain ⟨hlt, h', heq, hsound⟩ := hs k (.unary h) hk
  obtain rfl := CallHandler.unary.inj heq
  exact ⟨hlt, hsound⟩

omit [Inhabited Context] [Inhabited Request] [Inhabited Response] in
theorem AllSound.setHandler (hs : AllSound opened s) (hk : s.handlers k = some (.unary h))
    (hsound : Sound (opened k) h') : AllSound opened (s.setHandler k (.unary h')) := by
  intro j handler hj
  have hj' : Function.update s.handlers k (some (.unary h')) j = some handler := hj
  by_cases hjk : j = k
  · subst hjk
    rw [Function.update_self] at hj'
    exact ⟨(hs.unary hk).1, h', (Option.some.inj hj').symm, hsound⟩
  · rw [Function.update_of_ne hjk] at hj'
    exact hs j handler hj'

theorem AllSound.newCallHandler (hs : AllSound (fun _ => 0) s) :
    AllSound (fun _ => 0) (s.newCallHandler queue (.unary (.initial Context Request Response ε))) := by
  intro j handler hj
  have hj' : Function.update s.handlers s.nextHandler
      (some (.unary (.initial Context Request Response ε))) j = some handler := hj
  by_cases hnew : j = s.nextHandler
  · subst hnew
    rw [Function.update_self] at hj'
    exact ⟨Nat.lt_succ_self _, _, (Option.some.inj hj').symm,
      AsyncUnaryCallHandler.initial_sound Context Request Response ε⟩
  · rw [Function.update_of_ne hnew] at hj'
    exact ⟨Nat.lt_succ_of_lt (hs j handler hj').1, (hs j handler hj').2⟩

theorem AllSound.move (hs : AllSound (fun _ => 0) s) (hmove : Move s e s') (he : UnaryReturning e) :
    AllSound (fun _ => 0) s' := by
  cases hmove with
  | registerUnary _ _ => exact hs.newCallHandler
  | registerClientStream _ _ | clientStream _ _ => exact he.elim
  | unary hk hstep => exact hs.setHandler hk ((hs.unary hk).2.step hstep he)
  | start _ | unaryRejected | clientStreamRejected | insert _ | shutdownServer _ | serverShutdown _
  | deleteAllCallHandlers _ | shutdownQueue _ => exact hs

structure Stopping (s₀ s : CallHandlers Context Request Response ε) : Prop where
  stage : s.stage ≠ .running
  started : s.started = true
  nextHandler : s.nextHandler = s₀.nextHandler
  queueOf : s.queueOf = s₀.queueOf
  sound : AllSound s₀.actionsMade s

theorem Stopping.move (hs : Stopping s₀ s) (hmove : Move s e s') (he : AfterShutdown s₀ s e) :
    Stopping s₀ s' := by
  cases hmove with
  | start hstage | registerUnary hstage _ | registerClientStream hstage _ => exact absurd hstage hs.stage
  | clientStream _ _ => exact he.returning.elim
  | unary hk hstep =>
      have hsound := hs.sound.setHandler hk ((hs.sound.unary hk).2.step hstep he.returning)
      exact ⟨hs.stage, hs.started, hs.nextHandler, hs.queueOf, hsound⟩
  | unaryRejected | clientStreamRejected | insert _ => exact { hs with }
  | shutdownServer _ | serverShutdown _ | deleteAllCallHandlers _ | shutdownQueue _ =>
      exact { hs with stage := nofun }

def costOn (perform : Nat) (s : CallHandlers Context Request Response ε) (queue : Nat) :
    Event Context Request Response ε → Nat
  | .unary k e => if s.queueOf k = queue then AsyncUnaryCallHandler.cost perform e else 0
  | _ => 0

theorem sum_map_eq_countP {α : Type} {p : α → Bool} {f : α → Nat} (hf : ∀ a, f a = (p a).toNat)
    (l : List α) : (l.map f).sum = l.countP p := by
  induction l with
  | nil => rfl
  | cons a l ih =>
      rw [List.map_cons, List.sum_cons, ih, List.countP_cons, hf, Nat.add_comm]
      cases p a <;> rfl

omit [Inhabited Context] [Inhabited Request] [Inhabited Response] in
theorem sum_costOn_zero (s : CallHandlers Context Request Response ε) (queue : Nat)
    (es : List (Event Context Request Response ε)) :
    (es.map (costOn 0 s queue)).sum = s.completionsOn queue es := by
  apply sum_map_eq_countP
  intro e
  cases e with
  | unary k e =>
      by_cases hqueue : s.queueOf k = queue <;>
        cases e <;> simp [costOn, isStepOn, isCompletion, AsyncUnaryCallHandler.cost, hqueue]
  | _ => rfl

omit [Inhabited Context] [Inhabited Request] [Inhabited Response] in
theorem sum_costOn_one (s : CallHandlers Context Request Response ε) (queue : Nat)
    (es : List (Event Context Request Response ε)) :
    (es.map (costOn 1 s queue)).sum = s.stepsOn queue es := by
  apply sum_map_eq_countP
  intro e
  cases e with
  | unary k e =>
      by_cases hqueue : s.queueOf k = queue <;>
        cases e <;> simp [costOn, isStepOn, AsyncUnaryCallHandler.cost, hqueue]
  | _ => rfl

def remaining (perform : Nat) (s₀ s : CallHandlers Context Request Response ε) (queue : Nat) : Nat :=
  s.onQueue queue fun k h => h.remaining perform (s₀.actionsMade k)

omit [Inhabited Context] [Inhabited Request] [Inhabited Response] in
theorem remaining_le (perform : Nat) (s₀ s : CallHandlers Context Request Response ε) (queue : Nat) :
    remaining perform s₀ s queue ≤
      (4 + perform) * s.requests queue + (2 + perform) * s.handlings queue + s.finishings queue := by
  unfold requests handlings finishings
  rw [← onQueue_mul, ← onQueue_mul, ← onQueue_add, ← onQueue_add]
  exact onQueue_le fun k h => h.remaining_le perform (s₀.actionsMade k)

theorem Stopping.remaining_move (queue : Nat) (hs : Stopping s₀ s) (hmove : Move s e s') (he : AfterShutdown s₀ s e)
    (perform : Nat) :
    remaining perform s₀ s' queue + costOn perform s₀ queue e ≤ remaining perform s₀ s queue := by
  cases hmove with
  | @unary k h h' e hk hstep =>
      obtain ⟨hlt, hsound⟩ := hs.sound.unary hk
      have hpaid := AsyncUnaryCallHandler.remaining_step perform hstep he.returning
        (he.refusesLate k e rfl h hk) hsound.opened
      have hqueue := onQueue_setHandler queue h'
        (f := fun k h => h.remaining perform (s₀.actionsMade k)) hk hlt hpaid
      rwa [hs.queueOf] at hqueue
  | start hstage | registerUnary hstage _ | registerClientStream hstage _ => exact absurd hstage hs.stage
  | clientStream _ _ => exact he.returning.elim
  | unaryRejected | clientStreamRejected | insert _ | shutdownServer _ | serverShutdown _
  | deleteAllCallHandlers _ | shutdownQueue _ => exact Nat.le_refl _

/-- Nothing more comes back on the queue and nothing is left to perform. -/
def Quiet (s₀ s : CallHandlers Context Request Response ε) (queue : Nat) : Prop :=
  ∀ k e s', s.queueOf k = queue → s.step (.unary k e) = some s' → ¬ AfterShutdown s₀ s (.unary k e)

theorem step_unary (hstarted : s.started = true) (hk : s.handlers k = some (.unary h))
    (e : AsyncUnaryCallHandler.Event Context Request Response ε) :
    s.step (.unary k e) = (h.step e).map fun h' => s.setHandler k (.unary h') := by
  simp only [step, hstarted, hk, Bool.true_eq_false, and_false, if_false]

/-- A handler with an action outstanding has a step that the shutdown allows. -/
theorem Stopping.exists_step (hs : Stopping s₀ s) (hk : s.handlers k = some (.unary h))
    (hactions : h.actions ≠ []) :
    ∃ e s', s.step (.unary k e) = some s' ∧ AfterShutdown s₀ s (.unary k e) ∧
      AsyncUnaryCallHandler.cost 1 e = 1 := by
  obtain ⟨a, ha⟩ := List.exists_mem_of_ne_nil _ hactions
  obtain ⟨e, hsome, hreturns, hlate, hcost⟩ :=
    (hs.sound.unary hk).2.untroubled.exists_step (s₀.actionsMade k) ha
  obtain ⟨h', hstep⟩ := Option.isSome_iff_exists.mp hsome
  refine ⟨e, s.setHandler k (.unary h'), ?_, ⟨hreturns, ?_⟩, hcost⟩
  · rw [step_unary hs.started hk, hstep]
    rfl
  · intro k' e' heq g hg
    obtain ⟨rfl, rfl⟩ := Event.unary.inj heq
    obtain rfl := CallHandler.unary.inj (Option.some.inj (hk.symm.trans hg))
    exact hlate

theorem Stopping.quiet_iff (hs : Stopping s₀ s) : Quiet s₀ s queue ↔ s.Drained queue := by
  constructor
  · intro hquiet k h hqueue hk
    refine (hs.sound.unary hk).2.inv.drained ?_
    by_contra hactions
    obtain ⟨e, s', hstep, hafter, -⟩ := hs.exists_step hk hactions
    exact hquiet k e s' hqueue hstep hafter
  · intro hdrained k e s' hqueue hstep
    cases step_cases hstep with
    | unary hk hmove =>
        rw [AsyncUnaryCallHandler.step_eq_none_of_nil (hdrained k _ hqueue hk).actions] at hmove
        cases hmove

omit [Inhabited Context] [Inhabited Request] [Inhabited Response] in
/-- A queue that is not drained has a handler with an action outstanding. -/
theorem Stopping.exists_outstanding (hs : Stopping s₀ s) (hdrained : ¬ s.Drained queue) :
    ∃ k h, s.queueOf k = queue ∧ s.handlers k = some (.unary h) ∧ h.actions ≠ [] := by
  by_contra hnone
  apply hdrained
  intro k h hqueue hk
  refine (hs.sound.unary hk).2.inv.drained ?_
  by_contra hactions
  exact hnone ⟨k, h, hqueue, hk, hactions⟩

structure DrainsTo (s₀ t : CallHandlers Context Request Response ε) (queue : Nat)
    (es : List (Event Context Request Response ε)) : Prop where
  completions : s₀.completionsOn queue es ≤
    4 * s₀.requests queue + 2 * s₀.handlings queue + s₀.finishings queue
  steps : s₀.stepsOn queue es ≤
    5 * s₀.requests queue + 3 * s₀.handlings queue + s₀.finishings queue
  ends : Quiet s₀ t queue ↔ t.Drained queue
  comesToAnEnd : ∃ es' u, (system Context Request Response ε).run t es' = some u ∧
    (system Context Request Response ε).AllSteps (fun s e _ => AfterShutdown s₀ s e) t es' ∧
    u.Drained queue

def StartedBefore (s : CallHandlers Context Request Response ε) : Prop :=
  s.stage ≠ .running → s.started = true

theorem StartedBefore.step (h : s.StartedBefore) (hstep : s.step e = some s') : s'.StartedBefore := by
  cases step_cases hstep with
  | shutdownServer _ =>
      simp only [CallHandlers.step, isCompletion, Bool.false_eq_true, false_and, if_false] at hstep
      split at hstep
      · rename_i hguard
        exact fun _ => hguard.2.1
      · cases hstep
  | start hstage => exact fun hrunning => absurd hstage hrunning
  | serverShutdown hstage | deleteAllCallHandlers hstage | shutdownQueue hstage =>
      refine fun _ => h ?_
      rw [hstage]
      intro heq
      cases heq
  | registerUnary _ _ | registerClientStream _ _ | unaryRejected | clientStreamRejected | insert _
  | unary _ _ | clientStream _ _ => exact h

theorem stopping_of_reachable
    (hs : (system Context Request Response ε).ReachableBy (fun _ e => UnaryReturning e) s)
    (hstop : s.stage ≠ .running) : Stopping s s := by
  have hinv : AllSound (fun _ => 0) s ∧ s.StartedBefore := by
    refine hs.invariant (I := fun s => AllSound (fun _ => 0) s ∧ s.StartedBefore) ?_ ?_
    · rintro s ⟨n, rfl⟩
      refine ⟨fun k handler hk => ?_, fun hrunning => absurd rfl hrunning⟩
      cases hk
    · exact fun s e s' hI he hstep => ⟨hI.1.move (step_cases hstep) he, hI.2.step hstep⟩
  refine ⟨hstop, hinv.2 hstop, rfl, rfl, ?_⟩
  intro k handler hk
  obtain ⟨hlt, h, rfl, hsound⟩ := hinv.1 k handler hk
  refine ⟨hlt, h, rfl, hsound.inv, hsound.untroubled, ?_⟩
  simp only [actionsMade, hk, ofUnary]
  exact Nat.le_refl _

/-- **Stopping drains.** From the moment on at which `stop` has called `Server::Shutdown`, every
continuation delivers at most four completions for each request outstanding then, two for each call in
handling and one for each call being finished. Where nothing more can come back, no action is outstanding
and every call was deleted, and every continuation can be carried on to there. Handlers that `stop` has
deleted go on here, and so does a process that starts an operation on a queue that was shut down. -/
theorem drains_after_shutdown (s t : CallHandlers Context Request Response ε) (queue : Nat)
    (es : List (Event Context Request Response ε))
    (hs : (system Context Request Response ε).ReachableBy (fun _ e => UnaryReturning e) s)
    (hstop : s.stage ≠ .running)
    (hafter : (system Context Request Response ε).AllSteps (fun u e _ => AfterShutdown s u e) s es)
    (hrun : (system Context Request Response ε).run s es = some t) : DrainsTo s t queue es := by
  have hstopping := stopping_of_reachable hs hstop
  have hkeeps : ∀ u e u', Stopping s u → (system Context Request Response ε).step u e = some u' →
      AfterShutdown s u e → Stopping s u' :=
    fun u e u' hI hstep he => hI.move (step_cases hstep) he
  have hcost : ∀ perform, (es.map (costOn perform s queue)).sum ≤ remaining perform s s queue := by
    intro perform
    have hpaid := hafter.cost_le (fun u => remaining perform s u queue) (costOn perform s queue) hkeeps
      (fun u e u' hI hstep he => hI.remaining_move queue (step_cases hstep) he perform) hstopping hrun
    omega
  have ht : Stopping s t := TransitionSystem.AllSteps.run_invariant hkeeps hstopping hafter hrun
  refine ⟨?_, ?_, ht.quiet_iff, ?_⟩
  · rw [← sum_costOn_zero]
    exact (hcost 0).trans (remaining_le 0 s s queue)
  · rw [← sum_costOn_one]
    exact (hcost 1).trans (remaining_le 1 s s queue)
  · refine TransitionSystem.exists_run_of_descent (I := Stopping s)
      (fun u => remaining 1 s u queue) ?_ ht
    intro u hu hdrained
    obtain ⟨k, h, hqueue, hk, hactions⟩ := hu.exists_outstanding hdrained
    obtain ⟨e, u', hstep, hafter', hcost'⟩ := hu.exists_step hk hactions
    have hpaid := hu.remaining_move queue (step_cases hstep) hafter' 1
    rw [costOn, ← hu.queueOf, if_pos hqueue, hcost'] at hpaid
    exact ⟨.unary k e, u', hstep, hafter', hkeeps u _ u' hu hstep hafter', hpaid⟩

end Shutdown

section Witness

variable {s t : CallHandlers Context Request Response ε} {k : Nat}

theorem afterShutdown_early {id : Nat} {ok : Bool} {context : Context} {request : Request}
    (inline : Option Response) (hid : id < s.actionsMade k) :
    AfterShutdown s t (.unary k (.asyncNext id ok context request (inline.map .ok)) :
      Event Context Request Response ε) := by
  refine ⟨?_, ?_⟩
  · intro outcome houtcome
    obtain ⟨response, -, rfl⟩ := Option.map_eq_some_iff.mp houtcome
    exact ⟨response, rfl⟩
  · intro k' e' heq h _
    obtain ⟨rfl, rfl⟩ := Event.unary.inj heq
    intro _ a _ ha _
    exact ha ▸ hid

theorem afterShutdown_refused {id : Nat} {context : Context} {request : Request} :
    AfterShutdown s t (.unary k (.asyncNext id false context request none) :
      Event Context Request Response ε) := by
  refine ⟨?_, ?_⟩
  · intro outcome houtcome
    cases houtcome
  · intro k' e' heq h _
    obtain ⟨rfl, rfl⟩ := Event.unary.inj heq
    intro hok
    cases hok

def beforeStop : List (Event String String String String) :=
  [.registerUnary 0 true, .insertCallHandler, .registerUnary 0 true, .insertCallHandler, .start,
    .unary 0 (.asyncNext 0 true "peer a" "x" none), .shutdownServer]

def afterStop : List (Event String String String String) :=
  [.unary 1 (.asyncNext 0 true "peer b" "y" (some (.ok "z"))), .serverShutdown,
    .unary 0 (.asyncNext 1 true "peer c" "w" none), .unary 0 (.perform 2 (.ok "u")),
    .unary 1 (.asyncNext 1 false "" "" none), .unary 0 (.asyncNext 3 false "" "" none),
    .unary 0 (.asyncNext 2 true "" "" none), .unary 0 (.asyncNext 5 false "" "" none),
    .unary 1 (.asyncNext 2 false "" "" none), .unary 0 (.perform 4 (.ok "v")),
    .unary 0 (.asyncNext 4 false "" "" none)]

theorem drains_twoHandlers : ∃ s t,
    (system String String String String).run { numQueues := 1 } beforeStop = some s ∧
    (system String String String String).run s afterStop = some t ∧
    s.requests 0 = 2 ∧ s.handlings 0 = 1 ∧ s.completionsOn 0 afterStop = 8 ∧
    DrainsTo s t 0 afterStop := by
  refine ⟨_, _, rfl, rfl, rfl, rfl, rfl, ?_⟩
  refine drains_after_shutdown _ _ 0 afterStop ?_ (fun h => by cases h) ?_ rfl
  · refine TransitionSystem.reachableBy_of_run beforeStop ?_ (.init ⟨1, rfl⟩) rfl
    simp [beforeStop, UnaryReturning, AsyncUnaryCallHandler.Returns]
  · refine TransitionSystem.allSteps_of_forall ?_ _
    intro e he u v _
    simp only [afterStop, List.mem_cons, List.not_mem_nil, or_false] at he
    rcases he with rfl | rfl | rfl | rfl | rfl | rfl | rfl | rfl | rfl | rfl | rfl
    · exact afterShutdown_early (some "z") Nat.zero_lt_one
    · exact ⟨trivial, fun k e' heq => by cases heq⟩
    · exact afterShutdown_early none (by decide)
    · exact ⟨⟨"u", rfl⟩, fun k e' heq h hk => by cases heq; trivial⟩
    · exact afterShutdown_refused
    · exact afterShutdown_refused
    · exact afterShutdown_early none (by decide)
    · exact afterShutdown_refused
    · exact afterShutdown_refused
    · exact ⟨⟨"v", rfl⟩, fun k e' heq h hk => by cases heq; trivial⟩
    · exact afterShutdown_refused

end Witness

end CallHandlers

end EasyGrpc.Server
