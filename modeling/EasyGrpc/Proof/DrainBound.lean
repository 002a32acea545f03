import EasyGrpc.Proof.Pipeline

/-!
# What an action of the unary call handler may lead to

A matched request spawns two operations: a new request, and the handling of its call. Each action is given
the number of completions that it may still lead to when the requests opened from some point on are refused,
and every completion takes at least one of them away. The weights count the performs as well, at `perform`
each, so that one measure bounds the completions and all steps together.
-/

namespace EasyGrpc.Server

namespace AsyncUnaryCallHandler

variable {Context Request Response ε : Type}

def Returns : Event Context Request Response ε → Prop
  | .asyncNext _ _ _ _ inline => ∀ outcome, inline = some outcome → ∃ response, outcome = .ok response
  | .perform _ outcome => ∃ response, outcome = .ok response

/-- Of the request tags, only those among the first `opened` actions come back with `ok` true. -/
def RefusesLate (opened : Nat) (h : AsyncUnaryCallHandler Context Request Response ε) :
    Event Context Request Response ε → Prop
  | .asyncNext id ok _ _ _ =>
      ok = true → ∀ a ∈ h.actions, a.id = id → a.isServiceRequest = true → a.id < opened
  | .perform _ _ => True

def requests (h : AsyncUnaryCallHandler Context Request Response ε) : Nat :=
  h.actions.countP (·.kind = .serviceRequest)

def handlings (h : AsyncUnaryCallHandler Context Request Response ε) : Nat :=
  h.actions.countP fun a =>
    match a.kind with
    | .callHandling _ => true
    | _ => false

def finishings (h : AsyncUnaryCallHandler Context Request Response ε) : Nat :=
  h.actions.countP (·.kind = .callFinish)

structure Drained (h : AsyncUnaryCallHandler Context Request Response ε) : Prop where
  actions : h.actions = []
  calls : ∀ c < h.nextCall, c ∈ h.deleted

/-- What an action may still lead to: one for each completion and `perform` for each perform. -/
def weight (perform opened : Nat) (a : CallHandlerAction) : Nat :=
  match a.kind with
  | .serviceRequest => if a.id < opened then 4 + perform else 1
  | .callHandling .dispatched => 2 + perform
  | .callHandling _ => 2
  | .callFinish => 1

def remaining (perform opened : Nat) (h : AsyncUnaryCallHandler Context Request Response ε) : Nat :=
  (h.actions.map (weight perform opened)).sum

def cost (perform : Nat) : Event Context Request Response ε → Nat
  | .asyncNext _ _ _ _ _ => 1
  | .perform _ _ => perform

structure Untroubled (h : AsyncUnaryCallHandler Context Request Response ε) : Prop where
  escaped : h.escaped = []
  actions : ∀ a ∈ h.actions, a.kind ≠ .callHandling .threw

theorem remaining_le (perform opened : Nat) (h : AsyncUnaryCallHandler Context Request Response ε) :
    h.remaining perform opened ≤
      (4 + perform) * h.requests + (2 + perform) * h.handlings + h.finishings := by
  unfold remaining requests handlings finishings
  induction h.actions with
  | nil => exact Nat.zero_le _
  | cons a rest ih =>
      rw [List.map_cons, List.sum_cons, List.countP_cons, List.countP_cons, List.countP_cons]
      cases hkind : a.kind with
      | serviceRequest =>
          have hweight : weight perform opened a ≤ 4 + perform := by
            simp only [weight, hkind]
            split <;> omega
          simp only [decide_true, if_true, reduceCtorEq, decide_false, Bool.false_eq_true,
            if_false, Nat.add_zero]
          rw [Nat.mul_add_one]
          omega
      | callHandling stage =>
          have hweight : weight perform opened a ≤ 2 + perform := by
            cases stage <;> simp only [weight, hkind] <;> omega
          simp only [if_true, reduceCtorEq, decide_false, Bool.false_eq_true, if_false,
            Nat.add_zero]
          rw [Nat.mul_add_one]
          omega
      | callFinish =>
          have hweight : weight perform opened a = 1 := by simp only [weight, hkind]
          simp only [decide_true, if_true, reduceCtorEq, decide_false, Bool.false_eq_true,
            if_false, Nat.add_zero]
          omega

section Step

variable {h h' g : AsyncUnaryCallHandler Context Request Response ε} {a : CallHandlerAction}
  {e : Event Context Request Response ε} {perform opened : Nat}

theorem Taken.remaining (htaken : Taken h a g) :
    h.remaining perform opened = weight perform opened a + g.remaining perform opened := by
  have hsum := (htaken.actions.map (weight perform opened)).sum_nat
  rwa [List.map_cons, List.sum_cons] at hsum

theorem remaining_append (b : CallHandlerAction) (hactions : h.actions = g.actions ++ [b]) :
    h.remaining perform opened = g.remaining perform opened + weight perform opened b := by
  simp [AsyncUnaryCallHandler.remaining, hactions]

theorem Taken.nextAction (htaken : Taken h a g) : g.nextAction = h.nextAction := by
  rw [htaken.others]

theorem Taken.mem (htaken : Taken h a g) : a ∈ h.actions :=
  htaken.actions.mem_iff.mpr List.mem_cons_self

theorem remaining_newCallHandling (perform opened : Nat) {inline : Option (Except ε Response)} (call : Nat)
    (hreturns : ∀ outcome, inline = some outcome → ∃ response, outcome = .ok response) :
    (g.newCallHandling call inline).remaining perform opened ≤
      g.remaining perform opened + (2 + perform) := by
  cases inline with
  | none =>
      rw [remaining_append ⟨g.nextAction, call, .callHandling .dispatched⟩ rfl]
      exact Nat.le_refl _
  | some outcome =>
      obtain ⟨response, rfl⟩ := hreturns outcome rfl
      rw [remaining_append ⟨g.nextAction, call, .callHandling .alarmSet⟩ rfl]
      exact Nat.add_le_add_left (Nat.le_add_right _ _) _

theorem nextAction_newCallHandling (call : Nat) (inline : Option (Except ε Response)) :
    (g.newCallHandling call inline).nextAction = g.nextAction + 1 := by
  cases inline with
  | none => rfl
  | some outcome => cases outcome <;> rfl

variable [Inhabited Context] [Inhabited Request] [Inhabited Response]

theorem nextAction_le_step (hstep : h.step e = some h') : h.nextAction ≤ h'.nextAction := by
  obtain ⟨-, a, g, htaken, hmove⟩ := step_cases hstep
  rw [← htaken.nextAction]
  cases hmove with
  | accepted _ =>
      rw [nextAction_newCallHandling]
      exact Nat.le_add_right g.nextAction 2
  | handled _ => exact Nat.le_succ g.nextAction
  | refused _ | alarmFailed _ | finished _ => exact Nat.le_refl g.nextAction
  | @performed outcome _ => cases outcome <;> exact Nat.le_refl g.nextAction

/-- Every completion and every perform is paid for by the action it takes. -/
theorem remaining_step (perform : Nat) (hstep : h.step e = some h') (hreturns : Returns e)
    (hlate : RefusesLate opened h e) (hopened : opened ≤ h.nextAction) :
    h'.remaining perform opened + cost perform e ≤ h.remaining perform opened := by
  obtain ⟨-, a, g, htaken, hmove⟩ := step_cases hstep
  rw [htaken.remaining]
  rw [← htaken.nextAction] at hopened
  cases hmove with
  | @accepted context request inline hkind =>
      have hearly : a.id < opened := by
        apply hlate rfl a htaken.mem rfl
        simp [CallHandlerAction.isServiceRequest, hkind]
      have hpaid : weight perform opened a = 4 + perform := by
        simp only [weight, hkind, if_pos hearly]
      have hrequest : (g.accept a.call context request).newCallRequest.remaining perform opened =
          g.remaining perform opened + 1 := by
        rw [remaining_append (g := g) ⟨g.nextAction, g.nextCall, .serviceRequest⟩ rfl]
        simp only [weight, if_neg (Nat.not_lt.mpr hopened)]
      have hhandling := remaining_newCallHandling perform opened
        (g := (g.accept a.call context request).newCallRequest) a.call hreturns
      change _ + 1 ≤ _
      omega
  | refused hkind =>
      have hpaid : 1 ≤ weight perform opened a := by
        simp only [weight, hkind]
        split <;> omega
      change g.remaining perform opened + 1 ≤ _
      omega
  | handled hkind =>
      have hpaid : weight perform opened a = 2 := by simp only [weight, hkind]
      have hfinish : (g.newCallFinish a.call .OK).remaining perform opened =
          g.remaining perform opened + 1 :=
        remaining_append (g := g) ⟨g.nextAction, a.call, .callFinish⟩ rfl
      change _ + 1 ≤ _
      omega
  | alarmFailed hkind =>
      have hpaid : weight perform opened a = 2 := by simp only [weight, hkind]
      change g.remaining perform opened + 1 ≤ _
      omega
  | finished hkind =>
      have hpaid : weight perform opened a = 1 := by simp only [weight, hkind]
      change g.remaining perform opened + 1 ≤ _
      omega
  | @performed outcome hkind =>
      obtain ⟨response, rfl⟩ := hreturns
      have hpaid : weight perform opened a = 2 + perform := by simp only [weight, hkind]
      have halarm : (g.perform a false (.ok response)).remaining perform opened =
          g.remaining perform opened + 2 :=
        remaining_append (g := g) { a with kind := .callHandling .alarmSet } rfl
      change _ + perform ≤ _
      omega

omit [Inhabited Context] [Inhabited Request] [Inhabited Response] in
theorem Untroubled.taken (huntroubled : Untroubled h) (htaken : Taken h a g) : Untroubled g := by
  refine ⟨?_, fun b hb => huntroubled.actions b ?_⟩
  · rw [htaken.others]
    exact huntroubled.escaped
  · exact htaken.actions.mem_iff.mpr (List.mem_cons_of_mem _ hb)

omit [Inhabited Context] [Inhabited Request] [Inhabited Response] in
theorem Untroubled.append (huntroubled : Untroubled g) {b : CallHandlerAction}
    (hb : b.kind ≠ .callHandling .threw) (hescaped : h.escaped = g.escaped)
    (hactions : h.actions = g.actions ++ [b]) : Untroubled h := by
  refine ⟨hescaped.trans huntroubled.escaped, ?_⟩
  rw [hactions]
  intro c hc
  rcases List.mem_append.mp hc with hold | hnew
  · exact huntroubled.actions c hold
  · rw [List.mem_singleton.mp hnew]
    exact hb

theorem Untroubled.step (huntroubled : Untroubled h) (hstep : h.step e = some h')
    (hreturns : Returns e) : Untroubled h' := by
  obtain ⟨-, a, g, htaken, hmove⟩ := step_cases hstep
  have hg := huntroubled.taken htaken
  cases hmove with
  | @accepted context request inline hkind =>
      have hrequest : Untroubled (g.accept a.call context request).newCallRequest :=
        hg.append (b := ⟨g.nextAction, g.nextCall, .serviceRequest⟩) (fun hb => by cases hb) rfl rfl
      cases inline with
      | none => exact hrequest.append (fun hb => by cases hb) rfl rfl
      | some outcome =>
          obtain ⟨response, rfl⟩ := hreturns outcome rfl
          exact hrequest.append (fun hb => by cases hb) rfl rfl
  | refused _ | alarmFailed _ | finished _ => exact ⟨hg.escaped, hg.actions⟩
  | handled _ =>
      exact hg.append (b := ⟨g.nextAction, a.call, .callFinish⟩) (fun hb => by cases hb) rfl rfl
  | performed _ =>
      obtain ⟨response, rfl⟩ := hreturns
      exact hg.append (b := { a with kind := .callHandling .alarmSet }) (fun hb => by cases hb) rfl rfl

/-- As long as an action is outstanding, gRPC can return a tag or an executor can perform one. -/
theorem Untroubled.exists_step (opened : Nat) (huntroubled : Untroubled h) (ha : a ∈ h.actions) :
    ∃ e, (h.step e).isSome = true ∧ Returns e ∧ RefusesLate opened h e ∧ cost 1 e = 1 := by
  have hterm : h.terminated = false := by
    rw [terminated, huntroubled.escaped]
    rfl
  by_cases htag : a.isTag = true
  · have hfound : (h.actions.find? fun b => b.id = a.id ∧ b.isTag).isSome = true :=
      List.find?_isSome.mpr ⟨a, ha, by simp [htag]⟩
    refine ⟨.asyncNext a.id false default default none, ?_, ?_, ?_, rfl⟩
    · simpa [AsyncUnaryCallHandler.step, hterm] using hfound
    · exact fun outcome houtcome => by cases houtcome
    · exact fun hok => by cases hok
  · have hdispatched : a.isDispatched = true := by
      have hkind := huntroubled.actions a ha
      cases hk : a.kind with
      | serviceRequest => simp [CallHandlerAction.isTag, hk] at htag
      | callFinish => simp [CallHandlerAction.isTag, hk] at htag
      | callHandling stage =>
          cases stage with
          | dispatched => simp [CallHandlerAction.isDispatched, hk]
          | alarmSet => simp [CallHandlerAction.isTag, hk] at htag
          | threw => exact absurd hk hkind
    have hfound : (h.actions.find? fun b => b.id = a.id ∧ b.isDispatched).isSome = true :=
      List.find?_isSome.mpr ⟨a, ha, by simp [hdispatched]⟩
    refine ⟨.perform a.id (.ok default), ?_, ⟨default, rfl⟩, trivial, rfl⟩
    simpa [AsyncUnaryCallHandler.step, hterm] using hfound

theorem step_eq_none_of_nil (hnil : h.actions = []) : h.step e = none := by
  cases e with
  | asyncNext id ok context request inline =>
      simp only [step, hnil, List.find?_nil, Option.map_none, ite_self]
  | perform id outcome => simp only [step, hnil, List.find?_nil, Option.map_none, ite_self]

omit [Inhabited Context] [Inhabited Request] [Inhabited Response] in
/-- Every call has an action that holds it or was deleted. -/
theorem Inv.drained (hinv : Inv h []) (hnil : h.actions = []) : Drained h := by
  refine ⟨hnil, fun c hc => ?_⟩
  have hplace := hinv.ledger.mem_held_or_freed.mp hc
  simpa [hnil] using hplace

structure Sound (opened : Nat) (h : AsyncUnaryCallHandler Context Request Response ε) : Prop where
  inv : Inv h []
  untroubled : Untroubled h
  opened : opened ≤ h.nextAction

theorem Sound.step (hsound : Sound opened h) (hstep : h.step e = some h') (hreturns : Returns e) :
    Sound opened h' :=
  ⟨hsound.inv.step hstep, hsound.untroubled.step hstep hreturns,
    Nat.le_trans hsound.opened (nextAction_le_step hstep)⟩

variable (Context Request Response ε) in
theorem initial_sound : Sound 0 (initial Context Request Response ε) := by
  refine ⟨initial_inv .., ⟨rfl, ?_⟩, Nat.zero_le _⟩
  intro a ha
  rw [List.mem_singleton.mp ha]
  intro hkind
  cases hkind

end Step

end AsyncUnaryCallHandler

end EasyGrpc.Server
