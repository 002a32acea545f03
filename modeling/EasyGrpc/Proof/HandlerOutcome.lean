import EasyGrpc.Proof.CallHistory

/-!
# Answers and exceptions

`perform` has no handler for what the user's function throws. An invocation that returns is answered
by one Finish and everything it used is deleted. One that throws leaves its call and its action
behind, no Finish is ever issued, and the exception goes to whoever ran `perform`.
-/

namespace EasyGrpc.Server.AsyncUnaryCallHandler

variable {Context Request Response ε : Type}

/-- Nothing more is to come for the call: no `perform` and no completion. -/
def Settled (h : AsyncUnaryCallHandler Context Request Response ε) (c : Nat) : Prop :=
  ∀ a ∈ h.actions, a.call = c → a.isDispatched = false ∧ a.isTag = false

instance (h : AsyncUnaryCallHandler Context Request Response ε) (c : Nat) :
    Decidable (h.Settled c) :=
  inferInstanceAs (Decidable (∀ a ∈ h.actions, a.call = c → _))

structure Answered (h : AsyncUnaryCallHandler Context Request Response ε)
    (i : Invocation Context Request Response ε) : Prop where
  finish : ∃ f, h.finishes.filter (·.call = i.call) = [f] ∧
    (∀ response, i.outcome = .ok response → f.response = response ∧ f.status = .OK) ∧
    (∀ e, i.outcome = .error e → f.status.ok = false)
  deleted : i.call ∈ h.deleted
  released : ∀ a ∈ h.actions, a.call ≠ i.call
  contained : ∀ x ∈ h.escaped, x.call ≠ i.call

/-- The handling and finish actions of `c` complete with `ok` true. -/
def CompletesOk (c : Nat) (h : AsyncUnaryCallHandler Context Request Response ε) :
    Event Context Request Response ε → Prop
  | .asyncNext id ok _ _ _ =>
      ∀ a ∈ h.actions, a.id = id → a.call = c → a.isServiceRequest = false → ok = true
  | .perform _ _ => True

def Delivered (c : Nat) (h : AsyncUnaryCallHandler Context Request Response ε) : Prop :=
  c ∈ h.deleted → h.logOf c = {} ∨ ∃ call : Call Context Request Response,
    h.logOf c = finishedLog c call

section Runs

variable [Inhabited Context] [Inhabited Request] [Inhabited Response]
  {h h' g : AsyncUnaryCallHandler Context Request Response ε} {a : CallHandlerAction} {c : Nat}
  {e : Event Context Request Response ε}

theorem Delivered.move (hinv : Inv g [a]) (hist : History g [a]) (hdelivered : g.Delivered c)
    (hmove : Move a g e h')
    (hok : ∀ context request inline, e = .asyncNext a.id false context request inline →
      a.call = c → a.isServiceRequest = true) : h'.Delivered c := by
  intro hc
  have hlogged := hist.live a List.mem_cons_self
  by_cases hcall : c = a.call
  · subst hcall
    have hlive : a.call ∉ g.deleted :=
      hinv.ledger.not_mem_freed (List.mem_map_of_mem List.mem_cons_self)
    cases hmove with
    | accepted hkind =>
        rw [(newCallHandling_keepsCalls _ _ _).deleted] at hc
        exact absurd hc hlive
    | refused hkind =>
        rw [hkind] at hlogged
        exact .inl hlogged
    | handled hkind => exact absurd hc hlive
    | alarmFailed hkind =>
        have hrequest := hok _ _ _ rfl rfl
        rw [CallHandlerAction.isServiceRequest, hkind] at hrequest
        cases hrequest
    | finished hkind =>
        rw [hkind] at hlogged
        exact .inr ⟨_, hlogged⟩
    | performed hkind =>
        rw [(perform_keepsCalls _ _ _ _).deleted] at hc
        exact absurd hc hlive
  · rw [hmove.logOf_of_ne hcall]
    apply hdelivered
    cases hmove with
    | accepted hkind =>
        rw [(newCallHandling_keepsCalls _ _ _).deleted] at hc
        exact hc
    | handled hkind => exact hc
    | performed hkind =>
        rw [(perform_keepsCalls _ _ _ _).deleted] at hc
        exact hc
    | refused hkind | alarmFailed hkind | finished hkind =>
        have hor : c ∈ g.deleted ∨ c = a.call := by
          simpa [deleteCall] using hc
        exact hor.resolve_right hcall

theorem Delivered.step (hinv : Inv h []) (hist : History h []) (hdelivered : h.Delivered c)
    (hok : h.CompletesOk c e) (hstep : h.step e = some h') : h'.Delivered c := by
  obtain ⟨-, a, g, htaken, hmove⟩ := step_cases hstep
  have hdelivered' : g.Delivered c := by
    rw [htaken.others]
    exact hdelivered
  apply hdelivered'.move (hinv.taken htaken) (hist.taken htaken) hmove
  rintro context request inline rfl hcall
  have hmem : a ∈ h.actions := htaken.actions.mem_iff.mpr List.mem_cons_self
  by_contra hrequest
  cases hok a hmem rfl hcall (by simpa using hrequest)

theorem delivered_of_reachableBy (hh : (system Context Request Response ε).ReachableBy
    (fun h e => h.CompletesOk c e) h) : h.Delivered c := by
  have hall := hh.invariant (I := fun h => (Inv h [] ∧ History h []) ∧ h.Delivered c) ?_ ?_
  · exact hall.2
  · rintro _ rfl
    exact ⟨⟨initial_inv .., initial_history ..⟩, nofun⟩
  · rintro g e g' ⟨⟨hinv, hist⟩, hdelivered⟩ hok hstep
    exact ⟨⟨hinv.step hstep, hist.step hinv hstep⟩, hdelivered.step hinv hist hok hstep⟩

/-- **Answers.** Once the call of an invocation is settled, its completions having come with `ok`
true, the RPC has been answered as it should exactly when the function returned. -/
theorem answered_iff_returned {i : Invocation Context Request Response ε}
    (hh : (system Context Request Response ε).ReachableBy (fun h e => h.CompletesOk i.call e) h)
    (hi : i ∈ h.invocations) (hsettled : h.Settled i.call) :
    h.Answered i ↔ ∃ response, i.outcome = .ok response := by
  obtain ⟨hinv, hist⟩ := history_of_reachable hh.reachable
  have hmem : i ∈ (h.logOf i.call).invocations := List.mem_filter.mpr ⟨hi, by simp⟩
  have hallocated : i.call < h.nextCall := by
    by_contra hfresh
    rw [hist.fresh _ (Nat.le_of_not_lt hfresh)] at hmem
    cases hmem
  cases hinv.ledger.mem_held_or_freed.mp hallocated with
  | inl hheld =>
      -- the only live action that is neither dispatched nor a tag is one whose function threw
      obtain ⟨a, ha, hcall⟩ := List.mem_map.mp hheld
      obtain ⟨hdispatched, htag⟩ := hsettled a ha hcall
      have hkind : a.kind = .callHandling .threw := by
        cases hkind : a.kind with
        | serviceRequest => simp [CallHandlerAction.isTag, hkind] at htag
        | callFinish => simp [CallHandlerAction.isTag, hkind] at htag
        | callHandling stage =>
            cases stage with
            | dispatched => simp [CallHandlerAction.isDispatched, hkind] at hdispatched
            | alarmSet => simp [CallHandlerAction.isTag, hkind] at htag
            | threw => rfl
      have hlogged := hist.live a ha
      rw [hkind, hcall] at hlogged
      obtain ⟨exception, onPollingThread, hlog⟩ := hlogged
      rw [hlog] at hmem
      have hthrew : i.outcome = .error exception :=
        congrArg Invocation.outcome (List.mem_singleton.mp hmem)
      constructor
      · intro hanswered
        exact absurd hcall (hanswered.released a ha)
      · rintro ⟨response, hreturned⟩
        rw [hthrew] at hreturned
        cases hreturned
  | inr hdeleted =>
      obtain hlog | ⟨call, hlog⟩ := delivered_of_reachableBy hh hdeleted
      · rw [hlog] at hmem
        cases hmem
      · rw [hlog] at hmem
        have hreturned : i.outcome = .ok call.response :=
          congrArg Invocation.outcome (List.mem_singleton.mp hmem)
        have hfinishes := congrArg CallLog.finishes hlog
        have hescaped := congrArg CallLog.escaped hlog
        refine iff_of_true ⟨⟨_, hfinishes, ?_, ?_⟩, hdeleted, ?_, ?_⟩ ⟨_, hreturned⟩
        · rintro response hresponse
          rw [hreturned] at hresponse
          exact ⟨Except.ok.inj hresponse, rfl⟩
        · rintro exception hthrew
          rw [hreturned] at hthrew
          cases hthrew
        · rintro a ha hcall
          exact hinv.ledger.not_mem_freed (List.mem_map_of_mem ha) (hcall ▸ hdeleted)
        · simpa [logOf, finishedLog, invokedLog] using hescaped

end Runs

theorem answered_echo : ∃ h i, (system String String String String).run
    (initial String String String String)
    [.asyncNext 0 true "peer" "x" none, .perform 2 (.ok "x"), .asyncNext 2 true "" "" none,
      .asyncNext 3 true "" "" none] = some h ∧ i ∈ h.invocations ∧ h.Answered i := by
  refine ⟨_, ⟨0, "peer", "x", .ok "x"⟩, rfl, List.mem_singleton.mpr rfl, ?_⟩
  refine (answered_iff_returned ?_ (List.mem_singleton.mpr rfl) ?_).mpr ⟨"x", rfl⟩
  · refine TransitionSystem.reachableBy_of_run [.asyncNext 0 true "peer" "x" none,
      .perform 2 (.ok "x"), .asyncNext 2 true "" "" none, .asyncNext 3 true "" "" none]
      ?_ (.init rfl) rfl
    simp [CompletesOk]
  · decide

/-- The function throws on a thread of the executor: no Finish is issued, the call and its action
stay, and the exception has left `perform`. -/
theorem throwing_unanswered : ∃ h i, (system String String String String).run
    (initial String String String String)
    [.asyncNext 0 true "peer" "x" none, .perform 2 (.error "boom")] = some h ∧
    i ∈ h.invocations ∧ h.Settled i.call ∧ h.finishes = [] ∧ h.deleted = [] ∧ ¬ h.Answered i := by
  refine ⟨_, ⟨0, "peer", "x", .error "boom"⟩, rfl, List.mem_singleton.mpr rfl, ?_, rfl, rfl, ?_⟩
  · decide
  · intro hanswered
    cases hanswered.deleted

end EasyGrpc.Server.AsyncUnaryCallHandler
