import EasyGrpc.Client.AwaitingCaller
import EasyGrpc.Proof.SubmissionOrder
import EasyGrpc.Proof.SingleOutstanding
import EasyGrpc.Proof.ActionAccess

/-!
# When a result is published

`finalizeResult` fulfils the promise of its action and only then sets the state to `Ready`. Between the two
the future is ready and the state still `Processing`, so a caller that was waiting may run
`tryPerformAction` there, and its next action is dropped.
-/

namespace EasyGrpc.Client

namespace AsyncClientStreamWriter

variable {Tid Request Response : Type} {w w' : AsyncClientStreamWriter Tid Request Response}
  {a : StreamAction Request}

/-- No action handed over whose future is ready keeps the state at `Processing`. -/
def Published (w : AsyncClientStreamWriter Tid Request Response) : Prop :=
  ∀ a ∈ w.handed, (w.promises a.id).Fulfilled → ¬ (w.state = .processing ∧ a ∈ w.inGrpc)

/-- The step does not fulfil the promise of an action that was handed over. -/
def FulfilsNothing (w : AsyncClientStreamWriter Tid Request Response)
    (e : Event Tid Request Response) : Prop :=
  e = .completion → ∀ a ok, w.completion ≠ .gotEvent a ok

structure Unpublished (w : AsyncClientStreamWriter Tid Request Response) : Prop where
  inv : w.Inv
  completion : w.completion = .idle ∨ ∃ a ok, w.completion = .gotEvent a ok
  processing : w.inGrpc ≠ [] → w.state = .processing

theorem Unpublished.published (h : w.Unpublished) : w.Published := by
  rintro a - hfulfilled ⟨-, ha⟩
  have hawaiting : a ∈ w.awaiting := by
    obtain hpc | ⟨b, ok, hpc⟩ := h.completion
    all_goals
      rw [inGrpc, hpc] at ha
      rw [awaiting, hpc]
      exact ha
  exact hfulfilled (h.inv.pending_awaiting a hawaiting)

theorem Unpublished.handedOver (h : w.Unpublished) {l : List (StreamAction Request)}
    (hover : HandedOver w l w') (hinv : w'.Inv) : w'.Unpublished := by
  refine ⟨hinv, hover.completion ▸ h.completion, fun hne => ?_⟩
  rw [hover.state]
  split
  · rename_i hnil
    apply h.processing
    have houtstanding : w'.outstanding = w.outstanding := by
      rw [hover.outstanding, hnil, List.append_nil]
    rwa [inGrpc, houtstanding, hover.completion] at hne
  · rfl

theorem unpublished_move_iff [DecidableEq Tid] {e : Event Tid Request Response} (h : w.Unpublished)
    (hmove : Move w e w') :
    (w'.Published ↔ w.FulfilsNothing e) ∧ (w.FulfilsNothing e → w'.Unpublished) := by
  have hinv := h.inv.move hmove
  have hquiet : ∀ {v}, w'.Unpublished → e = v → w.FulfilsNothing v →
      (w'.Published ↔ w.FulfilsNothing e) ∧ (w.FulfilsNothing e → w'.Unpublished) := by
    rintro v hnext rfl hnone
    exact ⟨iff_of_true hnext.published hnone, fun _ => hnext⟩
  cases hmove with
  | write _ | finish _ => exact hquiet ⟨hinv, h.completion, h.processing⟩ rfl nofun
  | tryPerformAction _ _ =>
      obtain ⟨l, hover, -⟩ := w.tryPerformAction_handedOver
      have hnext := h.handedOver hover h.inv.tryPerformAction
      exact hquiet ⟨hinv, hnext.completion, hnext.processing⟩ rfl nofun
  | @asyncNext id ok status response b hpc hb =>
      refine hquiet ⟨hinv, .inr ⟨b, ok, rfl⟩, fun _ => h.processing ?_⟩ rfl nofun
      have hmem := List.mem_of_find?_eq_some hb
      exact List.ne_nil_of_mem (List.mem_append_left _ hmem)
  | @setResult b ok hpc =>
      have hgrpc : b ∈ w.inGrpc := by simp [inGrpc, hpc, CompletionPc.unfinalised]
      have hnot : ¬ w.FulfilsNothing .completion := fun hnone => hnone rfl b ok hpc
      refine ⟨iff_of_false (fun hpublished => ?_) hnot, fun hnone => absurd hnone hnot⟩
      apply hpublished b (h.inv.inGrpc_handed b hgrpc)
      · rw [h.inv.setResult_promise hpc, Function.update_self]
        exact Promise.fulfilled_value _
      · refine ⟨h.processing (List.ne_nil_of_mem hgrpc), ?_⟩
        exact List.mem_append_right _ List.mem_cons_self
  | stateReady hpc | finalizeWriteOk hpc _ | finalizeWriteFailed hpc _ | finalizeFinish hpc _
  | finishPushed hpc | delete hpc =>
      obtain hidle | ⟨b, ok, hgot⟩ := h.completion
      · rw [hpc] at hidle
        cases hidle
      · rw [hpc] at hgot
        cases hgot

theorem allSteps_published_iff [DecidableEq Tid] (response : Response)
    (es : List (Event Tid Request Response)) :
    (system Tid Request response).AllSteps (fun _ _ w' => w'.Published)
        (initial Tid Request response) es ↔
      (system Tid Request response).AllSteps (fun w e _ => w.FulfilsNothing e)
        (initial Tid Request response) es := by
  refine TransitionSystem.allSteps_congr (I := Unpublished) ?_ ?_ ?_ es
  · exact fun w e w' h hstep => (unpublished_move_iff h (step_cases hstep).2).1
  · intro w e w' h hstep hpublished
    have hmove := unpublished_move_iff h (step_cases hstep).2
    exact hmove.2 (hmove.1.mp hpublished)
  · exact ⟨initial_inv response, .inl rfl, fun h => absurd rfl h⟩

section OneUser

variable {own early : StreamAction Request → Prop} {w w' : AsyncClientStreamWriter Unit Request Response}
  {e : Event Unit Request Response} {b : StreamAction Request}

def KeepsOwn (own early : StreamAction Request → Prop)
    (w : AsyncClientStreamWriter Unit Request Response) : Prop :=
  ∀ a, own a → (a ∈ w.actions ∨ a ∈ w.handed ∨ (w.promises a.id).Fulfilled) ∧
    (a.isWrite = true → early a → a ∈ w.actions ∨ a ∈ w.handed)

/-- No action of the user is popped while the state is `Processing`, and no early write of its is queued
when the drain loop runs after a last message. -/
structure TakesOwn (own early : StreamAction Request → Prop)
    (w : AsyncClientStreamWriter Unit Request Response) (e : Event Unit Request Response) : Prop where
  front : w.RunsTryPerform e → w.state = .processing → ∀ a ∈ w.actions.head?, ¬ own a
  drained : e = .completion → ∀ a, w.completion = .stateReady a true → a.isWrite = true →
    a.isLastMessage = true → ∀ b ∈ w.actions, own b → b.isWrite = true → ¬ early b

theorem KeepsOwn.mono (h : KeepsOwn own early w)
    (hactions : ∀ a ∈ w.actions, own a → a ∈ w'.actions ∨ a ∈ w'.handed)
    (hhanded : w.handed ⊆ w'.handed)
    (hpromises : ∀ id, (w.promises id).Fulfilled → w'.promises id = w.promises id) :
    KeepsOwn own early w' := by
  have hcarried : ∀ a, own a → a ∈ w.actions ∨ a ∈ w.handed → a ∈ w'.actions ∨ a ∈ w'.handed := by
    intro a ha hor
    cases hor with
    | inl hqueued => exact hactions a hqueued ha
    | inr hold => exact .inr (hhanded hold)
  intro a ha
  obtain ⟨hkept, hwritten⟩ := h a ha
  refine ⟨?_, fun hwrite hearly => hcarried a ha (hwritten hwrite hearly)⟩
  rw [← or_assoc] at hkept ⊢
  cases hkept with
  | inl hor => exact .inl (hcarried a ha hor)
  | inr hfulfilled =>
      refine .inr ?_
      rw [hpromises a.id hfulfilled]
      exact hfulfilled

theorem keepsOwn_tryPerformAction_iff (hinv : w.Inv) (hunfinished : w.state ≠ .finished)
    (h : KeepsOwn own early w) :
    KeepsOwn own early w.tryPerformAction ↔
      (w.state = .processing → ∀ a ∈ w.actions.head?, ¬ own a) := by
  have hpromises : ∀ id, (w.promises id).Fulfilled → w.tryPerformAction.promises id = w.promises id :=
    fun id hid => hinv.tryPerformAction_promises hid
  rcases w.tryPerformAction_cases with
    ⟨hq, heq⟩ | ⟨a, rest, hq, ⟨hs, heq⟩ | ⟨hs, -⟩ | ⟨hs, heq⟩⟩
  · rw [heq, hq]
    exact iff_of_true h nofun
  · refine iff_of_true (h.mono (fun b hb _ => ?_) ?_ hpromises) (by simp [hs])
    · rw [hq] at hb
      rw [heq]
      cases List.mem_cons.mp hb with
      | inl hfront => exact .inr (hfront ▸ List.mem_append_right _ List.mem_cons_self)
      | inr hrest => exact .inl hrest
    · rw [heq]
      exact List.subset_append_left _ _
  · exact absurd hs hunfinished
  · have hpending := hinv.pending_queued a (hq ▸ List.mem_cons_self)
    simp only [hs, hq, List.head?_cons, Option.mem_some, forall_eq', true_imp_iff]
    constructor
    · intro hkept ha
      rw [heq] at hkept
      obtain hqueued | hhanded | hfulfilled := (hkept a ha).1
      · exact hinv.front_id_ne hq (.inr hqueued) rfl
      · exact hinv.front_id_ne hq (.inl hhanded) rfl
      · exact hfulfilled hpending
    · intro hnot
      refine h.mono (fun b hb hown => ?_) ?_ hpromises
      · rw [hq] at hb
        rw [heq]
        cases List.mem_cons.mp hb with
        | inl hfront => exact absurd (hfront ▸ hown) hnot
        | inr hrest => exact .inl hrest
      · rw [heq]
        exact List.Subset.refl _

/-- What the drain loop rejects is a write after a last message: the queue it finds holds one action at
most. -/
theorem keepsOwn_drain_iff (hsingle : w.SingleUser) (hpc : w.completion = .stateReady b true)
    (h : KeepsOwn own early w) :
    KeepsOwn own early (drain b.isLastMessage false w.actions w) ↔
      (b.isLastMessage = true → ∀ a ∈ w.actions, own a → a.isWrite = true → ¬ early a) := by
  have hover := drain_handedOver b.isLastMessage w.actions w
  have hsettles := drain_settles hsingle.inv b.isLastMessage
  have hempty := drain_actions b.isLastMessage false (rfl : w.actions = w.actions)
  by_cases hall : handsOver b.isLastMessage w.actions = w.actions
  · refine iff_of_true (h.mono (fun a ha _ => .inr ?_) ?_ fun id hid => ?_) fun hlast a ha _ hwrite => ?_
    · rw [hover.handed, hall]
      exact List.mem_append_right _ ha
    · rw [hover.handed]
      exact List.subset_append_left _ _
    · exact hsingle.inv.drain_promises _ hid
    · have hfinish := (hsingle.handsOver_eq_iff hpc).mp hall hlast a ha
      rw [StreamAction.isFinish, hwrite] at hfinish
      cases hfinish
  · -- the queue holds one write, which is rejected
    obtain ⟨hlast, c, hc, hwrite⟩ : b.isLastMessage = true ∧ ∃ c ∈ w.actions, c.isWrite = true := by
      rw [hsingle.handsOver_eq_iff hpc] at hall
      push Not at hall
      obtain ⟨hlast, c, hc, hfinish⟩ := hall
      exact ⟨hlast, c, hc, by simpa [StreamAction.isFinish] using hfinish⟩
    have hq : w.actions = [c] := by
      have hpos := List.length_pos_of_mem hc
      have hle := hsingle.length_actions_le hpc
      obtain ⟨d, hd⟩ := List.length_eq_one_iff.mp (by omega : w.actions.length = 1)
      rw [hd, List.mem_singleton] at hc
      rw [hd, hc]
    have hhanded : (drain b.isLastMessage false w.actions w).handed = w.handed := by
      rw [hover.handed, hq, hlast]
      simp [handsOver, StreamAction.isFinish, hwrite]
    constructor
    · intro hkept _ a ha hown hawrite hearly
      obtain hqueued | hold := (hkept a hown).2 hawrite hearly
      · rw [hempty] at hqueued
        cases hqueued
      · exact hsingle.inv.queued_id_ne (hhanded ▸ hold) a ha rfl
    · intro hlate a hown
      obtain ⟨hkept, hwritten⟩ := h a hown
      refine ⟨?_, fun hawrite hearly => ?_⟩
      · obtain hqueued | hold | hfulfilled := hkept
        · obtain hold | ⟨message, hrejected⟩ := hsettles a hqueued
          · exact .inr (.inl hold)
          · refine .inr (.inr ?_)
            rw [hrejected]
            exact Promise.fulfilled_exception _
        · exact .inr (.inl (hhanded ▸ hold))
        · refine .inr (.inr ?_)
          rw [hsingle.inv.drain_promises _ hfulfilled]
          exact hfulfilled
      · obtain hqueued | hold := hwritten hawrite hearly
        · exact absurd hearly (hlate hlast a hqueued hown hawrite)
        · exact .inr (hhanded ▸ hold)

theorem keepsOwn_move_iff (hsingle : w.SingleUser) (h : KeepsOwn own early w) (hmove : Move w e w') :
    KeepsOwn own early w' ↔ TakesOwn own early w e := by
  rw [pops_move_iff (fun _ _ _ => Iff.rfl) hmove (fun hnothing => ?_)
    (keepsOwn_tryPerformAction_iff hsingle.inv hsingle.unfinished h)
    fun b hpc _ => keepsOwn_drain_iff hsingle hpc h]
  · exact ⟨fun hall => ⟨hall.1, hall.2⟩, fun htake => ⟨htake.front, htake.drained⟩⟩
  · obtain ⟨l, hactions, -⟩ := hnothing.appended
    refine h.mono (fun a ha _ => .inl ?_) ?_ fun id => hsingle.inv.promises_move hmove
    · exact hactions ▸ List.mem_append_left _ ha
    · exact hnothing.handed ▸ List.Subset.refl _

end OneUser

end AsyncClientStreamWriter

namespace AwaitingCaller

open AsyncClientStreamWriter

variable {Request Response : Type} {s s' : AwaitingCaller Request Response}
  {e : AsyncClientStreamWriter.Event Unit Request Response} {a : StreamAction Request}

/-- The actions that the caller submitted before `a` succeeded. -/
def BeforeFailure (s : AwaitingCaller Request Response) (a : StreamAction Request) : Prop :=
  ∀ b ∈ s.submitted, b.id < a.id → s.writer.promises b.id = .value true

/-- The caller's actions are not dropped, and its writes before the first failure are handed over. -/
def Served (s : AwaitingCaller Request Response) : Prop :=
  KeepsOwn (· ∈ s.submitted) s.BeforeFailure s.writer

def TakesSubmitted (s : AwaitingCaller Request Response)
    (e : AsyncClientStreamWriter.Event Unit Request Response) : Prop :=
  TakesOwn (· ∈ s.submitted) s.BeforeFailure s.writer e

structure Inv (s : AwaitingCaller Request Response) : Prop where
  writer : s.writer.SingleUser
  pushed : ∀ a ∈ s.submitted, a ∈ s.writer.pushed
  awaited : ∀ a ∈ s.submitted, ∀ b ∈ s.submitted, b.id < a.id → (s.writer.promises b.id).Fulfilled

theorem step_cases (h : s.step e = some s') :
    Move s.writer e s'.writer ∧ s'.submitted = s.submitted ++ (s.submits e).toList ∧
    ((s.submits e).isSome → ∀ a ∈ s.submitted, (s.writer.promises a.id).Fulfilled) := by
  simp only [step] at h
  split at h
  · cases h
  · rename_i hguard
    obtain ⟨w, hw, rfl⟩ := Option.map_eq_some_iff.mp h
    refine ⟨(AsyncClientStreamWriter.step_cases hw).2, rfl, fun hsubmits a ha => ?_⟩
    by_contra hpending
    exact hguard ⟨hsubmits, a, ha, hpending⟩

/-- What is submitted is new, and it is queued. -/
theorem submits_move {w : AsyncClientStreamWriter Unit Request Response} (hmove : Move s.writer e w)
    (ha : s.submits e = some a) : a.id = s.writer.nextId ∧ a ∈ w.actions ∧ a ∈ w.pushed := by
  cases hmove with
  | write _ | finish _ =>
      obtain rfl := Option.some.inj ha
      exact ⟨rfl, List.mem_append_right _ List.mem_cons_self, List.mem_append_right _ List.mem_cons_self⟩
  | tryPerformAction _ _ | asyncNext _ _ | setResult _ | stateReady _ | finalizeWriteOk _ _
  | finalizeWriteFailed _ _ | finalizeFinish _ _ | finishPushed _ | delete _ => cases ha

theorem Inv.id_lt (h : s.Inv) (ha : a ∈ s.submitted) : a.id < s.writer.nextId :=
  h.writer.inv.id_lt (h.pushed a ha)

theorem Inv.step (h : s.Inv) (hstep : s.step e = some s') : s'.Inv := by
  obtain ⟨hmove, hsubmitted, hawaits⟩ := step_cases hstep
  have hkeeps : ∀ id, (s.writer.promises id).Fulfilled → (s'.writer.promises id).Fulfilled := by
    intro id hid
    rw [h.writer.inv.promises_move hmove hid]
    exact hid
  have hor : ∀ a ∈ s'.submitted, a ∈ s.submitted ∨ s.submits e = some a := by
    intro a ha
    rw [hsubmitted, List.mem_append, Option.mem_toList] at ha
    exact ha
  refine ⟨h.writer.move hmove, fun a ha => ?_, fun a ha b hb hlt => ?_⟩
  · obtain hold | hnew := hor a ha
    · exact pushed_subset_move hmove (h.pushed a hold)
    · exact (submits_move hmove hnew).2.2
  · obtain hold | hnew := hor a ha
    · obtain holdb | hnewb := hor b hb
      · exact hkeeps b.id (h.awaited a hold b holdb hlt)
      · have hid := (submits_move hmove hnewb).1
        have hlast := h.id_lt hold
        omega
    · obtain holdb | hnewb := hor b hb
      · exact hkeeps b.id (hawaits (by rw [hnew]; rfl) b holdb)
      · rw [hnew] at hnewb
        obtain rfl := Option.some.inj hnewb
        omega

/-- Whether an action was submitted before the first failure does not change any more. -/
theorem Inv.beforeFailure_iff (h : s.Inv) (hstep : s.step e = some s') (ha : a ∈ s.submitted) :
    s'.BeforeFailure a ↔ s.BeforeFailure a := by
  obtain ⟨hmove, hsubmitted, -⟩ := step_cases hstep
  have hkept : ∀ b ∈ s.submitted, b.id < a.id → s'.writer.promises b.id = s.writer.promises b.id :=
    fun b hb hlt => h.writer.inv.promises_move hmove (h.awaited a ha b hb hlt)
  constructor
  · intro hbefore b hb hlt
    rw [← hkept b hb hlt]
    exact hbefore b (hsubmitted ▸ List.mem_append_left _ hb) hlt
  · intro hbefore b hb hlt
    rw [hsubmitted, List.mem_append, Option.mem_toList] at hb
    cases hb with
    | inl hold =>
        rw [hkept b hold hlt]
        exact hbefore b hold hlt
    | inr hnew =>
        have hid := (submits_move hmove hnew).1
        have hlast := h.id_lt ha
        omega

theorem served_step_iff (h : s.Inv) (hserved : s.Served) (hstep : s.step e = some s') :
    s'.Served ↔ s.TakesSubmitted e := by
  obtain ⟨hmove, hsubmitted, -⟩ := step_cases hstep
  rw [TakesSubmitted, ← keepsOwn_move_iff h.writer hserved hmove]
  constructor
  · intro hnext a ha
    obtain ⟨hkept, hwritten⟩ := hnext a (hsubmitted ▸ List.mem_append_left _ ha)
    exact ⟨hkept, fun hwrite hbefore => hwritten hwrite ((h.beforeFailure_iff hstep ha).mpr hbefore)⟩
  · intro hold a ha
    rw [hsubmitted, List.mem_append, Option.mem_toList] at ha
    cases ha with
    | inl ha =>
        obtain ⟨hkept, hwritten⟩ := hold a ha
        exact ⟨hkept, fun hwrite hbefore => hwritten hwrite ((h.beforeFailure_iff hstep ha).mp hbefore)⟩
    | inr hnew =>
        have hqueued := (submits_move hmove hnew).2.1
        exact ⟨.inl hqueued, fun _ _ => .inl hqueued⟩

/-! As long as every operation completes with `ok` true, the state is `Processing` with an action queued
only between the two steps that publish a result. -/

structure Succeeding (s : AwaitingCaller Request Response) : Prop where
  inv : s.Inv
  one : s.writer.OneOutstanding
  ok : completingOk s.writer.completion = true
  pushed : s.writer.pushed = s.submitted
  queued : s.writer.actions ≠ [] → s.writer.awaiting = []

theorem pushed_submits {w : AsyncClientStreamWriter Unit Request Response}
    (hok : completingOk s.writer.completion = true) (hmove : Move s.writer e w) :
    w.pushed = s.writer.pushed ++ (s.submits e).toList := by
  cases hmove with
  | write _ | finish _ => rfl
  | tryPerformAction _ _ => exact (tryPerformAction_pushed _).trans (List.append_nil _).symm
  | finalizeWriteOk _ _ => exact (drain_pushed _ _).trans (List.append_nil _).symm
  | asyncNext _ _ | setResult _ | stateReady _ | finalizeFinish _ _ | delete _ =>
      exact (List.append_nil _).symm
  | finalizeWriteFailed hpc _ | finishPushed hpc =>
      rw [hpc] at hok
      cases hok

theorem Succeeding.awaiting_submits (h : s.Succeeding)
    (hawaits : ∀ a ∈ s.submitted, (s.writer.promises a.id).Fulfilled) : s.writer.awaiting = [] := by
  apply List.eq_nil_iff_forall_not_mem.mpr
  intro a ha
  have hinv := h.inv.writer.inv
  have hpushed := hinv.mem_pushed_of_handed (hinv.inGrpc_handed a (mem_inGrpc_of_mem_awaiting ha))
  rw [h.pushed] at hpushed
  exact hawaits a hpushed (hinv.pending_awaiting a ha)

theorem Succeeding.length_actions_le (h : s.Succeeding) : s.writer.actions.length ≤ 1 := by
  have hbounded := h.inv.writer.bounded
  have hone := h.inv.writer.oneCaller
  have hzero : pushedFinishes s.writer.completion = 0 := by
    have hok := h.ok
    cases hpc : s.writer.completion with
    | finishPushed a =>
        rw [hpc] at hok
        cases hok
    | idle | gotEvent _ _ | resultSet _ _ | stateReady _ _ | finalized _ => rfl
  rw [QueueBounded, hzero] at hbounded
  omega

theorem Succeeding.queued_move {w : AsyncClientStreamWriter Unit Request Response}
    (h : s.Succeeding) (hmove : Move s.writer e w)
    (hawaits : (s.submits e).isSome → ∀ a ∈ s.submitted, (s.writer.promises a.id).Fulfilled)
    (hqueued : w.actions ≠ []) : w.awaiting = [] := by
  cases hmove with
  | write _ | finish _ => exact h.awaiting_submits (hawaits rfl)
  | tryPerformAction _ _ =>
      have hshort := h.length_actions_le
      have htail : s.writer.tryPerformAction.actions ≠ [] := hqueued
      rw [tryPerformAction_actions, ← List.length_pos_iff, List.length_tail] at htail
      omega
  | @asyncNext id ok status response b hpc hb =>
      have hold := h.queued hqueued
      rw [awaiting, hpc] at hold
      have hmem := List.mem_of_find?_eq_some hb
      rw [(List.append_eq_nil_iff.mp hold).1] at hmem
      cases hmem
  | @setResult b ok hpc =>
      have hold := h.queued hqueued
      rw [awaiting, hpc] at hold
      cases (List.append_eq_nil_iff.mp hold).2
  | stateReady hpc | delete hpc =>
      have hold := h.queued hqueued
      rwa [awaiting, hpc] at hold
  | finalizeWriteOk _ _ => exact absurd (drain_actions _ _ rfl) hqueued
  | @finalizeFinish b ok hpc _ =>
      have hold := h.queued hqueued
      rw [awaiting, hpc] at hold
      rw [awaiting, AsyncClientStreamWriter.finalizeFinish]
      split
      · exact hold
      · rw [hpc]
        exact hold
  | finalizeWriteFailed hpc _ | finishPushed hpc =>
      have hok := h.ok
      rw [hpc] at hok
      cases hok

/-- The drain loop finds one action at most, and then nothing is in the hands of gRPC. -/
theorem Succeeding.drainsAtMostOne (h : s.Succeeding) : s.writer.DrainsAtMostOne e := by
  cases e with
  | write _ _ _ | finish _ | tryPerformAction _ | asyncNext _ _ _ _ => trivial
  | completion =>
      intro b ok hpc
      have hok : ok = true := by
        have hok := h.ok
        rwa [hpc] at hok
      have hsub := handsOver_sublist b.isLastMessage s.writer.actions
      refine ⟨fun _ => hok, fun _ _ => ⟨Nat.le_trans hsub.length_le h.length_actions_le, fun hne => ?_⟩⟩
      have hawaiting := h.queued fun hnil => hne (List.sublist_nil.mp (hnil ▸ hsub))
      have hgrpc : s.writer.inGrpc = [] := by
        rw [awaiting, hpc] at hawaiting
        rw [inGrpc, hpc]
        exact hawaiting
      have hstate : s.writer.state ≠ .processing := fun hs => h.one.processing_iff.mp hs hgrpc
      cases hs : s.writer.state with
      | ready => rfl
      | processing => exact absurd hs hstate
      | finished => exact absurd hs h.inv.writer.unfinished

theorem Succeeding.step (h : s.Succeeding) (hok : CompletesOk e) (hstep : s.step e = some s') :
    s'.Succeeding := by
  obtain ⟨hmove, hsubmitted, hawaits⟩ := step_cases hstep
  refine ⟨h.inv.step hstep, ?_, (pushed_move h.ok hok hmove).1, ?_, h.queued_move hmove hawaits⟩
  · exact ((oneOutstanding_move_iff h.one hmove).mpr h.drainsAtMostOne).1
  · rw [pushed_submits h.ok hmove, hsubmitted, h.pushed]

theorem succeeding_initial (response : Response) :
    Succeeding { writer := initial Unit Request response } := by
  refine ⟨⟨singleUser_initial response, nofun, nofun⟩, ⟨Nat.zero_le _, ?_, nofun⟩, rfl, rfl, nofun⟩
  exact iff_of_false nofun fun h => h rfl

/-- **The window.** A caller that waits for its futures finds the state `Processing` with its action
queued exactly between the two steps that publish a result. -/
theorem processing_iff_resultSet {response : Response}
    (hs : (system Request response).ReachableBy (fun _ e => CompletesOk e) s)
    (hqueued : s.writer.actions ≠ []) :
    s.writer.state = .processing ↔ ∃ a ok, s.writer.completion = .resultSet a ok := by
  have h : s.Succeeding := by
    refine hs.invariant (I := Succeeding) ?_ fun s e s' h hok hstep => h.step hok hstep
    rintro _ rfl
    exact succeeding_initial response
  have hawaiting := h.queued hqueued
  obtain ⟨houtstanding, hpc⟩ := List.append_eq_nil_iff.mp hawaiting
  rw [h.one.processing_iff, inGrpc, houtstanding, List.nil_append]
  cases hcompletion : s.writer.completion with
  | gotEvent a ok =>
      rw [hcompletion] at hpc
      cases hpc
  | resultSet a ok => exact iff_of_true (List.cons_ne_nil _ _) ⟨a, ok, rfl⟩
  | idle | stateReady _ _ | finishPushed _ | finalized _ =>
      refine iff_of_false (fun h => h rfl) ?_
      rintro ⟨a, ok, h⟩
      cases h

/-- **Publishing a result.** No action handed over keeps the state at `Processing` once its future is
ready exactly as long as no result is published. A caller that waits for its futures has no action dropped
and its writes before the first failure handed over exactly when no action of its is popped while the
state is `Processing`, and none of these writes is queued when the drain loop runs after a last
message. -/
theorem published_iff_fulfilsNothing (Tid : Type) [DecidableEq Tid] (Request : Type)
    (response : Response) :
    (∀ es : List (AsyncClientStreamWriter.Event Tid Request Response),
      (AsyncClientStreamWriter.system Tid Request response).AllSteps (fun _ _ w' => w'.Published)
          (initial Tid Request response) es ↔
        (AsyncClientStreamWriter.system Tid Request response).AllSteps
          (fun w e _ => w.FulfilsNothing e) (initial Tid Request response) es) ∧
    ∀ es : List (AsyncClientStreamWriter.Event Unit Request Response),
      (system Request response).AllSteps (fun _ _ s' => s'.Served)
          { writer := initial Unit Request response } es ↔
        (system Request response).AllSteps (fun s e _ => s.TakesSubmitted e)
          { writer := initial Unit Request response } es := by
  refine ⟨fun es => allSteps_published_iff response es, fun es => ?_⟩
  refine TransitionSystem.allSteps_congr (I := fun s => s.Inv ∧ s.Served) ?_ ?_ ?_ es
  · exact fun s e s' h hstep => served_step_iff h.1 h.2 hstep
  · exact fun s e s' h hstep hserved => ⟨h.1.step hstep, hserved⟩
  · exact ⟨⟨singleUser_initial response, nofun, nofun⟩, nofun⟩

/-- The future of the first write wakes the caller before the state is `Ready`. -/
def writesInWindow : List (AsyncClientStreamWriter.Event Unit String String) :=
  [.write () "first" {}, .tryPerformAction (), .asyncNext 0 true .OK none, .completion,
    .write () "second" {}, .tryPerformAction (), .completion, .completion, .completion]

theorem writesInWindow_lose_second :
    (∃ w, (AsyncClientStreamWriter.system Unit String "").run (initial Unit String "")
        (writesInWindow.take 4) = some w ∧ ¬ w.Published) ∧
    ∃ s, (system String "").run { writer := initial Unit String "" } writesInWindow = some s ∧
      s.writer.Quiescent ∧ s.writer.handed = [⟨0, .write "first" {}⟩] ∧
      s.writer.promises 0 = .value true ∧ s.writer.promises 1 = .pending ∧ ¬ s.Served := by
  refine ⟨⟨_, rfl, fun h => ?_⟩, _, rfl, ⟨rfl, rfl, rfl⟩, rfl, rfl, rfl, fun h => ?_⟩
  · exact h ⟨0, .write "first" {}⟩ (by decide) nofun ⟨rfl, by decide⟩
  · obtain hqueued | hhanded | hfulfilled := (h ⟨1, .write "second" {}⟩ (by decide)).1
    · cases hqueued
    · exact absurd hhanded (by decide)
    · exact hfulfilled rfl

end AwaitingCaller

end EasyGrpc.Client
