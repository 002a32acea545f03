import EasyGrpc.Proof.ClientWork
import EasyGrpc.Proof.DrainBound
import EasyGrpc.Proof.UnaryEndToEnd
import Mathlib.Data.Fintype.BigOperators

/-!
# Every unary call comes to its end

The clients and the handlers together take a bounded number of steps for each call, as a request is
matched at most once and each action leads to at most one other. Where none of the steps that are due is
possible any more every call has been answered, unless its handler has failed or no handler takes
requests.
-/

namespace EasyGrpc

section Handler

namespace Server.AsyncUnaryCallHandler

variable {Context Request Response ε : Type} {h h' g : AsyncUnaryCallHandler Context Request Response ε}
  {a b : CallHandlerAction} {e : Event Context Request Response ε}

structure Identified (h : AsyncUnaryCallHandler Context Request Response ε) : Prop where
  nodup : (h.actions.map (·.id)).Nodup
  fresh : ∀ a ∈ h.actions, a.id < h.nextAction

theorem Identified.append (hid : Identified g) (hb : ∀ a ∈ g.actions, a.id ≠ b.id)
    (hlt : b.id < h.nextAction) (hactions : h.actions = g.actions ++ [b])
    (hnext : g.nextAction ≤ h.nextAction) : Identified h := by
  constructor
  · rw [hactions, List.map_append, List.map_singleton]
    refine List.Nodup.append hid.nodup (List.nodup_singleton _) ?_
    rw [List.disjoint_singleton]
    intro hmem
    obtain ⟨a, ha, heq⟩ := List.mem_map.mp hmem
    exact hb a ha heq
  · rw [hactions]
    intro a ha
    rcases List.mem_append.mp ha with hold | hnew
    · exact Nat.lt_of_lt_of_le (hid.fresh a hold) hnext
    · rwa [List.mem_singleton.mp hnew]

/-- An action with the next address. -/
theorem Identified.alloc (hid : Identified g) (hb : b.id = g.nextAction)
    (hactions : h.actions = g.actions ++ [b]) (hnext : h.nextAction = g.nextAction + 1) : Identified h :=
  hid.append (fun a ha => hb ▸ Nat.ne_of_lt (hid.fresh a ha)) (by omega) hactions (by omega)

theorem Identified.taken (hid : Identified h) (htaken : Taken h a g) :
    Identified g ∧ a.id < g.nextAction ∧ ∀ b ∈ g.actions, b.id ≠ a.id := by
  have hnodup : (a.id :: g.actions.map (·.id)).Nodup :=
    (htaken.actions.map CallHandlerAction.id).nodup hid.nodup
  rw [List.nodup_cons] at hnodup
  refine ⟨⟨hnodup.2, fun b hb => ?_⟩, ?_, fun b hb heq => ?_⟩
  · rw [htaken.nextAction]
    exact hid.fresh b (htaken.actions.mem_iff.mpr (List.mem_cons_of_mem _ hb))
  · rw [htaken.nextAction]
    exact hid.fresh a htaken.mem
  · exact hnodup.1 (heq ▸ List.mem_map_of_mem hb)

theorem Identified.newCallHandling (hid : Identified g) (call : Nat)
    (inline : Option (Except ε Response)) :
    Identified (g.newCallHandling call inline) := by
  cases inline with
  | none => exact hid.alloc rfl rfl rfl
  | some outcome => cases outcome <;> exact hid.alloc rfl rfl rfl

/-- A tag is found by its address. -/
theorem Identified.find?_tag (hid : Identified h) (ha : a ∈ h.actions) (htag : a.isTag = true) :
    (h.actions.find? fun b => b.id = a.id ∧ b.isTag) = some a := by
  have hsome : (h.actions.find? fun b => b.id = a.id ∧ b.isTag).isSome = true :=
    List.find?_isSome.mpr ⟨a, ha, by simp [htag]⟩
  obtain ⟨b, hb⟩ := Option.isSome_iff_exists.mp hsome
  have hboth : b.id = a.id ∧ b.isTag = true := by simpa using List.find?_some hb
  rw [hb, List.inj_on_of_nodup_map hid.nodup (List.mem_of_find?_eq_some hb) ha hboth.1]

variable [Inhabited Context] [Inhabited Request] [Inhabited Response]

theorem Identified.step (hid : Identified h) (hstep : h.step e = some h') : Identified h' := by
  obtain ⟨-, a, g, htaken, hmove⟩ := step_cases hstep
  obtain ⟨hg, hlt, hne⟩ := hid.taken htaken
  cases hmove with
  | @accepted context request inline _ =>
      have hrequest : Identified (g.accept a.call context request).newCallRequest :=
        hg.alloc (b := ⟨g.nextAction, g.nextCall, .serviceRequest⟩) rfl rfl rfl
      exact hrequest.newCallHandling a.call inline
  | refused _ | alarmFailed _ | finished _ => exact { hg with }
  | handled _ => exact hg.alloc (b := ⟨g.nextAction, a.call, .callFinish⟩) rfl rfl rfl
  | @performed outcome _ =>
      cases outcome with
      | ok response =>
          exact hg.append (b := { a with kind := .callHandling .alarmSet }) hne hlt rfl (Nat.le_refl _)
      | error e =>
          exact hg.append (b := { a with kind := .callHandling .threw }) hne hlt rfl (Nat.le_refl _)

theorem identified_of_reachable (hh : (system Context Request Response ε).Reachable h) :
    Identified h := by
  refine hh.invariant (I := Identified) ?_ fun _ _ _ hid _ hstep => hid.step hstep
  rintro h rfl
  refine ⟨List.nodup_singleton _, fun a ha => ?_⟩
  rw [List.mem_singleton.mp ha]
  exact Nat.zero_lt_one

omit [Inhabited Context] [Inhabited Request] [Inhabited Response] in
theorem remaining_handling_le (call : Nat) (inline : Option (Except ε Response)) :
    (g.newCallHandling call inline).remaining 1 0 ≤ g.remaining 1 0 + 3 := by
  cases inline with
  | none => exact Nat.le_of_eq (remaining_append ⟨g.nextAction, call, .callHandling .dispatched⟩ rfl)
  | some outcome =>
      apply Nat.le_succ_of_le
      cases outcome with
      | ok response => exact Nat.le_of_eq (remaining_append ⟨g.nextAction, call, .callHandling .alarmSet⟩ rfl)
      | error e => exact Nat.le_of_eq (remaining_append ⟨g.nextAction, call, .callHandling .threw⟩ rfl)

/-- An RPC costs its handler at most four steps. -/
theorem remaining_accepted (hstep : h.step e = some h') :
    h'.remaining 1 0 + 1 + 4 * h.accepted.length ≤ h.remaining 1 0 + 4 * h'.accepted.length := by
  obtain ⟨-, a, g, htaken, hmove⟩ := step_cases hstep
  have haccepted : g.accepted = h.accepted := by rw [htaken.others]
  rw [htaken.remaining, ← haccepted]
  cases hmove with
  | @accepted context request inline hkind =>
      have hpaid : weight 1 0 a = 1 := by simp [weight, hkind]
      set f := (g.accept a.call context request).newCallRequest with hf
      have hrequest : f.remaining 1 0 = g.remaining 1 0 + 1 :=
        remaining_append (g := g) ⟨g.nextAction, g.nextCall, .serviceRequest⟩ rfl
      have hhandling := remaining_handling_le (g := f) a.call inline
      have hlength : f.accepted.length = g.accepted.length + 1 := List.length_append
      rw [(newCallHandling_keepsCalls _ _ _).accepted]
      omega
  | refused hkind =>
      have hpaid : weight 1 0 a = 1 := by simp [weight, hkind]
      change g.remaining 1 0 + 1 + 4 * g.accepted.length ≤ _ + 4 * g.accepted.length
      omega
  | alarmFailed hkind =>
      have hpaid : weight 1 0 a = 2 := by simp [weight, hkind]
      change g.remaining 1 0 + 1 + 4 * g.accepted.length ≤ _ + 4 * g.accepted.length
      omega
  | finished hkind =>
      have hpaid : weight 1 0 a = 1 := by simp [weight, hkind]
      change g.remaining 1 0 + 1 + 4 * g.accepted.length ≤ _ + 4 * g.accepted.length
      omega
  | handled hkind =>
      have hpaid : weight 1 0 a = 2 := by simp [weight, hkind]
      have hfinish : (g.newCallFinish a.call .OK).remaining 1 0 = g.remaining 1 0 + 1 :=
        remaining_append (g := g) ⟨g.nextAction, a.call, .callFinish⟩ rfl
      change _ + 1 + 4 * g.accepted.length ≤ _ + 4 * g.accepted.length
      omega
  | @performed outcome hkind =>
      have hpaid : weight 1 0 a = 3 := by simp [weight, hkind]
      have hnext : (g.perform a false outcome).remaining 1 0 = g.remaining 1 0 + 2 := by
        cases outcome with
        | ok response => exact remaining_append (g := g) { a with kind := .callHandling .alarmSet } rfl
        | error e => exact remaining_append (g := g) { a with kind := .callHandling .threw } rfl
      rw [(perform_keepsCalls _ _ _ _).accepted]
      omega

end Server.AsyncUnaryCallHandler

end Handler

section Client

namespace Client

variable {Tid Request Response : Type} [DecidableEq Tid] [Inhabited Response]

/-- A client is one whose destructor has not started. -/
theorem ClientLifetime.reachable_alive {c : AsyncClient Tid Request Response}
    (hc : (AsyncClient.system Tid Request Response).Reachable c) :
    ∃ s, (ClientLifetime.system Tid Request Response).Reachable s ∧ s.client = c ∧ s.stage = .alive ∧
      s.aborted = false := by
  induction hc with
  | init h => exact ⟨{}, .init rfl, h.symm, rfl, rfl⟩
  | @step c c' e _ _ hstep ih =>
      obtain ⟨s, hs, rfl, hstage, habort⟩ := ih
      refine ⟨s.advance c', hs.step (l := .client e) trivial ?_, rfl, hstage, by simp [advance, hstage]⟩
      have hmay : s.mayGoOn e = true := by cases e <;> simp [mayGoOn, hstage]
      have hclient : s.client.step e = some c' := hstep
      simp [system, ClientLifetime.step, habort, hmay, hclient]

theorem AsyncClient.draining_of_reachable {c : AsyncClient Tid Request Response}
    (hc : (AsyncClient.system Tid Request Response).Reachable c) :
    ∃ s : ClientLifetime Tid Request Response, s.Draining ∧ s.client = c ∧ s.stage = .alive := by
  obtain ⟨s, hs, hclient, hstage, -⟩ := ClientLifetime.reachable_alive hc
  exact ⟨s, ClientLifetime.draining_of_reachable hs, hclient, hstage⟩

/-- Every unary call has its request. -/
theorem AsyncClient.requested_of_reachable {c : AsyncClient Tid Request Response}
    (hc : (AsyncClient.system Tid Request Response).Reachable c) :
    ∀ b, (c.unaryCalls b).isSome → ∃ request, (b, request) ∈ c.requests := by
  refine hc.invariant (I := fun c => ∀ b, (c.unaryCalls b).isSome → ∃ request,
    (b, request) ∈ c.requests) ?_ ?_
  · rintro _ rfl b hb
    cases hb
  · intro s e s' h _ hstep b hb
    have hrequests := (AsyncClient.requests_delivered_step hstep).1
    have hold : (s.unaryCalls b).isSome → ∃ request, (b, request) ∈ s'.requests := fun hb =>
      (h b hb).imp fun request hmem => hrequests _ hmem
    have hupdate : ∀ {c : Nat} {old new : AsyncUnaryCall Response}, s.unaryCalls c = some old →
        (Function.update s.unaryCalls c (some new) b).isSome → (s.unaryCalls b).isSome := by
      intro c old new hold hnew
      by_cases hb : b = c
      · rw [hb, hold]
        rfl
      · rwa [Function.update_of_ne hb] at hnew
    cases (AsyncClient.step_cases hstep).2 with
    | @callUnary request hasCallback =>
        by_cases hnext : b = s.nextCall
        · exact ⟨request, hnext ▸ List.mem_append_right _ List.mem_cons_self⟩
        · exact hold (by simpa [AsyncClient.newUnaryCall, Function.update_of_ne hnext] using hb)
    | gotUnaryFinish _ _ hcall | responded _ hcall _ => exact hold (hupdate hcall hb)
    | @calledBack c run call _ hcall =>
        apply hold
        simp only [AsyncClient.responseCallback] at hb
        split at hb
        · exact hupdate hcall hb
        · exact hb
    | @installOwner c _ =>
        apply hold
        by_cases hc : b = c
        · subst hc
          simpa [AsyncClient.installOwner] using hb
        · simpa [AsyncClient.installOwner, Function.update_of_ne hc] using hb
    | callClientStream | createWriter _ _ | addStreamingCall _ | returned _ | dropRef | gotCallStart _ _
    | gotStreamAction _ _ _ | futureError _ _ _ | sharedFromThis _ _ _ | badWeakPtr _ _ _ | onCallDead _
    | released _ | streamWriterReady _ _ _ | streamWriterReadyTwice _ _ _ | writerCompletion _ _ _ _
    | runCallback _ | writer _ _ _ => exact hold hb

end Client

end Client

namespace UnaryRpc

open Client Server

variable {ι κ Tid Context Request Response ε : Type}

def Event.calls : Event ι κ Tid Context Request Response ε → Bool
  | .client _ e => e.calls
  | _ => false

section Work

theorem sum_charges (es : List (Event ι κ Tid Context Request Response ε)) :
    (es.map fun e => if e.calls then 17 else 0).sum = 17 * es.countP Event.calls := by
  induction es with
  | nil => rfl
  | cons e es ih =>
      rw [List.map_cons, List.sum_cons, List.countP_cons, ih]
      split <;> omega

theorem sum_add_le [Fintype ι] [DecidableEq ι] {f g : ι → Nat} {i : ι} {d e : Nat}
    (hi : f i + d ≤ g i + e)
    (hothers : ∀ j, j ≠ i → f j ≤ g j) : ∑ j, f j + d ≤ ∑ j, g j + e := by
  rw [← Finset.add_sum_erase Finset.univ f (Finset.mem_univ i),
    ← Finset.add_sum_erase Finset.univ g (Finset.mem_univ i)]
  have hsum : ∑ j ∈ Finset.univ.erase i, f j ≤ ∑ j ∈ Finset.univ.erase i, g j :=
    Finset.sum_le_sum fun j hj => hothers j (Finset.ne_of_mem_erase hj)
  omega

variable [DecidableEq ι]

def unmatched (s : UnaryRpc ι κ Tid Context Request Response ε) (i : ι) : Nat :=
  (s.clients i).requests.countP fun p => !s.matched.any (·.rpc = ⟨i, p.1⟩)

def work [Fintype ι] [Fintype κ] (s : UnaryRpc ι κ Tid Context Request Response ε) : Nat :=
  ∑ i, ((s.clients i).work + 4 * s.unmatched i) + ∑ k, (s.handlers k).remaining 1 0

theorem countP_lt_of_mem {α : Type} {p q : α → Bool} {l : List α} {a : α} (ha : a ∈ l)
    (himp : ∀ x, q x = true → p x = true) (hp : p a = true) (hq : q a = false) :
    l.countP q < l.countP p := by
  obtain ⟨before, after, rfl⟩ := List.append_of_mem ha
  have hbefore : before.countP q ≤ before.countP p := List.countP_mono_left fun x _ => himp x
  have hafter : after.countP q ≤ after.countP p := List.countP_mono_left fun x _ => himp x
  simp only [List.countP_append, List.countP_cons, hp, hq, if_true, Bool.false_eq_true, if_false]
  omega

variable [DecidableEq κ] [DecidableEq Tid] [Inhabited Context] [Inhabited Request] [Inhabited Response]
  {s s' : UnaryRpc ι κ Tid Context Request Response ε}

/-- What a step is to the client or to the handler that takes it. -/
theorem step_effects {e : Event ι κ Tid Context Request Response ε} (h : s.step e = some s') :
    (∃ i e' client, (s.clients i).step e' = some client ∧ e'.calls = e.calls ∧
      s' = { s with clients := Function.update s.clients i client }) ∨
    (∃ k e' handler, (s.handlers k).step e' = some handler ∧ handler.accepted = (s.handlers k).accepted ∧
      s' = { s with handlers := Function.update s.handlers k handler }) ∨
    ∃ m e' handler, (s.handlers m.handler).step e' = some handler ∧
      handler.accepted = (s.handlers m.handler).accepted ++ [m.accepted] ∧
      m.rpc ∉ s.matched.map (·.rpc) ∧ (m.rpc.call, m.request) ∈ (s.clients m.rpc.client).requests ∧
      s' = { s with
        handlers := Function.update s.handlers m.handler handler
        matched := s.matched ++ [m] } := by
  cases e with
  | client i e =>
      simp only [step] at h
      split at h
      · cases h
      · obtain ⟨client, hclient, rfl⟩ := Option.map_eq_some_iff.mp h
        exact .inl ⟨i, e, client, hclient, rfl, rfl⟩
  | answer rpc ok =>
      obtain ⟨m, -, hrest⟩ := Option.bind_eq_some_iff.mp h
      obtain ⟨f, -, hlast⟩ := Option.bind_eq_some_iff.mp hrest
      obtain ⟨client, hclient, rfl⟩ := Option.map_eq_some_iff.mp hlast
      exact .inl ⟨_, _, client, hclient, rfl, rfl⟩
  | handler k e =>
      simp only [step] at h
      split at h
      · cases h
      · rename_i hnot
        obtain ⟨handler, hhandler, rfl⟩ := Option.map_eq_some_iff.mp h
        refine .inr (.inl ⟨k, e, handler, hhandler, ?_, rfl⟩)
        rw [accepted_step hhandler, newlyAccepted_of_not_isAccept (by simpa using hnot), List.append_nil]
  | accept rpc k id context inline =>
      simp only [step] at h
      split at h
      · cases h
      · rename_i hunmatched
        obtain ⟨⟨c, request⟩, hp, hrest⟩ := Option.bind_eq_some_iff.mp h
        obtain ⟨a, ha, hmap⟩ := Option.bind_eq_some_iff.mp hrest
        obtain ⟨t, ht, rfl⟩ := Option.map_eq_some_iff.mp hmap
        obtain ⟨handler, hhandler, rfl⟩ := Option.map_eq_some_iff.mp ht
        have hc : c = rpc.call := by simpa using List.find?_some hp
        subst hc
        refine .inr (.inr ⟨⟨rpc, k, a.call, context, request⟩, _, handler, hhandler, ?_, hunmatched,
          List.mem_of_find?_eq_some hp, rfl⟩)
        rw [accepted_step hhandler, newlyAccepted, ha]
        rfl

variable [Fintype ι] [Fintype κ]

omit [DecidableEq κ] [DecidableEq Tid] in
theorem work_initial :
    (initial ι κ Tid Context Request Response ε).work = Fintype.card ι + Fintype.card κ := by
  have hclient : ∀ i, ((initial ι κ Tid Context Request Response ε).clients i).work +
      4 * (initial ι κ Tid Context Request Response ε).unmatched i = 1 := fun _ => rfl
  have hhandler : ∀ k, ((initial ι κ Tid Context Request Response ε).handlers k).remaining 1 0 = 1 :=
    fun _ => rfl
  rw [work, Finset.sum_congr rfl fun i _ => hclient i, Finset.sum_congr rfl fun k _ => hhandler k]
  simp

omit [DecidableEq κ] [Inhabited Context] [Inhabited Request] in
theorem work_client {i : ι} {e : AsyncClient.Event Tid Request Response}
    {client : AsyncClient Tid Request Response}
    (hs : (AsyncClient.system Tid Request Response).Reachable (s.clients i))
    (hstep : (s.clients i).step e = some client) :
    work { s with clients := Function.update s.clients i client } + 1 ≤
      s.work + if e.calls then 17 else 0 := by
  obtain ⟨l, hl, hclient, -⟩ := AsyncClient.draining_of_reachable hs
  have hpaid := AsyncClient.work_step (hclient ▸ hl.calls) (hclient ▸ hl.polls) hstep
  set t := { s with clients := Function.update s.clients i client } with ht
  have hself : t.clients i = client := Function.update_self _ _ _
  have hunmatched : t.unmatched i ≤ s.unmatched i + if e.calls then 1 else 0 := by
    rw [unmatched, unmatched, hself]
    rcases AsyncClient.requests_move (AsyncClient.step_cases hstep).2 with hsame | ⟨hcalls, p, hnew⟩
    · rw [hsame]
      exact Nat.le_add_right _ _
    · rw [hnew, hcalls, List.countP_append]
      exact Nat.add_le_add_left List.countP_le_length _
  have hclient : (t.clients i).work + 4 * t.unmatched i + 1 ≤
      (s.clients i).work + 4 * s.unmatched i + if e.calls then 17 else 0 := by
    rw [hself]
    cases hcalls : e.calls with
    | true =>
        simp only [hcalls, if_true] at hpaid hunmatched ⊢
        omega
    | false =>
        simp only [hcalls, Bool.false_eq_true, if_false] at hpaid hunmatched ⊢
        omega
  have hothers : ∀ j, j ≠ i → (t.clients j).work + 4 * t.unmatched j ≤
      (s.clients j).work + 4 * s.unmatched j := by
    intro j hj
    have hsame : t.clients j = s.clients j := Function.update_of_ne hj _ _
    rw [unmatched, hsame]
    exact Nat.le_refl _
  have hsum := sum_add_le hclient hothers
  have hhandlers : ∑ k, (t.handlers k).remaining 1 0 = ∑ k, (s.handlers k).remaining 1 0 := rfl
  rw [work, work, hhandlers]
  omega

omit [DecidableEq ι] [DecidableEq Tid] [Inhabited Context] [Inhabited Request] [Inhabited Response] [Fintype ι] in
theorem sum_handlers_le {k : κ} {handler : AsyncUnaryCallHandler Context Request Response ε} {d e : Nat}
    (hpaid : handler.remaining 1 0 + d ≤ (s.handlers k).remaining 1 0 + e) :
    ∑ j, (Function.update s.handlers k handler j).remaining 1 0 + d ≤ ∑ j, (s.handlers j).remaining 1 0 + e := by
  apply sum_add_le (i := k)
  · rwa [Function.update_self]
  · intro j hj
    rw [Function.update_of_ne hj]

omit [DecidableEq Tid] in
theorem work_handler {k : κ} {e : AsyncUnaryCallHandler.Event Context Request Response ε}
    {handler : AsyncUnaryCallHandler Context Request Response ε}
    (hstep : (s.handlers k).step e = some handler)
    (hnone : handler.accepted = (s.handlers k).accepted) :
    work { s with handlers := Function.update s.handlers k handler } + 1 ≤ s.work := by
  have hpaid := AsyncUnaryCallHandler.remaining_accepted hstep
  rw [hnone] at hpaid
  have hhandlers := sum_handlers_le (s := s) (k := k) (d := 1) (e := 0)
    (Nat.le_of_add_le_add_right hpaid)
  exact Nat.add_le_add_left hhandlers _

omit [DecidableEq Tid] in
theorem work_accept {m : Match ι κ Context Request}
    {e : AsyncUnaryCallHandler.Event Context Request Response ε}
    {handler : AsyncUnaryCallHandler Context Request Response ε}
    (hstep : (s.handlers m.handler).step e = some handler)
    (hnew : handler.accepted = (s.handlers m.handler).accepted ++ [m.accepted])
    (hunmatched : m.rpc ∉ s.matched.map (·.rpc))
    (hrequest : (m.rpc.call, m.request) ∈ (s.clients m.rpc.client).requests) :
    work { s with
      handlers := Function.update s.handlers m.handler handler
      matched := s.matched ++ [m] } + 1 ≤ s.work := by
  have hpaid := AsyncUnaryCallHandler.remaining_accepted hstep
  rw [hnew, List.length_append, List.length_singleton] at hpaid
  set t := { s with
    handlers := Function.update s.handlers m.handler handler
    matched := s.matched ++ [m] } with ht
  have hhandlers : ∑ k, (t.handlers k).remaining 1 0 + 0 ≤ ∑ k, (s.handlers k).remaining 1 0 + 3 :=
    sum_handlers_le (by omega)
  have hmatched : ∀ rpc, (!t.matched.any (·.rpc = rpc)) = true → (!s.matched.any (·.rpc = rpc)) = true := by
    intro rpc hrpc
    simp only [ht, List.any_append, Bool.not_or, Bool.and_eq_true] at hrpc
    exact hrpc.1
  have hle : ∀ j, t.unmatched j ≤ s.unmatched j := fun j =>
    List.countP_mono_left fun p _ hp => hmatched _ hp
  -- the request that is matched does not wait any more
  have hless : t.unmatched m.rpc.client < s.unmatched m.rpc.client := by
    refine countP_lt_of_mem hrequest (fun p hp => hmatched _ hp) ?_ ?_
    · simpa using hunmatched
    · simp [ht]
  have hclient : (t.clients m.rpc.client).work + 4 * t.unmatched m.rpc.client + 4 ≤
      (s.clients m.rpc.client).work + 4 * s.unmatched m.rpc.client + 0 := by
    change (s.clients _).work + _ + 4 ≤ _
    omega
  have hothers : ∀ j, j ≠ m.rpc.client → (t.clients j).work + 4 * t.unmatched j ≤
      (s.clients j).work + 4 * s.unmatched j :=
    fun j _ => Nat.add_le_add_left (Nat.mul_le_mul_left 4 (hle j)) _
  have hclients := sum_add_le hclient hothers
  rw [work, work]
  omega

/-- Every step is paid for, by what its client and its handler still had to do or by the call that it
makes. -/
theorem work_step {e : Event ι κ Tid Context Request Response ε}
    (hs : (system ι κ Tid Context Request Response ε).Reachable s) (hstep : s.step e = some s') :
    s'.work + 1 ≤ s.work + if e.calls then 17 else 0 := by
  rcases step_effects hstep with ⟨i, e', client, hclient, hcalls, rfl⟩ | ⟨k, e', handler, hhandler,
    hnone, rfl⟩ |
    ⟨m, e', handler, hhandler, hnew, hunmatched, hrequest, rfl⟩
  · rw [← hcalls]
    exact work_client (client_reachable hs i) hclient
  · exact Nat.le_add_right_of_le (work_handler hhandler hnone)
  · exact Nat.le_add_right_of_le (work_accept hhandler hnew hunmatched hrequest)

end Work

/-- What the threads, gRPC and the executors have to do: nothing fails, and the user's functions
return. -/
def Event.IsDue : Event ι κ Tid Context Request Response ε → Prop
  | .client _ (.frame _) => True
  | .client _ (.poll run) => run = .returned
  | .client _ (.runCallback _) => True
  | .client _ _ => False
  | .answer _ ok => ok = true
  | .handler _ (.asyncNext _ ok _ _ _) => ok = true
  | .handler _ (.perform _ outcome) => ∃ response, outcome = .ok response
  | .accept _ _ _ _ inline => inline = none

/-- The handler that accepted the RPC does not answer it: an exception has ended its process or left the
user's function, or the alarm of the handling was cancelled. -/
def Abandoned (s : UnaryRpc ι κ Tid Context Request Response ε) (m : Match ι κ Context Request) : Prop :=
  (s.handlers m.handler).terminated = true ∨ s.finishesOf m = [] ∧
    ∃ i, s.invocationsOf m = [i] ∧ ((∃ e, i.outcome = .error e) ∨ m.call ∈ (s.handlers m.handler).deleted)

/-- Nothing is left to do. A process that an exception has ended does nothing either. -/
structure AtRest (s : UnaryRpc ι κ Tid Context Request Response ε) : Prop where
  clients : ∀ i, (s.clients i).terminated = false → (s.clients i).poller = .idle ∧
    (∀ c, (s.clients i).frames c = none) ∧ (s.clients i).callbackTasks = []
  handlers : ∀ k, (s.handlers k).terminated = false → ∀ a ∈ (s.handlers k).actions,
    a.kind = .serviceRequest ∨ a.kind = .callHandling .threw
  calls : ∀ i, (s.clients i).terminated = false → ∀ c call, (s.clients i).unaryCalls c = some call →
    (call.responsePromise.Fulfilled ∧ call.hasResponseCallback = false) ∨
      (∃ m ∈ s.matched, m.rpc = ⟨i, c⟩ ∧ s.Abandoned m) ∨
      (⟨i, c⟩ ∉ s.matched.map (·.rpc) ∧
        ∀ k, (s.handlers k).terminated = true ∨ (s.handlers k).requestsClosed = true)

section Rest

variable [DecidableEq ι] [DecidableEq κ] [DecidableEq Tid]
  [Inhabited Context] [Inhabited Request] [Inhabited Response]
  {s : UnaryRpc ι κ Tid Context Request Response ε}

def Blocked (s : UnaryRpc ι κ Tid Context Request Response ε) : Prop :=
  ∀ e : Event ι κ Tid Context Request Response ε, e.IsDue → s.step e = none

theorem Blocked.client (h : s.Blocked) {i : ι} {e : AsyncClient.Event Tid Request Response}
    (hdue : (Event.client i e : Event ι κ Tid Context Request Response ε).IsDue)
    (he : isOkAnswer e = false) :
    (s.clients i).step e = none := by
  have hnone := h (.client i e) hdue
  rw [step, if_neg (by simp [he])] at hnone
  exact Option.map_eq_none_iff.mp hnone

theorem Blocked.handler (h : s.Blocked) {k : κ}
    {e : AsyncUnaryCallHandler.Event Context Request Response ε}
    (hdue : (Event.handler k e : Event ι κ Tid Context Request Response ε).IsDue)
    (he : isAccept (s.handlers k) e = false) : (s.handlers k).step e = none := by
  have hnone := h (.handler k e) hdue
  rw [step, if_neg (by simp [he])] at hnone
  exact Option.map_eq_none_iff.mp hnone

theorem Blocked.client_rests (h : s.Blocked)
    (hs : (system ι κ Tid Context Request Response ε).Reachable s)
    {i : ι} (hrun : (s.clients i).terminated = false) : (s.clients i).poller = .idle ∧
      (∀ c, (s.clients i).frames c = none) ∧ (s.clients i).callbackTasks = [] := by
  obtain ⟨l, hl, hclient, hstage⟩ := AsyncClient.draining_of_reachable (client_reachable hs i)
  refine ⟨?_, fun c => ?_, ?_⟩
  · by_contra hbusy
    have hnone := h.client (i := i) (e := .poll .returned) rfl rfl
    rw [AsyncClient.step, if_neg (by simp [hrun])] at hnone
    have hinv := (hl.inv.client (by simp [hstage])).1
    have hsome := AsyncClient.pollerStep_isSome (hclient ▸ hinv) (hclient ▸ hl.polled)
      (hclient ▸ hl.polls) hrun hbusy .returned
    rw [hnone] at hsome
    cases hsome
  · by_contra hframe
    have hnone := h.client (i := i) (e := .frame c) trivial rfl
    rw [AsyncClient.step, if_neg (by simp [hrun])] at hnone
    have hsome := AsyncClient.frameStep_isSome hframe
    rw [hnone] at hsome
    cases hsome
  · rw [List.eq_nil_iff_forall_not_mem]
    intro c hc
    have hnone := h.client (i := i) (e := .runCallback c) trivial rfl
    simp [AsyncClient.step, hrun, hc] at hnone

theorem Blocked.handler_rests (h : s.Blocked)
    (hs : (system ι κ Tid Context Request Response ε).Reachable s)
    {k : κ} (hrun : (s.handlers k).terminated = false) : ∀ a ∈ (s.handlers k).actions,
      a.kind = .serviceRequest ∨ a.kind = .callHandling .threw := by
  intro a ha
  have hid := AsyncUnaryCallHandler.identified_of_reachable (handler_reachable hs k)
  have hreturned : a.isTag = true → a.isServiceRequest = false → False := by
    intro htag hrequest
    have hfound := hid.find?_tag ha htag
    have haccept : isAccept (s.handlers k) (.asyncNext a.id true default default none) = false := by
      rw [isAccept, requestTag, hfound]
      simp [hrequest]
    have hnone := h.handler (k := k) (e := .asyncNext a.id true default default none) rfl haccept
    rw [AsyncUnaryCallHandler.step, if_neg (by simp [hrun]), hfound] at hnone
    cases hnone
  cases hkind : a.kind with
  | serviceRequest => exact .inl rfl
  | callFinish =>
      exact (hreturned (by simp [AsyncUnaryCallHandler.CallHandlerAction.isTag, hkind])
        (by simp [AsyncUnaryCallHandler.CallHandlerAction.isServiceRequest, hkind])).elim
  | callHandling stage =>
      cases stage with
      | threw => exact .inr rfl
      | alarmSet =>
          exact (hreturned (by simp [AsyncUnaryCallHandler.CallHandlerAction.isTag, hkind])
            (by simp [AsyncUnaryCallHandler.CallHandlerAction.isServiceRequest, hkind])).elim
      | dispatched =>
          have hdispatched : a.isDispatched = true := by
            simp [AsyncUnaryCallHandler.CallHandlerAction.isDispatched, hkind]
          have hfound : ((s.handlers k).actions.find? fun b => b.id = a.id ∧ b.isDispatched).isSome = true :=
            List.find?_isSome.mpr ⟨a, ha, by simp [hdispatched]⟩
          have hnone := h.handler (k := k) (e := .perform a.id (.ok default)) ⟨default, rfl⟩ rfl
          rw [AsyncUnaryCallHandler.step, if_neg (by simp [hrun]), Option.map_eq_none_iff] at hnone
          rw [hnone] at hfound
          cases hfound

/-- What a live handler has done about an RPC when it rests. -/
theorem Blocked.abandoned_or_finished (h : s.Blocked)
    (hs : (system ι κ Tid Context Request Response ε).Reachable s) {m : Match ι κ Context Request}
    (hm : m ∈ s.matched) :
    s.Abandoned m ∨ ∃ f ∈ (s.handlers m.handler).finishes, f.call = m.call ∧ f.status.ok = true := by
  cases hrun : (s.handlers m.handler).terminated with
  | true => exact .inl (.inl hrun)
  | false =>
      obtain ⟨hinv, hist⟩ := AsyncUnaryCallHandler.history_of_reachable (handler_reachable hs m.handler)
      have haccepted : ((s.handlers m.handler).logOf m.call).accepted ≠ [] := by
        rw [(linked_of_reachable hs).acceptedLog]
        exact List.ne_nil_of_mem (List.mem_map_of_mem (List.mem_filter.mpr ⟨hm, by simp⟩))
      have hlog : (s.handlers m.handler).logOf m.call ≠ {} := fun hempty =>
        haccepted (congrArg AsyncUnaryCallHandler.CallLog.accepted hempty)
      have hlt : m.call < (s.handlers m.handler).nextCall :=
        Nat.lt_of_not_le fun hle => hlog (hist.fresh _ hle)
      rcases hinv.ledger.mem_held_or_freed.mp hlt with hheld | hdeleted
      · obtain ⟨a, ha, hcall⟩ := List.mem_map.mp hheld
        have hlogged := hist.live a ha
        rcases h.handler_rests hs hrun a ha with hkind | hkind
        · rw [hkind, hcall] at hlogged
          exact absurd hlogged hlog
        · rw [hkind, hcall] at hlogged
          obtain ⟨e, onPollingThread, hescaped⟩ := hlogged
          have hfinishes := congrArg AsyncUnaryCallHandler.CallLog.finishes hescaped
          have hinvocations := congrArg AsyncUnaryCallHandler.CallLog.invocations hescaped
          exact .inl (.inr ⟨hfinishes, _, hinvocations, .inl ⟨e, rfl⟩⟩)
      · rcases hist.dead _ hdeleted with hempty | ⟨call, hinvoked | hfinished⟩
        · exact absurd hempty hlog
        · have hfinishes := congrArg AsyncUnaryCallHandler.CallLog.finishes hinvoked
          have hinvocations := congrArg AsyncUnaryCallHandler.CallLog.invocations hinvoked
          exact .inl (.inr ⟨hfinishes, _, hinvocations, .inr hdeleted⟩)
        · have hfinishes := congrArg AsyncUnaryCallHandler.CallLog.finishes hfinished
          have hmem : (⟨m.call, call.response, .OK⟩ : AsyncUnaryCallHandler.Finish Response) ∈
              ((s.handlers m.handler).logOf m.call).finishes := hfinishes ▸ List.mem_cons_self
          exact .inr ⟨_, List.mem_of_mem_filter hmem, rfl, rfl⟩

/-- gRPC returns the answer of a handler as long as its client waits for it. -/
theorem answer_possible (hs : (system ι κ Tid Context Request Response ε).Reachable s)
    {m : Match ι κ Context Request} (hm : m ∈ s.matched)
    {f : AsyncUnaryCallHandler.Finish Response} (hf : f ∈ (s.handlers m.handler).finishes)
    (hfcall : f.call = m.call ∧ f.status.ok = true) {call : AsyncUnaryCall Response}
    (hrun : (s.clients m.rpc.client).terminated = false)
    (hidle : (s.clients m.rpc.client).poller = .idle)
    (htag : .unaryFinish m.rpc.call ∈ (s.clients m.rpc.client).tags)
    (hcall : (s.clients m.rpc.client).unaryCalls m.rpc.call = some call) :
    s.step (.answer m.rpc true) ≠ none := by
  have hmatched : s.matched.find? (·.rpc = m.rpc) = some m := by
    have hsome : (s.matched.find? (·.rpc = m.rpc)).isSome = true :=
      List.find?_isSome.mpr ⟨m, hm, by simp⟩
    obtain ⟨b, hb⟩ := Option.isSome_iff_exists.mp hsome
    have hrpc : b.rpc = m.rpc := by simpa using List.find?_some hb
    have hsame := List.inj_on_of_nodup_map (linked_of_reachable hs).acceptedOnce
      (List.mem_of_find?_eq_some hb) hm hrpc
    rw [hb, hsame]
  have hfinish : ((s.handlers m.handler).finishes.find? fun f => f.call = m.call ∧ f.status.ok).isSome = true :=
    List.find?_isSome.mpr ⟨f, hf, by simpa using hfcall⟩
  obtain ⟨f', hf'⟩ := Option.isSome_iff_exists.mp hfinish
  rw [step, hmatched, Option.bind_some, hf', Option.bind_some, clientStep]
  simp [AsyncClient.step, hrun, hidle, AsyncClient.asyncNext, htag, hcall]

/-- gRPC matches a request as long as a handler takes one. -/
theorem accept_possible (hs : (system ι κ Tid Context Request Response ε).Reachable s) {rpc : Rpc ι}
    {k : κ}
    (hunmatched : rpc ∉ s.matched.map (·.rpc))
    (hcall : ((s.clients rpc.client).unaryCalls rpc.call).isSome = true)
    (hrun : (s.handlers k).terminated = false) (hopen : (s.handlers k).requestsClosed = false) :
    ∃ id, s.step (.accept rpc k id default none) ≠ none := by
  obtain ⟨request, hrequest⟩ := AsyncClient.requested_of_reachable
    (client_reachable hs rpc.client) _ hcall
  have hsome : ((s.clients rpc.client).requests.find? (·.1 = rpc.call)).isSome = true :=
    List.find?_isSome.mpr ⟨_, hrequest, by simp⟩
  obtain ⟨p, hp⟩ := Option.isSome_iff_exists.mp hsome
  have hcount := (AsyncUnaryCallHandler.inv_of_reachable (handler_reachable hs k)).requests
  have hpos : 0 < (s.handlers k).actions.countP (·.isServiceRequest) := by
    simp only [List.nil_append, hopen, Bool.false_eq_true, if_false] at hcount
    omega
  obtain ⟨a, ha, hkind⟩ := List.countP_pos_iff.mp hpos
  have htag : a.isTag = true := by
    simp only [AsyncUnaryCallHandler.CallHandlerAction.isServiceRequest, decide_eq_true_eq] at hkind
    simp [AsyncUnaryCallHandler.CallHandlerAction.isTag, hkind]
  have hid := AsyncUnaryCallHandler.identified_of_reachable (handler_reachable hs k)
  have hfound := hid.find?_tag ha htag
  have hrequestTag : requestTag (s.handlers k) a.id = some a := by
    rw [requestTag, hfound]
    simp [hkind]
  refine ⟨a.id, ?_⟩
  rw [step, if_neg hunmatched, hp, Option.bind_some, hrequestTag, Option.bind_some, handlerStep,
    AsyncUnaryCallHandler.step, if_neg (by simp [hrun]), hfound]
  simp

theorem Blocked.atRest (h : s.Blocked) (hs : (system ι κ Tid Context Request Response ε).Reachable s) :
    s.AtRest := by
  refine ⟨fun i hrun => h.client_rests hs hrun, fun k hrun => h.handler_rests hs hrun, ?_⟩
  intro i hrun c call hcall
  obtain ⟨hidle, -, -⟩ := h.client_rests hs hrun
  obtain ⟨l, hl, hclient, -⟩ := AsyncClient.draining_of_reachable (client_reachable hs i)
  have hanswers : (s.clients i).Answers := hclient ▸ hl.answers
  by_cases htag : .unaryFinish c ∈ (s.clients i).tags
  · refine .inr ?_
    by_cases hmatched : (⟨i, c⟩ : Rpc ι) ∈ s.matched.map (·.rpc)
    · obtain ⟨m, hm, hrpc⟩ := List.mem_map.mp hmatched
      refine .inl ⟨m, hm, hrpc, (h.abandoned_or_finished hs hm).resolve_right ?_⟩
      rintro ⟨f, hf, hfcall⟩
      obtain ⟨hi, hc⟩ : m.rpc.client = i ∧ m.rpc.call = c := by simp [hrpc]
      exact answer_possible hs hm hf hfcall (hi ▸ hrun) (hi ▸ hidle) (hi ▸ hc ▸ htag) (hi ▸ hc ▸ hcall)
        (h (.answer m.rpc true) rfl)
    · refine .inr ⟨hmatched, fun k => ?_⟩
      by_contra hopen
      rw [not_or, Bool.not_eq_true, Bool.not_eq_true] at hopen
      obtain ⟨id, hid⟩ := accept_possible hs hmatched (by simp [hcall]) hopen.1 hopen.2
      exact hid (h (.accept ⟨i, c⟩ k id default none) rfl)
  · refine .inl ⟨(hanswers.response c call hcall).resolve_right ?_,
      (hanswers.callback c call hcall).resolve_right ?_⟩
    · simp [htag, hidle]
    · simp [htag, hidle]

/-- **Completion.** A run of any number of clients and handlers takes at most 17 steps for each call
that a user thread makes, and one for each client and each handler. Where none of the steps that are due
is possible every call has been answered and its callback has run, unless its handler has failed or no
handler takes requests. -/
theorem completes [Fintype ι] [Fintype κ] (es : List (Event ι κ Tid Context Request Response ε))
    (s : UnaryRpc ι κ Tid Context Request Response ε)
    (hrun : (system ι κ Tid Context Request Response ε).run
      (initial ι κ Tid Context Request Response ε) es = some s) :
    es.length ≤ 17 * es.countP Event.calls + Fintype.card ι + Fintype.card κ ∧
      ((∀ e : Event ι κ Tid Context Request Response ε, e.IsDue → s.step e = none) → s.AtRest) := by
  have hinitial : (system ι κ Tid Context Request Response ε).Reachable
      (initial ι κ Tid Context Request Response ε) := .init rfl
  refine ⟨?_, fun hblocked => Blocked.atRest hblocked (TransitionSystem.reachable_of_run es hinitial hrun)⟩
  have hlength := TransitionSystem.length_le_of_charges work
    (fun e : Event ι κ Tid Context Request Response ε => if e.calls then 17 else 0)
    (fun s e s' hs hstep => hs.step trivial hstep)
    (fun s e s' hs hstep => work_step hs hstep) hinitial hrun
  rw [work_initial, sum_charges] at hlength
  omega

end Rest

def twoAnswers : List (Event Bool Unit Nat String String String String) :=
  [.client false (.callUnary "x" true), .client true (.callUnary "y" false)] ++
    [false, true].flatMap (fun i => List.replicate 3 (.client i (.frame 0))) ++
    [.accept ⟨true, 0⟩ () 0 "peer b" none, .accept ⟨false, 0⟩ () 1 "peer a" (some (.ok "X")),
      .handler () (.perform 2 (.ok "Y")), .handler () (.asyncNext 4 true "" "" none),
      .handler () (.asyncNext 2 true "" "" none), .answer ⟨false, 0⟩ true, .answer ⟨true, 0⟩ true,
      .handler () (.asyncNext 5 true "" "" none), .handler () (.asyncNext 6 true "" "" none)] ++
    [false, true].flatMap (fun i => List.replicate 5 (.client i (.poll .returned)))

/-- Afterwards each thread is idle, and the handler has nothing but a request that no RPC matches. -/
theorem twoAnswers_blocked : ∃ s, (system Bool Unit Nat String String String String).run
    (initial Bool Unit Nat String String String String) twoAnswers = some s ∧
    ((s.clients true).unaryCalls 0).map (·.responsePromise) = some (.value "Y") ∧ s.Blocked := by
  have hrun : ∃ s, (system Bool Unit Nat String String String String).run
      (initial Bool Unit Nat String String String String) twoAnswers = some s ∧
      ((s.clients true).unaryCalls 0).map (·.responsePromise) = some (.value "Y") ∧
      (∀ i c, (s.clients i).frames c = none) ∧
      (∀ i, (s.clients i).poller = .idle ∧ (s.clients i).tags = [] ∧ (s.clients i).callbackTasks = [] ∧
        (s.clients i).requests.map (·.1) = [0]) ∧
      (∀ k, (s.handlers k).actions = [⟨3, 2, .serviceRequest⟩]) ∧
      s.matched.map (·.rpc) = [⟨true, 0⟩, ⟨false, 0⟩] := by
    refine ⟨_, rfl, rfl, fun i c => ?_, fun i => ?_, fun _ => rfl, rfl⟩
    · cases i <;> cases c <;> rfl
    · cases i <;> exact ⟨rfl, rfl, rfl, rfl⟩
  obtain ⟨s, hrun, hanswer, hframes, hclients, hactions, hmatched⟩ := hrun
  refine ⟨s, hrun, hanswer, fun e hdue => ?_⟩
  cases e with
  | client i e =>
      obtain ⟨hidle, htags, htasks, -⟩ := hclients i
      cases e with
      | frame c => simp [step, isOkAnswer, clientStep, AsyncClient.step, AsyncClient.frameStep, hframes]
      | poll run => simp [step, isOkAnswer, clientStep, AsyncClient.step, AsyncClient.pollerStep, hidle]
      | runCallback c => simp [step, isOkAnswer, clientStep, AsyncClient.step, htasks]
      | callUnary _ _ | callClientStream | dropRef _ | asyncNext _ _ _ _ | writer _ _ => exact hdue.elim
  | answer rpc ok =>
      obtain ⟨hidle, htags, -, -⟩ := hclients rpc.client
      simp [step, clientStep, AsyncClient.step, AsyncClient.asyncNext, htags]
  | handler k e =>
      cases e with
      | asyncNext id ok _ _ _ =>
          obtain rfl : ok = true := hdue
          by_cases hid : id = 3
          · simp [step, isAccept, requestTag, hactions, hid,
              AsyncUnaryCallHandler.CallHandlerAction.isTag,
              AsyncUnaryCallHandler.CallHandlerAction.isServiceRequest]
          · simp [step, handlerStep, AsyncUnaryCallHandler.step, hactions, Ne.symm hid]
      | perform id outcome =>
          simp [step, isAccept, handlerStep, AsyncUnaryCallHandler.step, hactions,
            AsyncUnaryCallHandler.CallHandlerAction.isDispatched]
  | accept rpc k id context inline =>
      by_cases hrpc : rpc ∈ s.matched.map (·.rpc)
      · rw [step, if_pos hrpc]
      · have hnone : (s.clients rpc.client).requests.find? (·.1 = rpc.call) = none := by
          rw [List.find?_eq_none]
          intro p hp hcall
          have hzero : p.1 = 0 := by
            simpa [(hclients rpc.client).2.2.2] using List.mem_map_of_mem (f := (·.1)) hp
          rw [hmatched] at hrpc
          obtain ⟨client, call⟩ := rpc
          cases client <;> simp_all
        rw [step, if_neg hrpc, hnone]
        rfl

theorem completes_twoAnswers : ∃ s, (system Bool Unit Nat String String String String).run
    (initial Bool Unit Nat String String String String) twoAnswers = some s ∧
    ((s.clients true).unaryCalls 0).map (·.responsePromise) = some (.value "Y") ∧
    twoAnswers.length ≤ 17 * 2 + 2 + 1 ∧ s.AtRest := by
  obtain ⟨s, hrun, hanswer, hblocked⟩ := twoAnswers_blocked
  obtain ⟨hlength, hrests⟩ := completes twoAnswers s hrun
  exact ⟨s, hrun, hanswer, hlength, hrests hblocked⟩

end UnaryRpc

end EasyGrpc
