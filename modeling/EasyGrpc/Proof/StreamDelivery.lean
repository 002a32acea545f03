import EasyGrpc.Proof.StreamProgress

/-!
# What a client stream delivers

The server's user reads messages that were handed over, each once and in the order of the writes. A
caller that waits for its futures submits a message only when those before it were handed over or
rejected, and the drain loop rejects nothing but what follows a last message. So with no message but the
last one flagged, nothing is skipped: what is read is the beginning of what the client's user means to
write, also in a call that dies.
-/

namespace EasyGrpc

open Client Server

section Lists

variable {α β : Type}

/-- A subsequence of an ordered list that has everything before what it has is a beginning of it. -/
theorem prefix_of_sublist_of_closed {r : α → α → Prop} (hirrefl : ∀ a, ¬ r a a) {l m : List α}
    (hm : m.Pairwise r) (hl : l.Sublist m) (hclosed : ∀ b ∈ l, ∀ a ∈ m, r a b → a ∈ l) : l <+: m := by
  induction hl with
  | slnil => exact List.prefix_refl []
  | @cons l m x hl ih =>
      -- the head is before everything, and it is missing
      obtain ⟨hx, -⟩ := List.pairwise_cons.mp hm
      cases l with
      | nil => exact List.nil_prefix
      | cons b l =>
          have hb : b ∈ m := hl.subset List.mem_cons_self
          have hxl := hclosed b List.mem_cons_self x List.mem_cons_self (hx b hb)
          exact absurd (hx x (hl.subset hxl)) (hirrefl x)
  | @cons_cons l m x hl ih =>
      obtain ⟨hx, hm⟩ := List.pairwise_cons.mp hm
      refine (List.prefix_cons_inj x).mpr (ih hm fun b hb a ha hab => ?_)
      have hmem := hclosed b (List.mem_cons_of_mem x hb) a (List.mem_cons_of_mem x ha) hab
      refine (List.mem_cons.mp hmem).resolve_left ?_
      rintro rfl
      exact hirrefl a (hx a ha)

/-- What is before something else in an ordered list is not the last of its image. -/
theorem mem_dropLast_filterMap {r : α → α → Prop} {f : α → Option β} {l : List α} (rest : List β)
    {a b : α} {x y : β} (hasymm : ∀ a b, r a b → ¬ r b a)
    (hl : l.Pairwise r) (hb : b ∈ l) (ha : a ∈ l) (hba : r b a) (hx : f b = some x) (hy : f a = some y) :
    x ∈ (l.filterMap f ++ rest).dropLast := by
  obtain ⟨before, after, rfl⟩ := List.append_of_mem hb
  have hafter : a ∈ after := by
    rw [List.mem_append, List.mem_cons] at ha
    obtain hbefore | rfl | hafter := ha
    · have hab := (List.pairwise_append.mp hl).2.2 a hbefore b List.mem_cons_self
      exact absurd hba (hasymm a b hab)
    · exact absurd hba (hasymm a a hba)
    · exact hafter
  have hne : after.filterMap f ++ rest ≠ [] :=
    List.append_ne_nil_of_left_ne_nil (List.ne_nil_of_mem (List.mem_filterMap.mpr ⟨a, hafter, hy⟩)) rest
  rw [List.filterMap_append, List.filterMap_cons_some hx, List.append_assoc, List.cons_append,
    List.dropLast_append_of_ne_nil (List.cons_ne_nil _ _), List.dropLast_cons_of_ne_nil hne]
  exact List.mem_append_right _ List.mem_cons_self

end Lists

namespace Client.StreamAction

variable {Request : Type} {a : StreamAction Request}

def payload (a : StreamAction Request) : Option (Request × WriteOptions) :=
  match a.kind with
  | .write message options => some (message, options)
  | .finish => none

theorem payload_of_isWrite (h : a.isWrite = true) :
    ∃ m, a.payload = some m ∧ m.2.isLastMessage = a.isLastMessage := by
  cases hkind : a.kind with
  | write message options => exact ⟨(message, options), by simp [payload, isLastMessage, hkind]⟩
  | finish => simp [isWrite, hkind] at h

theorem isWrite_of_isLastMessage (h : a.isLastMessage = true) : a.isWrite = true := by
  cases hkind : a.kind with
  | write message options => simp [isWrite, hkind]
  | finish => simp [isLastMessage, hkind] at h

end Client.StreamAction

namespace Client.AsyncClientStreamWriter

variable {Request Response : Type} {w w' : AsyncClientStreamWriter Unit Request Response}
  {e : Event Unit Request Response} {a b : StreamAction Request}

/-- The writes with a ready future were handed over, or a last message was handed over before them. -/
def HandedOrLate (w : AsyncClientStreamWriter Unit Request Response) : Prop :=
  ∀ a ∈ w.pushed, a.isWrite = true → (w.promises a.id).Fulfilled →
    a ∈ w.handed ∨ ∃ b ∈ w.handed, b.isLastMessage = true ∧ b.id < a.id

theorem Inv.pushed_increasing (h : Inv w) : w.pushed.Pairwise fun a b => a.id < b.id := by
  rw [← List.pairwise_map, h.ids]
  exact List.pairwise_lt_range

theorem Inv.id_lt_of_queued (h : Inv w) (ha : a ∈ w.handed) (hb : b ∈ w.actions) : a.id < b.id := by
  have hincreasing := h.pushed_increasing
  rw [h.order] at hincreasing
  exact (List.pairwise_append.mp hincreasing).2.2 a (h.handed_sublist.subset ha) b hb

theorem mem_pushed_move (hmove : Move w e w') (ha : a ∈ w'.pushed) : a ∈ w.pushed ∨ a ∈ w'.actions := by
  cases hmove with
  | write _ | finish _ | finalizeWriteFailed _ _ =>
      exact (List.mem_append.mp ha).imp_right fun hnew => List.mem_append_right _ hnew
  | tryPerformAction _ _ | finishPushed _ => exact .inl (w.tryPerformAction_pushed ▸ ha)
  | @finalizeWriteOk b _ _ => exact .inl (drain_pushed b.isLastMessage w ▸ ha)
  | asyncNext _ _ | setResult _ | stateReady _ | finalizeFinish _ _ | delete _ => exact .inl ha

/-- The drain loop fulfils nothing unless it finds a write after a last message. -/
theorem SingleUser.drain_promises (h : w.SingleUser) {last : StreamAction Request}
    (hpc : w.completion = .stateReady last true) (hpending : w.promises a.id = .pending)
    (hfulfilled : ((drain last.isLastMessage false w.actions w).promises a.id).Fulfilled) :
    last.isLastMessage = true ∧ ∃ b ∈ w.actions, b.isWrite = true ∧ b.id = a.id := by
  match hq : w.actions, h.length_actions_le hpc with
  | [], _ =>
      rw [hq] at hfulfilled
      exact absurd hpending hfulfilled
  | [b], _ =>
      rw [hq] at hfulfilled
      cases hkind : b.kind with
      | finish =>
          refine absurd ?_ hfulfilled
          simpa [drain, hkind, popAction, perform, assertThat] using hpending
      | write message options =>
          cases hlast : last.isLastMessage with
          | false =>
              refine absurd ?_ hfulfilled
              simpa [drain, hkind, hlast, popAction, perform, assertThat] using hpending
          | true =>
              refine ⟨rfl, b, List.mem_cons_self, by simp [StreamAction.isWrite, hkind], ?_⟩
              by_contra hne
              refine absurd ?_ hfulfilled
              simpa [drain, hkind, hlast, popAction, setException, Function.update_of_ne (Ne.symm hne)]
                using hpending

theorem SingleUser.handedOrLate_of_pending (h : w.SingleUser) (hmove : Move w e w') (ha : a ∈ w.pushed)
    (hpending : w.promises a.id = .pending) (hfulfilled : (w'.promises a.id).Fulfilled) :
    a ∈ w'.handed ∨ ∃ b ∈ w'.handed, b.isLastMessage = true ∧ b.id < a.id := by
  have hsub := handed_subset_move hmove
  have hchanged : w'.promises a.id ≠ w.promises a.id := fun heq => hfulfilled (heq.trans hpending)
  cases hmove with
  | write _ | finish _ | asyncNext _ _ | stateReady _ | finalizeWriteFailed _ _ | finalizeFinish _ _
  | delete _ => exact absurd rfl hchanged
  | tryPerformAction _ _ | finishPushed _ =>
      exact absurd (congrFun (tryPerformAction_promises_of_unfinished h.unfinished) a.id) hchanged
  | @setResult b ok hpc =>
      have hhanded : b ∈ w.handed := by
        apply h.fate.mem_handed_of_completion
        rw [hpc]
        exact List.mem_cons_self
      by_cases hid : a.id = b.id
      · have hab : a = b := h.inv.eq_of_id_eq ha (h.inv.mem_pushed_of_handed hhanded) hid
        exact .inl (hab ▸ hhanded)
      · refine absurd ?_ hchanged
        rw [h.inv.setResult_promise hpc, Function.update_of_ne hid]
  | @finalizeWriteOk b hpc _ =>
      obtain ⟨hlast, c, hc, -, hid⟩ := h.drain_promises hpc hpending hfulfilled
      have hb : b ∈ w.handed := by
        apply h.fate.mem_handed_of_completion
        rw [hpc]
        exact List.mem_cons_self
      exact .inr ⟨b, hsub hb, hlast, hid ▸ h.inv.id_lt_of_queued hb hc⟩

theorem SingleUser.handedOrLate_move (h : w.SingleUser) (hlate : w.HandedOrLate) (hmove : Move w e w') :
    w'.HandedOrLate := by
  intro a ha hwrite hfulfilled
  obtain hold | hnew := mem_pushed_move hmove ha
  · by_cases hpending : w.promises a.id = .pending
    · exact h.handedOrLate_of_pending hmove hold hpending hfulfilled
    · have hsub := handed_subset_move hmove
      obtain hhanded | ⟨b, hb, hlast⟩ := hlate a hold hwrite hpending
      · exact .inl (hsub hhanded)
      · exact .inr ⟨b, hsub hb, hlast⟩
  · -- the futures of queued actions are not ready
    exact absurd ((h.inv.move hmove).pending_queued a hnew) hfulfilled

theorem handed_prefix_move (hmove : Move w e w') : w.handed <+: w'.handed := by
  cases hmove with
  | tryPerformAction _ _ | finishPushed _ =>
      obtain ⟨l, hover, -⟩ := w.tryPerformAction_handedOver
      exact ⟨l, hover.handed.symm⟩
  | @finalizeWriteOk b _ _ => exact ⟨_, (drain_handedOver b.isLastMessage w.actions w).handed.symm⟩
  | write _ | finish _ | asyncNext _ _ | setResult _ | stateReady _ | finalizeWriteFailed _ _
  | finalizeFinish _ _ | delete _ => exact List.prefix_refl _

end Client.AsyncClientStreamWriter

namespace Client.AwaitingCaller

open AsyncClientStreamWriter

variable {Request Response : Type} {s s' : AwaitingCaller Request Response}
  {e : AsyncClientStreamWriter.Event Unit Request Response} {a : StreamAction Request}

structure Delivers (s : AwaitingCaller Request Response) : Prop where
  inv : s.Inv
  late : s.writer.HandedOrLate
  writes : s.writer.pushed.filter (·.isWrite) = s.submitted.filter (·.isWrite)

/-- The polling thread pushes nothing but a Finish. -/
theorem pushed_filter_move {w : AsyncClientStreamWriter Unit Request Response}
    (hmove : Move s.writer e w) : w.pushed.filter (·.isWrite) =
      s.writer.pushed.filter (·.isWrite) ++ (s.submits e).toList.filter (·.isWrite) := by
  cases hmove with
  | write _ | finish _ => exact List.filter_append _ _
  | tryPerformAction _ _ | finishPushed _ =>
      exact (congrArg _ s.writer.tryPerformAction_pushed).trans (List.append_nil _).symm
  | @finalizeWriteOk b _ _ =>
      exact (congrArg _ (drain_pushed b.isLastMessage s.writer)).trans (List.append_nil _).symm
  | finalizeWriteFailed _ _ => exact List.filter_append _ _
  | asyncNext _ _ | setResult _ | stateReady _ | finalizeFinish _ _ | delete _ =>
      exact (List.append_nil _).symm

theorem Delivers.step (h : s.Delivers) (hstep : s.step e = some s') : s'.Delivers := by
  obtain ⟨hmove, hsubmitted, -⟩ := step_cases hstep
  refine ⟨h.inv.step hstep, h.inv.writer.handedOrLate_move h.late hmove, ?_⟩
  rw [pushed_filter_move hmove, h.writes, hsubmitted, List.filter_append]

theorem delivers_initial (response : Response) :
    Delivers { writer := initial Unit Request response } where
  inv := ⟨singleUser_initial response, List.forall_mem_nil _, List.forall_mem_nil _⟩
  late := List.forall_mem_nil _
  writes := rfl

theorem filterMap_payload_filter (l : List (StreamAction Request)) :
    (l.filter (·.isWrite)).filterMap StreamAction.payload = l.filterMap StreamAction.payload := by
  rw [List.filterMap_filter]
  congr 1
  funext a
  cases hkind : a.kind <;> simp [StreamAction.isWrite, StreamAction.payload, hkind]

theorem Delivers.filter_handed_sublist (h : s.Delivers) :
    (s.writer.handed.filter (·.isWrite)).Sublist (s.submitted.filter (·.isWrite)) := by
  have hpushed : s.writer.handed.Sublist s.writer.pushed := by
    rw [h.inv.writer.inv.order]
    exact h.inv.writer.inv.handed_sublist.trans (List.sublist_append_left _ _)
  exact h.writes ▸ hpushed.filter _

theorem Delivers.handed_sublist (h : s.Delivers) :
    (s.writer.handed.filterMap StreamAction.payload).Sublist
      (s.submitted.filterMap StreamAction.payload) := by
  rw [← filterMap_payload_filter s.writer.handed, ← filterMap_payload_filter s.submitted]
  exact h.filter_handed_sublist.filterMap _

/-- When the caller wrote `b` it had waited for `a`, and with no message flagged before that `a` was
handed over. -/
theorem Delivers.handed_prefix (h : s.Delivers) {todo : List (Request × WriteOptions)}
    (hlast : ∀ m ∈ (s.submitted.filterMap StreamAction.payload ++ todo).dropLast,
      m.2.isLastMessage = false) :
    s.writer.handed.filterMap StreamAction.payload <+: s.submitted.filterMap StreamAction.payload := by
  have hincreasing := h.inv.writer.inv.pushed_increasing.filter (·.isWrite)
  rw [h.writes] at hincreasing
  rw [← filterMap_payload_filter s.writer.handed, ← filterMap_payload_filter s.submitted]
  rw [← filterMap_payload_filter s.submitted] at hlast
  refine List.IsPrefix.filterMap _ ?_
  refine prefix_of_sublist_of_closed (fun a => Nat.lt_irrefl a.id) hincreasing h.filter_handed_sublist ?_
  intro b hb a ha hab
  obtain ⟨hsubmitted, hwrite⟩ := List.mem_filter.mp ha
  have hbsubmitted := List.mem_of_mem_filter (h.filter_handed_sublist.subset hb)
  have hfulfilled := h.inv.awaited b hbsubmitted a hsubmitted hab
  have hpushed := h.inv.pushed a hsubmitted
  refine List.mem_filter.mpr ⟨?_, hwrite⟩
  refine (h.late a hpushed hwrite hfulfilled).resolve_right ?_
  rintro ⟨c, hc, hclast, hca⟩
  have hcwrite := StreamAction.isWrite_of_isLastMessage hclast
  have hcsubmitted := h.filter_handed_sublist.subset (List.mem_filter.mpr ⟨hc, hcwrite⟩)
  obtain ⟨m, hm, hmlast⟩ := StreamAction.payload_of_isWrite hcwrite
  obtain ⟨n, hn, -⟩ := StreamAction.payload_of_isWrite hwrite
  have hbefore := mem_dropLast_filterMap todo (fun _ _ => Nat.lt_asymm) hincreasing hcsubmitted ha hca
    hm hn
  have hearly := hlast m hbefore
  rw [hmlast, hclast] at hearly
  cases hearly

end Client.AwaitingCaller

namespace Client.StreamUpload

open AsyncClientStreamWriter AwaitingCaller

variable {Request Response : Type} {s t : StreamUpload Request Response} {e : Event Response}
  {messages : List (Request × WriteOptions)}

theorem written_eq (s : StreamUpload Request Response) :
    s.written = (s.caller.writer.handed.filterMap StreamAction.payload).map Prod.fst := by
  rw [written, List.map_filterMap]
  congr 1
  funext a
  cases hkind : a.kind <;> simp [StreamAction.payload, hkind]

theorem written_prefix_step (h : s.step e = some t) : s.written <+: t.written := by
  rw [written_eq, written_eq]
  obtain ⟨hcaller, -⟩ | ⟨e', -, hcaller⟩ := (move_of_step h).caller
  · exact hcaller ▸ List.prefix_refl _
  · have hmove := (AwaitingCaller.step_cases hcaller).1
    exact ((handed_prefix_move hmove).filterMap _).map _

structure Writes (messages : List (Request × WriteOptions)) (s : StreamUpload Request Response) :
    Prop where
  caller : s.caller.Delivers
  messages : s.caller.submitted.filterMap StreamAction.payload ++ s.todo = messages

theorem Writes.step (h : s.Writes messages) (hstep : s.step e = some t) : t.Writes messages := by
  obtain ⟨hcaller, htodo⟩ | ⟨e', hevent, hcaller⟩ := (move_of_step hstep).caller
  · exact ⟨hcaller ▸ h.caller, hcaller ▸ htodo ▸ h.messages⟩
  · refine ⟨h.caller.step hcaller, ?_⟩
    rw [(AwaitingCaller.step_cases hcaller).2.1, List.filterMap_append, List.append_assoc, ← h.messages]
    congr 1
    generalize t.todo = todo at hevent ⊢
    cases hevent with
    | write htodo =>
        rw [htodo]
        rfl
    | finish _ _ | tryPerformAction | asyncNext _ | completion => rfl

theorem writes_initial (response : Response) (messages : List (Request × WriteOptions)) :
    (initial response messages).Writes messages where
  caller := delivers_initial response
  messages := rfl

theorem Writes.written_sublist (h : s.Writes messages) :
    s.written.Sublist (messages.map Prod.fst) := by
  rw [written_eq, ← h.messages]
  exact (h.caller.handed_sublist.trans (List.sublist_append_left _ _)).map _

theorem Writes.written_prefix (h : s.Writes messages)
    (hlast : ∀ m ∈ messages.dropLast, m.2.isLastMessage = false) :
    s.written <+: messages.map Prod.fst := by
  rw [written_eq, ← h.messages]
  rw [← h.messages] at hlast
  exact ((h.caller.handed_prefix hlast).trans (List.prefix_append _ _)).map _

def threeMessages : List (String × WriteOptions) :=
  [("a", {}), ("b", {}), ("c", { isLastMessage := true })]

end Client.StreamUpload

namespace StreamExchange

open StreamUpload

variable {Request Response : Type} {s t : StreamExchange Request Response} {e : Event Response}
  {messages : List (Request × WriteOptions)} {log : List Request}

/-- What the server's user finds in `current` after a `moveNext` that yielded true. -/
def delivery (s : StreamExchange Request Response) (e : Event Response) : List Request :=
  match e with
  | .read true => ((s.step e).map (·.reader.current)).toList
  | _ => []

/-- A step delivers the next message that was written, or none. -/
theorem delivery_cases (h : s.step e = some t) :
    (s.delivery e = [] ∧ t.received = s.received) ∨
    ∃ message, s.written[s.received]? = some message ∧ s.delivery e = [message] ∧
      t.received = s.received + 1 ∧ t.written = s.written := by
  cases move_of_step h with
  | @readMessage message hpending hmessage =>
      refine .inr ⟨message, hmessage, ?_, rfl, rfl⟩
      rw [delivery, h]
      rfl
  | upload hread _ =>
      refine .inl ⟨?_, rfl⟩
      unfold delivery
      split
      · exact absurd rfl (hread true)
      · rfl
  | moveNext _ | readEnd _ _ | answer _ _ => exact .inl ⟨rfl, rfl⟩

structure Delivering (messages : List (Request × WriteOptions)) (s : StreamExchange Request Response)
    (log : List Request) : Prop where
  writes : s.Writes messages
  received : s.received ≤ s.written.length
  log : log = s.written.take s.received

theorem upload_step_or_same (h : s.step e = some t) :
    (t.caller = s.caller ∧ t.todo = s.todo) ∨
      ∃ e', s.toStreamUpload.step e' = some t.toStreamUpload := by
  cases move_of_step h with
  | upload _ hupload => exact .inr ⟨_, hupload⟩
  | moveNext _ | readMessage _ _ | readEnd _ _ | answer _ _ => exact .inl ⟨rfl, rfl⟩

theorem Delivering.step (h : s.Delivering messages log) (hstep : s.step e = some t) :
    t.Delivering messages (log ++ s.delivery e) := by
  have hupload : t.Writes messages ∧ s.written <+: t.written := by
    obtain ⟨hcaller, htodo⟩ | ⟨e', hupload⟩ := upload_step_or_same hstep
    · have hsame : t.written = s.written := by rw [written_eq, written_eq, hcaller]
      refine ⟨⟨hcaller ▸ h.writes.caller, hcaller ▸ htodo ▸ h.writes.messages⟩, ?_⟩
      exact hsame ▸ List.prefix_refl _
    · exact ⟨h.writes.step hupload, written_prefix_step hupload⟩
  obtain ⟨hwrites, hwritten⟩ := hupload
  have hlength := hwritten.length_le
  have hreceived := h.received
  refine ⟨hwrites, ?_, ?_⟩
  · obtain ⟨-, hsame⟩ | ⟨message, hmessage, -, hnext, -⟩ := delivery_cases hstep
    · omega
    · obtain ⟨hlt, -⟩ := List.getElem?_eq_some_iff.mp hmessage
      omega
  · obtain ⟨hnone, hsame⟩ | ⟨message, hmessage, hone, hnext, hsame⟩ := delivery_cases hstep
    · obtain ⟨more, hmore⟩ := hwritten
      rw [hnone, List.append_nil, hsame, h.log, ← hmore, List.take_append_of_le_length hreceived]
    · rw [hone, hnext, h.log, hsame, List.take_add_one, hmessage]
      rfl

theorem reachable_initial (request : Request) (response : Response)
    (messages : List (Request × WriteOptions)) :
    ((system request response messages).logged delivery).Reachable
      (initial request response messages, []) := .init ⟨rfl, rfl⟩

theorem delivering_of_reachable {request : Request} {response : Response}
    (hs : ((system request response messages).logged delivery).Reachable (s, log)) :
    s.Delivering messages log := by
  refine hs.invariant (I := fun p => p.1.Delivering messages p.2) ?_ ?_
  · rintro ⟨s, log⟩ ⟨rfl, rfl⟩
    exact ⟨writes_initial response messages, Nat.le_refl 0, rfl⟩
  · rintro ⟨s, log⟩ e ⟨t, log'⟩ h - hstep
    obtain ⟨hst, rfl⟩ := TransitionSystem.logged_step_eq_some_iff.mp hstep
    exact h.step hst

def cutOff : List (Event String) :=
  [.write, .tryPerformAction, .asyncNext 0 true .OK none, .completion, .completion, .completion,
    .completion, .moveNext, .read true, .write, .tryPerformAction, .die, .asyncNext 1 false .OK none,
    .completion, .write, .completion, .completion, .tryPerformAction, .completion, .completion,
    .moveNext, .read true, .moveNext, .read false]

end StreamExchange

end EasyGrpc
