import EasyGrpc.Server.AsyncClientStreamCallHandler
import EasyGrpc.Outstanding

/-!
# The lifetime of a stream reader

A reader is held by the request action that allocated it, then by `_streamReaders`, and then it is deleted.
The callback that ends its life reads the request action, which is deleted long before: the queue deletes
it when it has handed the reader over.
-/

namespace EasyGrpc.Server.AsyncClientStreamCallHandler

variable {Request : Type}

def held (h : AsyncClientStreamCallHandler Request) : List Nat :=
  h.actions.filterMap (·.streamReader)

/-- Every reader has one owner or was deleted once, and no callback has read a deleted action. -/
structure ReadersLive (h : AsyncClientStreamCallHandler Request) : Prop where
  undamaged : h.fault = none
  ledger : Ledger (h.held ++ h.streamReaders) h.deletedReaders h.nextReader

def FinishesReader (h : AsyncClientStreamCallHandler Request) (e : Event Request)
    (h' : AsyncClientStreamCallHandler Request) : Prop :=
  ∀ id message reader, e = .asyncNext id false message →
    h.actions.find? (·.id = id) = some ⟨id, .read reader⟩ →
    reader ∉ h'.streamReaders ∧ reader ∈ h'.deletedReaders

def ReadsOn (h : AsyncClientStreamCallHandler Request) (e : Event Request) : Prop :=
  ∀ id ok message, e = .asyncNext id ok message → ∀ a ∈ h.actions.find? (·.id = id),
    a.streamReader = none → ok = true

structure Inv (h : AsyncClientStreamCallHandler Request) : Prop where
  live : h.ReadersLive
  /-- The callback of a reader has captured the action that allocated it. -/
  requesting : ∀ a ∈ h.actions, ∀ reader ∈ a.streamReader, (h.readers reader).onFinished = a.id
  registered : ∀ reader ∈ h.streamReaders, (h.readers reader).onFinished ∈ h.deletedActions
  reading : ∀ a ∈ h.actions, ∀ reader, a.kind = .read reader → reader ∈ h.streamReaders

section Steps

variable {h h' : AsyncClientStreamCallHandler Request} {a : Action} {reader id : Nat}
  {rest : List Action}

theorem Inv.lt_nextReader (hinv : h.Inv) (hmem : reader ∈ h.held ++ h.streamReaders) :
    reader < h.nextReader :=
  hinv.live.ledger.mem_held_or_freed.mpr (.inl hmem)

theorem mem_held (ha : a ∈ h.actions) (hreader : a.streamReader = some reader) : reader ∈ h.held :=
  List.mem_filterMap.mpr ⟨a, ha, hreader⟩

theorem held_perm_cons (hperm : h.actions.Perm (a :: rest)) (ha : a.streamReader = some reader) :
    h.held.Perm (reader :: rest.filterMap (·.streamReader)) := by
  have hmap := hperm.filterMap (·.streamReader)
  rwa [List.filterMap_cons_some ha] at hmap

theorem held_perm (hperm : h.actions.Perm (a :: rest)) (ha : a.streamReader = none) :
    h.held.Perm (rest.filterMap (·.streamReader)) := by
  have hmap := hperm.filterMap (·.streamReader)
  rwa [List.filterMap_cons_none ha] at hmap

/-- A change of a reader that leaves its callback as it is. -/
theorem setReader_onFinished (h : AsyncClientStreamCallHandler Request) (reader : Nat)
    (r : AsyncClientStreamReader Request)
    (hsame : r.onFinished = (h.readers reader).onFinished) (other : Nat) :
    ((h.setReader reader r).readers other).onFinished = (h.readers other).onFinished := by
  change (Function.update h.readers reader r other).onFinished = _
  by_cases hother : other = reader
  · rw [hother, Function.update_self, hsame]
  · rw [Function.update_of_ne hother]

theorem Inv.moveNext (hinv : h.Inv) (haccepted : h.accepted reader = true) :
    (newAction (.read reader) (h.setReader reader (h.readers reader).moveNext)).Inv := by
  have hsame := setReader_onFinished h reader (h.readers reader).moveNext rfl
  have hheld : (newAction (.read reader) (h.setReader reader (h.readers reader).moveNext)).held =
      h.held := by
    simp [held, newAction, setReader, Action.streamReader]
  have hor : ∀ b ∈ (newAction (.read reader) (h.setReader reader (h.readers reader).moveNext)).actions,
      b ∈ h.actions ∨ b = ⟨h.nextAction, .read reader⟩ := by
    intro b hb
    exact (List.mem_append.mp hb).imp_right List.mem_singleton.mp
  have hregistered : reader ∈ h.streamReaders := by
    rw [accepted, decide_eq_true_eq] at haccepted
    obtain ⟨hlt, hheld, hdeleted⟩ := haccepted
    have howner := (hinv.live.ledger.mem_held_or_freed.mp hlt).resolve_right hdeleted
    exact (List.mem_append.mp howner).resolve_left hheld
  refine ⟨⟨hinv.live.undamaged, ?_⟩, fun b hb other hother => ?_, fun other hother => ?_,
    fun b hb other hkind => ?_⟩
  · rw [hheld]
    exact hinv.live.ledger
  · obtain hold | rfl := hor b hb
    · exact (hsame other).trans (hinv.requesting b hold other hother)
    · cases hother
  · exact (hsame other).symm ▸ hinv.registered other hother
  · obtain hold | rfl := hor b hb
    · exact hinv.reading b hold other hkind
    · obtain rfl := ActionKind.read.inj hkind
      exact hregistered

theorem Inv.acceptStream [Inhabited Request] (hinv : h.Inv) (hperm : h.actions.Perm (a :: rest))
    (ha : a.kind = .requestStream reader) :
    Inv { onNewStreamReaderReady reader { h with actions := rest } with
      deletedActions := h.deletedActions ++ [a.id] } := by
  have hreader : a.streamReader = some reader := by rw [Action.streamReader, ha]
  have hmem : a ∈ h.actions := hperm.mem_iff.mpr List.mem_cons_self
  have hsub : ∀ b ∈ rest, b ∈ h.actions := fun b hb => hperm.mem_iff.mpr (List.mem_cons_of_mem a hb)
  have hheld := held_perm_cons hperm hreader
  have hsame : ∀ other, other ∈ h.held ++ h.streamReaders →
      (onNewStreamReaderReady reader { h with actions := rest }).readers other = h.readers other := by
    intro other hother
    exact Function.update_of_ne (Nat.ne_of_lt (hinv.lt_nextReader hother)) _ _
  refine ⟨⟨hinv.live.undamaged, ?_⟩, fun b hb other hother => ?_, fun other hother => ?_,
    fun b hb other hkind => ?_⟩
  · refine hinv.live.ledger.alloc.of_perm ?_
    set R := rest.filterMap (·.streamReader)
    calc
      (h.held ++ h.streamReaders ++ [h.nextReader]).Perm
          (reader :: R ++ h.streamReaders ++ [h.nextReader]) :=
        (hheld.append_right _).append_right _
      List.Perm _ (R ++ h.streamReaders ++ [h.nextReader] ++ [reader]) :=
        (List.perm_append_singleton _ _).symm
      _ = R ++ (h.streamReaders ++ ([h.nextReader] ++ [reader])) := by simp
      List.Perm _ (R ++ ([h.nextReader] ++ (h.streamReaders ++ [reader]))) :=
        (List.perm_append_comm_assoc _ _ _).append_left R
      _ = R ++ [h.nextReader] ++ (h.streamReaders ++ [reader]) := by simp
      _ = held (onNewStreamReaderReady reader { h with actions := rest }) ++
          (h.streamReaders ++ [reader]) := by
        simp [held, onNewStreamReaderReady, newRequestStream, newAction, setReader,
          Action.streamReader, R]
  · cases List.mem_append.mp hb with
    | inl hold =>
        have hlive := List.mem_append_left h.streamReaders (mem_held (hsub b hold) hother)
        exact (congrArg _ (hsame other hlive)).trans (hinv.requesting b (hsub b hold) other hother)
    | inr hnew =>
        obtain rfl := List.mem_singleton.mp hnew
        obtain rfl := Option.some.inj hother
        exact congrArg _ (Function.update_self _ _ _)
  · cases List.mem_append.mp hother with
    | inl hold =>
        have hcaptured := hinv.registered other hold
        rw [← hsame other (List.mem_append_right _ hold)] at hcaptured
        exact List.mem_append_left _ hcaptured
    | inr hnew =>
        obtain rfl := List.mem_singleton.mp hnew
        have hcaptured := hinv.requesting a hmem other hreader
        rw [← hsame other (List.mem_append_left _ (mem_held hmem hreader))] at hcaptured
        exact hcaptured ▸ List.mem_append_right _ List.mem_cons_self
  · cases List.mem_append.mp hb with
    | inl hold => exact List.mem_append_left _ (hinv.reading b (hsub b hold) other hkind)
    | inr hnew =>
        obtain rfl := List.mem_singleton.mp hnew
        cases hkind

theorem Inv.refuseStream (hinv : h.Inv) (hperm : h.actions.Perm (a :: rest))
    (ha : a.kind = .requestStream reader) :
    Inv { deleteReader reader { h with actions := rest } with
      deletedActions := h.deletedActions ++ [a.id] } := by
  have hreader : a.streamReader = some reader := by rw [Action.streamReader, ha]
  have hsub : ∀ b ∈ rest, b ∈ h.actions := fun b hb => hperm.mem_iff.mpr (List.mem_cons_of_mem a hb)
  have hheld := (held_perm_cons hperm hreader).append_right h.streamReaders
  refine ⟨⟨hinv.live.undamaged, (hinv.live.ledger.of_perm hheld).free⟩,
    fun b hb => hinv.requesting b (hsub b hb), fun other hother => ?_,
    fun b hb => hinv.reading b (hsub b hb)⟩
  exact List.mem_append_left _ (hinv.registered other hother)

theorem Inv.readOn (hinv : h.Inv) (hperm : h.actions.Perm (a :: rest)) (ha : a.kind = .read reader)
    (message : Request) :
    Inv { setReader reader ((h.readers reader).finalizeRead true message) { h with actions := rest } with
      deletedActions := h.deletedActions ++ [a.id] } := by
  have hnone : a.streamReader = none := by rw [Action.streamReader, ha]
  have hsub : ∀ b ∈ rest, b ∈ h.actions := fun b hb => hperm.mem_iff.mpr (List.mem_cons_of_mem a hb)
  have hsame := setReader_onFinished h reader
    ((h.readers reader).finalizeRead true message) rfl
  have hheld := (held_perm hperm hnone).append_right h.streamReaders
  refine ⟨⟨hinv.live.undamaged, hinv.live.ledger.of_perm hheld⟩, fun b hb other hother => ?_,
    fun other hother => ?_, fun b hb => hinv.reading b (hsub b hb)⟩
  · exact (hsame other).trans (hinv.requesting b (hsub b hb) other hother)
  · exact (hsame other).symm ▸ List.mem_append_left _ (hinv.registered other hother)

end Steps

section Runs

variable [Inhabited Request] {h h' : AsyncClientStreamCallHandler Request} {a : Action}
  {reader id : Nat} {ok : Bool} {message : Request} {e : Event Request}

inductive Completion (h : AsyncClientStreamCallHandler Request) (message : Request) (a : Action)
    (rest : List Action) : Bool → AsyncClientStreamCallHandler Request → Prop where
  | accept {reader : Nat} (ha : a.kind = .requestStream reader) :
      Completion h message a rest true
        { onNewStreamReaderReady reader { h with actions := rest } with
          deletedActions := h.deletedActions ++ [a.id] }
  | refuse {reader : Nat} (ha : a.kind = .requestStream reader) :
      Completion h message a rest false
        { deleteReader reader { h with actions := rest } with
          deletedActions := h.deletedActions ++ [a.id] }
  | read {reader : Nat} (ha : a.kind = .read reader) :
      Completion h message a rest true
        { setReader reader ((h.readers reader).finalizeRead true message) { h with actions := rest } with
          deletedActions := h.deletedActions ++ [a.id] }
  | finish {reader : Nat} {h' : AsyncClientStreamCallHandler Request} (ha : a.kind = .read reader)
      (hfault : (h.readers reader).onFinished ∈ h.deletedActions → h'.fault = some reader) :
      Completion h message a rest false h'

theorem step_asyncNext (hstep : h.step (.asyncNext id ok message) = some h') :
    ∃ a, h.actions.find? (·.id = id) = some a ∧
      Completion h message a (h.actions.eraseP (·.id = id)) ok h' := by
  simp only [step] at hstep
  split at hstep
  · obtain ⟨a, ha, rfl⟩ := Option.map_eq_some_iff.mp hstep
    refine ⟨a, ha, ?_⟩
    cases hkind : a.kind with
    | requestStream reader =>
        cases ok with
        | true =>
            simp only [finalizeResult, hkind, if_true]
            exact .accept hkind
        | false =>
            simp only [finalizeResult, hkind, Bool.false_eq_true, if_false]
            exact .refuse hkind
    | read reader =>
        cases ok with
        | true =>
            simp only [finalizeResult, hkind, if_true]
            exact .read hkind
        | false =>
            simp only [finalizeResult, hkind, Bool.false_eq_true, if_false]
            refine .finish hkind fun hdeleted => ?_
            have hcaptured := setReader_onFinished h reader
              ((h.readers reader).finalizeRead false message) rfl reader
            rw [← hcaptured] at hdeleted
            exact congrArg fault (if_pos hdeleted)
  · cases hstep

theorem readersLive_step (hinv : h.Inv) (hstep : h.step e = some h') :
    (h'.ReadersLive ∧ FinishesReader h e h' ↔ ReadsOn h e) ∧ (ReadsOn h e → h'.Inv) := by
  have hkept : h'.Inv → FinishesReader h e h' → ReadsOn h e →
      (h'.ReadersLive ∧ FinishesReader h e h' ↔ ReadsOn h e) ∧ (ReadsOn h e → h'.Inv) :=
    fun hinv' hfinishes hreads => ⟨iff_of_true ⟨hinv'.live, hfinishes⟩ hreads, fun _ => hinv'⟩
  cases e with
  | moveNext reader =>
      simp only [step] at hstep
      split at hstep
      · rename_i hguard
        obtain rfl := Option.some.inj hstep
        exact hkept (hinv.moveNext hguard.2.1) (fun _ _ _ he => by cases he) fun _ _ _ he => by cases he
      · cases hstep
  | asyncNext id ok message =>
      obtain ⟨a, ha, hcompletion⟩ := step_asyncNext hstep
      have hperm := perm_cons_eraseP_of_find? ha
      have hrequest : ∀ reader, a.kind = .requestStream reader →
          FinishesReader h (.asyncNext id ok message) h' ∧ ReadsOn h (.asyncNext id ok message) := by
        refine fun reader hkind => ⟨fun id' message' reader' he hread => ?_, fun id' ok' _ he b hb hnone => ?_⟩
        · cases he
          obtain rfl := Option.some.inj (ha.symm.trans hread)
          cases hkind
        · cases he
          obtain rfl := Option.some.inj (ha.symm.trans hb)
          rw [Action.streamReader, hkind] at hnone
          cases hnone
      cases hcompletion with
      | accept hkind =>
          exact hkept (hinv.acceptStream hperm hkind) (hrequest _ hkind).1 (hrequest _ hkind).2
      | refuse hkind =>
          exact hkept (hinv.refuseStream hperm hkind) (hrequest _ hkind).1 (hrequest _ hkind).2
      | read hkind =>
          refine hkept (hinv.readOn hperm hkind message) (fun _ _ _ he => by cases he) ?_
          intro _ _ _ he _ _ _
          cases he
          rfl
      | @finish reader _ hkind hfault =>
          -- the reader is registered, so its request action is deleted
          have hmem := hinv.reading a (List.mem_of_find?_eq_some ha) reader hkind
          have hdamaged := hfault (hinv.registered reader hmem)
          have hnot : ¬ ReadsOn h (.asyncNext id false message) := by
            intro hreads
            have hnone : a.streamReader = none := by rw [Action.streamReader, hkind]
            cases hreads id false message rfl a ha hnone
          refine ⟨iff_of_false (fun hlive => ?_) hnot, fun hreads => absurd hreads hnot⟩
          have hundamaged := hlive.1.undamaged
          rw [hdamaged] at hundamaged
          cases hundamaged

theorem initial_inv : Inv (initial Request) := by
  refine ⟨⟨rfl, Ledger.empty.alloc⟩, fun a ha reader hreader => ?_, nofun, fun a ha reader hkind => ?_⟩
  · obtain rfl := List.mem_singleton.mp ha
    obtain rfl := Option.some.inj hreader
    rfl
  · obtain rfl := List.mem_singleton.mp ha
    cases hkind

/-- **The end of a stream.** Along a run every reader keeps one owner until it is deleted, and every
callback runs on live objects and deletes its reader, exactly when no Read comes back with `ok` false. -/
theorem readersLive_iff_readsOn (Request : Type) [Inhabited Request] (es : List (Event Request)) :
    (system Request).AllSteps (fun h e h' => h'.ReadersLive ∧ FinishesReader h e h')
        (initial Request) es ↔
      (system Request).AllSteps (fun h e _ => ReadsOn h e) (initial Request) es := by
  refine TransitionSystem.allSteps_congr (I := Inv) ?_ ?_ initial_inv es
  · exact fun h e h' hinv hstep => (readersLive_step hinv hstep).1
  · exact fun h e h' hinv hstep hlive =>
      (readersLive_step hinv hstep).2 ((readersLive_step hinv hstep).1.mp hlive)

def oneMessage : List (Event String) :=
  [.asyncNext 0 true "", .moveNext 0, .asyncNext 2 true "message", .moveNext 0, .asyncNext 3 false ""]

theorem oneMessage_reads_deleted : ∃ h, (system String).run (initial String) oneMessage = some h ∧
    h.deletedActions = [0, 2, 3] ∧ (h.readers 0).onFinished = 0 ∧ h.fault = some 0 ∧
    h.deletedReaders = [] ∧ ¬ h.ReadersLive := by
  refine ⟨_, rfl, rfl, rfl, rfl, rfl, fun hlive => ?_⟩
  cases hlive.undamaged

end Runs

end EasyGrpc.Server.AsyncClientStreamCallHandler
