import EasyGrpc.Proof.CallHistory
import EasyGrpc.Proof.HandlerLifetime
import EasyGrpc.Proof.ReaderLifetime

/-!
# The pipelines of a server

Each handler of a server is a system of its own, and what it keeps it keeps beside the others, whatever
the registrations and `stop` do. A stream handler keeps one request open as the unary handler does. Its
readers have one Read under way each, while `moveNext` is awaited.
-/

namespace EasyGrpc.Server

namespace AsyncClientStreamCallHandler

variable {Request : Type}

def reads (h : AsyncClientStreamCallHandler Request) (reader : Nat) : Nat :=
  h.actions.countP (·.kind = .read reader)

def awaitedReads (r : AsyncClientStreamReader Request) : Nat := if r.moved = some .pending then 1 else 0

/-- What holds between completions of the actions, of the requests and of the Reads. -/
structure Pipeline (h : AsyncClientStreamCallHandler Request) : Prop where
  actions : Ledger (h.actions.map (·.id)) h.deletedActions h.nextAction
  /-- A request is open, or one was refused, its reader deleted, and none is open. -/
  listening : h.held.length + h.deletedReaders.length = 1
  reading : ∀ reader, h.reads reader = awaitedReads (h.readers reader)

section Steps

variable {h h' : AsyncClientStreamCallHandler Request} {a : Action} {reader : Nat} {rest : List Action}

/-- Every stream that was accepted has its reader registered. -/
theorem Pipeline.nextReader_eq (hp : h.Pipeline) (hinv : h.Inv) :
    h.nextReader = h.streamReaders.length + 1 := by
  have hbalance := hinv.live.ledger.balance
  rw [List.length_append] at hbalance
  have hlistening := hp.listening
  omega

theorem awaitedReads_of_awaited {r : AsyncClientStreamReader Request} (h : r.awaited = true) :
    awaitedReads r = 0 := by
  refine if_neg fun hpending => ?_
  rw [AsyncClientStreamReader.awaited, hpending] at h
  cases h

/-- No Read is under way for a reader that gRPC has not accepted. -/
theorem Inv.reads_eq_zero (hinv : h.Inv) (hreader : reader ∉ h.streamReaders) : h.reads reader = 0 := by
  refine List.countP_eq_zero.mpr fun b hb hkind => hreader ?_
  exact hinv.reading b hb reader (of_decide_eq_true hkind)

theorem reads_perm (hperm : h.actions.Perm (a :: rest)) (other : Nat) :
    h.reads other = rest.countP (·.kind = .read other) + if a.kind = .read other then 1 else 0 := by
  rw [reads, hperm.countP_eq, List.countP_cons]
  simp only [decide_eq_true_eq]

theorem Pipeline.moveNext (hp : h.Pipeline) (hawaited : (h.readers reader).awaited = true) :
    Pipeline (newAction (.read reader) (h.setReader reader (h.readers reader).moveNext)) where
  actions := by
    have halloc := hp.actions.alloc
    simpa [newAction, setReader] using halloc
  listening := by
    have hlistening := hp.listening
    simpa [held, newAction, setReader, Action.streamReader] using hlistening
  reading := by
    intro other
    have hone : reads (newAction (.read reader) (h.setReader reader (h.readers reader).moveNext)) other =
        h.reads other + if reader = other then 1 else 0 := by
      simp [reads, newAction, setReader, List.countP_append, List.countP_cons]
    rw [hone, hp.reading other]
    change _ = awaitedReads (Function.update h.readers reader _ other)
    by_cases hother : other = reader
    · subst hother
      rw [awaitedReads_of_awaited hawaited, if_pos rfl, Function.update_self]
      rfl
    · rw [if_neg (Ne.symm hother), Function.update_of_ne hother, Nat.add_zero]

theorem Pipeline.acceptStream [Inhabited Request] (hp : h.Pipeline) (hinv : h.Inv)
    (hperm : h.actions.Perm (a :: rest)) (ha : a.kind = .requestStream reader) :
    Pipeline { onNewStreamReaderReady reader { h with actions := rest } with
      deletedActions := h.deletedActions ++ [a.id] } where
  actions := by
    have hids := (hp.actions.of_perm (hperm.map (·.id))).alloc
    have hfree := hids.free
    simpa [onNewStreamReaderReady, newRequestStream, newAction, setReader] using hfree
  listening := by
    have hreader : a.streamReader = some reader := by rw [Action.streamReader, ha]
    have hlistening := hp.listening
    rw [(held_perm_cons hperm hreader).length_eq, List.length_cons] at hlistening
    simpa [held, onNewStreamReaderReady, newRequestStream, newAction, setReader, Action.streamReader]
      using hlistening
  reading := by
    intro other
    have hrest : h.reads other = rest.countP (·.kind = .read other) := by
      rw [reads_perm hperm, if_neg (by simp [ha]), Nat.add_zero]
    change (rest ++ [_]).countP _ = awaitedReads (Function.update h.readers h.nextReader _ other)
    rw [List.countP_append, ← hrest, List.countP_singleton]
    by_cases hother : other = h.nextReader
    · have hout : other ∉ h.streamReaders := fun hmem =>
        absurd (hinv.lt_nextReader (List.mem_append_right _ hmem)) (by omega)
      rw [hinv.reads_eq_zero hout, hother, Function.update_self]
      rfl
    · rw [hp.reading other, Function.update_of_ne hother]
      rfl

theorem Pipeline.refuseStream (hp : h.Pipeline) (hperm : h.actions.Perm (a :: rest))
    (ha : a.kind = .requestStream reader) :
    Pipeline { deleteReader reader { h with actions := rest } with
      deletedActions := h.deletedActions ++ [a.id] } where
  actions := (hp.actions.of_perm (hperm.map (·.id))).free
  listening := by
    have hreader : a.streamReader = some reader := by rw [Action.streamReader, ha]
    have hlistening := hp.listening
    rw [(held_perm_cons hperm hreader).length_eq, List.length_cons] at hlistening
    change (rest.filterMap _).length + (h.deletedReaders ++ [reader]).length = 1
    rw [List.length_append, List.length_singleton]
    omega
  reading := by
    intro other
    have hrest : h.reads other = rest.countP (·.kind = .read other) := by
      rw [reads_perm hperm, if_neg (by simp [ha]), Nat.add_zero]
    exact hrest.symm.trans (hp.reading other)

theorem Pipeline.readOn (hp : h.Pipeline) (hperm : h.actions.Perm (a :: rest))
    (ha : a.kind = .read reader)
    (message : Request) :
    Pipeline { setReader reader ((h.readers reader).finalizeRead true message) { h with actions := rest } with
      deletedActions := h.deletedActions ++ [a.id] } where
  actions := (hp.actions.of_perm (hperm.map (·.id))).free
  listening := by
    have hnone : a.streamReader = none := by rw [Action.streamReader, ha]
    have hlistening := hp.listening
    rwa [(held_perm hperm hnone).length_eq] at hlistening
  reading := by
    intro other
    have hreading := hp.reading other
    rw [reads_perm hperm, ha] at hreading
    change rest.countP _ = awaitedReads (Function.update h.readers reader _ other)
    by_cases hother : other = reader
    · subst hother
      rw [if_pos rfl] at hreading
      rw [Function.update_self]
      -- one Read at most is awaited, and this was it
      have hle : awaitedReads (h.readers other) ≤ 1 := by
        unfold awaitedReads
        split <;> omega
      exact Nat.le_zero.mp (by omega)
    · rw [if_neg (fun hkind => hother (ActionKind.read.inj hkind).symm), Nat.add_zero] at hreading
      rw [hreading, Function.update_of_ne hother]

end Steps

section Runs

variable [Inhabited Request] {h h' : AsyncClientStreamCallHandler Request} {e : Event Request}

theorem Pipeline.step (hp : h.Pipeline) (hinv : h.Inv) (hstep : h.step e = some h')
    (hfault : h'.fault = none) :
    h'.Inv ∧ h'.Pipeline := by
  cases e with
  | moveNext reader =>
      simp only [AsyncClientStreamCallHandler.step] at hstep
      split at hstep
      · rename_i hguard
        obtain rfl := Option.some.inj hstep
        exact ⟨hinv.moveNext hguard.2.1, hp.moveNext hguard.2.2⟩
      · cases hstep
  | asyncNext id ok message =>
      obtain ⟨a, ha, hcompletion⟩ := step_asyncNext hstep
      have hperm := perm_cons_eraseP_of_find? ha
      cases hcompletion with
      | accept hkind => exact ⟨hinv.acceptStream hperm hkind, hp.acceptStream hinv hperm hkind⟩
      | refuse hkind => exact ⟨hinv.refuseStream hperm hkind, hp.refuseStream hperm hkind⟩
      | read hkind => exact ⟨hinv.readOn hperm hkind message, hp.readOn hperm hkind message⟩
      | @finish reader _ hkind hdamaged =>
          have hmem := hinv.reading a (List.mem_of_find?_eq_some ha) reader hkind
          rw [hdamaged (hinv.registered reader hmem)] at hfault
          cases hfault

theorem initial_pipeline : Pipeline (initial Request) where
  actions := Ledger.empty.alloc
  listening := rfl
  reading reader := by
    have hnone : ((initial Request).readers reader).moved = none := by
      simp only [initial, newRequestStream, newAction, setReader, Function.update_apply]
      split <;> rfl
    exact (if_neg (by simp [hnone])).symm

/-- As long as no callback has read a deleted action. -/
theorem inv_and_pipeline_of_reachable (hh : (system Request).Reachable h) (hfault : h.fault = none) :
    h.Inv ∧ h.Pipeline := by
  refine hh.invariant (I := fun h => h.fault = none → h.Inv ∧ h.Pipeline) ?_ ?_ hfault
  · rintro h rfl -
    exact ⟨initial_inv, initial_pipeline⟩
  · intro h e h' hI _ hstep hfault'
    have hbefore : h.fault = none := by
      by_contra hfaulty
      change h.step e = some h' at hstep
      cases e <;> simp [AsyncClientStreamCallHandler.step, hfaulty] at hstep
    obtain ⟨hinv, hp⟩ := hI hbefore
    exact hp.step hinv hstep hfault'

end Runs

end AsyncClientStreamCallHandler

section Server

variable {Context Request Response ε : Type} [Inhabited Context] [Inhabited Request] [Inhabited Response]

def CallHandler.Reachable : CallHandler Context Request Response ε → Prop
  | .unary h => (AsyncUnaryCallHandler.system Context Request Response ε).Reachable h
  | .clientStream h => (AsyncClientStreamCallHandler.system Request).Reachable h

/-- An action that is forgotten has let an exception escape. -/
theorem AsyncUnaryCallHandler.allOutstanding_of_escaped
    {h : AsyncUnaryCallHandler Context Request Response ε}
    (hh : (AsyncUnaryCallHandler.system Context Request Response ε).Reachable h) (hescaped : h.escaped = []) :
    h.AllOutstanding := by
  intro a ha
  rw [CallHandlerAction.isOutstanding_iff]
  intro hkind
  have hlogged := (history_of_reachable hh).2.live a ha
  rw [hkind] at hlogged
  obtain ⟨e, onPollingThread, hlog⟩ := hlogged
  have hlost := congrArg CallLog.escaped hlog
  rw [logOf, hescaped] at hlost
  cases hlost

/-- The handler has one request open until a request tag fails, and each call, reader and action one
owner: of a unary handler unless its function threw, of a stream handler unless a callback has read a
deleted action. -/
def CallHandler.Pipelined : CallHandler Context Request Response ε → Prop
  | .unary h =>
      h.outstanding.countP (·.isServiceRequest) = (if h.requestsClosed then 0 else 1) ∧
        (h.escaped = [] → h.Pipeline)
  | .clientStream h => h.fault = none → h.Pipeline ∧ h.ReadersLive ∧
    h.nextReader = h.streamReaders.length + 1

theorem CallHandler.Reachable.pipelined {handler : CallHandler Context Request Response ε}
    (h : handler.Reachable) : handler.Pipelined := by
  cases handler with
  | unary h' =>
      have hinv := AsyncUnaryCallHandler.inv_of_reachable h
      refine ⟨hinv.outstanding_requests, fun hescaped => hinv.pipeline ?_⟩
      exact AsyncUnaryCallHandler.allOutstanding_of_escaped h hescaped
  | clientStream h' =>
      intro hfault
      obtain ⟨hinv, hp⟩ := AsyncClientStreamCallHandler.inv_and_pipeline_of_reachable h hfault
      exact ⟨hp, hinv.live, hp.nextReader_eq hinv⟩

namespace CallHandlers

variable {s s' : CallHandlers Context Request Response ε} {e : Event Context Request Response ε}

/-- **Side by side.** What the server does to a handler, the handler could do alone. -/
theorem reachable_handler (hs : (system Context Request Response ε).Reachable s) {k : Nat}
    {handler : CallHandler Context Request Response ε} (hk : s.handlers k = some handler) :
    handler.Reachable := by
  have hset : ∀ {s : CallHandlers Context Request Response ε} {k : Nat} {h},
      (∀ k handler, s.handlers k = some handler → handler.Reachable) → h.Reachable →
      ∀ j handler, Function.update s.handlers k (some h) j = some handler → handler.Reachable := by
    intro s k h hall hnew j handler hj
    by_cases hjk : j = k
    · subst hjk
      rw [Function.update_self] at hj
      exact Option.some.inj hj ▸ hnew
    · rw [Function.update_of_ne hjk] at hj
      exact hall j handler hj
  refine hs.invariant (I := fun s => ∀ k handler, s.handlers k = some handler → handler.Reachable)
    ?_ ?_ k handler hk
  · rintro s ⟨n, rfl⟩ k handler hk
    cases hk
  · intro s e s' hall _ hmove
    cases step_cases hmove with
    | registerUnary _ _ => exact hset hall (.init rfl)
    | registerClientStream _ _ => exact hset hall (.init rfl)
    | unary hk hstep => exact hset hall (.step (hall _ _ hk) trivial hstep)
    | clientStream hk hstep => exact hset hall (.step (hall _ _ hk) trivial hstep)
    | start _ => exact hall
    | unaryRejected => exact hall
    | clientStreamRejected => exact hall
    | insert _ => exact hall
    | shutdownServer _ => exact hall
    | serverShutdown _ => exact hall
    | deleteAllCallHandlers _ => exact hall
    | shutdownQueue _ => exact hall

/-- **Pipelines.** In every reachable state of the server, each of its handlers is in a state that it could
reach alone, and has one request open until a request tag of its own fails and none afterwards. Of a
deleted handler this is about what is found at its address. -/
theorem pipelined_of_reachable (s : CallHandlers Context Request Response ε)
    (hs : (system Context Request Response ε).Reachable s) (k : Nat)
    (handler : CallHandler Context Request Response ε) (hk : s.handlers k = some handler) :
    handler.Reachable ∧ handler.Pipelined :=
  ⟨reachable_handler hs hk, (reachable_handler hs hk).pipelined⟩

def bothServe : List (Event String String String String) :=
  [.registerUnary 0 true, .insertCallHandler, .registerClientStream 0 true, .insertCallHandler, .start,
    .unary 0 (.asyncNext 0 true "peer" "request" none), .clientStream 1 (.asyncNext 0 true ""),
    .clientStream 1 (.moveNext 0), .shutdownServer, .clientStream 1 (.asyncNext 1 false ""),
    .clientStream 1 (.asyncNext 2 true "message")]

theorem bothServe_pipelined : ∃ s unary stream,
    (system String String String String).run { numQueues := 1 } bothServe = some s ∧
      s.handlers 0 = some (.unary unary) ∧ s.handlers 1 = some (.clientStream stream) ∧
      unary.actions.length = 2 ∧ stream.actions = [] ∧ stream.streamReaders = [0] ∧
      (stream.readers 0).current = "message" ∧
      (CallHandler.Reachable (.unary unary) ∧ CallHandler.Pipelined (.unary unary)) ∧
      (CallHandler.clientStream stream : CallHandler String String String String).Reachable ∧
      (CallHandler.clientStream stream : CallHandler String String String String).Pipelined := by
  refine ⟨_, _, _, rfl, rfl, rfl, rfl, rfl, rfl, rfl, ?_⟩
  have hs : (system String String String String).Reachable _ :=
    TransitionSystem.reachable_of_run bothServe (.init ⟨1, rfl⟩) rfl
  exact ⟨pipelined_of_reachable _ hs 0 _ rfl, pipelined_of_reachable _ hs 1 _ rfl⟩

end CallHandlers

end Server

end EasyGrpc.Server
