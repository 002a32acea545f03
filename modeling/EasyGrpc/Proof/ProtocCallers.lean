import EasyGrpc.CMake.Agreement
import EasyGrpc.Proof.ProtocScope

/-!
# What the functions take from their caller

A CMake function sees the variables of its caller. The macros set most of their own variables before they
read them. They append to `PROTOC_COMMAND`, though, and leave the flags and the output options as they
were where no argument gives them, so these come in from outside.
-/

namespace EasyGrpc.ProtoTargets

open CMake

/-- The options that keep a value of the caller where no argument gives them. -/
def leaking : List String :=
  ["fatal_warnings", "print_free_field_numbers", "enable_codegen_trace", "cpp_out", "grpc_out"]

def flags : List String := ["fatal_warnings", "print_free_field_numbers", "enable_codegen_trace"]

def setFirst : List String :=
  ["OUTPUT_FILES", "PROTO_FILE_0", "OUTPUT_DIRECTORY", "PROTOC_EXE", "GRPC_PLUGIN_EXE", "PROTO_FILES",
    "proto_path"]

def overwritten : List String :=
  ["ARGN", "ARG_CODEGEN_TARGET", "ARG_LIBRARY_TARGET", "ARG_INCLUDE_INSTALL_INTERFACE"] ++ setFirst

def leftOver : List String := overwritten.take 7

section Alike

variable {s t : Scope} {hidden hidden' soft : List String}

theorem setIf_alike (test target source : String) (h : s.Alike hidden soft t) (htest : test ∉ hidden)
    (hsource : source ∉ hidden) (hhard : source ∉ soft) :
    (setIf s test target source).Alike hidden soft (setIf t test target source) := by
  unfold setIf
  rw [h.isTrue_eq htest]
  split
  · rw [Scope.expand_eq_of_value_eq (h.agree source hsource hhard)]
    exact h.set (List.subset_cons_self _ _)
  · exact h

theorem setupExecutable_alike (target found argument : String) (h : s.Alike hidden soft t)
    (hfound : found ∉ hidden ∧ found ∉ soft) (hargument : argument ∉ hidden' ∧ argument ∉ soft)
    (hsub : hidden ⊆ target :: hidden') :
    (setupExecutable target found argument s).Alike hidden' soft
      (setupExecutable target found argument t) := by
  unfold setupExecutable
  rw [Scope.expand_eq_of_value_eq (h.agree found hfound.1 hfound.2)]
  exact setIf_alike _ _ _ (h.set hsub) hargument.1 hargument.1 hargument.2

theorem setupExecutables_alike (h : s.Alike overwritten leaking t) :
    (setupExecutables s).Alike (leftOver ++ ["PROTO_FILES", "proto_path"]) leaking
    (setupExecutables t) := by
  have hfirst : Scope.Alike (leftOver ++ ["GRPC_PLUGIN_EXE", "PROTO_FILES", "proto_path"]) leaking _ _ :=
    setupExecutable_alike "PROTOC_EXE" "protobuf_protoc_EXEC" "ARG_PROTOC_EXE" h (by decide) (by decide)
      (by decide)
  exact setupExecutable_alike "GRPC_PLUGIN_EXE" "grpc_cpp_plugin_EXEC" "ARG_GRPC_PLUGIN_EXE" hfirst
    (by decide) (by decide) (by decide)

theorem setupProtoFiles_alike (h : s.Alike (leftOver ++ ["PROTO_FILES", "proto_path"]) leaking t) :
    OutcomesAlike (leftOver ++ ["proto_path"]) leaking (setupProtoFiles s) (setupProtoFiles t) := by
  unfold setupProtoFiles
  rw [h.isTrue_eq (by decide)]
  split
  · rw [Scope.expand_eq_of_value_eq (h.agree "ARG_PROTO_FILES" (by decide) (by decide))]
    exact .ok (h.set (by decide))
  · exact .error _

theorem setupFlags_alike (h : s.Alike (leftOver ++ ["proto_path"]) leaking t) :
    (setupFlags s).Alike (leftOver ++ ["proto_path"]) leaking (setupFlags t) := by
  have hfatal := setIf_alike "ARG_fatal_warnings" "fatal_warnings" "ARG_fatal_warnings" h (by decide)
    (by decide) (by decide)
  have hprint := setIf_alike "ARG_print_free_field_numbers" "print_free_field_numbers"
    "ARG_print_free_field_numbers" hfatal (by decide) (by decide) (by decide)
  exact setIf_alike "enable_codegen_trace" "enable_codegen_trace" "ARG_enable_codegen_trace" hprint
    (by decide)
    (by decide) (by decide)

theorem setupOutputDirectory_alike (h : s.Alike (leftOver ++ ["proto_path"]) leaking t) :
    (setupOutputDirectory s).Alike (leftOver ++ ["proto_path"]) leaking (setupOutputDirectory t) := by
  unfold setupOutputDirectory
  rw [h.isTrue_eq (by decide)]
  split
  · rw [Scope.expand_eq_of_value_eq (h.agree "ARG_OUTPUT_DIRECTORY" (by decide) (by decide))]
    generalize s.expand "ARG_OUTPUT_DIRECTORY" = directory
    have hset : Scope.Alike (leftOver.erase "OUTPUT_DIRECTORY" ++ ["proto_path"]) leaking
        (s.set "OUTPUT_DIRECTORY" directory) (t.set "OUTPUT_DIRECTORY" directory) := h.set (by decide)
    dsimp only
    rw [Scope.expand_eq_of_value_eq (hset.agree "OUTPUT_DIRECTORY" (by decide) (by decide))]
    generalize (s.set "OUTPUT_DIRECTORY" directory).expand "OUTPUT_DIRECTORY" = out
    have hcpp : Scope.Alike (leftOver.erase "OUTPUT_DIRECTORY" ++ ["proto_path"]) leaking
        (Scope.set _ "cpp_out" out) (Scope.set _ "cpp_out" out) := hset.set (List.subset_cons_self _ _)
    rw [Scope.expand_eq_of_value_eq (hcpp.agree "OUTPUT_DIRECTORY" (by decide) (by decide))]
    exact hcpp.set (by decide)
  · exact h

theorem setupOut_alike (argument out message : String) (h : s.Alike hidden soft t)
    (hargument : argument ∉ hidden ∧ argument ∉ soft) (hout : out ∉ hidden) :
    OutcomesAlike hidden (soft.filter (· ≠ out)) (setupOut argument out message s)
      (setupOut argument out message t) := by
  have hset := setIf_alike argument out argument h hargument.1 hargument.1 hargument.2
  unfold setupOut
  simp only [hset.isTrue_eq hout]
  split
  · exact .ok (hset.harden hout ‹_›)
  · exact .error message

theorem setupProtoPath_alike (h : s.Alike (leftOver ++ ["proto_path"]) flags t) :
    (setupProtoPath s).Alike leftOver flags (setupProtoPath t) := by
  unfold setupProtoPath
  rw [h.isTrue_eq (by decide)]
  split
  · rw [Scope.expand_eq_of_value_eq (h.agree "ARG_proto_path" (by decide) (by decide))]
    exact h.set (by decide)
  · rw [h.agree "PROTO_FILES" (by decide) (by decide)]
    generalize (expandList true (s.value "PROTO_FILES")).headD [] = file
    have hfirst : Scope.Alike (leftOver.erase "PROTO_FILE_0" ++ ["proto_path"]) flags
        (s.define "PROTO_FILE_0" file) (t.define "PROTO_FILE_0" file) := h.define (by decide)
    dsimp only
    rw [hfirst.agree "PROTO_FILE_0" (by decide) (by decide)]
    exact hfirst.define (by decide)

/-- **Set up.** Callers alike lead to the same errors, and to scopes that are alike in what the command
is made from. -/
theorem setupProtocArgs_alike (h : s.Alike overwritten leaking t) :
    OutcomesAlike leftOver flags (setupProtocArgs s) (setupProtocArgs t) := by
  refine (setupProtoFiles_alike (setupExecutables_alike h)).bind fun s₁ t₁ _ h₁ => ?_
  have h₂ := setupOutputDirectory_alike (setupFlags_alike h₁)
  refine (setupOut_alike "ARG_cpp_out" "cpp_out" _ h₂ (by decide) (by decide)).bind fun s₃ t₃ _ h₃ => ?_
  refine (setupOut_alike "ARG_grpc_out" "grpc_out" _ h₃ (by decide) (by decide)).bind fun s₄ t₄ _ h₄ => ?_
  exact .ok (setupProtoPath_alike h₄)

theorem appendIf_alike {test : String} {x y : Text} (h : s.Alike hidden soft t) (htest : test ∉ hidden)
    (hcommand : "PROTOC_COMMAND" ∉ hidden ∧ "PROTOC_COMMAND" ∉ soft)
    (hargument : s.isTrue test = true → y = x) :
    (appendIf s test x).Alike hidden soft (appendIf t test y) := by
  unfold appendIf
  rw [h.isTrue_eq htest]
  split
  · rw [hargument ‹_›]
    exact h.append hcommand.1 hcommand.2
  · exact h

theorem makeProtocCommand_alike (h : s.Alike leftOver flags t) :
    (makeProtocCommand s).Alike leftOver flags (makeProtocCommand t) := by
  have hcommand : "PROTOC_COMMAND" ∉ leftOver ∧ "PROTOC_COMMAND" ∉ flags := by decide
  have hoption : ∀ {s t : Scope} (name : String) (option : Text), s.Alike leftOver flags t →
      name ∉ leftOver ∧ name ∉ flags → (appendIf s name (option ++ s.value name)).Alike leftOver flags
        (appendIf t name (option ++ t.value name)) := fun name option h hname =>
    appendIf_alike h hname.1 hcommand fun _ => by rw [h.agree name hname.1 hname.2]
  have hflag : ∀ {s t : Scope} (name : String) (option : Text), s.Alike leftOver flags t →
      name ∉ leftOver → (appendIf s name option).Alike leftOver flags (appendIf t name option) :=
    fun name option h hname => appendIf_alike h hname hcommand fun _ => rfl
  have happend : ∀ {s t : Scope} (name : String) (option : Text), s.Alike leftOver flags t →
      name ∉ leftOver ∧ name ∉ flags → (s.append "PROTOC_COMMAND" [option ++ s.value name]).Alike leftOver
        flags (t.append "PROTOC_COMMAND" [option ++ t.value name]) := fun name option h hname => by
    rw [h.agree name hname.1 hname.2]
    exact h.append hcommand.1 hcommand.2
  have hexe := happend "PROTOC_EXE" [] h (by decide)
  have hplugin := happend "GRPC_PLUGIN_EXE" "--plugin=protoc-gen-grpc=".toList hexe (by decide)
  have hfatal := hflag "fatal_warnings" "--fatal_warnings".toList hplugin (by decide)
  have hprint := hflag "print_free_field_numbers" "--print_free_field_numbers".toList hfatal (by decide)
  have htrace := hflag "enable_codegen_trace" "--enable_codegen_trace".toList hprint (by decide)
  have hcpp := hoption "cpp_out" "--cpp_out=".toList htrace (by decide)
  have hgrpc := hoption "grpc_out" "--grpc_out=".toList hcpp (by decide)
  have hpath := hoption "proto_path" "--proto_path=".toList hgrpc (by decide)
  exact happend "PROTO_FILES" [] hpath (by decide)

theorem extractProtocOutputFiles_alike (h : s.Alike leftOver flags t) :
    OutcomesAlike (leftOver.erase "OUTPUT_FILES") flags (extractProtocOutputFiles "OUTPUT_FILES" s)
      (extractProtocOutputFiles "OUTPUT_FILES" t) := by
  unfold extractProtocOutputFiles
  rw [Scope.expand_eq_of_value_eq (h.agree "proto_path" (by decide) (by decide)),
    Scope.expand_eq_of_value_eq (h.agree "PROTO_FILES" (by decide) (by decide)),
    h.agree "cpp_out" (by decide) (by decide)]
  split
  · have hunset : Scope.Alike (leftOver.erase "OUTPUT_FILES") flags (s.unset "OUTPUT_FILES")
        (t.unset "OUTPUT_FILES") := h.unset (by decide)
    have hname : "OUTPUT_FILES" ∉ leftOver.erase "OUTPUT_FILES" ∧ "OUTPUT_FILES" ∉ flags := by decide
    have hfiles := hunset.foldl_append hname.1 hname.2 (outputFilesOf (s.value "cpp_out") ‹Text›)
      (s.expand "PROTO_FILES")
    dsimp only
    rw [Scope.expand_eq_of_value_eq (hfiles.agree "OUTPUT_FILES" hname.1 hname.2)]
    exact .ok (h.set (by decide))
  · exact .error _

/-- Both functions run the macros with the arguments in variables, and then list the files. -/
theorem commandAndFiles_alike (h : s.Alike overwritten leaking t) :
    OutcomesAlike (leftOver.erase "OUTPUT_FILES") flags
      ((setupProtocArgs s).map makeProtocCommand >>= extractProtocOutputFiles "OUTPUT_FILES")
      ((setupProtocArgs t).map makeProtocCommand >>= extractProtocOutputFiles "OUTPUT_FILES") := by
  have hcommand := (setupProtocArgs_alike h).map fun _ _ => makeProtocCommand_alike
  exact hcommand.bind fun _ _ _ => extractProtocOutputFiles_alike

end Alike

section Outcome

variable {s t : Scope}

/-- What a call of `shuhai_grpc_add_proto_targets` comes to: the command line that it runs and the files
that it builds from, or the message that it fails with. -/
def outcome (s : Scope) (args : List Text) : Except String (Text × List Text) :=
  (shuhaiGrpcAddProtoTargets s args).map fun t => (t.value "PROTOC_COMMAND", t.expand "OUTPUT_FILES")

/-- The scope with none of the names defined that the macros use for themselves. -/
def cleared (s : Scope) : Scope := ⟨fun name => if name ∈ internalNames then none else s.lookup name⟩

theorem outcome_eq (args : List Text)
    (h : s.Alike (setFirst) leaking t) : outcome t args = outcome s args := by
  have hparsed : (parsedScope s args).Alike (setFirst) leaking (parsedScope t args) := by
    have hargn : Scope.Alike (setFirst) leaking (s.define "ARGN" (joinList args))
        (t.define "ARGN" (joinList args)) := h.define (by decide)
    unfold parsedScope
    simp only
    rw [Scope.expand_eq_of_value_eq (hargn.agree "ARGN" (by decide) (by decide))]
    exact hargn.setAll _
  unfold outcome shuhaiGrpcAddProtoTargets protocCommand
  simp only [hparsed.isTrue_eq (show "ARG_CODEGEN_TARGET" ∉ setFirst by decide),
    hparsed.isTrue_eq (show "ARG_LIBRARY_TARGET" ∉ setFirst by decide)]
  split
  · rfl
  · split
    · rfl
    · have hrun := commandAndFiles_alike (hparsed.mono (show setFirst ⊆ overwritten by decide))
      refine hrun.map_eq fun u v huv => ?_
      rw [huv.agree "PROTOC_COMMAND" (by decide) (by decide),
        Scope.expand_eq_of_value_eq (huv.agree "OUTPUT_FILES" (by decide) (by decide))]

theorem value_cleared {name : String} (hname : name ∈ internalNames) : (cleared s).value name = [] := by
  have hlookup : (cleared s).lookup name = none := if_pos hname
  rw [Scope.value, hlookup]
  rfl

theorem isTrue_cleared {name : String} (hname : name ∈ internalNames) :
    (cleared s).isTrue name = false := by
  rw [Scope.isTrue, value_cleared hname]
  rfl

theorem cleared_alike (hcommand : s.value "PROTOC_COMMAND" = [])
    (hoff : ∀ name ∈ leaking, s.isTrue name = false) :
    s.Alike setFirst leaking (cleared s) := by
  have hinternal : ∀ name ∈ internalNames,
    name ∈ setFirst ∨ name ∈ leaking ∨ name = "PROTOC_COMMAND" := by
    decide
  have hleaking : ∀ name ∈ leaking, name ∈ internalNames := by decide
  constructor
  · intro name hfirst hsoft
    by_cases hname : name ∈ internalNames
    · obtain rfl := ((hinternal name hname).resolve_left hfirst).resolve_left hsoft
      rw [value_cleared hname, hcommand]
    · exact Scope.value_congr (if_neg hname)
  · exact fun name hsoft _ => .inr ⟨hoff name hsoft, isTrue_cleared (hleaking name hsoft)⟩

end Outcome

section CommandText

variable {s t : Scope} {zs : List Text}

theorem lengthened_appendIf (h : s.Lengthened "PROTOC_COMMAND" t zs) {test : String}
    (htest : test ∉ ["PROTOC_COMMAND"])
    (y : Text) :
    s.Lengthened "PROTOC_COMMAND" (appendIf t test y) (zs ++ if s.isTrue test then [y] else []) := by
  unfold appendIf
  rw [h.sameBut.isTrue htest]
  split
  · exact h.append y
  · rw [List.append_nil]
    exact h

def flagPieces (s : Scope) : List Text :=
  (if s.isTrue "fatal_warnings" then ["--fatal_warnings".toList] else []) ++
    (if s.isTrue "print_free_field_numbers" then ["--print_free_field_numbers".toList] else []) ++
      if s.isTrue "enable_codegen_trace" then ["--enable_codegen_trace".toList] else []

def frontPieces (s : Scope) : List Text :=
  [s.value "PROTOC_EXE", "--plugin=protoc-gen-grpc=".toList ++ s.value "GRPC_PLUGIN_EXE"]

def optionPiece (s : Scope) (option name : String) : List Text :=
  if s.isTrue name then [option.toList ++ s.value name] else []

def restPieces (s : Scope) : List Text :=
  optionPiece s "--cpp_out=" "cpp_out" ++ optionPiece s "--grpc_out=" "grpc_out" ++
    optionPiece s "--proto_path=" "proto_path" ++ [s.value "PROTO_FILES"]

theorem lengthened_makeProtocCommand (s : Scope) :
    s.Lengthened "PROTOC_COMMAND" (makeProtocCommand s)
      (frontPieces s ++ flagPieces s ++ restPieces s) := by
  have hoption : ∀ {t : Scope} {zs} (option name : String), s.Lengthened "PROTOC_COMMAND" t zs →
      name ∉ ["PROTOC_COMMAND"] → s.Lengthened "PROTOC_COMMAND"
        (appendIf t name (option.toList ++ t.value name)) (zs ++ optionPiece s option name) := by
    intro t zs option name h hname
    rw [h.sameBut.value hname]
    exact lengthened_appendIf h hname _
  have happend : ∀ {t : Scope} {zs} (option : Text) (name : String), s.Lengthened "PROTOC_COMMAND" t zs →
      name ∉ ["PROTOC_COMMAND"] → s.Lengthened "PROTOC_COMMAND"
        (t.append "PROTOC_COMMAND" [option ++ t.value name]) (zs ++ [option ++ s.value name]) := by
    intro t zs option name h hname
    rw [← h.sameBut.value hname]
    exact h.append _
  have hflag : ∀ {t : Scope} {zs} (option name : String), s.Lengthened "PROTOC_COMMAND" t zs →
      name ∉ ["PROTOC_COMMAND"] → s.Lengthened "PROTOC_COMMAND" (appendIf t name option.toList)
        (zs ++ if s.isTrue name then [option.toList] else []) :=
    fun option name h hname => lengthened_appendIf h hname _
  have hexe := happend [] "PROTOC_EXE" Scope.Lengthened.refl (by decide)
  have hfront := happend "--plugin=protoc-gen-grpc=".toList "GRPC_PLUGIN_EXE" hexe (by decide)
  have hfatal := hflag "--fatal_warnings" "fatal_warnings" hfront (by decide)
  have hprint := hflag "--print_free_field_numbers" "print_free_field_numbers" hfatal (by decide)
  have htrace := hflag "--enable_codegen_trace" "enable_codegen_trace" hprint (by decide)
  have hcpp := hoption "--cpp_out=" "cpp_out" htrace (by decide)
  have hgrpc := hoption "--grpc_out=" "grpc_out" hcpp (by decide)
  have hpath := hoption "--proto_path=" "proto_path" hgrpc (by decide)
  refine (happend [] "PROTO_FILES" hpath (by decide)).congr ?_
  simp only [frontPieces, flagPieces, restPieces, List.append_assoc, List.nil_append, List.cons_append]

end CommandText

section Probes

variable {s t : Scope} {args : List Text}

theorem isTrue_parsedScope (hargs : ∀ x ∈ args, IsElement x) (name : String) (xs : List Text)
    (h : (name, xs) ∈
      (parseProtocArgs args).variables "ARG" options oneValueArguments multiValueArguments) :
    (parsedScope s args).isTrue name = !isOff (joinList xs) := by
  rw [Scope.isTrue, value_parsedScope hargs h]

theorem outcome_of_targets (hcodegen : (parsedScope s args).isTrue "ARG_CODEGEN_TARGET" = true)
    (hlibrary : (parsedScope s args).isTrue "ARG_LIBRARY_TARGET" = true) :
    outcome s args = ((setupProtocArgs (parsedScope s args)).map makeProtocCommand >>=
      extractProtocOutputFiles "OUTPUT_FILES").map fun t =>
        (t.value "PROTOC_COMMAND", t.expand "OUTPUT_FILES") := by
  unfold outcome shuhaiGrpcAddProtoTargets protocCommand
  simp only [hcodegen, hlibrary, Bool.true_eq_false, if_false]

def beforeOutputs (s : Scope) : Scope :=
  setupFlags ((setupExecutables s).set "PROTO_FILES" ((setupExecutables s).expand "ARG_PROTO_FILES"))

theorem beforeOutputs_sameBut :
    Scope.SameBut ("PROTOC_EXE" :: "GRPC_PLUGIN_EXE" :: "PROTO_FILES" :: flags) s (beforeOutputs s) :=
  (setupExecutables_sameBut.trans Scope.sameBut_set).trans setupFlags_sameBut

theorem setupProtocArgs_eq (h : s.isTrue "ARG_PROTO_FILES" = true) :
    setupProtocArgs s = setupCppOut (setupOutputDirectory (beforeOutputs s)) >>= fun t =>
      setupGrpcOut t >>= fun t => .ok (setupProtoPath t) := by
  have hfiles : setupProtoFiles (setupExecutables s) =
      .ok ((setupExecutables s).set "PROTO_FILES" ((setupExecutables s).expand "ARG_PROTO_FILES")) := by
    rw [setupProtoFiles, setupExecutables_sameBut.isTrue (by decide), if_pos h]
  rw [setupProtocArgs, hfiles]
  rfl

theorem setIf_of_isTrue_eq_false {test target source : String} (h : s.isTrue test = false) :
    setIf s test target source = s := by
  rw [setIf, if_neg (by rw [h]; exact Bool.false_ne_true)]

def targets : List Text := ["CODEGEN_TARGET", "codegen", "LIBRARY_TARGET", "library"].map String.toList

def withoutCppOut : List Text := targets ++ ["PROTO_FILES", "a.proto", "grpc_out", "gen"].map String.toList

def withoutGrpcOut : List Text := targets ++ ["PROTO_FILES", "a.proto", "cpp_out", "gen"].map String.toList

def outputs (s : Scope) : Except String (Text × List Text) := do
  let t ← setupCppOut (setupOutputDirectory s)
  let t ← setupGrpcOut t
  let t ← extractProtocOutputFiles "OUTPUT_FILES" (makeProtocCommand (setupProtoPath t))
  return (t.value "PROTOC_COMMAND", t.expand "OUTPUT_FILES")

theorem outcome_eq_outputs (hargs : ∀ x ∈ args, IsElement x)
    (hargument : ∀ v ∈ [("ARG_CODEGEN_TARGET", ["codegen".toList]), ("ARG_LIBRARY_TARGET", ["library".toList]),
      ("ARG_PROTO_FILES", ["a.proto".toList])],
      v ∈ (parseProtocArgs args).variables "ARG" options oneValueArguments multiValueArguments) :
    outcome s args = outputs (beforeOutputs (parsedScope s args)) := by
  have htrue : ∀ name v, (name, [v]) ∈ [("ARG_CODEGEN_TARGET", ["codegen".toList]),
        ("ARG_LIBRARY_TARGET", ["library".toList]), ("ARG_PROTO_FILES", ["a.proto".toList])] →
      (parsedScope s args).isTrue name = !isOff (joinList [v]) :=
    fun name v hv => isTrue_parsedScope hargs name [v] (hargument _ hv)
  rw [outcome_of_targets (htrue _ "codegen".toList (by decide)) (htrue _ "library".toList (by decide)),
    setupProtocArgs_eq (htrue _ "a.proto".toList (by decide)), outputs]
  cases setupCppOut (setupOutputDirectory (beforeOutputs (parsedScope s args))) with
  | error message => rfl
  | ok t =>
      change Except.map _ (Except.map _ (setupGrpcOut t >>= _) >>= _) = setupGrpcOut t >>= _
      cases setupGrpcOut t with
      | error message => rfl
      | ok u =>
          change Except.map _ (extractProtocOutputFiles _ _) = extractProtocOutputFiles _ _ >>= _
          cases extractProtocOutputFiles "OUTPUT_FILES" (makeProtocCommand (setupProtoPath u)) <;> rfl

def cppOutRequired : String :=
  "cpp_out or OUTPUT_DIRECTORY is required to specify the output directory for generated Protobuf codes."

def grpcOutRequired : String :=
  "grpc_out or OUTPUT_DIRECTORY is required to specify the output directory for generated gRPC codes."

theorem setupOutputDirectory_of_isTrue_eq_false (h : s.isTrue "ARG_OUTPUT_DIRECTORY" = false) :
    setupOutputDirectory s = s := by
  rw [setupOutputDirectory, if_neg (by rw [h]; exact Bool.false_ne_true)]

theorem setupOut_of_argument_eq_false {argument out message : String} (h : s.isTrue argument = false) :
    setupOut argument out message s = if s.isTrue out then .ok s else .error message := by
  rw [setupOut, setIf_of_isTrue_eq_false h]

/-- An output option that is given is taken. -/
theorem setupOut_of_argument {argument out message : String} {xs : List Text}
    (htrue : s.isTrue argument = true) (hvalue : s.value argument = joinList xs)
    (hxs : ∀ x ∈ xs, IsElement x) : setupOut argument out message s = .ok (s.set out xs) := by
  rw [setupOut, setIf, if_pos htrue, expand_eq hvalue hxs]
  refine if_pos ?_
  rw [Scope.isTrue, Scope.value_set_self, ← hvalue, ← Scope.isTrue, htrue]

theorem bind_eq_error {ε α β : Type} {x : Except ε α} {f : α → Except ε β} {e : ε} :
    x >>= f = .error e ↔ x = .error e ∨ ∃ a, x = .ok a ∧ f a = .error e := by
  cases x with
  | error e' =>
      constructor
      · exact fun h => .inl (congrArg Except.error (Except.error.inj h))
      · rintro (h | ⟨a, h, -⟩)
        · exact congrArg Except.error (Except.error.inj h)
        · cases h
  | ok a =>
      constructor
      · exact fun h => .inr ⟨a, rfl, h⟩
      · rintro (h | ⟨a', h, hf⟩)
        · cases h
        · cases h
          exact hf

/-- The listing of the files has a message of its own. -/
theorem listed_ne_error {message : String}
    (hmessage : message ≠ "cmake_path RELATIVE_PATH called with unexpected arguments") :
    (extractProtocOutputFiles "OUTPUT_FILES" s >>= fun t =>
      (.ok (t.value "PROTOC_COMMAND", t.expand "OUTPUT_FILES") : Except String _)) ≠ .error message := by
  intro h
  obtain h | ⟨t, -, h⟩ := bind_eq_error.mp h
  · unfold extractProtocOutputFiles at h
    split at h
    · cases h
    · exact hmessage (Except.error.inj h).symm
  · cases h

theorem outcome_withoutCppOut :
    outcome s withoutCppOut = .error cppOutRequired ↔ s.isTrue "cpp_out" = false := by
  have hargs : ∀ x ∈ withoutCppOut, IsElement x := by decide
  rw [outcome_eq_outputs hargs (by decide)]
  have hbefore : Scope.SameBut _ (parsedScope s withoutCppOut) _ := beforeOutputs_sameBut
  generalize beforeOutputs (parsedScope s withoutCppOut) = u at hbefore
  have hdirectory := (hbefore.isTrue (by decide)).trans
    (isTrue_parsedScope hargs "ARG_OUTPUT_DIRECTORY" [] (by decide))
  have hargument := (hbefore.isTrue (by decide)).trans
    (isTrue_parsedScope hargs "ARG_cpp_out" [] (by decide))
  have hout : u.isTrue "cpp_out" = s.isTrue "cpp_out" :=
    (parsedScope_sameBut.trans hbefore).isTrue (by decide)
  rw [outputs, setupOutputDirectory_of_isTrue_eq_false hdirectory, setupCppOut,
    setupOut_of_argument_eq_false hargument, hout]
  cases s.isTrue "cpp_out" with
  | false => exact ⟨fun _ => rfl, fun _ => rfl⟩
  | true =>
      refine ⟨fun h => ?_, nofun⟩
      obtain h | ⟨t, -, h⟩ := bind_eq_error.mp (show setupGrpcOut u >>= _ = _ from h)
      · unfold setupGrpcOut setupOut at h
        dsimp only at h
        split at h
        · cases h
        · exact absurd (Except.error.inj h) (by decide)
      · exact absurd h (listed_ne_error (by decide))

theorem outcome_withoutGrpcOut :
    outcome s withoutGrpcOut = .error grpcOutRequired ↔ s.isTrue "grpc_out" = false := by
  have hargs : ∀ x ∈ withoutGrpcOut, IsElement x := by decide
  rw [outcome_eq_outputs hargs (by decide)]
  have hbefore : Scope.SameBut _ (parsedScope s withoutGrpcOut) _ := beforeOutputs_sameBut
  generalize beforeOutputs (parsedScope s withoutGrpcOut) = u at hbefore
  have hdirectory := (hbefore.isTrue (by decide)).trans
    (isTrue_parsedScope hargs "ARG_OUTPUT_DIRECTORY" [] (by decide))
  have hargument := (hbefore.isTrue (by decide)).trans
    (isTrue_parsedScope hargs "ARG_grpc_out" [] (by decide))
  have hcppTrue := (hbefore.isTrue (by decide)).trans
    (isTrue_parsedScope hargs "ARG_cpp_out" ["gen".toList] (by decide))
  have hcppValue := (hbefore.value (by decide)).trans
    (value_parsedScope hargs (show ("ARG_cpp_out", ["gen".toList]) ∈ _ by decide))
  have hout : (u.set "cpp_out" ["gen".toList]).isTrue "grpc_out" = s.isTrue "grpc_out" :=
    ((parsedScope_sameBut.trans hbefore).trans Scope.sameBut_set).isTrue (by decide)
  rw [outputs, setupOutputDirectory_of_isTrue_eq_false hdirectory, setupCppOut,
    setupOut_of_argument hcppTrue hcppValue (by decide)]
  change setupGrpcOut (u.set "cpp_out" ["gen".toList]) >>= _ = _ ↔ _
  rw [setupGrpcOut, setupOut_of_argument_eq_false ((Scope.sameBut_set.isTrue (by decide)).trans hargument), hout]
  cases s.isTrue "grpc_out" with
  | false => exact ⟨fun _ => rfl, fun _ => rfl⟩
  | true => exact ⟨fun h => absurd h (listed_ne_error (by decide)), nofun⟩

def traced : List Text :=
  targets ++ ["PROTOC_EXE", "protoc", "GRPC_PLUGIN_EXE", "plugin", "enable_codegen_trace", "PROTO_FILES",
    "a.proto", "proto_path", "api", "OUTPUT_DIRECTORY", "gen"].map String.toList

theorem value_setupExecutable {target found argument : String} {x : Text} (hne : argument ≠ target)
    (hvalue : s.value argument = joinList [x]) (hx : IsElement x) (htrue : s.isTrue argument = true) :
    (setupExecutable target found argument s).value target = x := by
  have hset : Scope.SameBut [target] s (s.set target (s.expand found)) := Scope.sameBut_set
  have hout : argument ∉ [target] := by simpa using hne
  have hxs : ∀ y ∈ [x], IsElement y := fun y hy => List.mem_singleton.mp hy ▸ hx
  rw [setupExecutable, value_setIf argument target ((hset.value hout).trans hvalue) hxs,
    if_pos ((hset.isTrue hout).trans htrue), joinList_singleton]

/-- The macro tests `enable_codegen_trace` itself, so that the argument does not turn it on. -/
theorem isTrue_setupFlags_of_traced (hfatal : s.isTrue "ARG_fatal_warnings" = false)
    (hprint : s.isTrue "ARG_print_free_field_numbers" = false)
    (htrace : s.value "ARG_enable_codegen_trace" = joinList ["TRUE".toList]) :
    ∀ name ∈ flags, (setupFlags s).isTrue name = s.isTrue name := by
  rw [setupFlags, setIf_of_isTrue_eq_false hfatal, setIf_of_isTrue_eq_false hprint]
  intro name hname
  by_cases hother : name = "enable_codegen_trace"
  · subst hother
    rw [Scope.isTrue, value_setIf _ _ htrace (by decide)]
    cases h : s.isTrue "enable_codegen_trace" with
    | false => exact h
    | true => rfl
  · exact setIf_sameBut.isTrue (by simpa using hother)

theorem setupOutputDirectory_of_isTrue {xs : List Text} (htrue : s.isTrue "ARG_OUTPUT_DIRECTORY" = true)
    (hvalue : s.value "ARG_OUTPUT_DIRECTORY" = joinList xs) (hxs : ∀ x ∈ xs, IsElement x) :
    setupOutputDirectory s = ((s.set "OUTPUT_DIRECTORY" xs).set "cpp_out" xs).set "grpc_out" xs := by
  have hset : (s.set "OUTPUT_DIRECTORY" xs).value "OUTPUT_DIRECTORY" = joinList xs :=
    Scope.value_set_self
  have hcpp : ((s.set "OUTPUT_DIRECTORY" xs).set "cpp_out" xs).value "OUTPUT_DIRECTORY" = joinList xs :=
    (Scope.sameBut_set.value (by decide)).trans hset
  rw [setupOutputDirectory, if_pos htrue]
  simp only [expand_eq hvalue hxs, expand_eq hset hxs, expand_eq hcpp hxs]

theorem beforeOutputs_traced (s : Scope) :
    (beforeOutputs (parsedScope s traced)).value "PROTOC_EXE" = "protoc".toList ∧
      (beforeOutputs (parsedScope s traced)).value "GRPC_PLUGIN_EXE" = "plugin".toList ∧
      (beforeOutputs (parsedScope s traced)).value "PROTO_FILES" = "a.proto".toList ∧
      ∀ name ∈ flags, (beforeOutputs (parsedScope s traced)).isTrue name = s.isTrue name := by
  have hargs : ∀ x ∈ traced, IsElement x := by decide
  have hparsed : Scope.SameBut _ s (parsedScope s traced) := parsedScope_sameBut
  have hvalue : ∀ v ∈ [("ARG_PROTOC_EXE", "protoc".toList), ("ARG_GRPC_PLUGIN_EXE", "plugin".toList),
      ("ARG_PROTO_FILES", "a.proto".toList), ("ARG_enable_codegen_trace", "TRUE".toList),
      ("ARG_fatal_warnings", "FALSE".toList), ("ARG_print_free_field_numbers", "FALSE".toList)],
      (parsedScope s traced).value v.1 = joinList [v.2] := by
    intro v hv
    refine value_parsedScope hargs ?_
    revert v
    decide
  have htrue : ∀ name x, (parsedScope s traced).value name = joinList [x] →
      (parsedScope s traced).isTrue name = !isOff (joinList [x]) :=
    fun name x h => by rw [Scope.isTrue, h]
  generalize parsedScope s traced = p at hparsed hvalue htrue
  have hexe := hvalue ("ARG_PROTOC_EXE", "protoc".toList) (by decide)
  have hplugin := hvalue ("ARG_GRPC_PLUGIN_EXE", "plugin".toList) (by decide)
  have hfiles := hvalue ("ARG_PROTO_FILES", "a.proto".toList) (by decide)
  have hfirst : Scope.SameBut ["PROTOC_EXE"] p
      (setupExecutable "PROTOC_EXE" "protobuf_protoc_EXEC" "ARG_PROTOC_EXE" p) := setupExecutable_sameBut
  have hexecutables : Scope.SameBut _ p (setupExecutables p) := setupExecutables_sameBut
  have hset : Scope.SameBut ["PROTO_FILES"] (setupExecutables p)
      ((setupExecutables p).set "PROTO_FILES" ((setupExecutables p).expand "ARG_PROTO_FILES")) :=
    Scope.sameBut_set
  have hboth := hexecutables.trans hset
  unfold beforeOutputs
  refine ⟨?_, ?_, ?_, fun name hname => ?_⟩
  · rw [setupFlags_sameBut.value (by decide), hset.value (by decide), setupExecutables,
      setupExecutable_sameBut.value (by decide)]
    exact value_setupExecutable (by decide) hexe (by decide) (htrue _ _ hexe)
  · rw [setupFlags_sameBut.value (by decide), hset.value (by decide), setupExecutables]
    exact value_setupExecutable (by decide) ((hfirst.value (by decide)).trans hplugin) (by decide)
      ((hfirst.isTrue (by decide)).trans (htrue _ _ hplugin))
  · rw [setupFlags_sameBut.value (by decide), Scope.value_set_self,
      expand_eq ((hexecutables.value (by decide)).trans hfiles) (by decide), joinList_singleton]
  · have hfatal := htrue _ _ (hvalue ("ARG_fatal_warnings", "FALSE".toList) (by decide))
    have hprint := htrue _ _ (hvalue ("ARG_print_free_field_numbers", "FALSE".toList) (by decide))
    have htrace := hvalue ("ARG_enable_codegen_trace", "TRUE".toList) (by decide)
    rw [isTrue_setupFlags_of_traced ((hboth.isTrue (by decide)).trans hfatal)
      ((hboth.isTrue (by decide)).trans hprint) ((hboth.value (by decide)).trans htrace) name hname]
    exact (hparsed.trans hboth).isTrue (by revert name; decide)

theorem flagPieces_congr (h : ∀ name ∈ flags, t.isTrue name = s.isTrue name) :
    flagPieces t = flagPieces s := by
  unfold flagPieces
  rw [h "fatal_warnings" (by decide), h "print_free_field_numbers" (by decide),
    h "enable_codegen_trace" (by decide)]

/-- Both output options take the output directory, and no argument replaces it. -/
theorem outputs_of_directory (htrue : s.isTrue "ARG_OUTPUT_DIRECTORY" = true)
    (hvalue : s.value "ARG_OUTPUT_DIRECTORY" = joinList ["gen".toList])
    (hcpp : s.isTrue "ARG_cpp_out" = false) (hgrpc : s.isTrue "ARG_grpc_out" = false) :
    ∃ t, Scope.SameBut ["OUTPUT_DIRECTORY", "cpp_out", "grpc_out"] s t ∧
    t.value "cpp_out" = "gen".toList ∧
      t.value "grpc_out" = "gen".toList ∧
      outputs s = extractProtocOutputFiles "OUTPUT_FILES" (makeProtocCommand (setupProtoPath t)) >>= fun t =>
        .ok (t.value "PROTOC_COMMAND", t.expand "OUTPUT_FILES") := by
  rw [outputs, setupOutputDirectory_of_isTrue htrue hvalue (by decide)]
  have hsame : Scope.SameBut ["OUTPUT_DIRECTORY", "cpp_out", "grpc_out"] s
      (((s.set "OUTPUT_DIRECTORY" ["gen".toList]).set "cpp_out" ["gen".toList]).set "grpc_out" ["gen".toList]) :=
    (Scope.sameBut_set.trans Scope.sameBut_set).trans Scope.sameBut_set
  have hcppOut : (((s.set "OUTPUT_DIRECTORY" ["gen".toList]).set "cpp_out" ["gen".toList]).set "grpc_out"
      ["gen".toList]).value "cpp_out" = "gen".toList :=
    (Scope.sameBut_set.value (by decide)).trans Scope.value_set_self
  have hgrpcOut : (((s.set "OUTPUT_DIRECTORY" ["gen".toList]).set "cpp_out" ["gen".toList]).set "grpc_out"
      ["gen".toList]).value "grpc_out" = "gen".toList := Scope.value_set_self
  generalize ((s.set "OUTPUT_DIRECTORY" ["gen".toList]).set "cpp_out" ["gen".toList]).set "grpc_out"
    ["gen".toList] = t at hsame hcppOut hgrpcOut
  refine ⟨t, hsame, hcppOut, hgrpcOut, ?_⟩
  rw [setupCppOut, setupOut_of_argument_eq_false ((hsame.isTrue (by decide)).trans hcpp),
    if_pos (by rw [Scope.isTrue, hcppOut]; decide)]
  change setupGrpcOut t >>= _ = _
  rw [setupGrpcOut, setupOut_of_argument_eq_false ((hsame.isTrue (by decide)).trans hgrpc),
    if_pos (by rw [Scope.isTrue, hgrpcOut]; decide)]
  rfl

def tracedFront : List Text := ["protoc", "--plugin=protoc-gen-grpc=plugin"].map String.toList

def tracedRest : List Text :=
  ["--cpp_out=gen", "--grpc_out=gen", "--proto_path=api", "a.proto"].map String.toList

/-- The command of this call holds what `PROTOC_COMMAND` was and all flags that are on. -/
theorem outcome_traced (s : Scope) : ∃ files, outcome s traced =
    .ok ((tracedFront ++ flagPieces s ++ tracedRest).foldl appendText (s.value "PROTOC_COMMAND"), files) := by
  have hargs : ∀ x ∈ traced, IsElement x := by decide
  obtain ⟨hexe, hplugin, hfiles, hflags⟩ := beforeOutputs_traced s
  have hbefore : Scope.SameBut _ (parsedScope s traced) _ := beforeOutputs_sameBut
  rw [outcome_eq_outputs hargs (by decide)]
  generalize beforeOutputs (parsedScope s traced) = u at hexe hplugin hfiles hflags hbefore
  have hargument : ∀ name xs, name ∉ "PROTOC_EXE" :: "GRPC_PLUGIN_EXE" :: "PROTO_FILES" :: flags →
      (name, xs) ∈
        (parseProtocArgs traced).variables "ARG" options oneValueArguments multiValueArguments →
      u.isTrue name = !isOff (joinList xs) ∧ u.value name = joinList xs := fun name xs hname hxs =>
    ⟨(hbefore.isTrue hname).trans (isTrue_parsedScope hargs name xs hxs),
      (hbefore.value hname).trans (value_parsedScope hargs hxs)⟩
  have hdirectory := hargument "ARG_OUTPUT_DIRECTORY" ["gen".toList] (by decide) (by decide)
  have hpath := hargument "ARG_proto_path" ["api".toList] (by decide) (by decide)
  obtain ⟨v, huv, hcppOut, hgrpcOut, houtputs⟩ := outputs_of_directory hdirectory.1 hdirectory.2
    (hargument "ARG_cpp_out" [] (by decide) (by decide)).1
    (hargument "ARG_grpc_out" [] (by decide) (by decide)).1
  have hpathTrue : v.isTrue "ARG_proto_path" = true := (huv.isTrue (by decide)).trans hpath.1
  rw [houtputs, setupProtoPath, if_pos hpathTrue,
    expand_eq ((huv.value (by decide)).trans hpath.2) (by decide)]
  have hvw : Scope.SameBut ["proto_path"] v (v.set "proto_path" ["api".toList]) := Scope.sameBut_set
  have hprotoPath : (v.set "proto_path" ["api".toList]).value "proto_path" = "api".toList :=
    Scope.value_set_self
  generalize v.set "proto_path" ["api".toList] = w at hvw hprotoPath
  have huw := huv.trans hvw
  have hcommand := lengthened_makeProtocCommand w
  have hexpand : (makeProtocCommand w).expand "proto_path" = ["api".toList] := by
    rw [Scope.expand, hcommand.sameBut.value (by decide), hprotoPath]
    decide
  have hflags' : ∀ name ∈ flags, w.isTrue name = s.isTrue name := fun name hname =>
    (huw.isTrue (by revert name; decide)).trans (hflags name hname)
  have hpieces : frontPieces w ++ flagPieces w ++ restPieces w = tracedFront ++ flagPieces s ++ tracedRest := by
    have hcpp : w.value "cpp_out" = "gen".toList := (hvw.value (by decide)).trans hcppOut
    have hgrpc : w.value "grpc_out" = "gen".toList := (hvw.value (by decide)).trans hgrpcOut
    have hexe' : w.value "PROTOC_EXE" = "protoc".toList := (huw.value (by decide)).trans hexe
    have hplugin' : w.value "GRPC_PLUGIN_EXE" = "plugin".toList := (huw.value (by decide)).trans hplugin
    have hfiles' : w.value "PROTO_FILES" = "a.proto".toList := (huw.value (by decide)).trans hfiles
    simp only [flagPieces_congr hflags', frontPieces, restPieces, optionPiece, Scope.isTrue, hprotoPath,
      hcpp, hgrpc, hexe', hplugin', hfiles']
    rfl
  rw [extractProtocOutputFiles, hexpand]
  refine ⟨_, congrArg Except.ok (Prod.ext ?_ rfl)⟩
  change Scope.value (Scope.set _ _ _) _ = _
  rw [Scope.sameBut_set.value (by decide), hcommand.value, hpieces, huw.value (by decide),
    (parsedScope_sameBut.trans hbefore).value (by decide)]

theorem flagPieces_ne_nil (z : Text) (hz : z ∈ flagPieces s) : z ≠ [] := by
  have hall : ∀ z ∈ ["--fatal_warnings", "--print_free_field_numbers", "--enable_codegen_trace"].map
      String.toList, z ≠ [] := by
    decide
  apply hall
  simp only [flagPieces, List.mem_append, List.mem_ite_nil_right, List.mem_singleton] at hz
  simp only [List.map_cons, List.map_nil, List.mem_cons, List.not_mem_nil, or_false]
  tauto

theorem isTrue_eq_false_of_flagPieces (h : flagPieces s = []) :
    ∀ name ∈ flags, s.isTrue name = false := by
  simp only [flagPieces, List.append_eq_nil_iff, ite_eq_right_iff] at h
  obtain ⟨⟨hfatal, hprint⟩, htrace⟩ := h
  simp only [flags, List.forall_mem_cons]
  refine ⟨?_, ?_, ?_, nofun⟩
  all_goals
    apply Bool.eq_false_iff.mpr
    intro htrue
  · exact absurd (hfatal htrue) (List.cons_ne_nil _ _)
  · exact absurd (hprint htrue) (List.cons_ne_nil _ _)
  · exact absurd (htrace htrue) (List.cons_ne_nil _ _)

end Probes

/-- **What a caller can change.** Whether the macros' own names are defined where the function is called
makes no difference to any call exactly where `PROTOC_COMMAND` is empty and the flags and output options
are off. -/
theorem hermetic_iff (s : Scope) :
    (∀ args, outcome s args = outcome (cleared s) args) ↔
      s.value "PROTOC_COMMAND" = [] ∧ ∀ name ∈ leaking, s.isTrue name = false := by
  constructor
  · intro hsame
    have hcpp : s.isTrue "cpp_out" = false := by
      rw [← outcome_withoutCppOut, hsame, outcome_withoutCppOut]
      exact isTrue_cleared (by decide)
    have hgrpc : s.isTrue "grpc_out" = false := by
      rw [← outcome_withoutGrpcOut, hsame, outcome_withoutGrpcOut]
      exact isTrue_cleared (by decide)
    obtain ⟨files, hcommand⟩ := outcome_traced s
    obtain ⟨files', hcommand'⟩ := outcome_traced (cleared s)
    have hnone : flagPieces (cleared s) = [] := by
      rw [flagPieces, isTrue_cleared (by decide), isTrue_cleared (by decide), isTrue_cleared (by decide)]
      rfl
    rw [hsame, hcommand', value_cleared (by decide), hnone, List.append_nil] at hcommand
    obtain ⟨hempty, hflags⟩ := eq_nil_of_foldl_appendText
      (congrArg Prod.fst (Except.ok.inj hcommand)).symm flagPieces_ne_nil
    refine ⟨hempty, fun name hname => ?_⟩
    have hcases : ∀ name ∈ leaking, name ∈ flags ∨ name = "cpp_out" ∨ name = "grpc_out" := by decide
    rcases hcases name hname with hflag | rfl | rfl
    · exact isTrue_eq_false_of_flagPieces hflags name hflag
    · exact hcpp
    · exact hgrpc
  · rintro ⟨hcommand, hoff⟩ args
    exact (outcome_eq args (cleared_alike hcommand hoff)).symm

end EasyGrpc.ProtoTargets
