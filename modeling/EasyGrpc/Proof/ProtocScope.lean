import EasyGrpc.CMake.ProtoTargets
import EasyGrpc.CMake.Protoc

namespace EasyGrpc.ProtoTargets

open CMake Protoc

/-- What a call of `shuhai_grpc_add_proto_targets` asks of `protoc`. -/
structure Request where
  fatalWarnings : Bool
  printFreeFieldNumbers : Bool
  enableCodegenTrace : Bool
  protoFiles : List Text
  protoPath : List Text
  cppOut : List Text
  grpcOut : List Text
  outputDirectory : List Text
  deriving DecidableEq

def request (args : List Text) : Request :=
  let parsed := parseProtocArgs args
  { fatalWarnings := "fatal_warnings".toList ∈ parsed.options
    printFreeFieldNumbers := "print_free_field_numbers".toList ∈ parsed.options
    enableCodegenTrace := "enable_codegen_trace".toList ∈ parsed.options
    protoFiles := parsed.multiValue "PROTO_FILES".toList
    protoPath := parsed.multiValue "proto_path".toList
    cppOut := parsed.multiValue "cpp_out".toList
    grpcOut := parsed.multiValue "grpc_out".toList
    outputDirectory := parsed.multiValue "OUTPUT_DIRECTORY".toList }

def internalNames : List String :=
  ["PROTOC_EXE", "GRPC_PLUGIN_EXE", "PROTO_FILES", "PROTO_FILE_0", "fatal_warnings",
    "print_free_field_numbers", "enable_codegen_trace", "OUTPUT_DIRECTORY", "cpp_out", "grpc_out",
    "proto_path", "PROTOC_COMMAND", "OUTPUT_FILES"]

/-- A scope to call the function from: both programs were found, and no internal name is defined. -/
structure Caller (s : Scope) : Prop where
  undefined : ∀ name ∈ internalNames, s.lookup name = none
  protoc : ∃ exe, IsElement exe ∧ s.lookup "protobuf_protoc_EXEC" = some exe
  plugin : ∃ exe, IsElement exe ∧ s.lookup "grpc_cpp_plugin_EXEC" = some exe

/-- The scope of a file that includes `gRPC.cmake` and defines nothing itself. -/
def includedScope : Scope :=
  let s : Scope := { lookup := fun _ => none }
  let s := s.define "protobuf_protoc_EXEC" "/usr/bin/protoc".toList
  s.define "grpc_cpp_plugin_EXEC" "/usr/bin/grpc_cpp_plugin".toList

theorem caller_includedScope : Caller includedScope where
  undefined := by decide
  protoc := ⟨"/usr/bin/protoc".toList, by decide, rfl⟩
  plugin := ⟨"/usr/bin/grpc_cpp_plugin".toList, by decide, rfl⟩

namespace Request

def out (r : Request) (given : List Text) : List Text := if given = [] then r.outputDirectory else given

def firstProtoFile (r : Request) : Text := r.protoFiles.headD []

def directoryOf (file : Text) : Text := if parentPath file = [] then ['.'] else parentPath file

def searchPath (r : Request) : List Text :=
  if r.protoPath = [] then [directoryOf r.firstProtoFile] else r.protoPath

def optionArguments (name : String) : List Text → List Text
  | [] => []
  | d :: ds => (name.toList ++ d) :: ds

def flagArguments (r : Request) : List Text :=
  (if r.fatalWarnings then ["--fatal_warnings".toList] else []) ++
    if r.printFreeFieldNumbers then ["--print_free_field_numbers".toList] else []

def chosen (r : Request) (given : List Text) : List Text :=
  if isOff (joinList given) then r.outputDirectory else given

def searched (r : Request) : List Text :=
  if isOff (joinList r.protoPath) then [parentPath r.firstProtoFile] else r.protoPath

def protoPathArguments (r : Request) : List Text :=
  if isOff (joinList r.searched) then [] else optionArguments "--proto_path=" r.searched

def arguments (r : Request) : List Text :=
  r.flagArguments ++ optionArguments "--cpp_out=" (r.chosen r.cppOut) ++
    optionArguments "--grpc_out=" (r.chosen r.grpcOut) ++ r.protoPathArguments ++ r.protoFiles

end Request

section Scopes

variable {s t : Scope} {name test target source : String} {xs ys : List Text}

theorem expand_eq (hvalue : s.value source = joinList xs) (hxs : ∀ x ∈ xs, IsElement x) :
    s.expand source = xs := by
  rw [Scope.expand, hvalue, expandList_joinList hxs (.inr rfl)]

theorem isOff_of_isTrue (h : s.isTrue name = true) (hvalue : s.value name = joinList xs) :
    isOff (joinList xs) = false := by
  rw [Scope.isTrue, hvalue] at h
  exact (Bool.not_eq_true' _).mp h

theorem setIf_sameBut : Scope.SameBut [target] s (setIf s test target source) := by
  unfold setIf
  split
  · exact Scope.sameBut_set
  · exact Scope.SameBut.refl

theorem value_setIf (test target : String) (hvalue : s.value source = joinList xs)
    (hxs : ∀ x ∈ xs, IsElement x) :
    (setIf s test target source).value target =
      if s.isTrue test then joinList xs else s.value target := by
  unfold setIf
  split
  · rw [Scope.value_set_self, expand_eq hvalue hxs]
  · rfl

/-- A program that is given replaces the one that was found. -/
theorem isElement_setIf {x : Option Text} (htarget : IsElement (s.value target))
    (hsource : s.value source = joinList x.toList) (hx : ∀ y ∈ x.toList, IsElement y) :
    IsElement ((setIf s source target source).value target) := by
  rw [value_setIf source target hsource hx]
  split
  · cases x with
    | none =>
        have htrue := isOff_of_isTrue ‹_› hsource
        cases htrue
    | some x =>
        change IsElement (joinList [x])
        rw [joinList_singleton]
        exact hx x List.mem_cons_self
  · exact htarget

end Scopes

section Parsed

structure Request.Elements (r : Request) : Prop where
  protoFiles : ∀ x ∈ r.protoFiles, IsElement x
  protoPath : ∀ x ∈ r.protoPath, IsElement x
  cppOut : ∀ x ∈ r.cppOut, IsElement x
  grpcOut : ∀ x ∈ r.grpcOut, IsElement x
  outputDirectory : ∀ x ∈ r.outputDirectory, IsElement x

theorem Request.Elements.chosen {r : Request} (h : r.Elements) {given : List Text}
    (hgiven : ∀ x ∈ given, IsElement x) : ∀ x ∈ r.chosen given, IsElement x := by
  unfold Request.chosen
  split
  · exact h.outputDirectory
  · exact hgiven

theorem request_elements {args : List Text} (hargs : ∀ x ∈ args, IsElement x) :
    (request args).Elements where
  protoFiles x hx := hargs x ((parseArguments_from _ _).multiValue hx)
  protoPath x hx := hargs x ((parseArguments_from _ _).multiValue hx)
  cppOut x hx := hargs x ((parseArguments_from _ _).multiValue hx)
  grpcOut x hx := hargs x ((parseArguments_from _ _).multiValue hx)
  outputDirectory x hx := hargs x ((parseArguments_from _ _).multiValue hx)

def argumentNames : List String :=
  (options ++ oneValueArguments ++ multiValueArguments).map ("ARG_" ++ ·)

variable {s : Scope} {args : List Text}

theorem map_fst_variables (p : ParsedArguments) :
    (p.variables "ARG" options oneValueArguments multiValueArguments).map Prod.fst = argumentNames := rfl

theorem expand_argn (hargs : ∀ x ∈ args, IsElement x) :
    (s.define "ARGN" (joinList args)).expand "ARGN" = args := by
  rw [Scope.expand, Scope.value_eq Scope.define_self, expandList_joinList hargs (.inr rfl)]

theorem nodup_argumentNames : argumentNames.Nodup := by decide

theorem parsedScope_sameBut : Scope.SameBut ("ARGN" :: argumentNames) s (parsedScope s args) :=
  Scope.sameBut_define.trans (map_fst_variables _ ▸ Scope.sameBut_setAll)

theorem value_parsedScope (hargs : ∀ x ∈ args, IsElement x) {name : String} {xs : List Text}
    (h : (name, xs) ∈
      (parseProtocArgs args).variables "ARG" options oneValueArguments multiValueArguments) :
    (parsedScope s args).value name = joinList xs := by
  refine Scope.value_setAll nodup_argumentNames ?_
  rwa [expand_argn hargs]

theorem value_multiValue (hargs : ∀ x ∈ args, IsElement x) (name : String)
    (hname : name ∈ multiValueArguments) :
    (parsedScope s args).value ("ARG_" ++ name) =
      joinList ((parseProtocArgs args).multiValue name.toList) :=
  value_parsedScope hargs (List.mem_append_right _ (List.mem_map.mpr ⟨name, hname, rfl⟩))

theorem value_oneValue (hargs : ∀ x ∈ args, IsElement x) (name : String)
    (hname : name ∈ oneValueArguments) :
    (parsedScope s args).value ("ARG_" ++ name) =
      joinList ((parseProtocArgs args).oneValue name.toList).toList :=
  value_parsedScope hargs
    (List.mem_append_left _ (List.mem_append_right _ (List.mem_map.mpr ⟨name, hname, rfl⟩)))

def optionText (given : Bool) : Text := if given then "TRUE".toList else "FALSE".toList

theorem value_option (hargs : ∀ x ∈ args, IsElement x) (name : String) (hname : name ∈ options) :
    (parsedScope s args).value ("ARG_" ++ name) =
      optionText (decide (name.toList ∈ (parseProtocArgs args).options)) := by
  refine (value_parsedScope hargs
    (List.mem_append_left _ (List.mem_append_left _ (List.mem_map.mpr ⟨name, hname, rfl⟩)))).trans ?_
  rw [joinList_singleton]
  by_cases hgiven : name.toList ∈ (parseProtocArgs args).options
  · rw [if_pos hgiven, decide_eq_true hgiven]
    rfl
  · rw [if_neg hgiven, decide_eq_false hgiven]
    rfl

structure ArgumentsIn (s : Scope) (r : Request) : Prop extends Caller s where
  protoFiles : s.value "ARG_PROTO_FILES" = joinList r.protoFiles
  protoPath : s.value "ARG_proto_path" = joinList r.protoPath
  cppOut : s.value "ARG_cpp_out" = joinList r.cppOut
  grpcOut : s.value "ARG_grpc_out" = joinList r.grpcOut
  outputDirectory : s.value "ARG_OUTPUT_DIRECTORY" = joinList r.outputDirectory
  fatalWarnings : s.value "ARG_fatal_warnings" = optionText r.fatalWarnings
  printFreeFieldNumbers : s.value "ARG_print_free_field_numbers" = optionText r.printFreeFieldNumbers
  protocExe : ∃ x : Option Text,
    s.value "ARG_PROTOC_EXE" = joinList x.toList ∧ ∀ y ∈ x.toList, IsElement y
  grpcPluginExe : ∃ x : Option Text,
    s.value "ARG_GRPC_PLUGIN_EXE" = joinList x.toList ∧ ∀ y ∈ x.toList, IsElement y

theorem argumentsIn_parsedScope (hs : Caller s) (hargs : ∀ x ∈ args, IsElement x) :
    ArgumentsIn (parsedScope s args) (request args) where
  undefined name hname := by
    have hout : ∀ n ∈ internalNames, n ∉ "ARGN" :: argumentNames := by decide
    rw [parsedScope_sameBut name (hout name hname)]
    exact hs.undefined name hname
  protoc := by
    obtain ⟨exe, hexe, hs⟩ := hs.protoc
    exact ⟨exe, hexe, (parsedScope_sameBut _ (by decide)).trans hs⟩
  plugin := by
    obtain ⟨exe, hexe, hs⟩ := hs.plugin
    exact ⟨exe, hexe, (parsedScope_sameBut _ (by decide)).trans hs⟩
  protoFiles := value_multiValue hargs "PROTO_FILES" (by decide)
  protoPath := value_multiValue hargs "proto_path" (by decide)
  cppOut := value_multiValue hargs "cpp_out" (by decide)
  grpcOut := value_multiValue hargs "grpc_out" (by decide)
  outputDirectory := value_multiValue hargs "OUTPUT_DIRECTORY" (by decide)
  fatalWarnings := value_option hargs "fatal_warnings" (by decide)
  printFreeFieldNumbers := value_option hargs "print_free_field_numbers" (by decide)
  protocExe := by
    refine ⟨_, value_oneValue hargs "PROTOC_EXE" (by decide), fun y hy => ?_⟩
    exact hargs y ((parseArguments_from _ _).oneValue (Option.mem_toList.mp hy))
  grpcPluginExe := by
    refine ⟨_, value_oneValue hargs "GRPC_PLUGIN_EXE" (by decide), fun y hy => ?_⟩
    exact hargs y ((parseArguments_from _ _).oneValue (Option.mem_toList.mp hy))

end Parsed

section SetUp

variable {s t : Scope} {r : Request} {name : String}

theorem setupExecutable_sameBut {target found argument : String} :
    Scope.SameBut [target] s (setupExecutable target found argument s) :=
  (Scope.sameBut_set.trans setIf_sameBut).mono (by simp)

theorem setupExecutables_sameBut :
    Scope.SameBut ["PROTOC_EXE", "GRPC_PLUGIN_EXE"] s (setupExecutables s) :=
  setupExecutable_sameBut.trans setupExecutable_sameBut

theorem setupFlags_sameBut :
    Scope.SameBut ["fatal_warnings", "print_free_field_numbers", "enable_codegen_trace"] s
      (setupFlags s) :=
  (setIf_sameBut.trans setIf_sameBut).trans setIf_sameBut

theorem setupOutputDirectory_sameBut :
    Scope.SameBut ["OUTPUT_DIRECTORY", "cpp_out", "grpc_out"] s (setupOutputDirectory s) := by
  unfold setupOutputDirectory
  split
  · exact (Scope.sameBut_set.trans Scope.sameBut_set).trans Scope.sameBut_set
  · exact Scope.SameBut.refl

theorem setupProtoPath_sameBut : Scope.SameBut ["proto_path", "PROTO_FILE_0"] s (setupProtoPath s) := by
  unfold setupProtoPath
  split
  · exact Scope.sameBut_set.mono (by decide)
  · exact (Scope.sameBut_define.trans Scope.sameBut_define).mono (by decide)

theorem bind_eq_ok {ε α β : Type} {x : Except ε α} {f : α → Except ε β} {b : β} :
    x >>= f = .ok b ↔ ∃ a, x = .ok a ∧ f a = .ok b := by
  cases x with
  | error e =>
      constructor
      · intro h
        cases h
      · rintro ⟨a, h, -⟩
        cases h
  | ok a =>
      constructor
      · exact fun h => ⟨a, rfl, h⟩
      · rintro ⟨a', h, hf⟩
        cases h
        exact hf

theorem exists_of_isOk {ε α : Type} {x : Except ε α} (h : x.isOk = true) : ∃ a, x = .ok a := by
  cases x with
  | error e => cases h
  | ok a => exact ⟨a, rfl⟩

theorem setupProtoFiles_eq_ok (h : setupProtoFiles s = .ok t) :
    t = s.set "PROTO_FILES" (s.expand "ARG_PROTO_FILES") ∧ s.isTrue "ARG_PROTO_FILES" = true := by
  unfold setupProtoFiles at h
  split at h
  · exact ⟨(Except.ok.inj h).symm, ‹_›⟩
  · cases h

theorem setupOut_eq_ok {argument out message : String} (h : setupOut argument out message s = .ok t) :
    t = setIf s argument out argument ∧ t.isTrue out = true := by
  unfold setupOut at h
  simp only at h
  split at h
  · obtain rfl := Except.ok.inj h
    exact ⟨rfl, ‹_›⟩
  · cases h

theorem isElement_setupExecutable {target found argument : String} (htarget : argument ≠ target)
    (hfound : ∃ exe, IsElement exe ∧ s.lookup found = some exe)
    (hargument : ∃ x : Option Text, s.value argument = joinList x.toList ∧ ∀ y ∈ x.toList, IsElement y) :
    IsElement ((setupExecutable target found argument s).value target) := by
  obtain ⟨exe, hexe, hfound⟩ := hfound
  obtain ⟨x, hx, hxs⟩ := hargument
  have hvalue : s.value found = joinList [exe] := by rw [Scope.value_eq hfound, joinList_singleton]
  have hexes : ∀ x ∈ [exe], IsElement x := fun x hx => List.mem_singleton.mp hx ▸ hexe
  refine isElement_setIf ?_ ((Scope.sameBut_set.value (by simpa using htarget)).trans hx) hxs
  rw [Scope.value_set_self, expand_eq hvalue hexes, joinList_singleton]
  exact hexe

theorem isElement_setupExecutables (hs : ArgumentsIn s r) :
    IsElement ((setupExecutables s).value "PROTOC_EXE") ∧
      IsElement ((setupExecutables s).value "GRPC_PLUGIN_EXE") := by
  have hfirst : Scope.SameBut ["PROTOC_EXE"] s
      (setupExecutable "PROTOC_EXE" "protobuf_protoc_EXEC" "ARG_PROTOC_EXE" s) := setupExecutable_sameBut
  constructor
  · rw [setupExecutables, setupExecutable_sameBut.value (by decide)]
    exact isElement_setupExecutable (by decide) hs.protoc hs.protocExe
  · refine isElement_setupExecutable (by decide) ?_ ?_
    · rw [hfirst _ (by decide)]
      exact hs.plugin
    · rw [hfirst.value (by decide)]
      exact hs.grpcPluginExe

theorem isTrue_setIf {source target : String} {given : Bool} (hvalue : s.value source = optionText given)
    (htarget : s.lookup target = none) : (setIf s source target source).isTrue target = given := by
  cases given with
  | false =>
      have htest : s.isTrue source = false := congrArg (fun v => !isOff v) hvalue
      rw [setIf, htest, if_neg Bool.false_ne_true, Scope.isTrue, Scope.value, htarget]
      rfl
  | true =>
      have htest : s.isTrue source = true := congrArg (fun v => !isOff v) hvalue
      rw [setIf, htest, if_pos rfl, Scope.isTrue, Scope.value_set_self, Scope.expand, hvalue]
      rfl

/-- A flag is set where its option was given, but for the one whose own variable is tested. -/
theorem isTrue_setupFlags (hfatal : s.value "ARG_fatal_warnings" = optionText r.fatalWarnings)
    (hprint : s.value "ARG_print_free_field_numbers" = optionText r.printFreeFieldNumbers)
    (hundefined : ∀ name ∈ ["fatal_warnings", "print_free_field_numbers", "enable_codegen_trace"],
      s.lookup name = none) :
    (setupFlags s).isTrue "fatal_warnings" = r.fatalWarnings ∧
      (setupFlags s).isTrue "print_free_field_numbers" = r.printFreeFieldNumbers ∧
      (setupFlags s).isTrue "enable_codegen_trace" = false := by
  have hfirst : Scope.SameBut ["fatal_warnings"] s
      (setIf s "ARG_fatal_warnings" "fatal_warnings" "ARG_fatal_warnings") := setIf_sameBut
  have hsecond : ∀ t, Scope.SameBut ["print_free_field_numbers"] t
      (setIf t "ARG_print_free_field_numbers" "print_free_field_numbers" "ARG_print_free_field_numbers") :=
    fun _ => setIf_sameBut
  have htrace : ∀ t : Scope, t.lookup "enable_codegen_trace" = none →
      t.isTrue "enable_codegen_trace" = false := by
    intro t ht
    rw [Scope.isTrue, Scope.value, ht]
    rfl
  have hundefined' := ((hfirst.trans (hsecond _)) "enable_codegen_trace" (by decide)).trans
    (hundefined _ (by decide))
  have hlast : setupFlags s = setIf (setIf s "ARG_fatal_warnings" "fatal_warnings" "ARG_fatal_warnings")
      "ARG_print_free_field_numbers" "print_free_field_numbers" "ARG_print_free_field_numbers" := by
    rw [setupFlags, setIf, if_neg]
    rw [htrace _ hundefined']
    exact Bool.false_ne_true
  rw [hlast]
  refine ⟨?_, ?_, htrace _ hundefined'⟩
  · rw [(hsecond _).isTrue (by decide)]
    exact isTrue_setIf hfatal (hundefined _ (by decide))
  · exact isTrue_setIf ((hfirst.value (by decide)).trans hprint)
      ((hfirst _ (by decide)).trans (hundefined _ (by decide)))

structure SetUp (s : Scope) (r : Request) : Prop where
  protocExe : IsElement (s.value "PROTOC_EXE")
  grpcPluginExe : IsElement (s.value "GRPC_PLUGIN_EXE")
  protoFiles : s.value "PROTO_FILES" = joinList r.protoFiles
  protoFiles_ne_nil : r.protoFiles ≠ []
  fatalWarnings : s.isTrue "fatal_warnings" = r.fatalWarnings
  printFreeFieldNumbers : s.isTrue "print_free_field_numbers" = r.printFreeFieldNumbers
  enableCodegenTrace : s.isTrue "enable_codegen_trace" = false
  cppOut : s.value "cpp_out" = joinList (r.chosen r.cppOut)
  cppOut_isTrue : s.isTrue "cpp_out" = true
  grpcOut : s.value "grpc_out" = joinList (r.chosen r.grpcOut)
  grpcOut_isTrue : s.isTrue "grpc_out" = true
  protoPath : s.value "proto_path" = joinList r.searched
  protocCommand : s.value "PROTOC_COMMAND" = []

/-- `OUTPUT_DIRECTORY` is the default of both output options. -/
theorem value_setupOutputDirectory (hvalue : s.value "ARG_OUTPUT_DIRECTORY" = joinList r.outputDirectory)
    (hr : r.Elements) (hundefined : ∀ out ∈ ["cpp_out", "grpc_out"], s.lookup out = none) :
    ∀ out ∈ ["cpp_out", "grpc_out"],
      (setupOutputDirectory s).value out = joinList r.outputDirectory ∨
        (setupOutputDirectory s).value out = [] := by
  intro out hout
  unfold setupOutputDirectory
  split
  · left
    have hset : (s.set "OUTPUT_DIRECTORY" r.outputDirectory).value "OUTPUT_DIRECTORY" =
        joinList r.outputDirectory :=
      Scope.value_set_self
    have hcpp : ((s.set "OUTPUT_DIRECTORY" r.outputDirectory).set "cpp_out" r.outputDirectory).value
        "OUTPUT_DIRECTORY" = joinList r.outputDirectory :=
        (Scope.sameBut_set.value (by decide)).trans hset
    simp only [expand_eq hvalue hr.outputDirectory, expand_eq hset hr.outputDirectory,
      expand_eq hcpp hr.outputDirectory]
    simp only [List.mem_cons, List.not_mem_nil, or_false] at hout
    rcases hout with rfl | rfl
    · exact (Scope.sameBut_set.value (by decide)).trans Scope.value_set_self
    · exact Scope.value_set_self
  · right
    rw [Scope.value, hundefined out hout]
    rfl

/-- An output option that passes its check holds the directories that were chosen. -/
theorem value_setupOut {argument out message : String} {given : List Text}
    (h : setupOut argument out message s = .ok t) (hargument : s.value argument = joinList given)
    (hgiven : ∀ x ∈ given, IsElement x)
    (hdefault : s.value out = joinList r.outputDirectory ∨ s.value out = []) :
    t.value out = joinList (r.chosen given) ∧ t.isTrue out = true := by
  obtain ⟨rfl, htrue⟩ := setupOut_eq_ok h
  refine ⟨?_, htrue⟩
  have hvalue := value_setIf argument out hargument hgiven
  have hcondition : s.isTrue argument = !isOff (joinList given) := congrArg (fun v => !isOff v) hargument
  rw [hcondition] at hvalue
  unfold Request.chosen
  cases hoff : isOff (joinList given) with
  | false =>
      rw [hoff] at hvalue
      exact hvalue
  | true =>
      rw [hoff] at hvalue
      rcases hdefault with hdefault | hdefault
      · exact hvalue.trans hdefault
      · rw [Scope.isTrue, hvalue.trans hdefault] at htrue
        cases htrue

/-- The two output options, from the arguments on. -/
theorem value_outputs (hs : s.value "ARG_cpp_out" = joinList r.cppOut ∧
      s.value "ARG_grpc_out" = joinList r.grpcOut ∧
      s.value "ARG_OUTPUT_DIRECTORY" = joinList r.outputDirectory)
    (hr : r.Elements) (hundefined : ∀ out ∈ ["cpp_out", "grpc_out"], s.lookup out = none) {u : Scope}
    (hcpp : setupCppOut (setupOutputDirectory s) = .ok t) (hgrpc : setupGrpcOut t = .ok u) :
    Scope.SameBut ["OUTPUT_DIRECTORY", "cpp_out", "grpc_out"] s u ∧
      (u.value "cpp_out" = joinList (r.chosen r.cppOut) ∧ u.isTrue "cpp_out" = true) ∧
      u.value "grpc_out" = joinList (r.chosen r.grpcOut) ∧ u.isTrue "grpc_out" = true := by
  have hdefault := value_setupOutputDirectory hs.2.2 hr hundefined
  have hs' : Scope.SameBut _ s (setupOutputDirectory s) := setupOutputDirectory_sameBut
  have ht : Scope.SameBut ["cpp_out"] (setupOutputDirectory s) t :=
    (setupOut_eq_ok hcpp).1 ▸ setIf_sameBut
  have hu : Scope.SameBut ["grpc_out"] t u := (setupOut_eq_ok hgrpc).1 ▸ setIf_sameBut
  have hcpp' := value_setupOut hcpp ((hs'.value (by decide)).trans hs.1) hr.cppOut
    (hdefault _ (by decide))
  have hgrpc' := value_setupOut (r := r) hgrpc
    (((hs'.trans ht).value (by decide)).trans hs.2.1) hr.grpcOut (by
      rw [ht.value (by decide)]
      exact hdefault _ (by decide))
  refine ⟨((hs'.trans ht).trans hu).mono (by decide), ?_, hgrpc'⟩
  exact ⟨(hu.value (by decide)).trans hcpp'.1, (hu.isTrue (by decide)).trans hcpp'.2⟩

theorem value_setupProtoPath (hargument : s.value "ARG_proto_path" = joinList r.protoPath)
    (hfiles : s.value "PROTO_FILES" = joinList r.protoFiles) (hr : r.Elements)
    (hne : r.protoFiles ≠ []) :
    (setupProtoPath s).value "proto_path" = joinList r.searched := by
  have hcondition : s.isTrue "ARG_proto_path" = !isOff (joinList r.protoPath) :=
    congrArg (fun v => !isOff v) hargument
  unfold setupProtoPath Request.searched
  rw [hcondition]
  cases hoff : isOff (joinList r.protoPath) with
  | false =>
      change (s.set "proto_path" (s.expand "ARG_proto_path")).value "proto_path" = _
      rw [Scope.value_set_self, expand_eq hargument hr.protoPath]
      rfl
  | true =>
      have hfirst : (expandList true (s.value "PROTO_FILES")).headD [] = r.firstProtoFile := by
        rw [hfiles, expandList_joinList hr.protoFiles (.inl hne)]
        rfl
      rw [hfirst]
      simp [Scope.value]

/-- **Set up.** Where the checks pass, every variable holds what the request says. -/
theorem setUp_of_ok (hs : ArgumentsIn s r) (hr : r.Elements) (h : setupProtocArgs s = .ok t) :
    SetUp t r := by
  obtain ⟨s₁, hprotoFiles, h⟩ := bind_eq_ok.mp h
  obtain ⟨s₂, hcppOut, h⟩ := bind_eq_ok.mp h
  obtain ⟨s₃, hgrpcOut, h⟩ := bind_eq_ok.mp h
  obtain rfl := Except.ok.inj h
  obtain ⟨hs₁, hfiles⟩ := setupProtoFiles_eq_ok hprotoFiles
  have hbefore : Scope.SameBut ["PROTOC_EXE", "GRPC_PLUGIN_EXE", "PROTO_FILES"] s s₁ := by
    rw [hs₁]
    exact setupExecutables_sameBut.trans Scope.sameBut_set
  have hflags : Scope.SameBut _ s₁ (setupFlags s₁) := setupFlags_sameBut
  have hset : s₁.value "PROTO_FILES" = joinList r.protoFiles := by
    have hargument := (setupExecutables_sameBut.value (s := s) (by decide)).trans hs.protoFiles
    rw [hs₁, Scope.value_set_self, expand_eq hargument hr.protoFiles]
  have hne : r.protoFiles ≠ [] := by
    intro hnil
    rw [setupExecutables_sameBut.isTrue (by decide), Scope.isTrue, hs.protoFiles, hnil] at hfiles
    cases hfiles
  have hflags' := isTrue_setupFlags (s := s₁) (r := r)
    ((hbefore.value (by decide)).trans hs.fatalWarnings)
    ((hbefore.value (by decide)).trans hs.printFreeFieldNumbers) fun name hname =>
      (hbefore name (by revert name; decide)).trans (hs.undefined name (by revert name; decide))
  have hboth := hbefore.trans hflags
  obtain ⟨houtputs, ⟨hcpp, hcppTrue⟩, hgrpc, hgrpcTrue⟩ := value_outputs
    ⟨(hboth.value (by decide)).trans hs.cppOut, (hboth.value (by decide)).trans hs.grpcOut,
      (hboth.value (by decide)).trans hs.outputDirectory⟩ hr (fun out hout =>
      (hboth out (by revert out; decide)).trans
      (hs.undefined out (by revert out; decide))) hcppOut hgrpcOut
  have hfiles₃ := ((hflags.trans houtputs).value (by decide)).trans hset
  have hpath : Scope.SameBut ["proto_path", "PROTO_FILE_0"] s₃ (setupProtoPath s₃) :=
    setupProtoPath_sameBut
  have hlast := houtputs.trans hpath
  have hexes : ∀ name ∈ ["PROTOC_EXE", "GRPC_PLUGIN_EXE"],
      (setupProtoPath s₃).value name = (setupExecutables s).value name := by
    intro name hname
    rw [(hflags.trans hlast).value (by revert name; decide), hs₁,
      Scope.sameBut_set.value (by revert name; decide)]
  obtain ⟨hexe, hplugin⟩ := isElement_setupExecutables hs
  exact
    { protocExe := by rwa [hexes _ (by decide)]
      grpcPluginExe := by rwa [hexes _ (by decide)]
      protoFiles := (hpath.value (by decide)).trans hfiles₃
      protoFiles_ne_nil := hne
      fatalWarnings := (hlast.isTrue (by decide)).trans hflags'.1
      printFreeFieldNumbers := (hlast.isTrue (by decide)).trans hflags'.2.1
      enableCodegenTrace := (hlast.isTrue (by decide)).trans hflags'.2.2
      cppOut := (hpath.value (by decide)).trans hcpp
      cppOut_isTrue := (hpath.isTrue (by decide)).trans hcppTrue
      grpcOut := (hpath.value (by decide)).trans hgrpc
      grpcOut_isTrue := (hpath.isTrue (by decide)).trans hgrpcTrue
      protoPath := value_setupProtoPath (((hboth.trans houtputs).value (by decide)).trans hs.protoPath)
        hfiles₃ hr hne
      protocCommand := by
        rw [Scope.value, (hboth.trans hlast) _ (by decide), hs.undefined _ (by decide)]
        rfl }

end SetUp

section Command

variable {s t : Scope} {r : Request} {xs ys : List Text}

structure Builds (s t : Scope) (xs : List Text) : Prop where
  sameBut : Scope.SameBut ["PROTOC_COMMAND"] s t
  value : t.value "PROTOC_COMMAND" = joinList xs
  ne_nil : ∃ x ∈ xs, x ≠ []

theorem Builds.append (h : Builds s t xs) {argument : Text} (hargument : argument = joinList ys)
    (hys : ys ≠ []) : Builds s (t.append "PROTOC_COMMAND" [argument]) (xs ++ ys) where
  sameBut := (h.sameBut.trans Scope.sameBut_append).mono (by decide)
  value := by
    obtain ⟨x, hx, hne⟩ := h.ne_nil
    have hxs : xs ≠ [] := List.ne_nil_of_mem hx
    rw [Scope.value_append_self h.value fun _ => joinList_ne_nil hx hne, hargument,
      joinList_append hxs (List.cons_ne_nil _ _), joinList_singleton, joinList_append hxs hys]
  ne_nil := by
    obtain ⟨x, hx, hne⟩ := h.ne_nil
    exact ⟨x, List.mem_append_left _ hx, hne⟩

theorem Builds.appendIf (h : Builds s t xs) {test : String} {given : Bool} {argument : Text}
    (htest : test ∉ ["PROTOC_COMMAND"]) (hgiven : s.isTrue test = given)
    (hargument : argument = joinList ys)
    (hys : ys ≠ []) : Builds s (appendIf t test argument) (xs ++ if given then ys else []) := by
  unfold ProtoTargets.appendIf
  rw [h.sameBut.isTrue htest, hgiven]
  cases given with
  | false =>
      rw [if_neg Bool.false_ne_true, if_neg Bool.false_ne_true, List.append_nil]
      exact h
  | true => exact h.append hargument hys

theorem Builds.congr (h : Builds s t xs) (hxs : xs = ys) : Builds s t ys := hxs ▸ h

/-- An option and its directories, as they are joined in one string. -/
theorem append_joinList_eq (name : String) (hxs : xs ≠ []) :
    name.toList ++ joinList xs = joinList (Request.optionArguments name xs) := by
  obtain ⟨x, xs, rfl⟩ := List.exists_cons_of_ne_nil hxs
  exact append_joinList x

theorem optionArguments_ne_nil (name : String) (hxs : xs ≠ []) :
    Request.optionArguments name xs ≠ [] := by
  obtain ⟨x, xs, rfl⟩ := List.exists_cons_of_ne_nil hxs
  exact List.cons_ne_nil _ _

theorem ne_nil_of_isTrue {name : String} (h : s.isTrue name = true)
    (hvalue : s.value name = joinList xs) :
    xs ≠ [] := by
  rintro rfl
  have hoff := isOff_of_isTrue h hvalue
  cases hoff

theorem Request.searched_ne_nil (r : Request) : r.searched ≠ [] := by
  unfold Request.searched
  split
  · exact List.cons_ne_nil _ _
  · intro hnil
    apply ‹¬ _›
    rw [hnil]
    rfl

/-- **The command.** Joined from the program, the plugin and the arguments of the request. -/
theorem builds_makeProtocCommand (hs : SetUp s r) :
    Builds s (makeProtocCommand s) (s.value "PROTOC_EXE" ::
      ("--plugin=protoc-gen-grpc=".toList ++ s.value "GRPC_PLUGIN_EXE") :: r.arguments) := by
  have hcpp := ne_nil_of_isTrue hs.cppOut_isTrue hs.cppOut
  have hgrpc := ne_nil_of_isTrue hs.grpcOut_isTrue hs.grpcOut
  have hpath : s.isTrue "proto_path" = !isOff (joinList r.searched) :=
    congrArg (fun v => !isOff v) hs.protoPath
  have hjoined : ∀ {t : Scope} {zs} (option name : String) {ds : List Text}, Builds s t zs →
      name ∉ ["PROTOC_COMMAND"] → s.value name = joinList ds → ds ≠ [] →
      option.toList ++ t.value name = joinList (Request.optionArguments option ds) := by
    intro t zs option name ds ht hname hvalue hds
    rw [ht.sameBut.value hname, hvalue, append_joinList_eq option hds]
  have h₁ : Builds s (s.append "PROTOC_COMMAND" [s.value "PROTOC_EXE"]) [s.value "PROTOC_EXE"] :=
    { sameBut := Scope.sameBut_append
      value := Scope.value_append_self (show _ = joinList [] from hs.protocCommand) fun h => absurd rfl h
      ne_nil := ⟨_, List.mem_cons_self, hs.protocExe.ne_nil⟩ }
  have hplugin : "--plugin=protoc-gen-grpc=".toList ++
        (s.append "PROTOC_COMMAND" [s.value "PROTOC_EXE"]).value "GRPC_PLUGIN_EXE" =
      joinList ["--plugin=protoc-gen-grpc=".toList ++ s.value "GRPC_PLUGIN_EXE"] := by
    rw [joinList_singleton, h₁.sameBut.value (by decide)]
  have h₂ := h₁.append hplugin (List.cons_ne_nil _ _)
  have h₃ := h₂.appendIf (by decide) hs.fatalWarnings (joinList_singleton "--fatal_warnings".toList).symm
    (List.cons_ne_nil _ _)
  have h₄ := h₃.appendIf (by decide) hs.printFreeFieldNumbers
    (joinList_singleton "--print_free_field_numbers".toList).symm (List.cons_ne_nil _ _)
  have h₅ := h₄.appendIf (by decide) hs.enableCodegenTrace
    (joinList_singleton "--enable_codegen_trace".toList).symm (List.cons_ne_nil _ _)
  have h₆ := h₅.appendIf (by decide) hs.cppOut_isTrue
    (hjoined "--cpp_out=" "cpp_out" h₅ (by decide) hs.cppOut hcpp) (optionArguments_ne_nil _ hcpp)
  have h₇ := h₆.appendIf (by decide) hs.grpcOut_isTrue
    (hjoined "--grpc_out=" "grpc_out" h₆ (by decide) hs.grpcOut hgrpc) (optionArguments_ne_nil _ hgrpc)
  have h₈ := h₇.appendIf (by decide) hpath
    (hjoined "--proto_path=" "proto_path" h₇ (by decide) hs.protoPath r.searched_ne_nil)
    (optionArguments_ne_nil _ r.searched_ne_nil)
  have h₉ := h₈.append ((h₈.sameBut.value (by decide)).trans hs.protoFiles) hs.protoFiles_ne_nil
  unfold makeProtocCommand
  refine h₉.congr ?_
  unfold Request.arguments Request.flagArguments Request.protoPathArguments
  cases isOff (joinList r.searched) <;>
    simp only [Bool.not_true, Bool.not_false, Bool.false_eq_true, if_false, if_true, List.append_assoc,
      List.cons_append, List.nil_append, List.append_nil]

end Command

end EasyGrpc.ProtoTargets
