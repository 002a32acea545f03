import EasyGrpc.Proof.ProtocScope

namespace EasyGrpc.ProtoTargets

open CMake Protoc

/-- The command line, read back, is the request. -/
structure Carries (r : Request) (c : CommandLine) : Prop where
  fatalWarnings : "--fatal_warnings".toList ∈ c.flags ↔ r.fatalWarnings = true
  printFreeFieldNumbers : "--print_free_field_numbers".toList ∈ c.flags ↔ r.printFreeFieldNumbers = true
  enableCodegenTrace : "--enable_codegen_trace".toList ∈ c.flags ↔ r.enableCodegenTrace = true
  cppOut : c.cppOut = r.out r.cppOut
  grpcOut : c.grpcOut = r.out r.grpcOut
  protoPath : c.protoPath = r.searchPath
  inputFiles : c.inputFiles = r.protoFiles

/-- `protoc`, run with `PROTOC_COMMAND`, is asked what the caller asked. -/
def CommandCarries (s : Scope) (r : Request) : Prop :=
  ∃ c, readArguments (s.expand "PROTOC_COMMAND").tail = some c ∧ Carries r c

/-- One directory, and none that `if()` takes for false. -/
def OneDirectory (ds : List Text) : Prop := ∃ d, ds = [d] ∧ isOff d = false

structure Renderable (r : Request) : Prop where
  noTrace : r.enableCodegenTrace = false
  cppOut : OneDirectory (r.out r.cppOut)
  grpcOut : OneDirectory (r.out r.grpcOut)
  protoPath : OneDirectory r.protoPath ∨ r.protoPath = [] ∧
    (parentPath r.firstProtoFile = [] ∨
      isOff (parentPath r.firstProtoFile) = false ∧ IsElement (parentPath r.firstProtoFile))
  inputFiles : ∀ file ∈ r.protoFiles, IsInput file

/-- No directory is spelled like an option. -/
def Request.PlainDirectories (r : Request) : Prop :=
  ∀ d ∈ r.cppOut ++ r.grpcOut ++ r.outputDirectory ++ r.protoPath, d.head? ≠ some '-'

variable {s t : Scope} {r : Request} {args : List Text}

theorem protocCommand_eq_ok (h : protocCommand s args = .ok t) :
    ∃ u, setupProtocArgs (parsedScope s args) = .ok u ∧ t = makeProtocCommand u := by
  unfold protocCommand at h
  simp only at h
  split at h
  · cases h
  · split at h
    · cases h
    · cases hsetup : setupProtocArgs (parsedScope s args) with
      | error e =>
          rw [hsetup] at h
          cases h
      | ok u =>
          rw [hsetup] at h
          exact ⟨u, rfl, (Except.ok.inj h).symm⟩

/-- What an accepted call leaves. -/
theorem setUp_of_protocCommand (hs : Caller s) (hargs : ∀ x ∈ args, IsElement x)
    (h : protocCommand s args = .ok t) : ∃ u, SetUp u (request args) ∧ t = makeProtocCommand u := by
  obtain ⟨u, hu, rfl⟩ := protocCommand_eq_ok h
  exact ⟨u, setUp_of_ok (argumentsIn_parsedScope hs hargs) (request_elements hargs) hu, rfl⟩

section Reading

variable {c : CommandLine} {ds fs : List Text}

theorem readArguments_plugin (plugin : Text) :
    readArguments (("--plugin=protoc-gen-grpc=".toList ++ plugin) :: fs) =
      (readArguments fs).map (.addOption "--plugin".toList ("protoc-gen-grpc=".toList ++ plugin)) :=
  readArguments_option "plugin".toList _ (by decide)

theorem readArguments_cppOut (d : Text) : readArguments (("--cpp_out=".toList ++ d) :: fs) =
    (readArguments fs).map (.addOption "--cpp_out".toList d) :=
  readArguments_option "cpp_out".toList d (by decide)

theorem readArguments_grpcOut (d : Text) : readArguments (("--grpc_out=".toList ++ d) :: fs) =
    (readArguments fs).map (.addOption "--grpc_out".toList d) :=
  readArguments_option "grpc_out".toList d (by decide)

theorem readArguments_protoPath (d : Text) : readArguments (("--proto_path=".toList ++ d) :: fs) =
    (readArguments fs).map (.addOption "--proto_path".toList d) :=
  readArguments_option "proto_path".toList d (by decide)

theorem readArguments_flagArguments (r : Request) :
    readArguments (r.flagArguments ++ fs) = (readArguments fs).map (.addFlags r.flagArguments) := by
  refine readArguments_flags fun name hname => ?_
  unfold Request.flagArguments at hname
  rcases List.mem_append.mp hname with hname | hname <;> split at hname
  · rw [List.mem_singleton.mp hname]
    rfl
  · cases hname
  · rw [List.mem_singleton.mp hname]
    rfl
  · cases hname

/-- The options of the command line, by name. -/
theorem values_of_options {plugin d g : Text} {ps : List Text}
    (h : c.options = ("--plugin".toList, plugin) ::
      ("--cpp_out".toList, d) :: ("--grpc_out".toList, g) :: ps.map (Prod.mk "--proto_path".toList)) :
    c.cppOut = [d] ∧ c.grpcOut = [g] ∧ c.protoPath = if ps = [] then [['.']] else ps := by
  have hpath : c.valuesOf ["--proto_path".toList, "-I".toList] = ps := by
    simp [CommandLine.valuesOf, h, List.filter_map, Function.comp_def]
  refine ⟨?_, ?_, ?_⟩
  · simp [CommandLine.cppOut, CommandLine.valuesOf, h, List.filter_map, Function.comp_def]
  · simp [CommandLine.grpcOut, CommandLine.valuesOf, h, List.filter_map, Function.comp_def]
  · rw [CommandLine.protoPath, hpath]

/-- What follows the directories of both output options, none of which is read as an option. -/
theorem readArguments_outputs {cs gs : List Text} (hcs : cs ≠ []) (hgs : gs ≠ [])
    (hdash : ∀ d ∈ cs.tail ++ gs.tail, d.head? ≠ some '-')
    (h : readArguments (Request.optionArguments "--cpp_out=" cs ++
      (Request.optionArguments "--grpc_out=" gs ++ fs)) = some c) :
    ∃ c', readArguments fs = some c' ∧ c.inputFiles = cs.tail ++ (gs.tail ++ c'.inputFiles) ∧
      c.flags = c'.flags ∧
      c.options =
        ("--cpp_out".toList, cs.headD []) :: ("--grpc_out".toList, gs.headD []) :: c'.options := by
  obtain ⟨d, cs, rfl⟩ := List.exists_cons_of_ne_nil hcs
  obtain ⟨g, gs, rfl⟩ := List.exists_cons_of_ne_nil hgs
  change readArguments (("--cpp_out=".toList ++ d) :: (cs ++ _)) = some c at h
  rw [readArguments_cppOut] at h
  obtain ⟨c₁, h₁, rfl⟩ := Option.map_eq_some_iff.mp h
  obtain ⟨c₂, h₂, rfl⟩ := readArguments_noDash (fun x hx => hdash x (List.mem_append_left _ hx)) h₁
  change readArguments (("--grpc_out=".toList ++ g) :: (gs ++ _)) = some c₂ at h₂
  rw [readArguments_grpcOut] at h₂
  obtain ⟨c₃, h₃, rfl⟩ := Option.map_eq_some_iff.mp h₂
  obtain ⟨c₄, h₄, rfl⟩ := readArguments_noDash (fun x hx => hdash x (List.mem_append_right _ hx)) h₃
  exact ⟨c₄, h₄, rfl, rfl, rfl⟩

end Reading

section Rendering

variable {u : Scope}

theorem mem_flagArguments (r : Request) :
    ("--fatal_warnings".toList ∈ r.flagArguments ↔ r.fatalWarnings = true) ∧
      ("--print_free_field_numbers".toList ∈ r.flagArguments ↔ r.printFreeFieldNumbers = true) ∧
      "--enable_codegen_trace".toList ∉ r.flagArguments := by
  unfold Request.flagArguments
  cases r.fatalWarnings <;> cases r.printFreeFieldNumbers <;> decide

theorem isElement_optionArguments (name : String) {ds : List Text} (hds : ∀ d ∈ ds, IsElement d)
    (hsemicolon : ';' ∉ name.toList) (hnesting : nesting name.toList = 0) :
    ∀ x ∈ Request.optionArguments name ds, IsElement x := by
  intro x hx
  cases ds with
  | nil => cases hx
  | cons d ds =>
      rcases List.mem_cons.mp hx with rfl | hx
      · exact (hds d List.mem_cons_self).append hsemicolon hnesting
      · exact hds x (List.mem_cons_of_mem _ hx)

/-- The arguments up to the search path are what the macros put there. Those after it may be divided
elsewhere. -/
theorem expand_protocCommand (hs : SetUp u r) (hr : r.Elements) :
    ((makeProtocCommand u).expand "PROTOC_COMMAND").tail =
      ("--plugin=protoc-gen-grpc=".toList ++ u.value "GRPC_PLUGIN_EXE") ::
        (r.flagArguments ++ (Request.optionArguments "--cpp_out=" (r.chosen r.cppOut) ++
          (Request.optionArguments "--grpc_out=" (r.chosen r.grpcOut) ++
            expandList false (joinList (r.protoPathArguments ++ r.protoFiles))))) := by
  have hplugin : IsElement ("--plugin=protoc-gen-grpc=".toList ++ u.value "GRPC_PLUGIN_EXE") :=
    hs.grpcPluginExe.append (by decide) (by decide)
  have hflags : ∀ x ∈ r.flagArguments, IsElement x := by
    unfold Request.flagArguments
    cases r.fatalWarnings <;> cases r.printFreeFieldNumbers <;> decide
  have hcpp := isElement_optionArguments "--cpp_out=" (hr.chosen hr.cppOut) (by decide) (by decide)
  have hgrpc := isElement_optionArguments "--grpc_out=" (hr.chosen hr.grpcOut) (by decide) (by decide)
  have hfront : ∀ x ∈ u.value "PROTOC_EXE" ::
      ("--plugin=protoc-gen-grpc=".toList ++ u.value "GRPC_PLUGIN_EXE") :: (r.flagArguments ++
        (Request.optionArguments "--cpp_out=" (r.chosen r.cppOut) ++
          Request.optionArguments "--grpc_out=" (r.chosen r.grpcOut))), IsElement x := by
    simp only [List.mem_cons, List.mem_append]
    rintro x (rfl | rfl | hx | hx | hx)
    · exact hs.protocExe
    · exact hplugin
    · exact hflags x hx
    · exact hcpp x hx
    · exact hgrpc x hx
  have hne : r.protoPathArguments ++ r.protoFiles ≠ [] :=
    List.append_ne_nil_of_right_ne_nil _ hs.protoFiles_ne_nil
  have hvalue := (builds_makeProtocCommand hs).value
  rw [Scope.expand, hvalue]
  have hexpand := @expandList_append false _ _ hfront hne
  simp only [List.cons_append, List.append_assoc] at hexpand
  rw [Request.arguments]
  simp only [List.append_assoc]
  rw [hexpand, List.tail_cons]

/-- A request with one usable directory is what the macros choose. -/
theorem chosen_eq_out {given : List Text} (h : OneDirectory (r.out given)) :
    r.chosen given = r.out given := by
  obtain ⟨d, hd, hoff⟩ := h
  unfold Request.chosen Request.out at *
  by_cases hgiven : given = []
  · rw [if_pos hgiven, if_pos (by rw [hgiven]; rfl)]
  · rw [if_neg hgiven] at hd
    rw [if_neg hgiven, hd, joinList_singleton, hoff, if_neg Bool.false_ne_true]

/-- Where the search path can be rendered, one directory is, or none if it is the current one. -/
theorem Renderable.searched (h : Renderable r) (hr : r.Elements) :
    ∃ p, r.searched = [p] ∧ (if isOff p then [['.']] else [p]) = r.searchPath ∧
      (isOff p = false → IsElement p) := by
  rcases h.protoPath with ⟨d, hd, hoff⟩ | ⟨hnil, hparent⟩
  · refine ⟨d, ?_, ?_, fun _ => hr.protoPath d (hd ▸ List.mem_cons_self)⟩
    · rw [Request.searched, hd, joinList_singleton, hoff, if_neg Bool.false_ne_true]
    · rw [hoff, if_neg Bool.false_ne_true, Request.searchPath, hd, if_neg (List.cons_ne_nil _ _)]
  · refine ⟨parentPath r.firstProtoFile, ?_, ?_, ?_⟩
    · rw [Request.searched, hnil]
      rfl
    · rw [Request.searchPath, if_pos hnil, Request.directoryOf]
      rcases hparent with hparent | ⟨hoff, -⟩
      · rw [hparent]
        rfl
      · rw [hoff, if_neg Bool.false_ne_true, if_neg (ne_nil_of_isOff_eq_false hoff)]
    · intro hoff
      rcases hparent with hparent | ⟨-, hparent⟩
      · exact absurd hparent (ne_nil_of_isOff_eq_false hoff)
      · exact hparent

theorem readArguments_protoPathArguments {p : Text} (hp : r.searched = [p])
    (hfiles : ∀ file ∈ r.protoFiles, IsInput file) :
    ∃ c, readArguments (r.protoPathArguments ++ r.protoFiles) = some c ∧ c.inputFiles = r.protoFiles ∧
      c.flags = [] ∧ c.options = (if isOff p then [] else [p]).map (Prod.mk "--proto_path".toList) := by
  have hread : readArguments (r.protoFiles ++ []) = some (CommandLine.addInputFiles r.protoFiles {}) :=
    readArguments_inputFiles hfiles
  rw [List.append_nil] at hread
  unfold Request.protoPathArguments
  rw [hp, joinList_singleton]
  cases isOff p with
  | true => exact ⟨_, hread, List.append_nil _, rfl, rfl⟩
  | false =>
      refine ⟨.addOption "--proto_path".toList p (.addInputFiles r.protoFiles {}), ?_, List.append_nil _,
        rfl, rfl⟩
      change readArguments (("--proto_path=".toList ++ p) :: r.protoFiles) = _
      rw [readArguments_protoPath, hread]
      rfl

/-- What is read where each option has one directory. -/
theorem exists_readArguments (hs : SetUp u r) (hr : r.Elements) {d g p : Text}
    (hcpp : r.chosen r.cppOut = [d])
    (hgrpc : r.chosen r.grpcOut = [g]) (hp : r.searched = [p]) (helement : isOff p = false → IsElement p)
    (hfiles : ∀ file ∈ r.protoFiles, IsInput file) :
    ∃ c, readArguments ((makeProtocCommand u).expand "PROTOC_COMMAND").tail = some c ∧
      c.flags = r.flagArguments ∧ c.inputFiles = r.protoFiles ∧ c.cppOut = [d] ∧ c.grpcOut = [g] ∧
      c.protoPath = if isOff p then [['.']] else [p] := by
  have helements : ∀ x ∈ r.protoPathArguments ++ r.protoFiles, IsElement x := by
    intro x hx
    rcases List.mem_append.mp hx with hx | hx
    · unfold Request.protoPathArguments at hx
      rw [hp, joinList_singleton] at hx
      cases hoff : isOff p with
      | true =>
          rw [hoff, if_pos rfl] at hx
          cases hx
      | false =>
          rw [hoff, if_neg Bool.false_ne_true] at hx
          refine isElement_optionArguments _ ?_ (by decide) (by decide) x hx
          exact fun d hd => List.mem_singleton.mp hd ▸ helement hoff
    · exact hr.protoFiles x hx
  obtain ⟨cl, hread, hinput, hflags, hoptions⟩ := readArguments_protoPathArguments hp hfiles
  have hargs := expand_protocCommand hs hr
  rw [expandList_joinList helements (.inr rfl), hcpp, hgrpc] at hargs
  let plugin := "protoc-gen-grpc=".toList ++ u.value "GRPC_PLUGIN_EXE"
  let whole := CommandLine.addOption "--plugin".toList plugin
    (.addFlags r.flagArguments (.addOption "--cpp_out".toList d (.addOption "--grpc_out".toList g cl)))
  have hwhole : readArguments ((makeProtocCommand u).expand "PROTOC_COMMAND").tail = some whole := by
    rw [hargs, readArguments_plugin, readArguments_flagArguments]
    change Option.map _ (Option.map _ (readArguments (("--cpp_out=".toList ++ d) ::
      ("--grpc_out=".toList ++ g) :: (r.protoPathArguments ++ r.protoFiles)))) = _
    rw [readArguments_cppOut, readArguments_grpcOut, hread]
    rfl
  have hoptions' : whole.options = ("--plugin".toList, plugin) :: ("--cpp_out".toList, d) ::
      ("--grpc_out".toList, g) :: (if isOff p then [] else [p]).map (Prod.mk "--proto_path".toList) := by
    rw [← hoptions]
    rfl
  have hflags' : whole.flags = r.flagArguments := by
    change r.flagArguments ++ cl.flags = _
    rw [hflags, List.append_nil]
  obtain ⟨hcppOut, hgrpcOut, hprotoPath⟩ := values_of_options hoptions'
  refine ⟨whole, hwhole, hflags', hinput, hcppOut, hgrpcOut, ?_⟩
  rw [hprotoPath]
  cases isOff p <;> rfl

/-- **The command carries the request** where each part of it survives the macros. -/
theorem carries_of_renderable (hs : SetUp u r) (hr : r.Elements) (h : Renderable r) :
    CommandCarries (makeProtocCommand u) r := by
  obtain ⟨d, hd, hdoff⟩ := h.cppOut
  obtain ⟨g, hg, hgoff⟩ := h.grpcOut
  obtain ⟨p, hp, hpath, helement⟩ := h.searched hr
  obtain ⟨c, hread, hflags, hinput, hcppOut, hgrpcOut, hprotoPath⟩ := exists_readArguments hs hr
    ((chosen_eq_out h.cppOut).trans hd) ((chosen_eq_out h.grpcOut).trans hg) hp helement h.inputFiles
  obtain ⟨hfatal, hprint, htrace⟩ := mem_flagArguments r
  refine ⟨c, hread, ?_⟩
  constructor
  · rw [hflags, hfatal]
  · rw [hflags, hprint]
  · rw [hflags, h.noTrace]
    exact iff_of_false htrace Bool.false_ne_true
  · rw [hcppOut, hd]
  · rw [hgrpcOut, hg]
  · rw [hprotoPath, hpath]
  · exact hinput

/-- The directories after the first one of an output option are read as files. -/
theorem Request.PlainDirectories.chosen (hplain : r.PlainDirectories) :
    ∀ d ∈ (r.chosen r.cppOut).tail ++ (r.chosen r.grpcOut).tail, d.head? ≠ some '-' := by
  have hchosen : ∀ {given d}, (d ∈ given → d.head? ≠ some '-') → d ∈ r.chosen given →
      d.head? ≠ some '-' := by
    intro given d hgiven hd
    unfold Request.chosen at hd
    split at hd
    · exact hplain d (by simp [hd])
    · exact hgiven hd
  intro d hd
  rcases List.mem_append.mp hd with hd | hd
  · exact hchosen (fun h => hplain d (by simp [h])) (List.mem_of_mem_tail hd)
  · exact hchosen (fun h => hplain d (by simp [h])) (List.mem_of_mem_tail hd)

/-- What is read of the command, from its options on. -/
theorem readArguments_protocCommand (hs : SetUp u r) (hr : r.Elements)
    (hdash : ∀ d ∈ (r.chosen r.cppOut).tail ++ (r.chosen r.grpcOut).tail, d.head? ≠ some '-')
    {c : CommandLine} (h : readArguments ((makeProtocCommand u).expand "PROTOC_COMMAND").tail = some c) :
    ∃ c', readArguments (expandList false (joinList (r.protoPathArguments ++ r.protoFiles))) = some c' ∧
      c.inputFiles = (r.chosen r.cppOut).tail ++ ((r.chosen r.grpcOut).tail ++ c'.inputFiles) ∧
      c.flags = r.flagArguments ++ c'.flags ∧
      ∃ plugin, c.options = ("--plugin".toList, plugin) ::
        ("--cpp_out".toList, (r.chosen r.cppOut).headD []) ::
        ("--grpc_out".toList, (r.chosen r.grpcOut).headD []) :: c'.options := by
  rw [expand_protocCommand hs hr, readArguments_plugin] at h
  obtain ⟨c₁, h₁, rfl⟩ := Option.map_eq_some_iff.mp h
  rw [readArguments_flagArguments] at h₁
  obtain ⟨c₂, h₂, rfl⟩ := Option.map_eq_some_iff.mp h₁
  obtain ⟨c', hc', hinput, hflags, hoptions⟩ :=
    readArguments_outputs (ne_nil_of_isTrue hs.cppOut_isTrue hs.cppOut)
    (ne_nil_of_isTrue hs.grpcOut_isTrue hs.grpcOut) hdash h₂
  refine ⟨c', hc', hinput, ?_, "protoc-gen-grpc=".toList ++ u.value "GRPC_PLUGIN_EXE",
    congrArg _ hoptions⟩
  change r.flagArguments ++ c₂.flags = _
  rw [hflags]

theorem Request.Elements.noSemicolon_parentPath (hr : r.Elements) (hne : r.protoFiles ≠ []) :
    ';' ∉ parentPath r.firstProtoFile := by
  obtain ⟨f, fs, hfs⟩ := List.exists_cons_of_ne_nil hne
  have hfirst : IsElement r.firstProtoFile := by
    rw [Request.firstProtoFile, hfs]
    exact hr.protoFiles f (hfs ▸ List.mem_cons_self)
  exact fun h => hfirst.noSemicolon (isPrefix_parentPath.subset h)

theorem Request.Elements.noSemicolon_searched (hr : r.Elements) (hne : r.protoFiles ≠ []) :
    ∀ d ∈ r.searched, ';' ∉ d := by
  intro d hd
  unfold Request.searched at hd
  split at hd
  · rw [List.mem_singleton.mp hd]
    exact Request.Elements.noSemicolon_parentPath hr hne
  · exact (hr.protoPath d hd).noSemicolon

theorem Request.Elements.noSemicolon_searchPath (hr : r.Elements) (hne : r.protoFiles ≠ []) :
    ∀ d ∈ r.searchPath, ';' ∉ d := by
  intro d hd
  unfold Request.searchPath at hd
  split at hd
  · rw [List.mem_singleton.mp hd, Request.directoryOf]
    split
    · decide
    · exact Request.Elements.noSemicolon_parentPath hr hne
  · exact (hr.protoPath d hd).noSemicolon

/-- A search path that a list cannot hold is not the value that `protoc` reads. -/
theorem isElement_searched (hr : r.Elements) (hne : r.protoFiles ≠ [])
    (hoff : isOff (joinList r.searched) = false) {c : CommandLine}
    (hread : readArguments (expandList false (joinList (r.protoPathArguments ++ r.protoFiles))) = some c)
    (hvalues : ∀ v, ("--proto_path".toList, v) ∈ c.options → ';' ∉ v) :
    ∀ d ∈ r.searched, IsElement d := by
  by_cases hgiven : isOff (joinList r.protoPath) = true
  · have hsearched : r.searched = [parentPath r.firstProtoFile] := if_pos hgiven
    have hsemicolon := Request.Elements.noSemicolon_parentPath hr hne
    rw [hsearched, joinList_singleton] at hoff
    intro d hd
    rw [hsearched] at hd
    obtain rfl := List.mem_singleton.mp hd
    by_contra hnot
    have hbad : nesting (parentPath r.firstProtoFile) ≠ 0 ∨
        (parentPath r.firstProtoFile).getLast? = some '\\' := by
      by_contra hgood
      rw [not_or, not_not] at hgood
      exact hnot ⟨ne_nil_of_isOff_eq_false hoff, hsemicolon, hgood.1, hgood.2⟩
    obtain ⟨f, fs, hfs⟩ := List.exists_cons_of_ne_nil hne
    obtain ⟨v, rest, hexpand, hv⟩ := expandFrom_unsplit (s := parentPath r.firstProtoFile)
      (t := joinList r.protoFiles) hsemicolon hbad
    have hargs : expandList false (joinList (r.protoPathArguments ++ r.protoFiles)) =
        ("--proto_path=".toList ++ v) :: rest := by
      rw [Request.protoPathArguments, hsearched, joinList_singleton, hoff, if_neg Bool.false_ne_true,
        ← hexpand, hfs]
      change expandList false (joinList (("--proto_path=".toList ++ _) :: f :: fs)) = _
      rw [joinList_cons_cons, List.append_assoc, expandList,
        expandFrom_append (by decide) (fun _ => by decide)]
      rfl
    rw [hargs, readArguments_protoPath] at hread
    obtain ⟨c', -, rfl⟩ := Option.map_eq_some_iff.mp hread
    exact hvalues v List.mem_cons_self hv
  · have hsearched : r.searched = r.protoPath := if_neg hgiven
    exact hsearched ▸ hr.protoPath

theorem Request.PlainDirectories.searched (hplain : r.PlainDirectories) {p : Text} {ps : List Text}
    (hsearched : r.searched = p :: ps) : ∀ d ∈ ps, d.head? ≠ some '-' := by
  intro d hd
  unfold Request.searched at hsearched
  split at hsearched
  · rw [(List.cons.inj hsearched).2.symm] at hd
    cases hd
  · refine hplain d (List.mem_append_right _ ?_)
    rw [hsearched]
    exact List.mem_cons_of_mem _ hd

/-- What is read from the search path on, where every argument is divided off. -/
theorem readArguments_searched (hr : r.Elements) (hplain : r.PlainDirectories) {c : CommandLine}
    (helements : isOff (joinList r.searched) = false → ∀ d ∈ r.searched, IsElement d)
    (hfiles : ∀ file ∈ r.protoFiles, IsInput file)
    (hread :
      readArguments (expandList false (joinList (r.protoPathArguments ++ r.protoFiles))) = some c) :
    ∃ ps, c.inputFiles = ps ++ r.protoFiles ∧ c.flags = [] ∧
      ∃ ds, c.options = ds.map (Prod.mk "--proto_path".toList) ∧
        (isOff (joinList r.searched) = true ∧ ds = [] ∨
          isOff (joinList r.searched) = false ∧ ∃ p, r.searched = p :: ps ∧ ds = [p]) := by
  have hall : readArguments (r.protoFiles ++ []) = some (CommandLine.addInputFiles r.protoFiles {}) :=
    readArguments_inputFiles hfiles
  rw [List.append_nil] at hall
  unfold Request.protoPathArguments at hread
  cases hoff : isOff (joinList r.searched) with
  | true =>
      rw [hoff, if_pos rfl, List.nil_append, expandList_joinList hr.protoFiles (.inr rfl), hall] at hread
      obtain rfl := Option.some.inj hread
      exact ⟨[], List.append_nil _, rfl, [], rfl, .inl ⟨rfl, rfl⟩⟩
  | false =>
      obtain ⟨p, ps, hps⟩ := List.exists_cons_of_ne_nil r.searched_ne_nil
      have helements' : ∀ x ∈ Request.optionArguments "--proto_path=" r.searched ++ r.protoFiles,
          IsElement x := by
        intro x hx
        rcases List.mem_append.mp hx with hx | hx
        · exact isElement_optionArguments _ (helements hoff) (by decide) (by decide) x hx
        · exact hr.protoFiles x hx
      rw [hoff, if_neg Bool.false_ne_true, expandList_joinList helements' (.inr rfl), hps] at hread
      change readArguments (("--proto_path=".toList ++ p) :: (ps ++ r.protoFiles)) = some c at hread
      rw [readArguments_protoPath] at hread
      obtain ⟨c₁, h₁, rfl⟩ := Option.map_eq_some_iff.mp hread
      obtain ⟨c₂, h₂, rfl⟩ := readArguments_noDash (hplain.searched hps) h₁
      rw [hall] at h₂
      obtain rfl := Option.some.inj h₂
      refine ⟨ps, ?_, rfl, [p], rfl, .inr ⟨rfl, p, hps, rfl⟩⟩
      change ps ++ (r.protoFiles ++ []) = _
      rw [List.append_nil]

theorem oneDirectory_of_value {given : List Text} (hout : r.chosen given = [(r.chosen given).headD []])
    (hvalue : [(r.chosen given).headD []] = r.out given)
    (hoff : isOff (joinList (r.chosen given)) = false) :
    OneDirectory (r.out given) := by
  rw [hout, joinList_singleton] at hoff
  exact ⟨_, hvalue.symm, hoff⟩

/-- The search path that `protoc` reads is the one that was asked for only where it can be rendered. -/
theorem protoPath_of_searchPath {p : Text}
    (h : isOff (joinList r.searched) = true ∧ [['.']] = r.searchPath ∨
    isOff (joinList r.searched) = false ∧ r.searched = [p] ∧ [p] = r.searchPath ∧ IsElement p) :
    OneDirectory r.protoPath ∨ r.protoPath = [] ∧
      (parentPath r.firstProtoFile = [] ∨
        isOff (parentPath r.firstProtoFile) = false ∧ IsElement (parentPath r.firstProtoFile)) := by
  by_cases hgiven : r.protoPath = []
  · right
    have hsearched : r.searched = [parentPath r.firstProtoFile] := if_pos (by rw [hgiven]; rfl)
    rw [hsearched, joinList_singleton, Request.searchPath, if_pos hgiven] at h
    refine ⟨hgiven, ?_⟩
    rcases h with ⟨hoff, hpath⟩ | ⟨hoff, hp, -, helement⟩
    · left
      by_contra hne
      rw [Request.directoryOf, if_neg hne] at hpath
      rw [← List.head_eq_of_cons_eq hpath] at hoff
      cases hoff
    · obtain rfl := List.head_eq_of_cons_eq hp
      exact .inr ⟨hoff, helement⟩
  · left
    rw [Request.searchPath, if_neg hgiven] at h
    rcases h with ⟨hoff, hpath⟩ | ⟨hoff, hp, hpath, -⟩
    · rw [Request.searched, ← hpath] at hoff
      cases hoff
    · rw [hp, joinList_singleton] at hoff
      exact ⟨p, hpath.symm, hoff⟩

/-- The request that a command carries survives the macros. -/
theorem renderable_of_carries (hs : SetUp u r) (hr : r.Elements) (hplain : r.PlainDirectories)
    (h : CommandCarries (makeProtocCommand u) r) : Renderable r := by
  obtain ⟨c, hread, hc⟩ := h
  obtain ⟨c', hread', hinput, hflags, plugin, hoptions⟩ :=
    readArguments_protocCommand hs hr hplain.chosen hread
  have hfiles : ∀ file ∈ r.protoFiles, IsInput file := by
    intro file hfile
    rw [← hc.inputFiles] at hfile
    exact isInput_of_mem hread hfile
  have hvalues : ∀ v, ("--proto_path".toList, v) ∈ c'.options → ';' ∉ v := by
    intro v hv
    refine Request.Elements.noSemicolon_searchPath hr hs.protoFiles_ne_nil v ?_
    rw [← hc.protoPath]
    refine CommandLine.mem_protoPath ?_
    rw [hoptions]
    exact List.mem_cons_of_mem _ (List.mem_cons_of_mem _ (List.mem_cons_of_mem _ hv))
  have helements := fun hoff => isElement_searched hr hs.protoFiles_ne_nil hoff hread' hvalues
  obtain ⟨ps, hinput', hflags', ds, hds, hsearched⟩ :=
    readArguments_searched hr hplain helements hfiles hread'
  -- Any further directory would have been read as a file.
  have hlengths := congrArg List.length (hinput.symm.trans hc.inputFiles)
  rw [hinput', List.length_append, List.length_append, List.length_append] at hlengths
  have hcpp : (r.chosen r.cppOut).tail = [] := List.length_eq_zero_iff.mp (by omega)
  have hgrpc : (r.chosen r.grpcOut).tail = [] := List.length_eq_zero_iff.mp (by omega)
  have hps : ps = [] := List.length_eq_zero_iff.mp (by omega)
  have hsingle : ∀ {xs : List Text}, xs ≠ [] → xs.tail = [] → xs = [xs.headD []] := by
    intro xs hne htail
    obtain ⟨x, xs, rfl⟩ := List.exists_cons_of_ne_nil hne
    obtain rfl : xs = [] := htail
    rfl
  rw [hds] at hoptions
  obtain ⟨hcppOut, hgrpcOut, hprotoPath⟩ := values_of_options hoptions
  obtain ⟨-, -, htrace⟩ := mem_flagArguments r
  constructor
  · rw [← Bool.not_eq_true, ← hc.enableCodegenTrace, hflags, hflags', List.append_nil]
    exact htrace
  · exact oneDirectory_of_value (hsingle (ne_nil_of_isTrue hs.cppOut_isTrue hs.cppOut) hcpp)
      (hcppOut.symm.trans hc.cppOut) (isOff_of_isTrue hs.cppOut_isTrue hs.cppOut)
  · exact oneDirectory_of_value (hsingle (ne_nil_of_isTrue hs.grpcOut_isTrue hs.grpcOut) hgrpc)
      (hgrpcOut.symm.trans hc.grpcOut) (isOff_of_isTrue hs.grpcOut_isTrue hs.grpcOut)
  · rw [hc.protoPath] at hprotoPath
    rcases hsearched with ⟨hoff, rfl⟩ | ⟨hoff, p, hp, rfl⟩
    · exact protoPath_of_searchPath (p := []) (.inl ⟨hoff, hprotoPath.symm⟩)
    · rw [hps] at hp
      have helement := helements hoff p (hp ▸ List.mem_cons_self)
      exact protoPath_of_searchPath (.inr ⟨hoff, hp, hprotoPath.symm, helement⟩)
  · exact hfiles

end Rendering

/-- **Command line.** What the caller asked for is what `protoc` reads for the requests that survive the
macros, and for no others whose directories are not spelled like options. -/
theorem protocCommand_carries_iff (hs : Caller s) (hargs : ∀ x ∈ args, IsElement x)
    (h : protocCommand s args = .ok t) :
    (Renderable (request args) → CommandCarries t (request args)) ∧
      ((request args).PlainDirectories →
        CommandCarries t (request args) → Renderable (request args)) := by
  obtain ⟨u, hu, rfl⟩ := setUp_of_protocCommand hs hargs h
  have hr := request_elements hargs
  exact ⟨carries_of_renderable hu hr, renderable_of_carries hu hr⟩

def plainCall : List Text :=
  ["CODEGEN_TARGET", "codegen", "LIBRARY_TARGET", "protos", "fatal_warnings", "PROTO_FILES",
    "protos/a.proto", "protos/b.proto", "grpc_out", "grpc", "OUTPUT_DIRECTORY", "out"].map String.toList

def plainRequest : Request where
  fatalWarnings := true
  printFreeFieldNumbers := false
  enableCodegenTrace := false
  protoFiles := ["protos/a.proto", "protos/b.proto"].map String.toList
  protoPath := []
  cppOut := []
  grpcOut := ["grpc".toList]
  outputDirectory := ["out".toList]

theorem protocCommand_carries_plainCall :
    ∃ t, protocCommand includedScope plainCall = .ok t ∧ CommandCarries t (request plainCall) ∧
      Renderable (request plainCall) := by
  have hok : (protocCommand includedScope plainCall).isOk = true := by decide +kernel
  obtain ⟨t, ht⟩ := exists_of_isOk hok
  have hrequest : request plainCall = plainRequest := by decide +kernel
  have hfiles : ∀ file ∈ plainRequest.protoFiles, file.head? ≠ some '-' ∧ file.head? ≠ some '@' := by
    decide
  have hrenderable : Renderable (request plainCall) := by
    rw [hrequest]
    exact
      { noTrace := rfl
        cppOut := ⟨"out".toList, rfl, by decide⟩
        grpcOut := ⟨"grpc".toList, rfl, by decide⟩
        protoPath := .inr ⟨rfl, .inr ⟨by decide, by decide⟩⟩
        inputFiles := fun file hfile => isInput_of_head (hfiles file hfile).1 (hfiles file hfile).2 }
  have hplain : (request plainCall).PlainDirectories := by
    rw [hrequest]
    unfold Request.PlainDirectories
    decide
  have hiff := protocCommand_carries_iff caller_includedScope (by decide +kernel) ht
  have hcarries := hiff.1 hrenderable
  exact ⟨t, ht, hcarries, hiff.2 hplain hcarries⟩

def tracedCall : List Text :=
  ["CODEGEN_TARGET", "codegen", "LIBRARY_TARGET", "protos", "enable_codegen_trace", "PROTO_FILES",
    "protos/a.proto", "OUTPUT_DIRECTORY", "out"].map String.toList

def tracedRequest : Request where
  fatalWarnings := false
  printFreeFieldNumbers := false
  enableCodegenTrace := true
  protoFiles := ["protos/a.proto".toList]
  protoPath := []
  cppOut := []
  grpcOut := []
  outputDirectory := ["out".toList]

/-- `enable_codegen_trace` gets lost. -/
theorem protocCommand_drops_trace :
    ∃ t, Caller includedScope ∧ protocCommand includedScope tracedCall = .ok t ∧
      (request tracedCall).enableCodegenTrace = true ∧ ¬ CommandCarries t (request tracedCall) := by
  have hok : (protocCommand includedScope tracedCall).isOk = true := by decide +kernel
  obtain ⟨t, ht⟩ := exists_of_isOk hok
  have hrequest : request tracedCall = tracedRequest := by decide +kernel
  have htrace : (request tracedCall).enableCodegenTrace = true := by
    rw [hrequest]
    rfl
  have hargs : ∀ x ∈ tracedCall, IsElement x := by decide +kernel
  obtain ⟨u, hu, rfl⟩ := setUp_of_protocCommand caller_includedScope hargs ht
  have hplain : (request tracedCall).PlainDirectories := by
    rw [hrequest]
    unfold Request.PlainDirectories
    decide
  refine ⟨_, caller_includedScope, ht, htrace, fun hcarries => ?_⟩
  have hlost := (renderable_of_carries hu (request_elements hargs) hplain hcarries).noTrace
  rw [htrace] at hlost
  cases hlost

end EasyGrpc.ProtoTargets
