import EasyGrpc.Proof.ProtocCallers

/-!
# The three functions that run `protoc`

`shuhai_grpc_execute_protoc` and `shuhai_grpc_add_protoc_command` have a parser of their own, a macro. It
does not know the keywords for the targets, and it divides its arguments once more.
-/

namespace EasyGrpc.ProtoTargets

open CMake

def targetKeywords : List Text :=
  ["CODEGEN_TARGET", "LIBRARY_TARGET", "INCLUDE_INSTALL_INTERFACE"].map String.toList

def keywords : List Text := (options ++ oneValueArguments ++ multiValueArguments).map String.toList

/-- An argument that reads the same when it stands in the code of a macro. -/
structure Plain (x : Text) : Prop where
  isElement : IsElement x
  noReference : '$' ∉ x
  noEscape : '\\' ∉ x

/-- A value that the function takes for a target. -/
structure TargetName (x : Text) : Prop extends Plain x where
  notKeyword : x ∉ keywords
  isOn : isOff x = false

def Shared (args : List Text) : Prop := ∀ x ∈ args, Plain x ∧ x ∉ targetKeywords

def withTargets (codegen library : Text) (args : List Text) : List Text :=
  "CODEGEN_TARGET".toList :: codegen :: "LIBRARY_TARGET".toList :: library :: args

variable {s t : Scope} {codegen library : Text} {args : List Text}

theorem Shared.isElement (h : Shared args) : ∀ x ∈ args, IsElement x := fun x hx => (h x hx).1.isElement

theorem isElement_withTargets (hcodegen : TargetName codegen) (hlibrary : TargetName library)
    (hargs : Shared args) : ∀ x ∈ withTargets codegen library args, IsElement x := by
  simp only [withTargets, List.forall_mem_cons]
  exact ⟨by decide, hcodegen.isElement, by decide, hlibrary.isElement, hargs.isElement⟩

theorem notMem_of_notMem_keywords {x : Text} (h : x ∉ keywords) :
    x ∉ options.map String.toList ∧ x ∉ oneValueArguments.map String.toList ∧
      x ∉ multiValueArguments.map String.toList := by
  have hsplit : keywords = options.map String.toList ++ oneValueArguments.map String.toList ++
      multiValueArguments.map String.toList := rfl
  rw [hsplit, List.mem_append, List.mem_append, not_or, not_or] at h
  exact ⟨h.1.1, h.1.2, h.2⟩

theorem parseProtocArgs_withTargets (hcodegen : codegen ∉ keywords) (hlibrary : library ∉ keywords)
    (hargs : ∀ x ∈ args, x ∉ targetKeywords) :
    parseProtocArgs (withTargets codegen library args) =
      { parseProtocArgs args with
        oneValue := Function.update
          (Function.update (parseProtocArgs args).oneValue "LIBRARY_TARGET".toList (some library))
          "CODEGEN_TARGET".toList (some codegen) } := by
  have hnone : ∀ keyword ∈ targetKeywords, (parseProtocArgs args).oneValue keyword = none :=
    fun keyword hkeyword =>
      parseArguments_oneValue_eq_none .none nofun fun hmem => hargs keyword hmem hkeyword
  unfold parseProtocArgs withTargets at *
  rw [parseArguments_oneValue .none (by decide) (by decide) (notMem_of_notMem_keywords hcodegen),
    parseArguments_oneValue .none (by decide) (by decide) (notMem_of_notMem_keywords hlibrary)]
  dsimp only
  rw [Function.update_of_ne (by decide), hnone _ (by decide), hnone _ (by decide)]
  rfl

/-- The parser of the macro gives what the parser of the function gives. -/
theorem parseArguments_shared (hargs : ∀ x ∈ args, x ∉ targetKeywords) :
    parseArguments (options.map String.toList) (protocOneValueArguments.map String.toList)
      (protocMultiValueArguments.map String.toList) .none args = parseProtocArgs args := by
  have hone : ∀ x ∈ args, x ∈ protocOneValueArguments.map String.toList ↔
      x ∈ oneValueArguments.map String.toList := by
    intro x hx
    have hsplit : oneValueArguments.map String.toList =
        targetKeywords.take 2 ++ protocOneValueArguments.map String.toList := rfl
    rw [hsplit, List.mem_append]
    exact ⟨.inr, fun h => h.resolve_left fun hmem => hargs x hx (List.mem_of_mem_take hmem)⟩
  have hmulti : ∀ x ∈ args, x ∈ protocMultiValueArguments.map String.toList ↔
      x ∈ multiValueArguments.map String.toList := by
    intro x hx
    have hsplit : multiValueArguments.map String.toList =
        protocMultiValueArguments.map String.toList ++ targetKeywords.drop 2 := rfl
    rw [hsplit, List.mem_append]
    exact ⟨.inl, fun h => h.resolve_right fun hmem => hargs x hx (List.mem_of_mem_drop hmem)⟩
  exact parseArguments_congr .none hone hmulti

def protocArgumentNames : List String :=
  (options ++ protocOneValueArguments ++ protocMultiValueArguments).map ("ARG_" ++ ·)

theorem map_fst_protocVariables (p : ParsedArguments) :
    (p.variables "ARG" options protocOneValueArguments protocMultiValueArguments).map Prod.fst =
      protocArgumentNames := rfl

/-- What the macro sets, the function sets to the same values. -/
theorem protocVariables_subset (hcodegen : codegen ∉ keywords) (hlibrary : library ∉ keywords)
    (hargs : ∀ x ∈ args, x ∉ targetKeywords) :
    (parseProtocArgs args).variables "ARG" options protocOneValueArguments protocMultiValueArguments ⊆
      (parseProtocArgs (withTargets codegen library args)).variables "ARG" options oneValueArguments
        multiValueArguments := by
  rw [parseProtocArgs_withTargets hcodegen hlibrary hargs]
  intro v hv
  simp only [ParsedArguments.variables, List.mem_append, List.mem_map] at hv ⊢
  rcases hv with (hoption | ⟨o, ho, rfl⟩) | ⟨m, hm, rfl⟩
  · exact .inl (.inl hoption)
  · have hne : ∀ o ∈ protocOneValueArguments,
      o ∈ oneValueArguments ∧ o.toList ≠ "CODEGEN_TARGET".toList ∧
        o.toList ≠ "LIBRARY_TARGET".toList := by
      decide
    obtain ⟨hmem, hfirst, hsecond⟩ := hne o ho
    refine .inl (.inr ⟨o, hmem, ?_⟩)
    rw [Function.update_of_ne hfirst, Function.update_of_ne hsecond]
  · have hmem : ∀ m ∈ protocMultiValueArguments, m ∈ multiValueArguments := by decide
    exact .inr ⟨m, hmem m hm, rfl⟩

/-- **Parsing.** Either way, what the other macros read is the same. -/
theorem parsed_alike (hcodegen : TargetName codegen) (hlibrary : TargetName library)
    (hargs : Shared args)
    (h : Scope.SameBut ["ARGN", "OUTPUT_FILES"] s t) :
    (parsedScope s (withTargets codegen library args)).Alike overwritten leaking
      (shuhaiGrpcParseProtocArgs args t) := by
  have hkeywords : ∀ x ∈ args, x ∉ targetKeywords := fun x hx => (hargs x hx).2
  have hagree : ∀ name, name ∉ overwritten → (shuhaiGrpcParseProtocArgs args t).value name =
      (parsedScope s (withTargets codegen library args)).value name := by
    intro name hname
    unfold shuhaiGrpcParseProtocArgs
    rw [expandList_joinList hargs.isElement (.inr rfl), parseArguments_shared hkeywords]
    by_cases hargument : name ∈ protocArgumentNames
    · rw [← map_fst_protocVariables (parseProtocArgs args)] at hargument
      obtain ⟨⟨name, xs⟩, hv, rfl⟩ := List.mem_map.mp hargument
      have hnodup : (((parseProtocArgs args).variables "ARG" options protocOneValueArguments
          protocMultiValueArguments).map Prod.fst).Nodup := by
        rw [map_fst_protocVariables]
        decide
      rw [Scope.value_setAll hnodup hv, value_parsedScope (isElement_withTargets hcodegen hlibrary hargs)
        (protocVariables_subset hcodegen.notKeyword hlibrary.notKeyword hkeywords hv)]
    · have hothers : ∀ name ∈ "ARGN" :: argumentNames,
        name ∈ protocArgumentNames ∨ name ∈ overwritten := by
        decide
      have hout : name ∉ "ARGN" :: argumentNames := fun hmem =>
        (hothers name hmem).elim hargument hname
      have hset : ["ARGN", "OUTPUT_FILES"] ⊆ overwritten := by decide
      rw [Scope.value_congr (Scope.setAll_of_notMem hargument), h.value fun hmem => hname (hset hmem),
        parsedScope_sameBut.value hout]
  exact ⟨fun name hname _ => hagree name hname, fun name _ hname => .inl (hagree name hname)⟩

theorem targets_isTrue (s : Scope) (hcodegen : TargetName codegen) (hlibrary : TargetName library)
    (hargs : Shared args) :
    (parsedScope s (withTargets codegen library args)).isTrue "ARG_CODEGEN_TARGET" = true ∧
      (parsedScope s (withTargets codegen library args)).isTrue "ARG_LIBRARY_TARGET" = true := by
  have hparse := parseProtocArgs_withTargets hcodegen.notKeyword hlibrary.notKeyword
    fun x hx => (hargs x hx).2
  have helements := isElement_withTargets hcodegen hlibrary hargs
  have hfirst : (parsedScope s (withTargets codegen library args)).value "ARG_CODEGEN_TARGET" = _ :=
    value_oneValue helements "CODEGEN_TARGET" (by decide)
  have hsecond : (parsedScope s (withTargets codegen library args)).value "ARG_LIBRARY_TARGET" = _ :=
    value_oneValue helements "LIBRARY_TARGET" (by decide)
  rw [hparse] at hfirst hsecond
  dsimp only at hfirst hsecond
  rw [Function.update_self, Option.toList_some, joinList_singleton] at hfirst
  rw [Function.update_of_ne (by decide), Function.update_self, Option.toList_some,
    joinList_singleton] at hsecond
  rw [Scope.isTrue, Scope.isTrue, hfirst, hsecond, hcodegen.isOn, hlibrary.isOn]
  exact ⟨rfl, rfl⟩

/-- **One command.** With the same arguments, all three functions run the same command or fail with the
same message, and the two that list files list the same files. -/
theorem entries_agree (s : Scope) (outputFiles : Text) (hcodegen : TargetName codegen)
    (hlibrary : TargetName library) (hargs : Shared args) :
    (shuhaiGrpcExecuteProtoc s args).map (·.value "PROTOC_COMMAND") =
        (protocCommand s (withTargets codegen library args)).map (·.value "PROTOC_COMMAND") ∧
      ((shuhaiGrpcAddProtocCommand s outputFiles args).map fun t =>
          (t.value "PROTOC_COMMAND", t.expand "OUTPUT_FILES")) =
        outcome s (withTargets codegen library args) := by
  obtain ⟨hfirst, hsecond⟩ := targets_isTrue s hcodegen hlibrary hargs
  have hargn : Scope.SameBut ["ARGN"] s (s.define "ARGN" (joinList args)) := Scope.sameBut_define
  have hfiles : Scope.SameBut ["OUTPUT_FILES", "ARGN"] s
      ((s.define "OUTPUT_FILES" outputFiles).define "ARGN" (joinList args)) :=
    Scope.sameBut_define.trans Scope.sameBut_define
  constructor
  · have halike := setupProtocArgs_alike (parsed_alike hcodegen hlibrary hargs (hargn.mono (by decide)))
    have hcommand := halike.map fun _ _ => makeProtocCommand_alike
    unfold shuhaiGrpcExecuteProtoc setupCommand protocCommand
    simp only [hfirst, hsecond, Bool.true_eq_false, if_false, expand_argn hargs.isElement]
    exact hcommand.map_eq fun u v huv => huv.agree "PROTOC_COMMAND" (by decide) (by decide)
  · have hrun := commandAndFiles_alike (parsed_alike hcodegen hlibrary hargs (hfiles.mono (by decide)))
    rw [outcome_of_targets hfirst hsecond]
    unfold shuhaiGrpcAddProtocCommand setupCommand
    simp only [expand_argn hargs.isElement]
    refine hrun.map_eq fun u v huv => ?_
    rw [huv.agree "PROTOC_COMMAND" (by decide) (by decide),
      Scope.expand_eq_of_value_eq (huv.agree "OUTPUT_FILES" (by decide) (by decide))]

def oneFile : List Text :=
  ["fatal_warnings", "PROTO_FILES", "api/chat.proto", "OUTPUT_DIRECTORY", "gen"].map String.toList

theorem shared_oneFile : Shared oneFile := by
  have hall : ∀ x ∈ oneFile, (IsElement x ∧ '$' ∉ x ∧ '\\' ∉ x) ∧ x ∉ targetKeywords := by decide
  exact fun x hx => ⟨⟨(hall x hx).1.1, (hall x hx).1.2.1, (hall x hx).1.2.2⟩, (hall x hx).2⟩

theorem entries_agree_oneFile :
    (shuhaiGrpcExecuteProtoc includedScope oneFile).map (·.value "PROTOC_COMMAND") =
        (protocCommand includedScope (withTargets "codegen".toList "chat".toList oneFile)).map
          (·.value "PROTOC_COMMAND") ∧
      ((shuhaiGrpcAddProtocCommand includedScope "CHAT_FILES".toList oneFile).map fun t =>
          (t.value "PROTOC_COMMAND", t.expand "OUTPUT_FILES")) =
        outcome includedScope (withTargets "codegen".toList "chat".toList oneFile) :=
  entries_agree includedScope "CHAT_FILES".toList ⟨⟨by decide, by decide, by decide⟩, by decide, by decide⟩
    ⟨⟨by decide, by decide, by decide⟩, by decide, by decide⟩ shared_oneFile

end EasyGrpc.ProtoTargets
