import EasyGrpc.CMake.Language
import EasyGrpc.CMake.Path

/-! The functions and macros of `gRPC.cmake`, as steps on the variables that are in scope. -/

namespace EasyGrpc.ProtoTargets

open CMake

def options : List String := ["fatal_warnings", "print_free_field_numbers", "enable_codegen_trace"]

def oneValueArguments : List String :=
  ["CODEGEN_TARGET", "LIBRARY_TARGET", "PROTOC_EXE", "GRPC_PLUGIN_EXE"]

def multiValueArguments : List String :=
  ["PROTO_FILES", "proto_path", "cpp_out", "grpc_out", "OUTPUT_DIRECTORY", "INCLUDE_INSTALL_INTERFACE"]

def parseProtocArgs (args : List Text) : ParsedArguments :=
  parseArguments (options.map String.toList) (oneValueArguments.map String.toList)
    (multiValueArguments.map String.toList) .none args

def setIf (s : Scope) (test target source : String) : Scope :=
  if s.isTrue test then s.set target (s.expand source) else s

section SetupProtocArgs

def setupExecutable (target found argument : String) (s : Scope) : Scope :=
  let s := s.set target (s.expand found)
  setIf s argument target argument

def setupExecutables (s : Scope) : Scope :=
  let s := setupExecutable "PROTOC_EXE" "protobuf_protoc_EXEC" "ARG_PROTOC_EXE" s
  setupExecutable "GRPC_PLUGIN_EXE" "grpc_cpp_plugin_EXEC" "ARG_GRPC_PLUGIN_EXE" s

def setupProtoFiles (s : Scope) : Except String Scope :=
  if s.isTrue "ARG_PROTO_FILES" then .ok (s.set "PROTO_FILES" (s.expand "ARG_PROTO_FILES"))
  else .error "*.proto files not specified (by PROTO_FILES option)."

def setupFlags (s : Scope) : Scope :=
  let s := setIf s "ARG_fatal_warnings" "fatal_warnings" "ARG_fatal_warnings"
  let s := setIf s "ARG_print_free_field_numbers" "print_free_field_numbers" "ARG_print_free_field_numbers"
  -- The source tests the variable that this `set` is about to define.
  setIf s "enable_codegen_trace" "enable_codegen_trace" "ARG_enable_codegen_trace"

def setupOutputDirectory (s : Scope) : Scope :=
  if s.isTrue "ARG_OUTPUT_DIRECTORY" then
    let s := s.set "OUTPUT_DIRECTORY" (s.expand "ARG_OUTPUT_DIRECTORY")
    let s := s.set "cpp_out" (s.expand "OUTPUT_DIRECTORY")
    s.set "grpc_out" (s.expand "OUTPUT_DIRECTORY")
  else s

def setupOut (argument out message : String) (s : Scope) : Except String Scope :=
  let s := setIf s argument out argument
  if s.isTrue out then .ok s else .error message

def setupCppOut : Scope → Except String Scope :=
  setupOut "ARG_cpp_out" "cpp_out"
    "cpp_out or OUTPUT_DIRECTORY is required to specify the output directory for generated Protobuf codes."

def setupGrpcOut : Scope → Except String Scope :=
  setupOut "ARG_grpc_out" "grpc_out"
    "grpc_out or OUTPUT_DIRECTORY is required to specify the output directory for generated gRPC codes."

def setupProtoPath (s : Scope) : Scope :=
  if s.isTrue "ARG_proto_path" then s.set "proto_path" (s.expand "ARG_proto_path")
  else
    let s := s.define "PROTO_FILE_0" ((expandList true (s.value "PROTO_FILES")).headD [])
    s.define "proto_path" (parentPath (s.value "PROTO_FILE_0"))

def setupProtocArgs (s : Scope) : Except String Scope := do
  let s ← setupProtoFiles (setupExecutables s)
  let s ← setupCppOut (setupOutputDirectory (setupFlags s))
  let s ← setupGrpcOut s
  return setupProtoPath s

end SetupProtocArgs

/-- `if(test) list(APPEND PROTOC_COMMAND "argument") endif()` -/
def appendIf (s : Scope) (test : String) (argument : Text) : Scope :=
  if s.isTrue test then s.append "PROTOC_COMMAND" [argument] else s

def makeProtocCommand (s : Scope) : Scope :=
  let s := s.append "PROTOC_COMMAND" [s.value "PROTOC_EXE"]
  let s := s.append "PROTOC_COMMAND" ["--plugin=protoc-gen-grpc=".toList ++ s.value "GRPC_PLUGIN_EXE"]
  let s := appendIf s "fatal_warnings" "--fatal_warnings".toList
  let s := appendIf s "print_free_field_numbers" "--print_free_field_numbers".toList
  let s := appendIf s "enable_codegen_trace" "--enable_codegen_trace".toList
  let s := appendIf s "cpp_out" ("--cpp_out=".toList ++ s.value "cpp_out")
  let s := appendIf s "grpc_out" ("--grpc_out=".toList ++ s.value "grpc_out")
  let s := appendIf s "proto_path" ("--proto_path=".toList ++ s.value "proto_path")
  s.append "PROTOC_COMMAND" [s.value "PROTO_FILES"]

section ExtractProtocOutputFiles

def extensions : List Text := [".pb.h", ".pb.cc", ".grpc.pb.h", ".grpc.pb.cc"].map String.toList

def protoFileSub (protoPath file : Text) : Text := removeExtension (lexicallyRelative file protoPath)

/-- What one proto file appends to `OUTPUT_FILES`. A file that `proto_path` does not encompass is only
warned about. -/
def outputFilesOf (cppOut protoPath file : Text) : List Text :=
  if isOff (protoFileSub protoPath file) then []
  else
    extensions.flatMap fun ext =>
      expandList false (cppOut ++ '/' :: protoFileSub protoPath file ++ ext)

/-- Runs in a scope of its own, from which it sets only `var` in the scope of its caller. `cmake_path`
takes one `BASE_DIRECTORY`. -/
def extractProtocOutputFiles (var : String) (s : Scope) : Except String Scope :=
  match s.expand "proto_path" with
  | [protoPath] =>
      let outputFiles := (s.expand "PROTO_FILES").foldl
        (fun t file => t.append "OUTPUT_FILES" (outputFilesOf (s.value "cpp_out") protoPath file))
        (s.unset "OUTPUT_FILES")
      .ok (s.set var (outputFiles.expand "OUTPUT_FILES"))
  | _ => .error "cmake_path RELATIVE_PATH called with unexpected arguments"

end ExtractProtocOutputFiles

/-- The scope after `cmake_parse_arguments`. The command flattens each argument once more, which takes one
with an escaped semicolon apart; this is left out. -/
def parsedScope (s : Scope) (args : List Text) : Scope :=
  let s := s.define "ARGN" (joinList args)
  s.setAll
    ((parseProtocArgs (s.expand "ARGN")).variables "ARG" options oneValueArguments multiValueArguments)

def protocCommand (s : Scope) (args : List Text) : Except String Scope :=
  let s := parsedScope s args
  if s.isTrue "ARG_CODEGEN_TARGET" = false then
    .error "Generator target name must be specified via option 'CODEGEN_TARGET'."
  else if s.isTrue "ARG_LIBRARY_TARGET" = false then
    .error "Library target name must be specified via option 'LIBRARY_TARGET'."
  else (setupProtocArgs s).map makeProtocCommand

def shuhaiGrpcAddProtoTargets (s : Scope) (args : List Text) : Except String Scope := do
  let s ← protocCommand s args
  extractProtocOutputFiles "OUTPUT_FILES" s

section ParseProtocArgs

def protocOneValueArguments : List String := ["PROTOC_EXE", "GRPC_PLUGIN_EXE"]

def protocMultiValueArguments : List String :=
  ["PROTO_FILES", "proto_path", "cpp_out", "grpc_out", "OUTPUT_DIRECTORY"]

/-- `_shuhai_grpc_parse_protoc_args`. The arguments of a macro are put into its code as they are joined, and
are divided once more. -/
def shuhaiGrpcParseProtocArgs (args : List Text) (s : Scope) : Scope :=
  let parsed := parseArguments (options.map String.toList) (protocOneValueArguments.map String.toList)
    (protocMultiValueArguments.map String.toList) .none (expandList false (joinList args))
  s.setAll (parsed.variables "ARG" options protocOneValueArguments protocMultiValueArguments)

def setupCommand (s : Scope) (args : List Text) : Except String Scope :=
  let s := s.define "ARGN" (joinList args)
  (setupProtocArgs (shuhaiGrpcParseProtocArgs (s.expand "ARGN") s)).map makeProtocCommand

def shuhaiGrpcExecuteProtoc (s : Scope) (args : List Text) : Except String Scope := setupCommand s args

/-- `shuhai_grpc_add_protoc_command`, whose parameter `OUTPUT_FILES` has the name of the variable that the
files are then stored in. -/
def shuhaiGrpcAddProtocCommand (s : Scope) (outputFiles : Text) (args : List Text) :
    Except String Scope := do
  let s ← setupCommand (s.define "OUTPUT_FILES" outputFiles) args
  extractProtocOutputFiles "OUTPUT_FILES" s

end ParseProtocArgs

section BuildTargets

inductive BuildCommand where
  | addCustomCommand (output command depends : List Text)
  | addCustomTarget (name depends : List Text)
  | addLibrary (name : List Text)
  | targetSources (target sources : List Text)
  | targetIncludeDirectories (target privates interfaces : List Text)
  | targetLinkLibraries (target libraries : List Text)
  | addDependencies (target dependencies : List Text)
  deriving DecidableEq

def includeDirectories (s : Scope) : Scope :=
  let s := (s.unset "INCLUDE_DIRECTORIES").append "INCLUDE_DIRECTORIES"
    (s.expand "cpp_out" ++ s.expand "grpc_out")
  s.removeDuplicates "INCLUDE_DIRECTORIES"

/-- `list(APPEND INTERFACE_INCLUDE_DIRECTORIES $<kind:${source}>)`, whose unquoted argument is divided. -/
def appendInterface (s : Scope) (kind source : String) : Scope :=
  s.append "INTERFACE_INCLUDE_DIRECTORIES" (expandList false (kind.toList ++ s.value source ++ ['>']))

def interfaceIncludeDirectories (s : Scope) : Scope :=
  if s.isTrue "ARG_INCLUDE_INSTALL_INTERFACE" then
    let s := appendInterface s "$<BUILD_INTERFACE:" "INCLUDE_DIRECTORIES"
    appendInterface s "$<INSTALL_INTERFACE:" "ARG_INCLUDE_INSTALL_INTERFACE"
  else s

/-- An operand of `STREQUAL`, which is read where it is the name of a variable. -/
def operand (s : Scope) (name : String) : Text :=
  (s.lookup (String.ofList (s.value name))).getD (s.value name)

/-- What `shuhai_grpc_add_proto_targets` adds to the build when it has listed the files. `isTarget` tells
whether there is a target of the name beforehand. -/
def buildCommands (isTarget : Text → Bool) (s : Scope) : List BuildCommand :=
  let codegen := s.expand "ARG_CODEGEN_TARGET"
  let library := s.expand "ARG_LIBRARY_TARGET"
  let generator := if s.isTrue "ARG_CODEGEN_TARGET" then
    [.addCustomCommand (s.expand "OUTPUT_FILES") (s.expand "PROTOC_COMMAND") (s.expand "PROTO_FILES"),
      .addCustomTarget codegen (s.expand "OUTPUT_FILES")]
    else []
  let t := interfaceIncludeDirectories (includeDirectories s)
  if s.isTrue "ARG_LIBRARY_TARGET" then
    generator ++
      (if isTarget (s.value "ARG_LIBRARY_TARGET") ∨ library = codegen then [] else [.addLibrary library]) ++
      [.targetSources library (s.expand "OUTPUT_FILES"),
        .targetIncludeDirectories library (t.expand "INCLUDE_DIRECTORIES")
          (t.expand "INTERFACE_INCLUDE_DIRECTORIES"),
        .targetLinkLibraries library ["gRPC::grpc++".toList]] ++
      if operand t "ARG_LIBRARY_TARGET" = operand t "ARG_CODEGEN_TARGET" then []
      else [.addDependencies library codegen]
  else generator

end BuildTargets

end EasyGrpc.ProtoTargets
