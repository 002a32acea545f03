import EasyGrpc.CMake.Language
import EasyGrpc.CMake.Pattern

/-!
# The version of the library

The build writes the version of the project to a header and reads it back from there. `@PROJECT_VERSION@`
and its parts come from `project(... VERSION ...)`, which takes up to four numbers; a part that is not
given is empty.
-/

namespace EasyGrpc.Version

open CMake Pattern

def quote : Char := Char.ofNat 34

def number : Pattern := plus Char.isDigit

def versionPattern : Pattern := number ++ literal ['.'] ++ number ++ literal ['.'] ++ number

/-- The line that defines the macro. A macro's name stands for itself in a pattern. -/
def macroPattern (name : Text) : Pattern :=
  literal ("#define ".toList ++ name) ++ [.many (· = ' ')] ++ literal [quote] ++ versionPattern ++
    literal [quote]

/-- `file(STRINGS)` and `string(REGEX MATCH)`, on the lines of the file. -/
def versionIn (name : Text) (lines : List Text) : Text :=
  let line := (lines.find? fun line => (matchAt (macroPattern name) line).isSome).getD []
  (search versionPattern line).getD []

def shuhaiReadVersionFromMacro (files : Text → Option (List Text)) (args : List Text) :
    Except String Text :=
  let parsed := parseArguments ["VERBOSE".toList] ["FILE".toList, "VERSION".toList] [] .none args
  let file := (parsed.oneValue "FILE".toList).getD []
  let name := (parsed.oneValue "VERSION".toList).getD []
  if isOff file then .error "Version file must be specified by 'FILE <path>' option."
  else
    match files file with
    | none => .error ("Version file '" ++ String.ofList file ++ "' does not exists.")
    | some lines =>
        if isOff name then .error "Version macro must be specified by 'VERSION <macro>' option."
        else .ok (versionIn name lines)

structure ProjectVersion where
  parts : List Text
  length : 1 ≤ parts.length ∧ parts.length ≤ 4
  numbers : ∀ part ∈ parts, part ≠ [] ∧ ∀ c ∈ part, c.isDigit = true

namespace ProjectVersion

def text (v : ProjectVersion) : Text := ['.'].intercalate v.parts

def part (v : ProjectVersion) (i : Nat) : Text := (v.parts[i]?).getD []

def header (v : ProjectVersion) : List Text :=
  ["#pragma once".toList,
    [],
    "#define SHUHAI_GRPC_VERSION_MAJOR ".toList ++ v.part 0,
    "#define SHUHAI_GRPC_VERSION_MINOR ".toList ++ v.part 1,
    "#define SHUHAI_GRPC_VERSION_PATCH ".toList ++ v.part 2,
    [],
    "#define SHUHAI_GRPC_VERSION_NUMBER \\".toList,
    "    (SHUHAI_GRPC_VERSION_MAJOR * 10000 + SHUHAI_GRPC_VERSION_MINOR * 100 + SHUHAI_GRPC_VERSION_PATCH)".toList,
    [],
    "#define SHUHAI_GRPC_VERSION ".toList ++ quote :: v.text ++ [quote]]

end ProjectVersion

def headerPath : Text := "include/ShuHai/gRPC/Version.h".toList

/-- What `EasyGRPC/CMakeLists.txt` takes for the version, from the header that it has just written. -/
def configuredVersion (v : ProjectVersion) : Except String Text := do
  let version ← shuhaiReadVersionFromMacro
    (fun file => if file = headerPath then some v.header else none)
    ["FILE".toList, headerPath, "VERSION".toList, "SHUHAI_GRPC_VERSION".toList]
  if isOff version then .error "Version definition not found."
  else .ok version

end EasyGrpc.Version
