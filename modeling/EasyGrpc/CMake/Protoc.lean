import EasyGrpc.CMake.Path

/-! The command line of `protoc`, and the files that it writes for the C++ and the gRPC generator. -/

namespace Protoc

open CMake

def flagNames : List Text :=
  ["-h", "--help", "--version", "--fatal_warnings", "--print_free_field_numbers",
    "--enable_codegen_trace", "--include_imports", "--include_source_info", "--retain_options",
    "--deterministic_output", "--disallow_services", "--decode_raw",
    "--experimental_allow_proto3_optional"].map String.toList

inductive Argument where
  | inputFile (file : Text)
  | flag (name : Text)
  | option (name value : Text)
  | awaitsValue (name : Text)
  | argumentFile (file : Text)

def readName (name : Text) : Argument := if name ∈ flagNames then .flag name else .awaitsValue name

/-- `--name=value`, `-Ivalue`, an option that awaits its value as the next argument, `@file`, or a file
to compile. A single `-` is a file name. -/
def readArgument : Text → Argument
  | '@' :: file => .argumentFile file
  | '-' :: '-' :: cs =>
      if '=' ∈ cs then
        .option ('-' :: '-' :: cs.takeWhile (· ≠ '=')) (cs.dropWhile (· ≠ '=')).tail
      else readName ('-' :: '-' :: cs)
  | ['-', c] => readName ['-', c]
  | '-' :: c :: value => .option ['-', c] value
  | file => .inputFile file

structure CommandLine where
  options : List (Text × Text) := []
  flags : List Text := []
  inputFiles : List Text := []

namespace CommandLine

def addOption (name value : Text) (c : CommandLine) : CommandLine :=
  { c with options := (name, value) :: c.options }

def addFlags (names : List Text) (c : CommandLine) : CommandLine := { c with flags := names ++ c.flags }

def addInputFiles (files : List Text) (c : CommandLine) : CommandLine :=
  { c with inputFiles := files ++ c.inputFiles }

def valuesOf (c : CommandLine) (names : List Text) : List Text :=
  (c.options.filter fun o => o.1 ∈ names).map Prod.snd

def cppOut (c : CommandLine) : List Text := c.valuesOf ["--cpp_out".toList]

def grpcOut (c : CommandLine) : List Text := c.valuesOf ["--grpc_out".toList]

def protoPath (c : CommandLine) : List Text :=
  let given := c.valuesOf ["--proto_path".toList, "-I".toList]
  if given = [] then [['.']] else given

end CommandLine

/-- The arguments after the name of the program. What an argument file holds is not on the command
line. -/
def readArguments : List Text → Option CommandLine
  | [] => some {}
  | arg :: args =>
      match readArgument arg with
      | .inputFile file => (readArguments args).map (.addInputFiles [file])
      | .flag name => (readArguments args).map (.addFlags [name])
      | .option name value => (readArguments args).map (.addOption name value)
      | .awaitsValue name =>
          match args with
          | [] => none
          | value :: args => (readArguments args).map (.addOption name value)
      | .argumentFile _ => none

/-- The path of a source file relative to the directory it is found in, without its `.proto`. -/
def sourceStem (protoPath file : Text) : Option Text :=
  let rel := (location file).drop (location protoPath).length
  if isAbsolute protoPath = isAbsolute file ∧ location protoPath <+: location file ∧
      ".proto".toList <:+ joinPath rel then
    some ((joinPath rel).take ((joinPath rel).length - 6))
  else none

def generatedFiles (cppOut grpcOut stem : Text) : List Text :=
  [cppOut ++ '/' :: stem ++ ".pb.h".toList, cppOut ++ '/' :: stem ++ ".pb.cc".toList,
    grpcOut ++ '/' :: stem ++ ".grpc.pb.h".toList, grpcOut ++ '/' :: stem ++ ".grpc.pb.cc".toList]

/-- What a command line with one directory of each kind makes `protoc` write, where every file is
found. -/
def CommandLine.writes (c : CommandLine) : Option (List Text) :=
  match c.cppOut, c.grpcOut, c.protoPath with
  | [cppOut], [grpcOut], [protoPath] =>
      (c.inputFiles.mapM (sourceStem protoPath)).map fun stems =>
        stems.flatMap (generatedFiles cppOut grpcOut)
  | _, _, _ => none

def IsInput (file : Text) : Prop := readArgument file = .inputFile file

variable {args files : List Text} {c : CommandLine}

/-- The shape of an input file. -/
theorem isInput_of_head {file : Text} (hdash : file.head? ≠ some '-') (hat : file.head? ≠ some '@') :
    IsInput file := by
  unfold IsInput readArgument
  split <;> simp_all

theorem readArgument_option {name value : Text} (hname : '=' ∉ name) :
    readArgument ('-' :: '-' :: name ++ '=' :: value) = .option ('-' :: '-' :: name) value := by
  have hbefore : ∀ c ∈ name, decide (c ≠ '=') = true := by
    intro c hc
    rw [decide_eq_true_eq]
    rintro rfl
    exact hname hc
  have htake : (name ++ '=' :: value).takeWhile (· ≠ '=') = name := by
    rw [List.takeWhile_append_of_pos hbefore]
    simp
  have hdrop : (name ++ '=' :: value).dropWhile (· ≠ '=') = '=' :: value := by
    rw [List.dropWhile_append_of_pos hbefore]
    simp
  rw [List.cons_append, List.cons_append, readArgument, if_pos (by simp), htake, hdrop, List.tail_cons]

/-- A file is given as it is. -/
theorem eq_of_readArgument {arg file : Text} (h : readArgument arg = .inputFile file) : arg = file := by
  have hname : ∀ name, readName name ≠ .inputFile file := by
    intro name he
    unfold readName at he
    split at he <;> cases he
  unfold readArgument at h
  split at h
  · cases h
  · split at h
    · cases h
    · exact absurd h (hname _)
  · exact absurd h (hname _)
  · cases h
  · exact Argument.inputFile.inj h

theorem isInput_of_readArgument {arg file : Text} (h : readArgument arg = .inputFile file) :
    IsInput file := by
  have hsame := eq_of_readArgument h
  rwa [hsame] at h

/-- Every file that is compiled has the shape of one. -/
theorem isInput_of_mem (h : readArguments args = some c) {file : Text} (hfile : file ∈ c.inputFiles) :
    IsInput file := by
  fun_induction readArguments args generalizing c with
  | case1 =>
      obtain rfl := Option.some.inj h
      cases hfile
  | case2 arg args f harg ih =>
      obtain ⟨c, hc, rfl⟩ := Option.map_eq_some_iff.mp h
      rcases List.mem_cons.mp hfile with rfl | hfile
      · exact isInput_of_readArgument harg
      · exact ih hc hfile
  | case3 arg args name harg ih =>
      obtain ⟨c, hc, rfl⟩ := Option.map_eq_some_iff.mp h
      exact ih hc hfile
  | case4 arg args name value harg ih =>
      obtain ⟨c, hc, rfl⟩ := Option.map_eq_some_iff.mp h
      exact ih hc hfile
  | case5 => cases h
  | case6 arg name harg value args ih =>
      obtain ⟨c, hc, rfl⟩ := Option.map_eq_some_iff.mp h
      exact ih hc hfile
  | case7 => cases h

theorem readArguments_option (name value : Text) (hname : '=' ∉ name) :
    readArguments (('-' :: '-' :: name ++ '=' :: value) :: args) =
      (readArguments args).map (.addOption ('-' :: '-' :: name) value) := by
  rw [readArguments, readArgument_option hname]

theorem readArguments_flags {names : List Text}
    (hnames : ∀ name ∈ names, readArgument name = .flag name) :
    readArguments (names ++ args) = (readArguments args).map (.addFlags names) := by
  induction names with
  | nil =>
      cases h : readArguments args with
      | none => simp [h]
      | some c => simp [h, CommandLine.addFlags]
  | cons name names ih =>
      rw [List.cons_append, readArguments, hnames name List.mem_cons_self]
      simp only
      rw [ih fun n hn => hnames n (List.mem_cons_of_mem _ hn), Option.map_map]
      rfl

theorem readArguments_inputFiles (hfiles : ∀ file ∈ files, IsInput file) :
    readArguments (files ++ args) = (readArguments args).map (.addInputFiles files) := by
  induction files with
  | nil =>
      cases h : readArguments args with
      | none => simp [h]
      | some c => simp [h, CommandLine.addInputFiles]
  | cons file files ih =>
      have hfile : readArgument file = .inputFile file := hfiles file List.mem_cons_self
      rw [List.cons_append, readArguments, hfile]
      simp only
      rw [ih fun f hf => hfiles f (List.mem_cons_of_mem _ hf), Option.map_map]
      rfl

/-- Arguments that do not start with a dash are files to compile, or the command line cannot be read. -/
theorem readArguments_noDash (hfiles : ∀ file ∈ files, file.head? ≠ some '-')
    (h : readArguments (files ++ args) = some c) :
    ∃ c', readArguments args = some c' ∧ c = c'.addInputFiles files := by
  induction files generalizing c with
  | nil => exact ⟨c, h, rfl⟩
  | cons file files ih =>
      have hdash := hfiles file List.mem_cons_self
      have hat : file.head? ≠ some '@' := by
        intro hat
        cases file with
        | nil => cases hat
        | cons a cs =>
            obtain rfl := Option.some.inj hat
            rw [List.cons_append, readArguments] at h
            cases h
      have hread : readArgument file = .inputFile file := isInput_of_head hdash hat
      rw [List.cons_append, readArguments, hread] at h
      obtain ⟨c, hc, rfl⟩ := Option.map_eq_some_iff.mp h
      obtain ⟨c', hc', rfl⟩ := ih (fun f hf => hfiles f (List.mem_cons_of_mem _ hf)) hc
      exact ⟨c', hc', rfl⟩

namespace CommandLine

variable {ns : List Text} {name value : Text}

theorem mem_valuesOf (hname : name ∈ ns) (h : (name, value) ∈ c.options) : value ∈ c.valuesOf ns :=
  List.mem_map.mpr ⟨_, List.mem_filter.mpr ⟨h, decide_eq_true hname⟩, rfl⟩

theorem mem_protoPath (h : ("--proto_path".toList, value) ∈ c.options) : value ∈ c.protoPath := by
  have hmem := mem_valuesOf (List.mem_cons_self (l := ["-I".toList])) h
  rw [protoPath]
  simp only [if_neg (List.ne_nil_of_mem hmem)]
  exact hmem

end CommandLine

section Generated

variable {protoPath file source cppOut grpcOut : Text}

/-- A file is found in a directory that it lies under. -/
theorem prefix_of_sourceStem (h : sourceStem protoPath file = some source) :
    isAbsolute protoPath = isAbsolute file ∧ location protoPath <+: location file := by
  unfold sourceStem at h
  simp only at h
  split at h
  · rename_i hfound
    exact ⟨hfound.1, hfound.2.1⟩
  · cases h

theorem sourceStem_eq {directories : List Text} {name : Text}
    (habsolute : isAbsolute protoPath = isAbsolute file)
    (hfile : location file = location protoPath ++ (directories ++ [name ++ ".proto".toList])) :
    sourceStem protoPath file = some (joinPath (directories ++ [name])) := by
  unfold sourceStem
  rw [hfile, List.drop_left]
  simp only
  rw [← joinPath_concat_append, if_pos ⟨habsolute, List.prefix_append _ _, List.suffix_append _ _⟩]
  rw [List.length_append]
  change some (List.take (_ + 6 - 6) _) = _
  rw [Nat.add_sub_cancel, List.take_left]

theorem exists_of_mapM {α β : Type} {f : α → Option β} {xs : List α} {ys : List β}
    (h : xs.mapM f = some ys) :
    ∀ x ∈ xs, ∃ y, f x = some y := by
  induction xs generalizing ys with
  | nil => exact fun x hx => by cases hx
  | cons x xs ih =>
      rw [List.mapM_cons] at h
      obtain ⟨y, hy, h⟩ := Option.bind_eq_some_iff.mp h
      obtain ⟨ys, hys, -⟩ := Option.bind_eq_some_iff.mp h
      intro z hz
      rcases List.mem_cons.mp hz with rfl | hz
      · exact ⟨y, hy⟩
      · exact ih hys z hz

theorem mapM_map_eq {α β γ : Type} {f : α → Option β} {text : γ → α} {g : γ → β} {xs : List γ}
    (h : ∀ x ∈ xs, f (text x) = some (g x)) : (xs.map text).mapM f = some (xs.map g) := by
  induction xs with
  | nil => rfl
  | cons x xs ih =>
      rw [List.map_cons, List.mapM_cons, h x List.mem_cons_self,
        ih fun y hy => h y (List.mem_cons_of_mem _ hy)]
      rfl

theorem CommandLine.single_of_writes {written : List Text} (h : c.writes = some written) :
    ∃ cppOut grpcOut protoPath, c.cppOut = [cppOut] ∧ c.grpcOut = [grpcOut] ∧
      c.protoPath = [protoPath] := by
  unfold writes at h
  split at h
  · exact ⟨_, _, _, ‹_›, ‹_›, ‹_›⟩
  · cases h

variable (hcppOut : c.cppOut = [cppOut]) (hgrpcOut : c.grpcOut = [grpcOut])
    (hprotoPath : c.protoPath = [protoPath])

include hcppOut hgrpcOut hprotoPath

theorem CommandLine.writes_eq : c.writes = (c.inputFiles.mapM (sourceStem protoPath)).map fun stems =>
    stems.flatMap (generatedFiles cppOut grpcOut) := by
  rw [writes, hcppOut, hgrpcOut, hprotoPath]

/-- Where something is written, every file was found. -/
theorem CommandLine.exists_sourceStem {written : List Text} (h : c.writes = some written) :
    ∀ file ∈ c.inputFiles, ∃ source, sourceStem protoPath file = some source := by
  rw [writes_eq hcppOut hgrpcOut hprotoPath] at h
  obtain ⟨stems, hstems, -⟩ := Option.map_eq_some_iff.mp h
  exact exists_of_mapM hstems

theorem CommandLine.writes_of_sourceStem {α : Type} {xs : List α} {text source : α → Text}
    (hinput : c.inputFiles = xs.map text)
    (h : ∀ x ∈ xs, sourceStem protoPath (text x) = some (source x)) :
    c.writes = some (xs.flatMap fun x => generatedFiles cppOut grpcOut (source x)) := by
  rw [writes_eq hcppOut hgrpcOut hprotoPath, hinput, mapM_map_eq h, Option.map_some, List.flatMap_map]

end Generated

end Protoc
