import EasyGrpc.Proof.ProtocCommand

namespace EasyGrpc.ProtoTargets

open CMake Protoc

/-- A proto file, by its path relative to a directory that it lies under. -/
structure ProtoFile (dir : Text) where
  text : Text
  directories : List Text
  name : Text
  under : LiesUnder text dir (directories ++ [name ++ ".proto".toList])

namespace ProtoFile

variable {dir : Text} (f : ProtoFile dir)

def path : List Text := f.directories ++ [f.name]

def stem : Text := CMake.stem (f.name ++ ".proto".toList)

def PlainName : Prop := f.name ≠ [] ∧ '.' ∉ f.name.tail

end ProtoFile

/-- What has been computed agrees with what `protoc` does. Two proto files are distinct where they lead
to different places. -/
structure Predicted (s : Scope) {dir : Text} (files : List (ProtoFile dir)) (c : CommandLine)
    (written : List Text) (t : Scope) : Prop where
  command : readArguments (s.expand "PROTOC_COMMAND").tail = some c
  inputFiles : c.inputFiles = files.map ProtoFile.text
  writes : c.writes = some written
  extracted : extractProtocOutputFiles "OUTPUT_FILES" s = .ok t
  outputFiles : ∀ place, place ∈ (t.expand "OUTPUT_FILES").map location ↔ place ∈ written.map location
  disjoint : ∀ f ∈ files, ∀ g ∈ files, location f.text ≠ location g.text →
    ∀ x ∈ outputFilesOf (s.value "cpp_out") dir f.text,
      ∀ y ∈ outputFilesOf (s.value "cpp_out") dir g.text, location x ≠ location y

/-- `OUTPUT_FILES` is the set of the files that the command makes `protoc` write. -/
def Predicts (s : Scope) {dir : Text} (files : List (ProtoFile dir)) : Prop :=
  ∃ c written t, Predicted s files c written t

structure Predictable {dir : Text} (files : List (ProtoFile dir)) (cppOut grpcOut : Text) : Prop where
  protoPath : isOff dir = false ∧ IsElement dir
  sameOut : location cppOut = location grpcOut
  inputFiles : ∀ f ∈ files, IsInput f.text
  names : ∀ f ∈ files, f.PlainName
  subs : ∀ f ∈ files, isOff (joinPath f.path) = false

structure Layout (s : Scope) (r : Request) {dir : Text} (files : List (ProtoFile dir))
    (cppOut grpcOut : Text) : Prop where
  protoFiles : r.protoFiles = files.map ProtoFile.text
  protoPath : s.value "proto_path" = dir ∧ ';' ∉ dir
  cppOut : s.value "cpp_out" = cppOut ∧ ';' ∉ cppOut
  grpcOut : s.value "grpc_out" = grpcOut ∧ ';' ∉ grpcOut

section Names

variable {dir : Text} {f g : ProtoFile dir} {e e' : Text}

/-- What the names of generated files end in. -/
theorem extension_spec : ∀ e ∈ extensions, (∃ cs, e = '.' :: cs) ∧ (5 ≤ e.length ∧ e.length ≤ 11) ∧
    ('/' ∉ e ∧ ';' ∉ e) ∧ nesting e = 0 ∧ ∃ c, e.getLast? = some c ∧ c ≠ '\\' := by
  intro e he
  simp only [extensions, List.map_cons, List.map_nil, List.mem_cons, List.not_mem_nil, or_false] at he
  rcases he with rfl | rfl | rfl | rfl <;> exact ⟨⟨_, rfl⟩, by decide, by decide, rfl, _, rfl, by decide⟩

theorem ProtoFile.stem_eq_cons (f : ProtoFile dir) : ∃ c cs, f.stem = c :: cs ∧ '.' ∉ cs := by
  refine CMake.stem_eq_cons (List.append_ne_nil_of_right_ne_nil _ (List.cons_ne_nil _ _)) fun hdots => ?_
  have hlength := congrArg List.length hdots
  rw [List.length_append] at hlength
  change _ + 6 = 2 at hlength
  omega

theorem ProtoFile.PlainName.stem (h : f.PlainName) : f.stem = f.name :=
  stem_append h.1 h.2 (List.cons_ne_nil _ _)

/-- The stem of a name that is given an extension of the generated files shows whether the name is
plain. -/
theorem ProtoFile.plainName_of_eq (he : e ∈ extensions) (he' : e' ∈ extensions)
    (hheader : f.name ++ ".pb.h".toList = g.stem ++ e)
    {g' : ProtoFile dir} (hsource : f.name ++ ".grpc.pb.cc".toList = g'.stem ++ e') : f.PlainName := by
  constructor
  · intro hnil
    obtain ⟨c, cs, hstem, -⟩ := g.stem_eq_cons
    have hlength := congrArg List.length hheader
    have hshort := (extension_spec e he).2.1.1
    rw [hnil, hstem, List.length_append, List.length_append, List.length_cons] at hlength
    change 0 + 5 = _ at hlength
    omega
  · obtain ⟨c, cs, hstem, hperiod⟩ := g'.stem_eq_cons
    have hlength := congrArg List.length hsource
    have hlong := (extension_spec e' he').2.1.2
    rw [List.length_append, List.length_append] at hlength
    change _ + 11 = _ at hlength
    have hprefix : f.name <+: g'.stem :=
      List.prefix_of_prefix_length_le (List.prefix_append _ _)
        (hsource.symm ▸ List.prefix_append _ _) (by omega)
    rw [hstem] at hprefix
    cases hname : f.name with
    | nil => exact List.not_mem_nil
    | cons d ds =>
        rw [hname] at hprefix
        exact fun hmem => hperiod ((List.cons_prefix_cons.mp hprefix).2.subset hmem)

/-- A plain name and an extension are read off the name of the generated file. -/
theorem ProtoFile.PlainName.inj (hf : f.PlainName) (hg : g.PlainName) (he : e ∈ extensions)
    (he' : e' ∈ extensions) (h : f.name ++ e = g.name ++ e') : f.name = g.name ∧ e = e' := by
  have hstem : ∀ {k : ProtoFile dir} {e}, k.PlainName → e ∈ extensions →
    CMake.stem (k.name ++ e) = k.name := by
    intro k e hk he
    obtain ⟨⟨cs, rfl⟩, ⟨hlength, -⟩, -⟩ := extension_spec e he
    refine stem_append hk.1 hk.2 ?_
    rintro rfl
    exact absurd hlength (by decide)
  have hname : f.name = g.name := by
    calc
      f.name = CMake.stem (f.name ++ e) := (hstem hf he).symm
      _ = CMake.stem (g.name ++ e') := congrArg _ h
      _ = g.name := hstem hg he'
  rw [hname] at h
  exact ⟨hname, List.append_cancel_left h⟩

end Names

section Entries

variable {dir out cppOut grpcOut x : Text} {f : ProtoFile dir} {files : List (ProtoFile dir)} {e : Text}

theorem ProtoFile.noSlash_directories (f : ProtoFile dir) : ∀ n ∈ f.directories, '/' ∉ n :=
  fun n hn => f.under.noSlash n (List.mem_append_left _ hn)

theorem ProtoFile.noSlash_name (f : ProtoFile dir) : '/' ∉ f.name ++ ".proto".toList :=
  f.under.noSlash _ (List.mem_append_right _ List.mem_cons_self)

theorem ProtoFile.stem_subset (f : ProtoFile dir) : f.stem ⊆ f.name ++ ".proto".toList :=
  (isPrefix_stem _).subset

/-- The relative path is made of slashes and the characters of the file. -/
theorem ProtoFile.mem_of_mem_joinPath (f : ProtoFile dir) {n : Text} (hn : n ⊆ f.name ++ ".proto".toList)
    {c : Char} (hc : c ∈ joinPath (f.directories ++ [n])) (hslash : c ≠ '/') : c ∈ f.text := by
  obtain hc | ⟨y, hy, hc⟩ := mem_joinPath hc
  · exact absurd hc hslash
  · rcases List.mem_append.mp hy with hy | hy
    · exact f.under.subset (List.mem_append_left _ hy) hc
    · rw [List.mem_singleton.mp hy] at hc
      exact f.under.subset (List.mem_append_right _ List.mem_cons_self) (hn hc)

theorem protoFileSub_eq (f : ProtoFile dir) :
    protoFileSub dir f.text = joinPath (f.directories ++ [f.stem]) := by
  rw [protoFileSub, f.under.lexicallyRelative,
    removeExtension_joinPath f.noSlash_directories f.noSlash_name]
  rfl

def entry (cppOut : Text) (f : ProtoFile dir) (e : Text) : Text :=
  cppOut ++ '/' :: joinPath (f.directories ++ [f.stem]) ++ e

theorem noSemicolon_entry (hout : ';' ∉ cppOut) (hf : ';' ∉ f.text) (he : e ∈ extensions) :
    ';' ∉ entry cppOut f e := by
  intro hmem
  rcases List.mem_append.mp hmem with hmem | hmem
  · rcases List.mem_append.mp hmem with hmem | hmem
    · exact hout hmem
    · have hpath := (List.mem_cons.mp hmem).resolve_left (by decide)
      exact hf (f.mem_of_mem_joinPath f.stem_subset hpath (by decide))
  · exact (extension_spec e he).2.2.1.2 hmem

theorem entry_ne_nil : entry cppOut f e ≠ [] :=
  List.append_ne_nil_of_left_ne_nil (List.append_ne_nil_of_right_ne_nil _ (List.cons_ne_nil _ _)) _

theorem getLast?_entry (he : e ∈ extensions) : (entry cppOut f e).getLast? ≠ some '\\' := by
  obtain ⟨⟨cs, hcs⟩, -, -, -, c, hlast, hc⟩ := extension_spec e he
  rw [entry, List.getLast?_append_of_ne_nil _ (hcs ▸ List.cons_ne_nil _ _), hlast]
  exact fun heq => hc (Option.some.inj heq)

theorem outputFilesOf_eq (hout : ';' ∉ cppOut) (hf : ';' ∉ f.text) : outputFilesOf cppOut dir f.text =
    if isOff (joinPath (f.directories ++ [f.stem])) then [] else extensions.map (entry cppOut f) := by
  rw [outputFilesOf, protoFileSub_eq, List.map_eq_flatMap]
  refine if_congr Iff.rfl rfl ?_
  have hpiece : ∀ e ∈ extensions, expandList false (entry cppOut f e) = [entry cppOut f e] := by
    intro e he
    rw [expandList, expandFrom_of_noSemicolon (noSemicolon_entry hout hf he), List.nil_append,
      element_of_ne_nil entry_ne_nil]
  exact List.flatMap_congr hpiece

theorem mem_outputFilesOf (hout : ';' ∉ cppOut) (hf : ';' ∉ f.text) :
    x ∈ outputFilesOf cppOut dir f.text ↔
    isOff (joinPath (f.directories ++ [f.stem])) = false ∧ ∃ e ∈ extensions, entry cppOut f e = x := by
  rw [outputFilesOf_eq hout hf]
  cases isOff (joinPath (f.directories ++ [f.stem])) with
  | true => simp
  | false => simp

def entries (cppOut : Text) (files : List (ProtoFile dir)) : List Text :=
  files.flatMap fun f => outputFilesOf cppOut dir f.text

def outOf {α : Type} (cppOut grpcOut : α) (e : Text) : α :=
  if e ∈ [".pb.h", ".pb.cc"].map String.toList then cppOut else grpcOut

theorem generatedFiles_eq (source : Text) : generatedFiles cppOut grpcOut source =
    extensions.map fun e => outOf cppOut grpcOut e ++ '/' :: source ++ e := rfl

/-- Where a generated file leads. -/
theorem location_generated (hout : out ≠ []) {directories : List Text}
    (hdirectories : ∀ n ∈ directories, significant n = true ∧ '/' ∉ n) {n : Text}
    (hn : n ⊆ f.name ++ ".proto".toList) (he : e ∈ extensions) :
    location (out ++ '/' :: joinPath (directories ++ [n]) ++ e) =
      location out ++ (directories ++ [n ++ e]) := by
  obtain ⟨-, ⟨hlength, -⟩, ⟨hslash, -⟩, -⟩ := extension_spec e he
  refine location_append_file hout hdirectories (significant_of_length ?_) ?_
  · rw [List.length_append]
    omega
  · intro hmem
    rcases List.mem_append.mp hmem with hmem | hmem
    · exact f.noSlash_name (hn hmem)
    · exact hslash hmem

end Entries

section Places

variable {dir : Text} {files : List (ProtoFile dir)} {cpp grpc under : List Text}

def PredictedPlace (cpp : List Text) (files : List (ProtoFile dir)) (place : List Text) : Prop :=
  ∃ f ∈ files, isOff (joinPath (f.directories ++ [f.stem])) = false ∧
    ∃ e ∈ extensions, cpp ++ (f.directories ++ [f.stem ++ e]) = place

def WrittenPlace (cpp grpc under : List Text) (files : List (ProtoFile dir)) (place : List Text) :
    Prop :=
  ∃ f ∈ files, ∃ e ∈ extensions, outOf cpp grpc e ++ (under ++ f.directories ++ [f.name ++ e]) = place

theorem eq_of_concat {xs ys : List Text} {x y : Text} (h : xs ++ [x] = ys ++ [y]) : xs = ys ∧ x = y := by
  obtain ⟨hxs, hx⟩ := List.append_inj' h rfl
  exact ⟨hxs, List.head_eq_of_cons_eq hx⟩

/-- The place of a file of a plain name shows its path and its extension. -/
theorem path_of_place {f g : ProtoFile dir} {e e' : Text} {out out' : List Text} (hf : f.PlainName)
    (hg : g.PlainName) (he : e ∈ extensions) (he' : e' ∈ extensions)
    (h : out ++ (f.directories ++ [f.name ++ e]) = out' ++ (g.directories ++ [g.name ++ e'])) :
    out ++ f.path = out' ++ g.path ∧ e = e' := by
  rw [← List.append_assoc, ← List.append_assoc] at h
  obtain ⟨hdirectories, hname⟩ := eq_of_concat h
  obtain ⟨hstem, rfl⟩ := hf.inj hg he he' hname
  refine ⟨?_, rfl⟩
  rw [ProtoFile.path, ProtoFile.path, ← List.append_assoc, ← List.append_assoc, hdirectories, hstem]

/-- Where nothing but `.proto` is cut off and no file is left out, both are the same. -/
theorem predictedPlace_iff (hplain : ∀ f ∈ files, f.PlainName)
    (hsubs : ∀ f ∈ files, isOff (joinPath f.path) = false)
    {place : List Text} : PredictedPlace cpp files place ↔ WrittenPlace cpp cpp [] files place := by
  constructor
  · rintro ⟨f, hf, -, e, he, rfl⟩
    refine ⟨f, hf, e, he, ?_⟩
    rw [outOf, ite_self, (hplain f hf).stem, List.nil_append]
  · rintro ⟨f, hf, e, he, rfl⟩
    refine ⟨f, hf, ?_, e, he, ?_⟩
    · rw [(hplain f hf).stem]
      exact hsubs f hf
    · rw [outOf, ite_self, (hplain f hf).stem, List.nil_append]

theorem ProtoFile.location_eq_of_path {f g : ProtoFile dir} (h : f.path = g.path) :
    location f.text = location g.text := by
  obtain ⟨hdirectories, hname⟩ := eq_of_concat h
  rw [f.under.location, g.under.location, hdirectories, hname]

variable (h : ∀ place, PredictedPlace cpp files place ↔ WrittenPlace cpp grpc under files place)

include h

theorem plainName_of_places : ∀ f ∈ files, f.PlainName := by
  intro f hf
  have hwritten : ∀ e ∈ extensions, ∃ g : ProtoFile dir, ∃ e' ∈ extensions,
    f.name ++ e = g.stem ++ e' := by
    intro e he
    obtain ⟨g, -, -, e', he', hplace⟩ := (h _).mpr ⟨f, hf, e, he, rfl⟩
    rw [← List.append_assoc, ← List.append_assoc] at hplace
    exact ⟨g, e', he', (eq_of_concat hplace).2.symm⟩
  obtain ⟨g, e, he, hheader⟩ := hwritten ".pb.h".toList (by decide)
  obtain ⟨g', e', he', hsource⟩ := hwritten ".grpc.pb.cc".toList (by decide)
  exact ProtoFile.plainName_of_eq he he' hheader hsource

/-- Each written file is predicted as one of a file that is not left out. -/
theorem exists_predicted (f : ProtoFile dir) (hf : f ∈ files) (e : Text) (he : e ∈ extensions) :
    ∃ g ∈ files, isOff (joinPath g.path) = false ∧
      outOf cpp grpc e ++ under ++ f.path = cpp ++ g.path := by
  have hplain := plainName_of_places h
  obtain ⟨g, hg, hoff, e', he', hplace⟩ := (h _).mpr ⟨f, hf, e, he, rfl⟩
  rw [(hplain g hg).stem] at hoff hplace
  rw [List.append_assoc under, ← List.append_assoc _ under] at hplace
  exact ⟨g, hg, hoff, (path_of_place (hplain f hf) (hplain g hg) he he' hplace.symm).1⟩

variable (hne : files ≠ [])

include hne

/-- `protoc` searches the directory that the paths are relative to. -/
theorem under_eq_nil : under = [] := by
  have hpaths : files.map ProtoFile.path ≠ [] := fun hnil => hne (List.map_eq_nil_iff.mp hnil)
  have hle : (cpp ++ under).length ≤ cpp.length := by
    refine length_le_of_places hpaths fun x hx => ?_
    obtain ⟨f, hf, rfl⟩ := List.mem_map.mp hx
    obtain ⟨g, hg, -, hplace⟩ := exists_predicted h f hf ".pb.h".toList (by decide)
    exact ⟨g.path, List.mem_map.mpr ⟨g, hg, rfl⟩, hplace⟩
  rw [List.length_append] at hle
  exact List.length_eq_zero_iff.mp (by omega)

theorem isOff_of_places : ∀ f ∈ files, isOff (joinPath f.path) = false := by
  obtain rfl := under_eq_nil h hne
  intro f hf
  obtain ⟨g, -, hoff, hplace⟩ := exists_predicted h f hf ".pb.h".toList (by decide)
  rw [List.append_nil] at hplace
  rwa [List.append_cancel_left hplace]

/-- Both generators write to one directory. -/
theorem out_eq_of_places : cpp = grpc := by
  obtain rfl := under_eq_nil h hne
  have hplain := plainName_of_places h
  have hpaths : files.map ProtoFile.path ≠ [] := fun hnil => hne (List.map_eq_nil_iff.mp hnil)
  have hgrpc : ∀ f ∈ files, ∃ g ∈ files, grpc ++ f.path = cpp ++ g.path := by
    intro f hf
    obtain ⟨g, hg, -, hplace⟩ := exists_predicted h f hf ".grpc.pb.h".toList (by decide)
    rw [List.append_nil] at hplace
    exact ⟨g, hg, hplace⟩
  have hcpp : ∀ f ∈ files, ∃ g ∈ files, cpp ++ f.path = grpc ++ g.path := by
    intro f hf
    have hpredicted : PredictedPlace cpp files
        (cpp ++ (f.directories ++ [f.name ++ ".grpc.pb.h".toList])) := by
      refine ⟨f, hf, ?_, ".grpc.pb.h".toList, by decide, ?_⟩
      · rw [(hplain f hf).stem]
        exact isOff_of_places h hne f hf
      · rw [(hplain f hf).stem]
    obtain ⟨g, hg, e, he, hplace⟩ := (h _).mp hpredicted
    rw [List.nil_append] at hplace
    obtain ⟨hpath, rfl⟩ := path_of_place (hplain g hg) (hplain f hf) he (by decide) hplace
    exact ⟨g, hg, hpath.symm⟩
  have hle : ∀ {a b : List Text}, (∀ f ∈ files, ∃ g ∈ files, a ++ f.path = b ++ g.path) →
      a.length ≤ b.length := by
    intro a b hab
    refine length_le_of_places hpaths fun x hx => ?_
    obtain ⟨f, hf, rfl⟩ := List.mem_map.mp hx
    obtain ⟨g, hg, hplace⟩ := hab f hf
    exact ⟨g.path, List.mem_map.mpr ⟨g, hg, rfl⟩, hplace⟩
  obtain ⟨f, fs, rfl⟩ := List.exists_cons_of_ne_nil hne
  obtain ⟨g, -, hplace⟩ := hcpp f List.mem_cons_self
  exact (List.append_inj hplace (Nat.le_antisymm (hle hcpp) (hle hgrpc))).1

end Places

section Lists

variable {s t : Scope} {dir cppOut grpcOut : Text} {files : List (ProtoFile dir)} {under : List Text}

theorem ProtoFile.significant_directories (f : ProtoFile dir) :
    ∀ n ∈ f.directories, significant n = true ∧ '/' ∉ n :=
  fun n hn => ⟨f.under.significant n (List.mem_append_left _ hn), f.noSlash_directories n hn⟩

theorem location_entry {f : ProtoFile dir} {e : Text} (hout : cppOut ≠ []) (he : e ∈ extensions) :
    location (entry cppOut f e) = location cppOut ++ (f.directories ++ [f.stem ++ e]) :=
  location_generated hout f.significant_directories f.stem_subset he

theorem mem_entries (hout : cppOut ≠ []) (hsemicolon : ';' ∉ cppOut) (hfiles : ∀ f ∈ files, ';' ∉ f.text)
    (place : List Text) :
    place ∈ (entries cppOut files).map location ↔ PredictedPlace (location cppOut) files place := by
  constructor
  · intro hplace
    obtain ⟨x, hx, rfl⟩ := List.mem_map.mp hplace
    obtain ⟨f, hf, hx⟩ := List.mem_flatMap.mp hx
    obtain ⟨hoff, e, he, rfl⟩ := (mem_outputFilesOf hsemicolon (hfiles f hf)).mp hx
    exact ⟨f, hf, hoff, e, he, (location_entry hout he).symm⟩
  · rintro ⟨f, hf, hoff, e, he, rfl⟩
    rw [← location_entry hout he]
    refine List.mem_map.mpr ⟨_, List.mem_flatMap.mpr ⟨f, hf, ?_⟩, rfl⟩
    exact (mem_outputFilesOf hsemicolon (hfiles f hf)).mpr ⟨hoff, e, he, rfl⟩

def generated (cppOut grpcOut : Text) (under : List Text) (files : List (ProtoFile dir)) : List Text :=
  files.flatMap fun f => generatedFiles cppOut grpcOut (joinPath (under ++ f.directories ++ [f.name]))

theorem mem_generated (hcpp : cppOut ≠ []) (hgrpc : grpcOut ≠ [])
    (hunder : ∀ n ∈ under, significant n = true ∧ '/' ∉ n) (place : List Text) :
    place ∈ (generated cppOut grpcOut under files).map location ↔
      WrittenPlace (location cppOut) (location grpcOut) under files place := by
  have hlocation : ∀ f ∈ files, ∀ e ∈ extensions,
      location (outOf cppOut grpcOut e ++ '/' :: joinPath (under ++ f.directories ++ [f.name]) ++ e) =
        outOf (location cppOut) (location grpcOut) e ++ (under ++ f.directories ++ [f.name ++ e]) := by
    intro f _ e he
    have hout : outOf cppOut grpcOut e ≠ [] := by
      unfold outOf
      split
      · exact hcpp
      · exact hgrpc
    rw [outOf, outOf, ← apply_ite location]
    refine location_generated hout ?_ (List.subset_append_left f.name _) he
    intro n hn
    exact (List.mem_append.mp hn).elim (hunder n) (f.significant_directories n)
  constructor
  · intro hplace
    obtain ⟨x, hx, rfl⟩ := List.mem_map.mp hplace
    obtain ⟨f, hf, hx⟩ := List.mem_flatMap.mp hx
    rw [generatedFiles_eq] at hx
    obtain ⟨e, he, rfl⟩ := List.mem_map.mp hx
    exact ⟨f, hf, e, he, (hlocation f hf e he).symm⟩
  · rintro ⟨f, hf, e, he, rfl⟩
    rw [← hlocation f hf e he]
    refine List.mem_map.mpr ⟨_, List.mem_flatMap.mpr ⟨f, hf, ?_⟩, rfl⟩
    rw [generatedFiles_eq]
    exact List.mem_map.mpr ⟨e, he, rfl⟩

theorem entries_spec (hsemicolon : ';' ∉ cppOut) (hfiles : ∀ f ∈ files, ';' ∉ f.text) :
    ∀ x ∈ entries cppOut files, x ≠ [] ∧ ';' ∉ x ∧ x.getLast? ≠ some '\\' := by
  intro x hx
  obtain ⟨f, hf, hx⟩ := List.mem_flatMap.mp hx
  obtain ⟨-, e, he, rfl⟩ := (mem_outputFilesOf hsemicolon (hfiles f hf)).mp hx
  exact ⟨entry_ne_nil, noSemicolon_entry hsemicolon (hfiles f hf) he, getLast?_entry he⟩

/-- The loop over the files appends the entries of each. -/
theorem value_foldl_append {xs : List Text} (hs : s.value "OUTPUT_FILES" = joinList xs)
    (hxs : ∀ x ∈ xs, x ≠ []) (hentries : ∀ x ∈ entries cppOut files, x ≠ []) :
    ((files.map ProtoFile.text).foldl
      (fun t file => t.append "OUTPUT_FILES" (outputFilesOf cppOut dir file)) s).value "OUTPUT_FILES" =
        joinList (xs ++ entries cppOut files) := by
  induction files generalizing s xs with
  | nil => rw [entries, List.flatMap_nil, List.append_nil]; exact hs
  | cons f files ih =>
      have hfirst : ∀ x ∈ xs ++ outputFilesOf cppOut dir f.text, x ≠ [] := by
        intro x hx
        exact (List.mem_append.mp hx).elim (hxs x) fun hx => hentries x (List.mem_append_left _ hx)
      have hvalue : (s.append "OUTPUT_FILES" (outputFilesOf cppOut dir f.text)).value "OUTPUT_FILES" =
          joinList (xs ++ outputFilesOf cppOut dir f.text) := by
        refine Scope.value_append_self hs fun hne => ?_
        obtain ⟨x, rest, rfl⟩ := List.exists_cons_of_ne_nil hne
        exact joinList_ne_nil List.mem_cons_self (hxs x List.mem_cons_self)
      have hrest := ih hvalue hfirst fun x hx => hentries x (List.mem_append_right _ hx)
      rw [List.append_assoc] at hrest
      exact hrest

/-- The list that the caller finds, up to where it is divided. -/
theorem expand_outputFiles (hcpp : s.value "cpp_out" = cppOut) (hsemicolon : ';' ∉ cppOut)
    (hprotoFiles : s.expand "PROTO_FILES" = files.map ProtoFile.text)
    (hfiles : ∀ f ∈ files, ';' ∉ f.text)
    (hpath : s.expand "proto_path" = [dir]) : ∃ t, extractProtocOutputFiles "OUTPUT_FILES" s = .ok t ∧
      t.expand "OUTPUT_FILES" = expandList false (joinList (entries cppOut files)) := by
  have hspec := entries_spec hsemicolon hfiles
  have hunset : (s.unset "OUTPUT_FILES").value "OUTPUT_FILES" = joinList [] := by
    rw [Scope.value, Scope.unset_self]
    rfl
  have hfold := value_foldl_append hunset (fun x hx => by cases hx) fun x hx => (hspec x hx).1
  rw [List.nil_append] at hfold
  unfold extractProtocOutputFiles
  rw [hpath]
  simp only
  refine ⟨_, rfl, ?_⟩
  rw [Scope.expand, Scope.value_set_self, Scope.expand, hprotoFiles, hcpp, hfold]
  by_cases hnil : entries cppOut files = []
  · rw [hnil]
    rfl
  · rw [expandList, expandList, (joinList_expandFrom hspec hnil).1, List.nil_append]

end Lists

section Command

/-- A directory that is a false constant still leads somewhere. -/
theorem location_ne_nil_of_isOff {s : Text} (hoff : isOff s = true) (hne : s ≠ []) :
    location s ≠ [] := by
  have hchar : ∃ c ∈ s, c ≠ '/' ∧ c ≠ '.' := by
    simp only [isOff, Bool.or_eq_true, decide_eq_true_eq] at hoff
    rcases hoff with ((hnil | hname) | rfl) | hsuffix
    · exact absurd hnil hne
    · obtain ⟨c, cs, rfl⟩ := List.exists_cons_of_ne_nil hne
      have hnames : ∀ name ∈ falseNames, '/' ∉ name ∧ '.' ∉ name := by decide
      obtain ⟨hslash, hperiod⟩ := hnames _ hname
      refine ⟨c, List.mem_cons_self, ?_, ?_⟩
      · rintro rfl
        exact hslash List.mem_cons_self
      · rintro rfl
        exact hperiod List.mem_cons_self
    · exact ⟨'N', by decide, by decide, by decide⟩
    · have hsub := (List.isSuffixOf_iff_suffix.mp hsuffix).subset
      exact ⟨'N', hsub (by decide), by decide, by decide⟩
  obtain ⟨c, hc, hslash, hperiod⟩ := hchar
  obtain ⟨n, hn, -⟩ := exists_mem_location hc hslash hperiod
  exact List.ne_nil_of_mem hn

variable {u : Scope} {r : Request} {dir cppOut grpcOut : Text} {files : List (ProtoFile dir)}

theorem ProtoFile.sourceStem_dir (f : ProtoFile dir) :
    sourceStem dir f.text = some (joinPath (f.directories ++ [f.name])) :=
  sourceStem_eq f.under.isAbsolute.symm f.under.location

/-- From the current directory the whole path is relative. -/
theorem ProtoFile.sourceStem_current (f : ProtoFile dir) (habsolute : isAbsolute f.text = false) :
    sourceStem ['.'] f.text = some (joinPath (location dir ++ f.directories ++ [f.name])) := by
  refine sourceStem_eq habsolute.symm ?_
  rw [f.under.location, List.append_assoc]
  rfl

structure Chosen (r : Request) {dir : Text} (files : List (ProtoFile dir)) (cppOut grpcOut : Text) :
    Prop where
  protoFiles : r.protoFiles = files.map ProtoFile.text
  protoPath : r.searched = [dir]
  cppOut : r.chosen r.cppOut = [cppOut]
  grpcOut : r.chosen r.grpcOut = [grpcOut]

theorem eq_singleton_of_joinList {xs : List Text} {d : Text} (h : d = joinList xs) (hd : ';' ∉ d)
    (hne : xs ≠ []) :
    xs = [d] := by
  obtain ⟨x, xs, rfl⟩ := List.exists_cons_of_ne_nil hne
  cases xs with
  | nil => rw [h, joinList_singleton]
  | cons y ys =>
      refine absurd ?_ hd
      rw [h, joinList_cons_cons]
      exact List.mem_append_right _ List.mem_cons_self

theorem Layout.chosen (h : Layout (makeProtocCommand u) r files cppOut grpcOut) (hs : SetUp u r) :
    Chosen r files cppOut grpcOut := by
  have hframe := (builds_makeProtocCommand hs).sameBut
  obtain ⟨hpath, hdir⟩ := h.protoPath
  obtain ⟨hcpp, hcppOut⟩ := h.cppOut
  obtain ⟨hgrpc, hgrpcOut⟩ := h.grpcOut
  rw [hframe.value (by decide)] at hpath hcpp hgrpc
  constructor
  · exact h.protoFiles
  · exact eq_singleton_of_joinList (hpath.symm.trans hs.protoPath) hdir r.searched_ne_nil
  · exact eq_singleton_of_joinList (hcpp.symm.trans hs.cppOut) hcppOut
      (ne_nil_of_isTrue hs.cppOut_isTrue hs.cppOut)
  · exact eq_singleton_of_joinList (hgrpc.symm.trans hs.grpcOut) hgrpcOut
      (ne_nil_of_isTrue hs.grpcOut_isTrue hs.grpcOut)

variable (hr : r.Elements) (hc : Chosen r files cppOut grpcOut)

include hr hc

theorem Chosen.isElement_text : ∀ f ∈ files, IsElement f.text := by
  intro f hf
  refine hr.protoFiles f.text ?_
  rw [hc.protoFiles]
  exact List.mem_map_of_mem hf

theorem Chosen.isElement_out : IsElement cppOut ∧ IsElement grpcOut := by
  constructor
  · exact hr.chosen hr.cppOut cppOut (hc.cppOut ▸ List.mem_cons_self)
  · exact hr.chosen hr.grpcOut grpcOut (hc.grpcOut ▸ List.mem_cons_self)

variable (hs : SetUp u r)

include hs

theorem Chosen.layout : Layout (makeProtocCommand u) r files cppOut grpcOut := by
  have hframe := (builds_makeProtocCommand hs).sameBut
  obtain ⟨hcpp, hgrpc⟩ := hc.isElement_out hr
  have hdir := hr.noSemicolon_searched hs.protoFiles_ne_nil dir (hc.protoPath ▸ List.mem_cons_self)
  refine ⟨hc.protoFiles, ⟨?_, hdir⟩, ⟨?_, hcpp.noSemicolon⟩, ⟨?_, hgrpc.noSemicolon⟩⟩
  · rw [hframe.value (by decide), hs.protoPath, hc.protoPath, joinList_singleton]
  · rw [hframe.value (by decide), hs.cppOut, hc.cppOut, joinList_singleton]
  · rw [hframe.value (by decide), hs.grpcOut, hc.grpcOut, joinList_singleton]

/-- A search path that makes `protoc` find the files can stand in a list. -/
theorem Chosen.isElement_of_writes {c : CommandLine} {written : List Text}
    (hread : readArguments ((makeProtocCommand u).expand "PROTOC_COMMAND").tail = some c)
    (hwrites : c.writes = some written) (hinput : c.inputFiles = r.protoFiles)
    (hoff : isOff dir = false) :
    IsElement dir := by
  obtain ⟨c', hread', -, -, plugin, hoptions⟩ :=
    readArguments_protocCommand hs hr (by simp [hc.cppOut, hc.grpcOut]) hread
  obtain ⟨a, b, p, ha, hb, hp⟩ := CommandLine.single_of_writes hwrites
  obtain ⟨file, rest, hfile⟩ := List.exists_cons_of_ne_nil hs.protoFiles_ne_nil
  have hmem : file ∈ r.protoFiles := hfile ▸ List.mem_cons_self
  obtain ⟨source, hsource⟩ := CommandLine.exists_sourceStem ha hb hp hwrites file (hinput ▸ hmem)
  refine isElement_searched hr hs.protoFiles_ne_nil (by rwa [hc.protoPath, joinList_singleton]) hread'
    (fun v hv => ?_) dir (hc.protoPath ▸ List.mem_cons_self)
  have hv' : v ∈ c.protoPath := by
    refine CommandLine.mem_protoPath ?_
    rw [hoptions]
    exact List.mem_cons_of_mem _ (List.mem_cons_of_mem _ (List.mem_cons_of_mem _ hv))
  rw [hp] at hv'
  obtain rfl := List.mem_singleton.mp hv'
  intro hsemicolon
  obtain ⟨n, hn, hcn⟩ := exists_mem_location hsemicolon (by decide) (by decide)
  have hn' := (prefix_of_sourceStem hsource).2.subset hn
  exact (hr.protoFiles file hmem).noSemicolon (mem_of_mem_pathElements (List.mem_filter.mp hn').1 hcn)

/-- `OUTPUT_FILES` is computed unless `proto_path` is empty. -/
theorem Chosen.extracted_iff {outputs : List Text} :
    (∃ t, extractProtocOutputFiles "OUTPUT_FILES" (makeProtocCommand u) = .ok t ∧
      t.expand "OUTPUT_FILES" = outputs) ↔
    dir ≠ [] ∧ expandList false (joinList (entries cppOut files)) = outputs := by
  have hframe := (builds_makeProtocCommand hs).sameBut
  obtain ⟨hcppOut, hsemicolon⟩ := (hc.layout hr hs).cppOut
  obtain ⟨hvalue, hdirSemicolon⟩ := (hc.layout hr hs).protoPath
  have hprotoFiles : (makeProtocCommand u).expand "PROTO_FILES" = files.map ProtoFile.text := by
    rw [← hc.protoFiles]
    exact expand_eq ((hframe.value (by decide)).trans hs.protoFiles) hr.protoFiles
  have hprotoPath : (makeProtocCommand u).expand "proto_path" = element false dir := by
    rw [Scope.expand, hvalue, expandList, expandFrom_of_noSemicolon hdirSemicolon, List.nil_append]
  by_cases hdir : dir = []
  · have hnone : (makeProtocCommand u).expand "proto_path" = [] := by
      rw [hprotoPath, hdir]
      rfl
    constructor
    · rintro ⟨t, ht, -⟩
      rw [extractProtocOutputFiles, hnone] at ht
      cases ht
    · exact fun h => absurd hdir h.1
  · rw [element_of_ne_nil hdir] at hprotoPath
    obtain ⟨t, ht, hexpand⟩ := expand_outputFiles hcppOut hsemicolon hprotoFiles
      (fun f hf => (hc.isElement_text hr f hf).noSemicolon) hprotoPath
    constructor
    · rintro ⟨t', ht', rfl⟩
      obtain rfl := Except.ok.inj (ht.symm.trans ht')
      exact ⟨hdir, hexpand.symm⟩
    · rintro ⟨-, rfl⟩
      exact ⟨t, ht, hexpand⟩

end Command

section Written

variable {c : CommandLine} {dir cppOut grpcOut x : Text} {files : List (ProtoFile dir)}
    {under written : List Text}

theorem noSemicolon_generated (hcpp : ';' ∉ cppOut) (hgrpc : ';' ∉ grpcOut)
    (hunder : ∀ n ∈ under, ';' ∉ n)
    (hfiles : ∀ f ∈ files, ';' ∉ f.text) (hx : x ∈ generated cppOut grpcOut under files) : ';' ∉ x := by
  obtain ⟨f, hf, hx⟩ := List.mem_flatMap.mp hx
  rw [generatedFiles_eq] at hx
  obtain ⟨e, he, rfl⟩ := List.mem_map.mp hx
  intro hmem
  rcases List.mem_append.mp hmem with hmem | hmem
  · rcases List.mem_append.mp hmem with hmem | hmem
    · unfold outOf at hmem
      split at hmem
      · exact hcpp hmem
      · exact hgrpc hmem
    · obtain hslash | ⟨n, hn, hc⟩ := mem_joinPath ((List.mem_cons.mp hmem).resolve_left (by decide))
      · cases hslash
      · rcases List.mem_append.mp hn with hn | hn
        · rcases List.mem_append.mp hn with hn | hn
          · exact hunder n hn hc
          · exact hfiles f hf (f.under.subset (List.mem_append_left _ hn) hc)
        · rw [List.mem_singleton.mp hn] at hc
          refine hfiles f hf (f.under.subset (List.mem_append_right _ List.mem_cons_self) ?_)
          exact List.mem_append_left _ hc
  · exact (extension_spec e he).2.2.1.2 hmem

/-- What `protoc` writes. Where the search path is left out, the paths start at the current directory. -/
theorem written_eq (hne : files ≠ []) (hinput : c.inputFiles = files.map ProtoFile.text)
    (hcpp : c.cppOut = [cppOut]) (hgrpc : c.grpcOut = [grpcOut])
    (hpath : c.protoPath = if isOff dir then [['.']] else [dir]) (hwrites : c.writes = some written) :
    ∃ under, written = generated cppOut grpcOut under files ∧
      (∀ n ∈ under, significant n = true ∧ '/' ∉ n) ∧
      (if isOff dir then under = location dir else under = []) := by
  cases hoff : isOff dir with
  | false =>
      rw [hoff, if_neg Bool.false_ne_true] at hpath
      have hall := CommandLine.writes_of_sourceStem hcpp hgrpc hpath hinput fun f _ => f.sourceStem_dir
      exact ⟨[], Option.some.inj (hwrites.symm.trans hall), List.forall_mem_nil _, rfl⟩
  | true =>
      rw [hoff, if_pos rfl] at hpath
      have hrelative : ∀ f ∈ files, isAbsolute f.text = false := by
        intro f hf
        obtain ⟨source, hsource⟩ := CommandLine.exists_sourceStem hcpp hgrpc hpath hwrites f.text
          (hinput ▸ List.mem_map_of_mem hf)
        exact (prefix_of_sourceStem hsource).1.symm
      have hall := CommandLine.writes_of_sourceStem hcpp hgrpc hpath hinput fun f hf =>
        f.sourceStem_current (hrelative f hf)
      refine ⟨location dir, Option.some.inj (hwrites.symm.trans hall), fun n hn => ?_, rfl⟩
      obtain ⟨f, fs, rfl⟩ := List.exists_cons_of_ne_nil hne
      have hdir : isAbsolute dir = false := f.under.isAbsolute.symm.trans
        (hrelative f List.mem_cons_self)
      refine ⟨(List.mem_filter.mp hn).2, ?_⟩
      rw [location_eq, hdir, if_neg Bool.false_ne_true, List.nil_append] at hn
      exact noSlash_of_mem_names (List.mem_filter.mp hn).1

end Written

section Agreement

variable {u : Scope} {r : Request} {dir cppOut grpcOut : Text} {files : List (ProtoFile dir)}

/-- The entries of balanced paths are divided off from each other. -/
theorem Predictable.isElement_entries (h : Predictable files cppOut grpcOut) (hr : r.Elements)
    (hc : Chosen r files cppOut grpcOut) : ∀ x ∈ entries cppOut files, IsElement x := by
  intro x hx
  obtain ⟨hcpp, -⟩ := hc.isElement_out hr
  have htext := hc.isElement_text hr
  obtain ⟨f, hf, hx⟩ := List.mem_flatMap.mp hx
  obtain ⟨-, e, he, rfl⟩ := (mem_outputFilesOf hcpp.noSemicolon (htext f hf).noSemicolon).mp hx
  obtain ⟨-, -, -, hextension, -⟩ := extension_spec e he
  have hpath : nesting (joinPath (f.directories ++ [f.stem])) = 0 := by
    have hunder := f.under.nesting
    rw [(htext f hf).balanced, h.protoPath.2.balanced, List.map_append, List.sum_append,
      List.map_singleton, List.sum_singleton, nesting_append] at hunder
    change _ + (_ + 0) = (0 : Int) at hunder
    have hne : f.directories ++ [f.name] ≠ [] :=
      List.append_ne_nil_of_right_ne_nil _ (List.cons_ne_nil _ _)
    rw [(h.names f hf).stem, nesting_joinPath hne,
      List.map_append, List.sum_append, List.map_singleton, List.sum_singleton]
    omega
  refine ⟨entry_ne_nil, noSemicolon_entry hcpp.noSemicolon (htext f hf).noSemicolon he, ?_,
    getLast?_entry he⟩
  rw [entry, nesting_append, nesting_append, nesting_cons, hcpp.balanced, hpath, hextension]
  rfl

variable (hc : Chosen r files cppOut grpcOut) (hs : SetUp u r) (hr : r.Elements)

include hc hs

theorem Chosen.files_ne_nil : files ≠ [] := by
  rintro rfl
  exact hs.protoFiles_ne_nil hc.protoFiles

include hr

theorem Chosen.noSemicolon_under {under : List Text}
    (hunder : if isOff dir then under = location dir else under = []) : ∀ n ∈ under, ';' ∉ n := by
  intro n hn hmem
  split at hunder
  · rw [hunder] at hn
    have hdir := hr.noSemicolon_searched hs.protoFiles_ne_nil dir (hc.protoPath ▸ List.mem_cons_self)
    exact hdir (mem_of_mem_pathElements (List.mem_filter.mp hn).1 hmem)
  · rw [hunder] at hn
    cases hn

/-- A layout is predicted only if it is predictable. -/
theorem predictable_of_predicts (h : Predicts (makeProtocCommand u) files) :
    Predictable files cppOut grpcOut := by
  obtain ⟨c, written, t, h⟩ := h
  have hinput : ∀ file ∈ r.protoFiles, IsInput file := by
    intro file hfile
    refine isInput_of_mem h.command ?_
    rwa [h.inputFiles, ← hc.protoFiles]
  have helement := hc.isElement_of_writes hr hs h.command h.writes
    (h.inputFiles.trans hc.protoFiles.symm)
  obtain ⟨c', hread, -, -, hcppOut, hgrpcOut, hprotoPath⟩ :=
    exists_readArguments hs hr hc.cppOut hc.grpcOut hc.protoPath helement hinput
  obtain rfl := Option.some.inj (hread.symm.trans h.command)
  have hne := hc.files_ne_nil hs
  obtain ⟨under, rfl, hunder, hplace⟩ := written_eq hne h.inputFiles hcppOut hgrpcOut hprotoPath h.writes
  obtain ⟨hdir, hexpand⟩ := (hc.extracted_iff hr hs).mp ⟨t, h.extracted, rfl⟩
  obtain ⟨hcpp, hgrpc⟩ := hc.isElement_out hr
  have htext := fun f hf => (hc.isElement_text hr f hf).noSemicolon
  have hspec := entries_spec hcpp.noSemicolon htext
  -- An entry that swallowed a `;` would lead to no place that is written to.
  have hread' : ∀ x ∈ expandList false (joinList (entries cppOut files)), ';' ∉ x := by
    intro x hx hmem
    rw [hexpand] at hx
    obtain ⟨n, hn, hcn⟩ := exists_mem_location hmem (by decide) (by decide)
    obtain ⟨y, hy, hxy⟩ := List.mem_map.mp ((h.outputFiles _).mp (List.mem_map_of_mem hx))
    rw [← hxy] at hn
    refine noSemicolon_generated hcpp.noSemicolon hgrpc.noSemicolon ?_ htext hy
      (mem_of_mem_pathElements (List.mem_filter.mp hn).1 hcn)
    exact hc.noSemicolon_under hs hr hplace
  have hentries := expandList_eq_of_noSemicolon hspec hread'
  have hplaces : ∀ place, PredictedPlace (location cppOut) files place ↔
      WrittenPlace (location cppOut) (location grpcOut) under files place := by
    intro place
    rw [← mem_entries hcpp.ne_nil hcpp.noSemicolon htext,
      ← mem_generated hcpp.ne_nil hgrpc.ne_nil hunder,
      ← h.outputFiles, ← hexpand, hentries]
  have hoff : isOff dir = false := by
    by_contra hoff
    rw [Bool.not_eq_false] at hoff
    rw [if_pos hoff, under_eq_nil hplaces hne] at hplace
    exact location_ne_nil_of_isOff hoff hdir hplace.symm
  exact
    { protoPath := ⟨hoff, helement hoff⟩
      sameOut := out_eq_of_places hplaces hne
      inputFiles := fun f hf => hinput f.text (hc.protoFiles ▸ List.mem_map_of_mem hf)
      names := plainName_of_places hplaces
      subs := isOff_of_places hplaces hne }

/-- A predictable layout is predicted. -/
theorem predicts_of_predictable (h : Predictable files cppOut grpcOut) :
    Predicts (makeProtocCommand u) files := by
  obtain ⟨hoff, helement⟩ := h.protoPath
  have hinput : ∀ file ∈ r.protoFiles, IsInput file := by
    intro file hfile
    rw [hc.protoFiles] at hfile
    obtain ⟨f, hf, rfl⟩ := List.mem_map.mp hfile
    exact h.inputFiles f hf
  obtain ⟨c, hread, -, hinputFiles, hcppOut, hgrpcOut, hprotoPath⟩ :=
    exists_readArguments hs hr hc.cppOut hc.grpcOut hc.protoPath (fun _ => helement) hinput
  rw [hoff, if_neg Bool.false_ne_true] at hprotoPath
  rw [hc.protoFiles] at hinputFiles
  have hwrites := CommandLine.writes_of_sourceStem hcppOut hgrpcOut hprotoPath hinputFiles
    fun f _ => f.sourceStem_dir
  obtain ⟨t, hextracted, hexpand⟩ := (hc.extracted_iff hr hs).mpr ⟨ne_nil_of_isOff_eq_false hoff, rfl⟩
  rw [expandList_joinList (h.isElement_entries hr hc) (.inr rfl)] at hexpand
  obtain ⟨hcpp, hgrpc⟩ := hc.isElement_out hr
  have htext := fun f hf => (hc.isElement_text hr f hf).noSemicolon
  have hvalue := (hc.layout hr hs).cppOut.1
  refine ⟨c, _, t, hread, hinputFiles, hwrites, hextracted, fun place => ?_, ?_⟩
  · rw [hexpand, mem_entries hcpp.ne_nil hcpp.noSemicolon htext]
    refine Iff.trans ?_ (mem_generated hcpp.ne_nil hgrpc.ne_nil (List.forall_mem_nil _) place).symm
    rw [← h.sameOut]
    exact predictedPlace_iff h.names h.subs
  · intro f hf g hg hdistinct x hx y hy hsame
    rw [hvalue] at hx hy
    obtain ⟨-, e, he, rfl⟩ := (mem_outputFilesOf hcpp.noSemicolon (htext f hf)).mp hx
    obtain ⟨-, e', he', rfl⟩ := (mem_outputFilesOf hcpp.noSemicolon (htext g hg)).mp hy
    rw [location_entry hcpp.ne_nil he, location_entry hcpp.ne_nil he', (h.names f hf).stem,
      (h.names g hg).stem] at hsame
    have hpath := List.append_cancel_left (path_of_place (h.names f hf) (h.names g hg) he he' hsame).1
    exact hdistinct (ProtoFile.location_eq_of_path hpath)

end Agreement

def nestedA : ProtoFile "protos".toList where
  text := "protos/a.proto".toList
  directories := []
  name := "a".toList
  under :=
    { elements := ⟨["protos".toList], [], by decide, by decide, List.forall_mem_nil _⟩
      significant := by decide
      noSlash := by decide
      ne_nil := by decide }

def nestedB : ProtoFile "protos".toList where
  text := "protos/sub/b.proto".toList
  directories := ["sub".toList]
  name := "b".toList
  under :=
    { elements := ⟨["protos".toList], [], by decide, by decide, List.forall_mem_nil _⟩
      significant := by decide
      noSlash := by decide
      ne_nil := by decide }

def nestedFiles : List (ProtoFile "protos".toList) := [nestedA, nestedB]

def nestedCall : List Text :=
  ["CODEGEN_TARGET", "codegen", "LIBRARY_TARGET", "protos", "proto_path", "protos", "PROTO_FILES",
    "protos/a.proto", "protos/sub/b.proto", "OUTPUT_DIRECTORY", "out"].map String.toList

def nestedRequest : Request where
  fatalWarnings := false
  printFreeFieldNumbers := false
  enableCodegenTrace := false
  protoFiles := ["protos/a.proto", "protos/sub/b.proto"].map String.toList
  protoPath := ["protos".toList]
  cppOut := []
  grpcOut := []
  outputDirectory := ["out".toList]

def splitCall : List Text :=
  ["CODEGEN_TARGET", "codegen", "LIBRARY_TARGET", "protos", "proto_path", "protos", "PROTO_FILES",
    "protos/a.proto", "protos/sub/b.proto", "cpp_out", "out", "grpc_out", "grpc"].map String.toList

def splitRequest : Request where
  fatalWarnings := false
  printFreeFieldNumbers := false
  enableCodegenTrace := false
  protoFiles := ["protos/a.proto", "protos/sub/b.proto"].map String.toList
  protoPath := ["protos".toList]
  cppOut := ["out".toList]
  grpcOut := ["grpc".toList]
  outputDirectory := []

end EasyGrpc.ProtoTargets
