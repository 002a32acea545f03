import EasyGrpc.Proof.ProtocCommand

/-!
# The include directories of the library

The library gets the output directories once each, and, for those that link to it, two generator
expressions. Each expression is written as one unquoted argument around a list, and such an argument is
divided at every `;` of the list.
-/

namespace EasyGrpc.ProtoTargets

open CMake

section Wrapped

def extendLast (post : Text) : List Text → List Text
  | [] => []
  | [x] => [x ++ post]
  | x :: y :: xs => x :: extendLast post (y :: xs)

def wrapped (pre : String) (xs : List Text) : List Text :=
  extendLast ['>'] (Request.optionArguments pre xs)

variable {x : Text} {xs : List Text} {pre : String}

theorem length_extendLast (post : Text) (xs : List Text) : (extendLast post xs).length = xs.length := by
  fun_induction extendLast post xs with
  | case1 => rfl
  | case2 => rfl
  | case3 x y xs ih => rw [List.length_cons, ih, ← List.length_cons]

theorem extendLast_ne_nil {post : Text} (hxs : xs ≠ []) : extendLast post xs ≠ [] := by
  intro h
  have hlength := length_extendLast post xs
  rw [h] at hlength
  exact hxs (List.length_eq_zero_iff.mp hlength.symm)

theorem joinList_extendLast (post : Text) (hxs : xs ≠ []) :
    joinList (extendLast post xs) = joinList xs ++ post := by
  fun_induction extendLast post xs with
  | case1 => exact absurd rfl hxs
  | case2 x => rw [joinList_singleton, joinList_singleton]
  | case3 x y xs ih =>
      obtain ⟨z, zs, hz⟩ := List.exists_cons_of_ne_nil (extendLast_ne_nil (List.cons_ne_nil y xs))
      have ih' := ih (List.cons_ne_nil _ _)
      rw [hz] at ih' ⊢
      rw [joinList_cons_cons, ih', joinList_cons_cons]
      simp

theorem isElement_extendLast (hxs : ∀ x ∈ xs, IsElement x) : ∀ x ∈ extendLast ['>'] xs, IsElement x := by
  fun_induction extendLast ['>'] xs with
  | case1 => exact hxs
  | case2 x =>
      have hx := hxs x List.mem_cons_self
      intro y hy
      obtain rfl := List.mem_singleton.mp hy
      exact
        { ne_nil := List.append_ne_nil_of_right_ne_nil _ (List.cons_ne_nil _ _)
          noSemicolon := fun h => (List.mem_append.mp h).elim hx.noSemicolon (by decide)
          balanced := by rw [nesting_append, hx.balanced]; rfl
          noBackslash := by
            rw [List.getLast?_append_of_ne_nil _ (List.cons_ne_nil _ _)]
            decide }
  | case3 x y xs ih =>
      intro z hz
      rcases List.mem_cons.mp hz with rfl | hz
      · exact hxs z List.mem_cons_self
      · exact ih (fun w hw => hxs w (List.mem_cons_of_mem _ hw)) z hz

end Wrapped

section Frames

variable {s t : Scope}

/-- The macros change the variables that they use for themselves. -/
theorem setupProtocArgs_sameBut (h : setupProtocArgs s = .ok t) : Scope.SameBut internalNames s t := by
  obtain ⟨s₁, hprotoFiles, h⟩ := bind_eq_ok.mp h
  obtain ⟨s₂, hcppOut, h⟩ := bind_eq_ok.mp h
  obtain ⟨s₃, hgrpcOut, h⟩ := bind_eq_ok.mp h
  obtain rfl := Except.ok.inj h
  have hfiles : Scope.SameBut ["PROTO_FILES"] (setupExecutables s) s₁ :=
    (setupProtoFiles_eq_ok hprotoFiles).1 ▸ Scope.sameBut_set
  have hcpp : Scope.SameBut ["cpp_out"] (setupOutputDirectory (setupFlags s₁)) s₂ :=
    (setupOut_eq_ok hcppOut).1 ▸ setIf_sameBut
  have hgrpc : Scope.SameBut ["grpc_out"] s₂ s₃ := (setupOut_eq_ok hgrpcOut).1 ▸ setIf_sameBut
  have hsetup := setupExecutables_sameBut.trans (hfiles.trans (setupFlags_sameBut.trans
    (setupOutputDirectory_sameBut.trans (hcpp.trans (hgrpc.trans setupProtoPath_sameBut)))))
  exact hsetup.mono (by decide)

theorem extractProtocOutputFiles_sameBut {var : String} (h : extractProtocOutputFiles var s = .ok t) :
    Scope.SameBut [var] s t := by
  unfold extractProtocOutputFiles at h
  split at h
  · exact Except.ok.inj h ▸ Scope.sameBut_set
  · cases h

/-- What an accepted call leaves when the files are listed. -/
theorem setUp_of_addProtoTargets {args : List Text} (hs : Caller s) (hargs : ∀ x ∈ args, IsElement x)
    (h : shuhaiGrpcAddProtoTargets s args = .ok t) :
    ∃ u, SetUp u (request args) ∧ Scope.SameBut ["PROTOC_COMMAND", "OUTPUT_FILES"] u t ∧
      Scope.SameBut internalNames (parsedScope s args) t := by
  obtain ⟨v, hcommand, hfiles⟩ := bind_eq_ok.mp h
  obtain ⟨u, hsetup, rfl⟩ := protocCommand_eq_ok hcommand
  have hlast := (builds_makeProtocCommand
    (setUp_of_ok (argumentsIn_parsedScope hs hargs) (request_elements hargs) hsetup)).sameBut.trans
      (extractProtocOutputFiles_sameBut hfiles)
  refine ⟨u, setUp_of_ok (argumentsIn_parsedScope hs hargs) (request_elements hargs) hsetup, hlast, ?_⟩
  exact ((setupProtocArgs_sameBut hsetup).trans hlast).mono (by decide)

end Frames

section Include

variable {s : Scope} {xs ys : List Text} {name : String}

theorem isElement_eraseDups (hxs : ∀ x ∈ xs, IsElement x) : ∀ x ∈ xs.eraseDups, IsElement x :=
  fun x hx => hxs x (List.mem_eraseDups.mp hx)

theorem eraseDups_ne_nil (hxs : xs ≠ []) : xs.eraseDups ≠ [] := by
  obtain ⟨x, xs, rfl⟩ := List.exists_cons_of_ne_nil hxs
  rw [List.eraseDups_cons]
  exact List.cons_ne_nil _ _

/-- One element is left exactly where there is but one. -/
theorem length_eraseDups_eq_one_iff (hxs : xs ≠ []) :
    xs.eraseDups.length = 1 ↔ ∃ d, ∀ x ∈ xs, x = d := by
  constructor
  · intro hlength
    obtain ⟨d, hd⟩ := List.length_eq_one_iff.mp hlength
    refine ⟨d, fun x hx => ?_⟩
    have hmem := List.mem_eraseDups.mpr hx
    rw [hd] at hmem
    exact List.mem_singleton.mp hmem
  · rintro ⟨d, hd⟩
    obtain ⟨x, xs, rfl⟩ := List.exists_cons_of_ne_nil hxs
    have hnone : (xs.filter fun y => !y == x) = [] := by
      refine List.filter_eq_nil_iff.mpr fun y hy => ?_
      rw [hd y (List.mem_cons_of_mem _ hy), hd x List.mem_cons_self]
      simp
    rw [List.eraseDups_cons, hnone]
    rfl

theorem value_includeDirectories (hcpp : s.value "cpp_out" = joinList xs)
    (hgrpc : s.value "grpc_out" = joinList ys) (hxs : ∀ x ∈ xs, IsElement x)
    (hys : ∀ y ∈ ys, IsElement y)
    (hne : xs ≠ []) :
    (includeDirectories s).value "INCLUDE_DIRECTORIES" = joinList (xs ++ ys).eraseDups := by
  have hall : ∀ x ∈ xs ++ ys, IsElement x := fun x hx => (List.mem_append.mp hx).elim (hxs x) (hys x)
  have hne' : xs ++ ys ≠ [] := List.append_ne_nil_of_left_ne_nil hne _
  have hempty : (s.unset "INCLUDE_DIRECTORIES").value "INCLUDE_DIRECTORIES" = joinList [] := by
    rw [Scope.value, Scope.unset_self]
    rfl
  have hjoined : ((s.unset "INCLUDE_DIRECTORIES").append "INCLUDE_DIRECTORIES" (xs ++ ys)).value
      "INCLUDE_DIRECTORIES" = joinList (xs ++ ys) :=
    Scope.value_append_self hempty fun h => absurd rfl h
  have hvalue : joinList (xs ++ ys) ≠ [] := by
    obtain ⟨x, hx⟩ := List.exists_mem_of_ne_nil _ hne'
    exact joinList_ne_nil hx (hall x hx).ne_nil
  unfold includeDirectories Scope.removeDuplicates
  simp only [expand_eq hcpp hxs, expand_eq hgrpc hys, hjoined]
  rw [if_neg hvalue, Scope.value_set_self, expandList_joinList hall (.inl hne')]

theorem includeDirectories_sameBut : Scope.SameBut ["INCLUDE_DIRECTORIES"] s (includeDirectories s) := by
  have hunset : Scope.SameBut ["INCLUDE_DIRECTORIES"] s (s.unset "INCLUDE_DIRECTORIES") :=
    fun _ hother => Scope.unset_of_ne (List.ne_of_not_mem_cons hother)
  unfold includeDirectories Scope.removeDuplicates
  dsimp only
  split
  · exact (hunset.trans Scope.sameBut_append).mono (by decide)
  · exact ((hunset.trans Scope.sameBut_append).trans Scope.sameBut_set).mono (by decide)

/-- The text around a list goes to its ends. -/
theorem expandList_wrapped {pre : String} (hpre : ';' ∉ pre.toList ∧ nesting pre.toList = 0)
    (hxs : ∀ x ∈ xs, IsElement x) (hne : xs ≠ []) :
    expandList false (pre.toList ++ joinList xs ++ ['>']) = wrapped pre xs := by
  have helements : ∀ x ∈ Request.optionArguments pre xs, IsElement x :=
    isElement_optionArguments pre hxs hpre.1 hpre.2
  rw [append_joinList_eq pre hne, ← joinList_extendLast _ (optionArguments_ne_nil pre hne)]
  exact expandList_joinList (isElement_extendLast helements) (.inr rfl)

theorem value_appendInterface (kind source : String)
    (hkind : ';' ∉ kind.toList ∧ nesting kind.toList = 0)
    (hs : s.value "INTERFACE_INCLUDE_DIRECTORIES" = joinList ys) (hys : ∀ y ∈ ys, IsElement y)
    (hvalue : s.value source = joinList xs) (hxs : ∀ x ∈ xs, IsElement x) (hne : xs ≠ []) :
    (appendInterface s kind source).value "INTERFACE_INCLUDE_DIRECTORIES" =
      joinList (ys ++ wrapped kind xs) := by
  rw [appendInterface, hvalue, expandList_wrapped hkind hxs hne]
  refine Scope.value_append_self hs fun hnil => ?_
  obtain ⟨y, hy⟩ := List.exists_mem_of_ne_nil _ hnil
  exact joinList_ne_nil hy (hys y hy).ne_nil

end Include

section Library

variable {s t : Scope} {args : List Text}

/-- A generator expression as the source writes it around a list. -/
def expression (kind : String) (xs : List Text) : Text := kind.toList ++ joinList xs ++ ['>']

def installInterface (args : List Text) : List Text :=
  (parseProtocArgs args).multiValue "INCLUDE_INSTALL_INTERFACE".toList

def Request.outputDirectories (r : Request) : List Text := r.chosen r.cppOut ++ r.chosen r.grpcOut

theorem Request.Elements.outputDirectories {r : Request} (h : r.Elements) :
    ∀ x ∈ r.outputDirectories, IsElement x := fun x hx =>
  (List.mem_append.mp hx).elim (h.chosen h.cppOut x) (h.chosen h.grpcOut x)

theorem wrapped_eq_expressions_iff {xs ys : List Text} (hxs : xs ≠ []) (hys : ys ≠ []) :
    wrapped "$<BUILD_INTERFACE:" xs ++ wrapped "$<INSTALL_INTERFACE:" ys =
        [expression "$<BUILD_INTERFACE:" xs, expression "$<INSTALL_INTERFACE:" ys] ↔
      xs.length = 1 ∧ ys.length = 1 := by
  have hlength : ∀ (pre : String) (zs : List Text), (wrapped pre zs).length = zs.length := by
    intro pre zs
    rw [wrapped, length_extendLast]
    cases zs <;> rfl
  constructor
  · intro h
    have htwo := congrArg List.length h
    rw [List.length_append, hlength, hlength] at htwo
    have hx := List.length_pos_iff.mpr hxs
    have hy := List.length_pos_iff.mpr hys
    change _ = 2 at htwo
    omega
  · rintro ⟨hx, hy⟩
    obtain ⟨x, rfl⟩ := List.length_eq_one_iff.mp hx
    obtain ⟨y, rfl⟩ := List.length_eq_one_iff.mp hy
    simp [wrapped, Request.optionArguments, extendLast, expression]

theorem interfaceIncludeDirectories_sameBut :
    Scope.SameBut ["INTERFACE_INCLUDE_DIRECTORIES"] s (interfaceIncludeDirectories s) := by
  unfold interfaceIncludeDirectories
  split
  · exact (Scope.sameBut_append.trans Scope.sameBut_append).mono (by decide)
  · exact Scope.SameBut.refl

/-- Two expressions follow each other, both divided. -/
theorem expand_interfaceIncludeDirectories {xs ys : List Text}
    (hundefined : s.value "INTERFACE_INCLUDE_DIRECTORIES" = [])
    (hinclude : s.value "INCLUDE_DIRECTORIES" = joinList xs) (hxs : ∀ x ∈ xs, IsElement x)
    (hne : xs ≠ [])
    (hinstall : s.value "ARG_INCLUDE_INSTALL_INTERFACE" = joinList ys) (hys : ∀ y ∈ ys, IsElement y)
    (hon : isOff (joinList ys) = false) :
    (interfaceIncludeDirectories s).expand "INTERFACE_INCLUDE_DIRECTORIES" =
      wrapped "$<BUILD_INTERFACE:" xs ++ wrapped "$<INSTALL_INTERFACE:" ys := by
  have htrue : s.isTrue "ARG_INCLUDE_INSTALL_INTERFACE" = true := by
    rw [Scope.isTrue, hinstall, hon]
    rfl
  have hys' : ys ≠ [] := ne_nil_of_isTrue htrue hinstall
  have hbuild := value_appendInterface "$<BUILD_INTERFACE:" "INCLUDE_DIRECTORIES" (by decide)
    (show s.value "INTERFACE_INCLUDE_DIRECTORIES" = joinList [] from hundefined)
    (by simp) hinclude hxs hne
  have hkept : (appendInterface s "$<BUILD_INTERFACE:" "INCLUDE_DIRECTORIES").value
      "ARG_INCLUDE_INSTALL_INTERFACE" = joinList ys :=
    (Scope.sameBut_append.value (by decide)).trans hinstall
  have helements : ∀ (pre : String), ';' ∉ pre.toList ∧ nesting pre.toList = 0 → ∀ zs : List Text,
      (∀ z ∈ zs, IsElement z) → ∀ z ∈ wrapped pre zs, IsElement z := fun pre hpre zs hzs =>
    isElement_extendLast (isElement_optionArguments pre hzs hpre.1 hpre.2)
  have hboth := value_appendInterface "$<INSTALL_INTERFACE:" "ARG_INCLUDE_INSTALL_INTERFACE"
    (by decide) hbuild
    (helements "$<BUILD_INTERFACE:" (by decide) xs hxs) hkept hys hys'
  rw [interfaceIncludeDirectories, if_pos htrue]
  refine expand_eq hboth fun z hz => ?_
  rcases List.mem_append.mp hz with hz | hz
  · exact helements "$<BUILD_INTERFACE:" (by decide) xs hxs z hz
  · exact helements "$<INSTALL_INTERFACE:" (by decide) ys hys z hz

theorem isTrue_of_protocCommand (h : protocCommand s args = .ok t) :
    (parsedScope s args).isTrue "ARG_LIBRARY_TARGET" = true := by
  unfold protocCommand at h
  simp only at h
  split at h
  · cases h
  · split at h
    · cases h
    · exact (Bool.not_eq_false _).mp ‹_›

/-- **Include directories.** The library gets each output directory once. The two expressions for those
that link to it stay whole exactly where both outputs go to one directory and one directory is
installed. -/
theorem interface_whole_iff (hs : Caller s)
    (hundefined : s.lookup "INTERFACE_INCLUDE_DIRECTORIES" = none)
    (hargs : ∀ x ∈ args, IsElement x) (hrun : shuhaiGrpcAddProtoTargets s args = .ok t)
    (isTarget : Text → Bool) :
    ∃ interfaces, .targetIncludeDirectories (t.expand "ARG_LIBRARY_TARGET")
        (request args).outputDirectories.eraseDups interfaces ∈ buildCommands isTarget t ∧
      (isOff (joinList (installInterface args)) = true → interfaces = []) ∧
      (isOff (joinList (installInterface args)) = false →
        (interfaces = [expression "$<BUILD_INTERFACE:" (request args).outputDirectories.eraseDups,
            expression "$<INSTALL_INTERFACE:" (installInterface args)] ↔
          (∃ d, ∀ x ∈ (request args).outputDirectories, x = d) ∧ ∃ d, installInterface args = [d])) := by
  obtain ⟨u, hu, hut, hparsed⟩ := setUp_of_addProtoTargets hs hargs hrun
  obtain ⟨v, hcommand, -⟩ := bind_eq_ok.mp hrun
  have hr := request_elements hargs
  have hcpp := ne_nil_of_isTrue hu.cppOut_isTrue hu.cppOut
  have hne : (request args).outputDirectories ≠ [] := List.append_ne_nil_of_left_ne_nil hcpp _
  have hinclude : (includeDirectories t).value "INCLUDE_DIRECTORIES" =
      joinList (request args).outputDirectories.eraseDups :=
    value_includeDirectories ((hut.value (by decide)).trans hu.cppOut)
      ((hut.value (by decide)).trans hu.grpcOut) (hr.chosen hr.cppOut) (hr.chosen hr.grpcOut) hcpp
  have helements := isElement_eraseDups hr.outputDirectories
  have hlibrary : t.isTrue "ARG_LIBRARY_TARGET" = true :=
    (hparsed.isTrue (by decide)).trans (isTrue_of_protocCommand hcommand)
  have hframe := hparsed.trans includeDirectories_sameBut
  have hinstall : (includeDirectories t).value "ARG_INCLUDE_INSTALL_INTERFACE" =
      joinList (installInterface args) :=
    (hframe.value (by decide)).trans (value_multiValue hargs "INCLUDE_INSTALL_INTERFACE" (by decide))
  have hnone : (includeDirectories t).value "INTERFACE_INCLUDE_DIRECTORIES" = [] := by
    rw [Scope.value, (parsedScope_sameBut.trans hframe) _ (by decide), hundefined]
    rfl
  have hprivates : (interfaceIncludeDirectories (includeDirectories t)).expand "INCLUDE_DIRECTORIES" =
      (request args).outputDirectories.eraseDups :=
    expand_eq ((interfaceIncludeDirectories_sameBut.value (by decide)).trans hinclude) helements
  refine ⟨(interfaceIncludeDirectories (includeDirectories t)).expand "INTERFACE_INCLUDE_DIRECTORIES", ?_,
    fun hoff => ?_, fun hon => ?_⟩
  · rw [← hprivates, buildCommands, if_pos hlibrary]
    refine List.mem_append_left _ (List.mem_append_right _ ?_)
    exact List.mem_cons_of_mem _ List.mem_cons_self
  · have hfalse : ¬ (includeDirectories t).isTrue "ARG_INCLUDE_INSTALL_INTERFACE" = true := by
      rw [Scope.isTrue, hinstall, hoff]
      exact Bool.false_ne_true
    rw [interfaceIncludeDirectories, if_neg hfalse, Scope.expand, hnone]
    rfl
  · have hinstalled : ∀ x ∈ installInterface args, IsElement x := fun x hx =>
      hargs x ((parseArguments_from _ _).multiValue hx)
    have hinstallNe : installInterface args ≠ [] := by
      intro hnil
      rw [hnil] at hon
      cases hon
    rw [expand_interfaceIncludeDirectories hnone hinclude helements (eraseDups_ne_nil hne) hinstall hinstalled
      hon, wrapped_eq_expressions_iff (eraseDups_ne_nil hne) hinstallNe, length_eraseDups_eq_one_iff hne,
      List.length_eq_one_iff]

def installedCall : List Text :=
  ["CODEGEN_TARGET", "codegen", "LIBRARY_TARGET", "chat", "INCLUDE_INSTALL_INTERFACE", "include", "PROTO_FILES",
    "api/chat.proto", "OUTPUT_DIRECTORY", "gen"].map String.toList

theorem interface_whole_installedCall : ∃ t interfaces,
    shuhaiGrpcAddProtoTargets includedScope installedCall = .ok t ∧
      .targetIncludeDirectories (t.expand "ARG_LIBRARY_TARGET") ["gen".toList] interfaces ∈
        buildCommands (fun _ => false) t ∧
      interfaces = ["$<BUILD_INTERFACE:gen>", "$<INSTALL_INTERFACE:include>"].map String.toList := by
  have hok : (shuhaiGrpcAddProtoTargets includedScope installedCall).isOk = true := by decide +kernel
  obtain ⟨t, ht⟩ := exists_of_isOk hok
  have hargs : ∀ x ∈ installedCall, IsElement x := by decide +kernel
  obtain ⟨interfaces, hmem, -, hwhole⟩ :=
    interface_whole_iff caller_includedScope rfl hargs ht fun _ => false
  have hdirectories : (request installedCall).outputDirectories = ["gen".toList, "gen".toList] := by
    decide +kernel
  have hinstall : installInterface installedCall = ["include".toList] := by decide +kernel
  rw [hdirectories, hinstall] at hwhole
  rw [hdirectories] at hmem
  refine ⟨t, interfaces, ht, hmem, (hwhole (by decide)).mpr ⟨⟨"gen".toList, ?_⟩, _, rfl⟩⟩
  decide

end Library

end EasyGrpc.ProtoTargets
