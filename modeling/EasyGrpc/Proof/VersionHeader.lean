import EasyGrpc.CMake.Version

/-!
# Reading the version back

`file(STRINGS)` finds the first line that the pattern accepts, and the version is the first match in it.
No match starts before the opening quote, as there is no dot up to there.
-/

namespace EasyGrpc.Version

open CMake Pattern

def IsVersion (v : Text) : Prop :=
  ∃ a b c : Text, v = a ++ '.' :: (b ++ '.' :: c) ∧ ∀ part ∈ [a, b, c], part ≠ [] ∧
  ∀ d ∈ part, d.isDigit = true

/-- The line gives the macro the version, whatever comes behind it. -/
def Defines (name v line : Text) : Prop :=
  IsVersion v ∧ ∃ n rest, line = "#define ".toList ++ name ++ List.replicate n ' ' ++ quote :: v ++ quote :: rest

section Patterns

variable {ps : Pattern} {name x v line t rest : Text}

theorem matches_nil : Matches [] x ↔ x = [] := by
  constructor
  · intro h
    cases h
    rfl
  · rintro rfl
    exact .nil

theorem matches_versionPattern_append : Matches (versionPattern ++ ps) x ↔
    ∃ v z, x = v ++ z ∧ IsVersion v ∧ Matches ps z := by
  have hpattern : versionPattern ++ ps = plus Char.isDigit ++ (literal ['.'] ++ (plus Char.isDigit ++
      (literal ['.'] ++ (plus Char.isDigit ++ ps)))) := rfl
  rw [hpattern, matches_plus_append]
  constructor
  · rintro ⟨a, _, rfl, ha, had, hfirst⟩
    obtain ⟨_, rfl, hsecond⟩ := matches_literal_append.mp hfirst
    obtain ⟨b, _, rfl, hb, hbd, hdot⟩ := matches_plus_append.mp hsecond
    obtain ⟨_, rfl, hthird⟩ := matches_literal_append.mp hdot
    obtain ⟨c, z, rfl, hc, hcd, hz⟩ := matches_plus_append.mp hthird
    refine ⟨a ++ '.' :: (b ++ '.' :: c), z, by simp, ⟨a, b, c, rfl, ?_⟩, hz⟩
    simp only [List.forall_mem_cons]
    exact ⟨⟨ha, had⟩, ⟨hb, hbd⟩, ⟨hc, hcd⟩, nofun⟩
  · rintro ⟨v, z, rfl, ⟨a, b, c, rfl, hparts⟩, hz⟩
    simp only [List.forall_mem_cons] at hparts
    obtain ⟨⟨ha, had⟩, ⟨hb, hbd⟩, ⟨hc, hcd⟩, -⟩ := hparts
    refine ⟨a, '.' :: (b ++ '.' :: (c ++ z)), by simp, ha, had, ?_⟩
    refine matches_literal_append.mpr ⟨b ++ '.' :: (c ++ z), rfl, matches_plus_append.mpr ?_⟩
    refine ⟨b, '.' :: (c ++ z), rfl, hb, hbd, matches_literal_append.mpr ?_⟩
    exact ⟨c ++ z, rfl, matches_plus_append.mpr ⟨c, z, rfl, hc, hcd, hz⟩⟩

theorem eq_replicate_of_spaces {xs : Text} (hxs : ∀ c ∈ xs, decide (c = ' ') = true) :
    xs = List.replicate xs.length ' ' :=
  List.eq_replicate_iff.mpr ⟨rfl, fun c hc => of_decide_eq_true (hxs c hc)⟩

/-- What the pattern of `file(STRINGS)` accepts. -/
theorem exists_defines_iff : (matchAt (macroPattern name) line).isSome = true ↔
    ∃ v, Defines name v line := by
  have hpattern : macroPattern name = literal ("#define ".toList ++ name) ++
      (.many (· = ' ') :: (literal [quote] ++ (versionPattern ++ (literal [quote] ++ [])))) := by
    simp [macroPattern]
  constructor
  · intro h
    obtain ⟨rest, hrest⟩ := Option.isSome_iff_exists.mp h
    obtain ⟨x, rfl, hx⟩ := matches_of_matchAt hrest
    rw [hpattern] at hx
    obtain ⟨y, rfl, hy⟩ := matches_literal_append.mp hx
    cases hy with
    | @many _ _ spaces _ hspaces hopen =>
        obtain ⟨_, rfl, hversion⟩ := matches_literal_append.mp hopen
        obtain ⟨v, _, rfl, hv, hclose⟩ := matches_versionPattern_append.mp hversion
        obtain ⟨_, rfl, hnil⟩ := matches_literal_append.mp hclose
        obtain rfl := matches_nil.mp hnil
        refine ⟨v, hv, spaces.length, rest, ?_⟩
        rw [← eq_replicate_of_spaces hspaces]
        simp
  · rintro ⟨v, hv, n, rest, rfl⟩
    have hmatches : Matches (macroPattern name)
        ("#define ".toList ++ name ++ (List.replicate n ' ' ++ ([quote] ++ (v ++ ([quote] ++ []))))) := by
      rw [hpattern]
      refine matches_literal_append.mpr ⟨_, rfl, .many ?_ (matches_literal_append.mpr ⟨_, rfl, ?_⟩)⟩
      · exact fun c hc => decide_eq_true (List.eq_of_mem_replicate hc)
      · exact matches_versionPattern_append.mpr ⟨v, _, rfl, hv,
          matches_literal_append.mpr ⟨[], rfl, .nil⟩⟩
    have hsome : (matchAt (macroPattern name) (_ ++ rest)).isSome = true :=
      matchAt_isSome_of_matches hmatches
    simpa using hsome

theorem matchAt_versionPattern (hv : IsVersion v) (hstop : ∀ c, t.head? = some c → c.isDigit = false) :
    matchAt versionPattern (v ++ t) = some t := by
  obtain ⟨a, b, c, rfl, hparts⟩ := hv
  simp only [List.forall_mem_cons] at hparts
  obtain ⟨⟨ha, had⟩, ⟨hb, hbd⟩, ⟨hc, hcd⟩, -⟩ := hparts
  have hdot : ∀ d s, ('.' :: s : Text).head? = some d → d.isDigit = false := by
    intro d s hd
    obtain rfl := Option.some.inj hd
    rfl
  have hthird : matchAt (plus Char.isDigit ++ []) (c ++ t) = some t :=
    matchAt_plus_append hc hcd hstop rfl
  have hsecond : matchAt (plus Char.isDigit ++ (literal ['.'] ++ (plus Char.isDigit ++ [])))
      (b ++ '.' :: (c ++ t)) = some t := matchAt_plus_append hb hbd (hdot · _) hthird
  have hfirst : matchAt (plus Char.isDigit ++ (literal ['.'] ++ (plus Char.isDigit ++
      (literal ['.'] ++ (plus Char.isDigit ++ []))))) (a ++ '.' :: (b ++ '.' :: (c ++ t))) = some t :=
    matchAt_plus_append ha had (hdot · _) hsecond
  have htext : a ++ '.' :: (b ++ '.' :: c) ++ t = a ++ '.' :: (b ++ '.' :: (c ++ t)) := by simp
  rw [htext]
  exact hfirst

/-- A version starts with a number, so none starts where no dot comes before a character that is no
digit. -/
theorem matchAt_versionPattern_eq_none {y : Text} {q : Char} (hq : q ∈ y) (hdigit : q.isDigit = false)
    (hdot : '.' ∉ y) : matchAt versionPattern (y ++ t) = none := by
  by_contra hsome
  obtain ⟨rest, hrest⟩ := Option.ne_none_iff_exists'.mp hsome
  obtain ⟨x, hx, hmatches⟩ := matches_of_matchAt hrest
  rw [← List.append_nil versionPattern] at hmatches
  obtain ⟨v, z, rfl, ⟨a, b, c, rfl, hparts⟩, -⟩ := matches_versionPattern_append.mp hmatches
  have hsub : y ⊆ a := by
    have hsplit : y ++ t = a ++ '.' :: (b ++ '.' :: c ++ z ++ rest) := by rw [hx]; simp
    rcases List.append_eq_append_iff.mp hsplit with ⟨w, rfl, -⟩ | ⟨w, rfl, hw⟩
    · exact List.subset_append_left _ _
    · cases w with
      | nil =>
          rw [List.append_nil]
          exact List.Subset.refl _
      | cons d w =>
          obtain ⟨rfl, -⟩ := List.cons.inj hw
          exact absurd (List.mem_append_right _ List.mem_cons_self) hdot
  have htrue := (hparts a List.mem_cons_self).2 q (hsub hq)
  rw [hdigit] at htrue
  cases htrue

/-- The version that is read is the one that the line gives. -/
theorem search_of_defines (hname : '.' ∉ name) (h : Defines name v line) :
    search versionPattern line = some v := by
  obtain ⟨hv, n, rest, rfl⟩ := h
  have hbefore : "#define ".toList ++ name ++ List.replicate n ' ' ++ quote :: v ++ quote :: rest =
      ("#define ".toList ++ name ++ List.replicate n ' ' ++ [quote]) ++ (v ++ quote :: rest) := by
    simp
  have hstop : ∀ c, (quote :: rest).head? = some c → c.isDigit = false := by
    intro c hc
    obtain rfl := Option.some.inj hc
    rfl
  have hne : v ++ quote :: rest ≠ [] := List.append_ne_nil_of_right_ne_nil _ (List.cons_ne_nil _ _)
  rw [hbefore, search_append ?_ hne (matchAt_versionPattern hv hstop), List.length_append,
    Nat.add_sub_cancel, List.take_left]
  intro x y hxy hy
  have hquote : quote ∈ y := by
    have hlast := congrArg List.getLast? hxy
    rw [List.getLast?_append_of_ne_nil _ (List.cons_ne_nil _ _),
      List.getLast?_append_of_ne_nil _ hy] at hlast
    exact List.mem_of_getLast? hlast.symm
  have hdot : '.' ∉ "#define ".toList ++ name ++ List.replicate n ' ' ++ [quote] := by
    simp only [List.mem_append, List.mem_singleton, not_or]
    refine ⟨⟨⟨by decide, hname⟩, fun h => ?_⟩, by decide⟩
    exact absurd (List.eq_of_mem_replicate h) (by decide)
  exact matchAt_versionPattern_eq_none hquote rfl fun h => hdot (hxy ▸ List.mem_append_right _ h)

end Patterns

section Reading

variable {name v line : Text} {lines before after : List Text}

theorem versionIn_of_defines (hname : '.' ∉ name) (hbefore : ∀ l ∈ before, ∀ w, ¬ Defines name w l)
    (h : Defines name v line) : versionIn name (before ++ line :: after) = v := by
  have hnone : before.find? (fun l => (matchAt (macroPattern name) l).isSome) = none := by
    refine List.find?_eq_none.mpr fun l hl hmatch => ?_
    obtain ⟨w, hw⟩ := exists_defines_iff.mp hmatch
    exact hbefore l hl w hw
  have hfirst : (line :: after).find? (fun l => (matchAt (macroPattern name) l).isSome) = some line :=
    List.find?_cons_of_pos (exists_defines_iff.mpr ⟨v, h⟩)
  rw [versionIn, List.find?_append, hnone, Option.none_or, hfirst, Option.getD_some,
    search_of_defines hname h, Option.getD_some]

theorem versionIn_eq_nil (h : ∀ l ∈ lines, ∀ w, ¬ Defines name w l) : versionIn name lines = [] := by
  have hnone : lines.find? (fun l => (matchAt (macroPattern name) l).isSome) = none := by
    refine List.find?_eq_none.mpr fun l hl hmatch => ?_
    obtain ⟨w, hw⟩ := exists_defines_iff.mp hmatch
    exact h l hl w hw
  rw [versionIn, hnone]
  rfl

/-- The first line that defines the macro. -/
theorem exists_first_or_none (name : Text) (lines : List Text) :
    (∀ l ∈ lines, ∀ w, ¬ Defines name w l) ∨ ∃ before line after v, lines = before ++ line :: after ∧
      (∀ l ∈ before, ∀ w, ¬ Defines name w l) ∧ Defines name v line := by
  induction lines with
  | nil => exact .inl nofun
  | cons line lines ih =>
      by_cases hline : ∃ v, Defines name v line
      · obtain ⟨v, hv⟩ := hline
        exact .inr ⟨[], line, lines, v, rfl, nofun, hv⟩
      · rcases ih with hnone | ⟨before, first, after, v, rfl, hbefore, hv⟩
        · exact .inl (List.forall_mem_cons.mpr ⟨not_exists.mp hline, hnone⟩)
        · exact .inr ⟨line :: before, first, after, v, rfl,
            List.forall_mem_cons.mpr ⟨not_exists.mp hline, hbefore⟩, hv⟩

end Reading

/-- A name that stands for itself in a pattern. -/
def IsMacroName (name : Text) : Prop := ∀ c ∈ name, c.isAlphanum = true ∨ c = '_'

theorem IsMacroName.noDot {name : Text} (h : IsMacroName name) : '.' ∉ name := fun hdot =>
  (h '.' hdot).elim (by decide) (by decide)

/-- A value that the function takes for one: no keyword, and no false constant. -/
structure IsValue (x : Text) : Prop where
  isElement : IsElement x
  noKeyword : x ∉ ["VERBOSE", "FILE", "VERSION"].map String.toList
  isOn : isOff x = false

def readCall (file name : Text) : List Text := ["FILE".toList, file, "VERSION".toList, name]

theorem IsValue.notKeyword {x : Text} (h : IsValue x) : x ∉ ["VERBOSE".toList] ∧
    x ∉ ["FILE".toList, "VERSION".toList] ∧ x ∉ ([] : List Text) := by
  have hout := h.noKeyword
  simp only [List.map_cons, List.map_nil, List.mem_cons, List.not_mem_nil, or_false, not_or] at hout ⊢
  exact ⟨hout.1, ⟨hout.2.1, hout.2.2⟩, not_false⟩

theorem shuhaiReadVersionFromMacro_eq {files : Text → Option (List Text)} {file name : Text}
    {lines : List Text} (hlines : files file = some lines) (hfile : IsValue file)
    (hname : IsValue name) :
    shuhaiReadVersionFromMacro files (readCall file name) = .ok (versionIn name lines) := by
  have hparsed : parseArguments ["VERBOSE".toList] ["FILE".toList, "VERSION".toList] [] .none
      (readCall file name) =
        { oneValue := (Function.update (Function.update (fun _ => none) "VERSION".toList (some name))
            "FILE".toList (some file)) } := by
    rw [readCall, parseArguments_oneValue .none (by decide) (by decide) hfile.notKeyword,
      parseArguments_oneValue .none (by decide) (by decide) hname.notKeyword]
    rfl
  rw [shuhaiReadVersionFromMacro, hparsed]
  have hne : "VERSION".toList ≠ "FILE".toList := by decide
  simp only [Function.update_self, Function.update_of_ne hne, Option.getD_some, hlines, hfile.isOn, hname.isOn]
  rfl

section Header

/-- A version has three numbers exactly where the project was given three. -/
theorem isVersion_text_iff (v : ProjectVersion) : IsVersion v.text ↔ v.parts.length = 3 := by
  have hnoDot : ∀ part ∈ v.parts, '.' ∉ part := by
    intro part hpart hdot
    exact absurd ((v.numbers part hpart).2 '.' hdot) (by decide)
  have hne : v.parts ≠ [] := List.length_pos_iff.mp v.length.1
  constructor
  · rintro ⟨a, b, c, htext, hparts⟩
    have hjoined : v.text = ['.'].intercalate [a, b, c] := by rw [htext]; simp
    have hsplit := congrArg (List.splitOn '.') hjoined
    have hothers : ∀ part ∈ [a, b, c], '.' ∉ part := fun part hpart hdot =>
      absurd ((hparts part hpart).2 '.' hdot) (by decide)
    rw [ProjectVersion.text, List.splitOn_intercalate '.' hnoDot hne,
      List.splitOn_intercalate '.' hothers (List.cons_ne_nil _ _)] at hsplit
    rw [hsplit]
    rfl
  · intro hlength
    obtain ⟨a, b, c, hparts⟩ := List.length_eq_three.mp hlength
    refine ⟨a, b, c, ?_, fun part hpart => v.numbers part (hparts ▸ hpart)⟩
    rw [ProjectVersion.text, hparts]
    simp

def macroName : Text := "SHUHAI_GRPC_VERSION".toList

def versionLine (v : ProjectVersion) : Text :=
    "#define ".toList ++ macroName ++ ' ' :: quote :: (v.text ++ [quote])

theorem header_eq (v : ProjectVersion) : ∃ before, v.header = before ++ [versionLine v] ∧
    ∀ l ∈ before, ∀ w, ¬ Defines macroName w l := by
  refine ⟨v.header.take 9, rfl, fun l hl w hw => ?_⟩
  have hmatch := exists_defines_iff.mpr ⟨w, hw⟩
  simp only [ProjectVersion.header, List.take, List.mem_cons, List.not_mem_nil, or_false] at hl
  rcases hl with rfl | rfl | rfl | rfl | rfl | rfl | rfl | rfl | rfl
  all_goals
    revert hmatch
    exact Bool.false_ne_true

theorem mem_intercalate {c d : Char} {xs : List Text} (h : c ∈ [d].intercalate xs) :
    c = d ∨ ∃ x ∈ xs, c ∈ x := by
  induction xs with
  | nil => cases h
  | cons x xs ih =>
      cases xs with
      | nil => exact .inr ⟨x, List.mem_cons_self, by simpa using h⟩
      | cons y ys =>
          have hcons : [d].intercalate (x :: y :: ys) = x ++ d :: [d].intercalate (y :: ys) := by simp
          rw [hcons] at h
          rcases List.mem_append.mp h with hx | hrest
          · exact .inr ⟨x, List.mem_cons_self, hx⟩
          · rcases List.mem_cons.mp hrest with rfl | hrest
            · exact .inl rfl
            · exact (ih hrest).imp_right fun ⟨z, hz, hc⟩ => ⟨z, List.mem_cons_of_mem _ hz, hc⟩

theorem mem_text {v : ProjectVersion} {c : Char} (h : c ∈ v.text) : c.isDigit = true ∨ c = '.' := by
  rcases mem_intercalate h with rfl | ⟨part, hpart, hc⟩
  · exact .inr rfl
  · exact .inl ((v.numbers part hpart).2 c hc)

theorem quote_notMem_text (v : ProjectVersion) : quote ∉ v.text := fun h =>
  (mem_text h).elim (by decide) (by decide)

theorem defines_versionLine_iff (v : ProjectVersion) (w : Text) :
    Defines macroName w (versionLine v) ↔ w = v.text ∧ IsVersion w := by
  constructor
  · rintro ⟨hw, n, rest, hline⟩
    refine ⟨?_, hw⟩
    have htail : ' ' :: quote :: (v.text ++ [quote]) =
        List.replicate n ' ' ++ quote :: (w ++ quote :: rest) := by
      unfold versionLine at hline
      generalize "#define ".toList ++ macroName = front at hline
      rw [List.append_assoc, List.append_assoc] at hline
      exact List.append_cancel_left hline
    -- one blank, since the next character is a quote
    obtain rfl : n = 1 := by
      match n with
      | 0 => exact absurd (List.cons.inj htail).1 (by decide)
      | 1 => rfl
      | n + 2 => exact absurd (List.cons.inj (List.cons.inj htail).2).1 (by decide)
    have hquoted : v.text ++ [quote] = w ++ quote :: rest := (List.cons.inj (List.cons.inj htail).2).2
    rcases List.append_eq_append_iff.mp hquoted with ⟨u, rfl, hu⟩ | ⟨u, hu, hrest⟩
    · cases u with
      | nil => rw [List.append_nil]
      | cons c u => cases List.append_eq_nil_iff.mp (List.cons.inj hu).2.symm |>.2
    · cases u with
      | nil => rw [hu, List.append_nil]
      | cons c u =>
          obtain ⟨rfl, -⟩ := List.cons.inj hrest
          exact absurd (hu ▸ List.mem_append_right _ List.mem_cons_self) (quote_notMem_text v)
  · rintro ⟨rfl, hw⟩
    refine ⟨hw, 1, [], ?_⟩
    unfold versionLine
    generalize "#define ".toList ++ macroName = front
    rw [List.append_assoc, List.append_assoc]
    rfl

/-- A version with a dot in it is none of the false constants. -/
theorem isOff_text {v : ProjectVersion} (h : IsVersion v.text) : isOff v.text = false := by
  have hdot : '.' ∈ v.text := by
    obtain ⟨a, b, c, htext, -⟩ := h
    rw [htext]
    exact List.mem_append_right _ List.mem_cons_self
  have hupper : '.' ∈ v.text.map Char.toUpper := List.mem_map.mpr ⟨'.', hdot, rfl⟩
  have hnames : ∀ x ∈ falseNames, '.' ∉ x := by decide
  have hsuffix : ¬ "-NOTFOUND".toList <:+ v.text := fun hsuffix =>
    (mem_text (hsuffix.subset (show '-' ∈ "-NOTFOUND".toList by decide))).elim (by decide) (by decide)
  unfold isOff
  rw [Bool.or_eq_false_iff, Bool.or_eq_false_iff, Bool.or_eq_false_iff]
  refine ⟨⟨⟨?_, ?_⟩, ?_⟩, ?_⟩
  · exact decide_eq_false (List.ne_nil_of_mem hdot)
  · exact decide_eq_false fun hmem => hnames _ hmem hupper
  · refine decide_eq_false fun heq => ?_
    rw [heq] at hdot
    exact absurd hdot (by decide)
  · exact Bool.eq_false_iff.mpr fun htrue => hsuffix (List.isSuffixOf_iff_suffix.mp htrue)

/-- **Round trip.** The build takes the version of the project from the header that it has written
exactly where the version has three numbers, and stops where it has not. -/
theorem configuredVersion_eq (v : ProjectVersion) :
    configuredVersion v =
      if v.parts.length = 3 then .ok v.text else .error "Version definition not found." := by
  obtain ⟨before, hheader, hbefore⟩ := header_eq v
  have hread : configuredVersion v = if isOff (versionIn macroName v.header) then
      .error "Version definition not found." else .ok (versionIn macroName v.header) := by
    have hfiles : (fun file => if file = headerPath then some v.header else none) headerPath =
        some v.header := if_pos rfl
    rw [configuredVersion]
    change (shuhaiReadVersionFromMacro _ (readCall headerPath macroName) >>= _) = _
    rw [shuhaiReadVersionFromMacro_eq hfiles ⟨by decide, by decide, by decide⟩
      ⟨by decide, by decide, by decide⟩]
    rfl
  rw [hread, hheader]
  by_cases hthree : v.parts.length = 3
  · have hversion := (isVersion_text_iff v).mpr hthree
    rw [versionIn_of_defines (by decide) hbefore ((defines_versionLine_iff v _).mpr ⟨rfl, hversion⟩),
      isOff_text hversion, if_pos hthree]
    rfl
  · have hnone : ∀ l ∈ before ++ [versionLine v], ∀ w, ¬ Defines macroName w l := by
      intro l hl w hw
      rcases List.mem_append.mp hl with hl | hl
      · exact hbefore l hl w hw
      · obtain rfl := List.mem_singleton.mp hl
        obtain ⟨rfl, hversion⟩ := (defines_versionLine_iff v w).mp hw
        exact hthree ((isVersion_text_iff v).mp hversion)
    rw [versionIn_eq_nil hnone, if_neg hthree]
    rfl

end Header

def twoVersions : List Text :=
  ["#define LIB_VERSION_OLD \"0.9.0\"", "#define LIB_VERSION   \"1.20.3\" // current",
    "#define LIB_VERSION \"2.0.0\""].map String.toList

end EasyGrpc.Version
