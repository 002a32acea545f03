import EasyGrpc.CMake.Lists
import Mathlib.Data.List.MinMax

/-! `cmake_path`, on paths whose only root is `/`. -/

namespace CMake

def names (s : Text) : List Text := (s.splitOn '/').filter (· ≠ [])

def isAbsolute (s : Text) : Bool := s.head? = some '/'

/-- The iteration of `std::filesystem::path`: the root, the names, and an empty element for a `/` at the
end. -/
def pathElements (s : Text) : List Text :=
  (if isAbsolute s then [['/']] else []) ++ names s ++
    (if names s ≠ [] ∧ s.getLast? = some '/' then [[]] else [])

def significant (n : Text) : Bool := n ≠ [] ∧ n ≠ ['.']

/-- Where the path leads. Paths that differ in `//`, `.` or a `/` at the end lead to the same place. -/
def location (s : Text) : List Text := (pathElements s).filter significant

def joinPath (xs : List Text) : Text := ['/'].intercalate xs

def dropCommon : List Text → List Text → List Text × List Text
  | a :: as, b :: bs => if a = b then dropCommon as bs else (a :: as, b :: bs)
  | as, bs => (as, bs)

def depth (xs : List Text) : Int :=
  (xs.map fun n => if n = ['.', '.'] then -1 else if significant n then 1 else 0).sum

/-- `cmake_path(RELATIVE_PATH)`, which is `lexically_relative` of `std::filesystem::path`. -/
def lexicallyRelative (path base : Text) : Text :=
  if isAbsolute path ≠ isAbsolute base then [] else
  let rest := dropCommon (pathElements path) (pathElements base)
  if rest.1 = [] ∧ rest.2 = [] then ['.']
  else if depth rest.2 < 0 then []
  else if depth rest.2 = 0 ∧ (rest.1 = [] ∨ rest.1.head? = some []) then ['.']
  else joinPath (List.replicate (depth rest.2).toNat ['.', '.'] ++ rest.1)

/-- The file name up to its leftmost period, not counting a period it starts with. -/
def stem (name : Text) : Text :=
  match name with
  | [] => []
  | c :: cs => if c :: cs = ['.', '.'] then c :: cs else c :: cs.takeWhile (· ≠ '.')

def removeExtension (s : Text) : Text :=
  joinPath ((s.splitOn '/').dropLast ++ [stem ((s.splitOn '/').getLastD [])])

def parentPath (s : Text) : Text :=
  let directory := (s.reverse.dropWhile (· ≠ '/')).reverse
  let parent := (directory.reverse.dropWhile (· = '/')).reverse
  if parent = [] then directory else parent

/-- `path` starts as `base` does, up to `.` and slashes at the end of `base`, and `rel` is the rest. -/
structure LiesUnder (path base : Text) (rel : List Text) : Prop where
  elements : ∃ shared dots, pathElements path = shared ++ rel ∧ pathElements base = shared ++ dots ∧
    ∀ n ∈ dots, significant n = false
  significant : ∀ n ∈ rel, significant n = true
  noSlash : ∀ n ∈ rel, '/' ∉ n
  ne_nil : rel ≠ []

variable {s t path base : Text} {xs rel : List Text}

/-- Induction over the parts between slashes. -/
theorem slash_induction {P : Text → Prop} (single : ∀ s, '/' ∉ s → P s)
    (split : ∀ s t, '/' ∉ s → P t → P (s ++ '/' :: t)) (s : Text) : P s := by
  induction hn : s.length using Nat.strongRecOn generalizing s with
  | _ n ih =>
      by_cases hs : '/' ∈ s
      · obtain ⟨a, b, rfl, ha⟩ := List.eq_append_cons_of_mem hs
        refine split a b ha (ih b.length ?_ b rfl)
        rw [← hn, List.length_append, List.length_cons]
        omega
      · exact single s hs

theorem noSlash_of_mem_splitOn {n : Text} (h : n ∈ s.splitOn '/') : '/' ∉ n := by
  induction s using slash_induction with
  | single s hs =>
      rw [List.splitOn_eq_singleton hs] at h
      exact List.mem_singleton.mp h ▸ hs
  | split s t hs ih =>
      rw [List.splitOn_append_cons_self_of_not_mem hs] at h
      cases h with
      | head => exact hs
      | tail _ h => exact ih h

theorem mem_of_mem_splitOn {n : Text} {c : Char} (h : n ∈ s.splitOn '/') (hc : c ∈ n) : c ∈ s := by
  induction s using slash_induction with
  | single s hs =>
      rw [List.splitOn_eq_singleton hs] at h
      exact List.mem_singleton.mp h ▸ hc
  | split s t hs ih =>
      rw [List.splitOn_append_cons_self_of_not_mem hs] at h
      cases h with
      | head => exact List.mem_append_left _ hc
      | tail _ h => exact List.mem_append_right _ (List.mem_cons_of_mem _ (ih h))

theorem noSlash_of_mem_names {n : Text} (h : n ∈ names s) : '/' ∉ n :=
  noSlash_of_mem_splitOn (List.mem_filter.mp h).1

theorem names_append : names (s ++ '/' :: t) = names s ++ names t := by
  rw [names, List.splitOn_append_cons_self, List.filter_append, ← names, ← names]

theorem splitOn_joinPath (hxs : ∀ x ∈ xs, '/' ∉ x) (hne : xs ≠ []) : (joinPath xs).splitOn '/' = xs :=
  List.splitOn_intercalate '/' hxs hne

theorem names_joinPath (hxs : ∀ x ∈ xs, x ≠ [] ∧ '/' ∉ x) (hne : xs ≠ []) :
    names (joinPath xs) = xs := by
  rw [names, splitOn_joinPath (fun x hx => (hxs x hx).2) hne]
  exact List.filter_eq_self.mpr fun x hx => by simpa using (hxs x hx).1

theorem location_eq : location s =
    (if isAbsolute s then [['/']] else []) ++ (names s).filter significant := by
  rw [location, pathElements, List.filter_append, List.filter_append]
  have hroot : (if isAbsolute s = true then [['/']] else []).filter significant =
      if isAbsolute s = true then [['/']] else [] := by split <;> rfl
  have hlast : (if names s ≠ [] ∧ s.getLast? = some '/' then [[]] else []).filter significant = [] := by
    split <;> rfl
  rw [hroot, hlast, List.append_nil]

/-- Where a relative path from a directory leads. -/
theorem location_append (hs : s ≠ []) :
    location (s ++ '/' :: t) = location s ++ (names t).filter significant := by
  have habsolute : isAbsolute (s ++ '/' :: t) = isAbsolute s := by
    obtain ⟨c, cs, rfl⟩ := List.exists_cons_of_ne_nil hs
    rfl
  rw [location_eq, location_eq, habsolute, names_append, List.filter_append, List.append_assoc]

theorem location_append_joinPath (hs : s ≠ []) (hxs : ∀ x ∈ xs, significant x = true ∧ '/' ∉ x)
    (hne : xs ≠ []) : location (s ++ '/' :: joinPath xs) = location s ++ xs := by
  have hnames : ∀ x ∈ xs, x ≠ [] ∧ '/' ∉ x := by
    intro x hx
    refine ⟨?_, (hxs x hx).2⟩
    rintro rfl
    cases (hxs [] hx).1
  rw [location_append hs, names_joinPath hnames hne, List.filter_eq_self.mpr fun x hx => (hxs x hx).1]

/-- The root is the only element with a slash. -/
theorem isAbsolute_eq : isAbsolute s = ((pathElements s).head? = some ['/'] : Bool) := by
  cases habsolute : isAbsolute s with
  | true => simp [pathElements, habsolute]
  | false =>
      symm
      rw [decide_eq_false_iff_not]
      intro hhead
      have hmem := List.mem_of_mem_head? hhead
      simp only [pathElements, habsolute, Bool.false_eq_true, if_false, List.nil_append] at hmem
      rcases List.mem_append.mp hmem with hname | hlast
      · exact noSlash_of_mem_names hname List.mem_cons_self
      · split at hlast
        · cases List.mem_singleton.mp hlast
        · cases hlast

theorem sum_nesting_splitOn : ((s.splitOn '/').map nesting).sum = nesting s := by
  induction s using slash_induction with
  | single s hs => rw [List.splitOn_eq_singleton hs, List.map_singleton, List.sum_singleton]
  | split s t hs ih =>
      rw [List.splitOn_append_cons_self_of_not_mem hs, List.map_cons, List.sum_cons, ih, nesting_append,
        nesting_cons]
      change _ = nesting s + (0 + nesting t)
      rw [Int.zero_add]

theorem sum_nesting_filter (p : Text → Bool) (hp : ∀ n, p n = false → nesting n = 0) :
    ((xs.filter p).map nesting).sum = (xs.map nesting).sum := by
  induction xs with
  | nil => rfl
  | cons x xs ih =>
      rw [List.map_cons, List.sum_cons, List.filter_cons]
      split
      · rw [List.map_cons, List.sum_cons, ih]
      · rw [ih, hp x (Bool.eq_false_iff.mpr ‹_›), Int.zero_add]

theorem sum_nesting_pathElements : ((pathElements s).map nesting).sum = nesting s := by
  have hroot : ((if isAbsolute s = true then [['/']] else []).map nesting).sum = 0 := by split <;> rfl
  have hlast : ((if names s ≠ [] ∧ s.getLast? = some '/' then [[]] else []).map nesting).sum = 0 := by
    split <;> rfl
  have hnames : ((names s).map nesting).sum = nesting s := by
    rw [names, sum_nesting_filter, sum_nesting_splitOn]
    intro n hn
    rw [show n = [] by simpa using hn]
    rfl
  rw [pathElements, List.map_append, List.map_append, List.sum_append, List.sum_append, hroot, hlast,
    hnames, Int.zero_add, Int.add_zero]

theorem nesting_joinPath (hne : xs ≠ []) : nesting (joinPath xs) = (xs.map nesting).sum := by
  induction xs with
  | nil => exact absurd rfl hne
  | cons x xs ih =>
      cases xs with
      | nil => simp [joinPath]
      | cons y ys =>
          have hjoin : joinPath (x :: y :: ys) = x ++ '/' :: joinPath (y :: ys) := by simp [joinPath]
          rw [hjoin, nesting_append, nesting_cons, ih (List.cons_ne_nil _ _)]
          change nesting x + (0 + _) = nesting x + _
          rw [Int.zero_add]
          rfl

theorem joinPath_concat_append (x e : Text) : joinPath (xs ++ [x]) ++ e = joinPath (xs ++ [x ++ e]) := by
  induction xs with
  | nil => simp [joinPath]
  | cons y ys ih =>
      have hjoin : ∀ z : Text, joinPath (y :: (ys ++ [z])) = y ++ '/' :: joinPath (ys ++ [z]) := by
        intro z
        cases ys <;> simp [joinPath]
      rw [List.cons_append, List.cons_append, hjoin, hjoin, List.append_assoc, List.cons_append, ih]

theorem mem_joinPath {c : Char} (h : c ∈ joinPath xs) : c = '/' ∨ ∃ x ∈ xs, c ∈ x := by
  induction xs with
  | nil => cases h
  | cons x xs ih =>
      cases xs with
      | nil => exact .inr ⟨x, List.mem_cons_self, by simpa [joinPath] using h⟩
      | cons y ys =>
          have hjoin : joinPath (x :: y :: ys) = x ++ '/' :: joinPath (y :: ys) := by simp [joinPath]
          rw [hjoin] at h
          rcases List.mem_append.mp h with h | h
          · exact .inr ⟨x, List.mem_cons_self, h⟩
          · rcases List.mem_cons.mp h with h | h
            · exact .inl h
            · obtain h | ⟨z, hz, hc⟩ := ih h
              · exact .inl h
              · exact .inr ⟨z, List.mem_cons_of_mem _ hz, hc⟩

theorem significant_of_length {n : Text} (h : 2 ≤ n.length) : significant n = true := by
  have hne : n ≠ [] := by
    rintro rfl
    cases h
  have hperiod : n ≠ ['.'] := by
    rintro rfl
    exact absurd h (by decide)
  simp [significant, hne, hperiod]

/-- Where a file of a relative directory leads, whose name is its stem and an extension. -/
theorem location_append_file {n e : Text} (hs : s ≠ []) (hxs : ∀ x ∈ xs, significant x = true ∧ '/' ∉ x)
    (hn : significant (n ++ e) = true) (hslash : '/' ∉ n ++ e) :
    location (s ++ '/' :: joinPath (xs ++ [n]) ++ e) = location s ++ (xs ++ [n ++ e]) := by
  rw [List.append_assoc, List.cons_append, joinPath_concat_append]
  refine location_append_joinPath hs ?_ (List.append_ne_nil_of_right_ne_nil _ (List.cons_ne_nil _ _))
  intro x hx
  rcases List.mem_append.mp hx with hx | hx
  · exact hxs x hx
  · rw [List.mem_singleton.mp hx]
    exact ⟨hn, hslash⟩

/-- Of two directories the first has no more elements, if each place in it is a place in the second with
the same relative paths. The longest of these paths decides. -/
theorem length_le_of_places {places : List (List Text)} {a b : List Text} (hne : places ≠ [])
    (h : ∀ x ∈ places, ∃ y ∈ places, a ++ x = b ++ y) : a.length ≤ b.length := by
  cases hmax : places.argmax List.length with
  | none => exact absurd (List.argmax_eq_none.mp hmax) hne
  | some x =>
      obtain ⟨y, hy, hxy⟩ := h x (List.argmax_mem hmax)
      have hlongest := List.le_of_mem_argmax hy hmax
      have hlength := congrArg List.length hxy
      rw [List.length_append, List.length_append] at hlength
      omega

/-- An element is made of characters of the path. -/
theorem mem_of_mem_pathElements {n : Text} {c : Char} (hn : n ∈ pathElements s) (hc : c ∈ n) :
    c ∈ s := by
  rw [pathElements] at hn
  rcases List.mem_append.mp hn with hn | hn
  · rcases List.mem_append.mp hn with hn | hn
    · split at hn
      · rename_i habsolute
        rw [List.mem_singleton.mp hn] at hc
        rw [List.mem_singleton.mp hc]
        exact List.mem_of_mem_head? (of_decide_eq_true habsolute)
      · cases hn
    · exact mem_of_mem_splitOn (List.mem_filter.mp hn).1 hc
  · split at hn
    · rw [List.mem_singleton.mp hn] at hc
      cases hc
    · cases hn

/-- A character that is no slash and no period is in one of the elements that lead elsewhere. -/
theorem exists_mem_location {c : Char} (hc : c ∈ s) (hslash : c ≠ '/') (hperiod : c ≠ '.') :
    ∃ n ∈ location s, c ∈ n := by
  have hpart : ∃ n ∈ s.splitOn '/', c ∈ n := by
    induction s using slash_induction with
    | single s hs =>
        refine ⟨s, ?_, hc⟩
        rw [List.splitOn_eq_singleton hs]
        exact List.mem_singleton.mpr rfl
    | split s t hs ih =>
        rw [List.splitOn_append_cons_self_of_not_mem hs]
        rcases List.mem_append.mp hc with hc | hc
        · exact ⟨s, List.mem_cons_self, hc⟩
        · obtain ⟨n, hn, hc⟩ := ih ((List.mem_cons.mp hc).resolve_left hslash)
          exact ⟨n, List.mem_cons_of_mem _ hn, hc⟩
  obtain ⟨n, hn, hcn⟩ := hpart
  have hne : n ≠ [] := List.ne_nil_of_mem hcn
  have hperiod' : n ≠ ['.'] := by
    rintro rfl
    exact hperiod (List.mem_singleton.mp hcn)
  refine ⟨n, ?_, hcn⟩
  rw [location_eq]
  refine List.mem_append_right _ (List.mem_filter.mpr ⟨?_, ?_⟩)
  · exact List.mem_filter.mpr ⟨hn, decide_eq_true hne⟩
  · simp [significant, hne, hperiod']

section Relative

theorem dropCommon_append (shared as bs : List Text) :
    dropCommon (shared ++ as) (shared ++ bs) = dropCommon as bs := by
  induction shared with
  | nil => rfl
  | cons x shared ih =>
      rw [List.cons_append, List.cons_append, dropCommon, if_pos rfl, ih]

theorem nesting_of_not_significant {n : Text} (h : significant n = false) : nesting n = 0 := by
  have hn : n = [] ∨ n = ['.'] := by
    by_contra hne
    rw [not_or] at hne
    simp [significant, hne] at h
  rcases hn with rfl | rfl <;> rfl

theorem sum_nesting_of_not_significant (h : ∀ n ∈ xs, significant n = false) :
    (xs.map nesting).sum = 0 := by
  induction xs with
  | nil => rfl
  | cons x xs ih =>
      rw [List.map_cons, List.sum_cons, nesting_of_not_significant (h x List.mem_cons_self),
        ih fun n hn => h n (List.mem_cons_of_mem _ hn), Int.zero_add]

theorem depth_of_not_significant (h : ∀ n ∈ xs, significant n = false) : depth xs = 0 := by
  unfold depth
  induction xs with
  | nil => rfl
  | cons x xs ih =>
      have hx := h x List.mem_cons_self
      have hdots : x ≠ ['.', '.'] := by
        rintro rfl
        cases hx
      rw [List.map_cons, List.sum_cons, if_neg hdots, hx, ih fun n hn => h n (List.mem_cons_of_mem _ hn)]
      rfl

variable (h : LiesUnder path base rel)

include h

theorem LiesUnder.isAbsolute : isAbsolute path = isAbsolute base := by
  obtain ⟨shared, dots, hpath, hbase, hdots⟩ := h.elements
  rw [isAbsolute_eq, isAbsolute_eq, hpath, hbase]
  cases shared with
  | nil =>
      obtain ⟨r, rs, rfl⟩ := List.exists_cons_of_ne_nil h.ne_nil
      have hrelative : r ≠ ['/'] := fun he => h.noSlash r List.mem_cons_self (he ▸ List.mem_cons_self)
      cases dots with
      | nil => simp [hrelative]
      | cons d ds =>
          have hd : d ≠ ['/'] := by
            rintro rfl
            cases hdots ['/'] List.mem_cons_self
          simp [hrelative, hd]
  | cons x shared => rfl

/-- A path under a directory is the rest, relative to it. -/
theorem LiesUnder.lexicallyRelative : lexicallyRelative path base = joinPath rel := by
  obtain ⟨shared, dots, hpath, hbase, hdots⟩ := h.elements
  obtain ⟨r, rs, rfl⟩ := List.exists_cons_of_ne_nil h.ne_nil
  have hr := h.significant r List.mem_cons_self
  have hrest : dropCommon (pathElements path) (pathElements base) = (r :: rs, dots) := by
    rw [hpath, hbase, dropCommon_append]
    cases dots with
    | nil => rfl
    | cons d ds =>
        rw [dropCommon, if_neg]
        rintro rfl
        rw [hdots r List.mem_cons_self] at hr
        cases hr
  have hhead : (r :: rs).head? ≠ some [] := by
    intro he
    rw [Option.some.inj he] at hr
    cases hr
  rw [CMake.lexicallyRelative, if_neg (not_not_intro h.isAbsolute), hrest,
    if_neg fun he => List.cons_ne_nil _ _ he.1, depth_of_not_significant hdots, if_neg (Int.lt_irrefl 0),
    if_neg fun he => he.2.elim (List.cons_ne_nil _ _) hhead]
  rfl

theorem LiesUnder.location : location path = location base ++ rel := by
  obtain ⟨shared, dots, hpath, hbase, hdots⟩ := h.elements
  have hnone : dots.filter CMake.significant = [] :=
    List.filter_eq_nil_iff.mpr fun n hn => by simp [hdots n hn]
  rw [CMake.location, CMake.location, hpath, hbase, List.filter_append, List.filter_append, hnone,
    List.filter_eq_self.mpr h.significant, List.append_nil]

theorem LiesUnder.subset {n : Text} {c : Char} (hn : n ∈ rel) (hc : c ∈ n) : c ∈ path := by
  obtain ⟨shared, dots, hpath, -, -⟩ := h.elements
  refine mem_of_mem_pathElements ?_ hc
  rw [hpath]
  exact List.mem_append_right _ hn

theorem LiesUnder.nesting : (rel.map nesting).sum = nesting path - nesting base := by
  obtain ⟨shared, dots, hpath, hbase, hdots⟩ := h.elements
  rw [← sum_nesting_pathElements (s := path), ← sum_nesting_pathElements (s := base), hpath, hbase,
    List.map_append, List.map_append, List.sum_append, List.sum_append,
    sum_nesting_of_not_significant hdots]
  omega

end Relative

section Stem

/-- A stem has no period but the one that it may start with. -/
theorem stem_eq_cons {n : Text} (hne : n ≠ []) (hdots : n ≠ ['.', '.']) :
    ∃ c cs, stem n = c :: cs ∧ '.' ∉ cs := by
  obtain ⟨c, cs, rfl⟩ := List.exists_cons_of_ne_nil hne
  refine ⟨c, cs.takeWhile (· ≠ '.'), ?_, ?_⟩
  · rw [stem]
    exact if_neg hdots
  · intro hmem
    have hperiod := List.all_eq_true.mp List.all_takeWhile _ hmem
    simp at hperiod

theorem isPrefix_stem (n : Text) : stem n <+: n := by
  unfold stem
  split
  · exact List.prefix_refl _
  · split
    · exact List.prefix_refl _
    · exact List.cons_prefix_cons.mpr ⟨rfl, List.takeWhile_prefix _⟩

theorem stem_append {n e : Text} (hne : n ≠ []) (hn : '.' ∉ n.tail) (he : e ≠ []) :
    stem (n ++ '.' :: e) = n := by
  obtain ⟨c, cs, rfl⟩ := List.exists_cons_of_ne_nil hne
  have htake : (cs ++ '.' :: e).takeWhile (· ≠ '.') = cs := by
    rw [List.takeWhile_append_of_pos, List.takeWhile_cons_of_neg (by simp), List.append_nil]
    intro x hx
    rw [decide_eq_true_eq]
    rintro rfl
    exact hn hx
  rw [List.cons_append, stem, htake]
  split
  · rename_i hdots
    have hlength := congrArg List.length hdots
    rw [List.length_cons, List.length_append, List.length_cons] at hlength
    have hpos := List.length_pos_iff.mpr he
    change _ = 2 at hlength
    omega
  · rfl

end Stem

/-- `REMOVE_EXTENSION` changes the last name. -/
theorem removeExtension_joinPath {n : Text} (hxs : ∀ x ∈ xs, '/' ∉ x) (hn : '/' ∉ n) :
    removeExtension (joinPath (xs ++ [n])) = joinPath (xs ++ [stem n]) := by
  have hsplit : (joinPath (xs ++ [n])).splitOn '/' = xs ++ [n] := by
    refine splitOn_joinPath (fun x hx => ?_)
      (List.append_ne_nil_of_right_ne_nil _ (List.cons_ne_nil _ _))
    rcases List.mem_append.mp hx with hx | hx
    · exact hxs x hx
    · exact List.mem_singleton.mp hx ▸ hn
  rw [removeExtension, hsplit, List.dropLast_concat]
  simp

theorem isPrefix_parentPath : parentPath s <+: s := by
  have hdirectory : (s.reverse.dropWhile (· ≠ '/')).reverse <+: s :=
    List.reverse_suffix.mp (by simpa using List.dropWhile_suffix _)
  rw [parentPath]
  split
  · exact hdirectory
  · refine List.IsPrefix.trans ?_ hdirectory
    exact List.reverse_suffix.mp (by simpa using List.dropWhile_suffix _)

end CMake
