import Mathlib.Algebra.Ring.Int.Defs
import Mathlib.Data.List.Basic

/-! A list of the CMake language is a string. This module says which lists survive that. -/

namespace CMake

abbrev Text := List Char

instance : LawfulBEq Text := inferInstanceAs (LawfulBEq (List Char))

def bracket (c : Char) : Int := if c = '[' then 1 else if c = ']' then -1 else 0

def nesting (s : Text) : Int := (s.map bracket).sum

def element (keepEmpty : Bool) (current : Text) : List Text :=
  if current = [] ∧ keepEmpty = false then [] else [current]

/-- A value is divided at each `;` that no open square bracket precedes, and `\;` is a `;` that does not
divide. `current` is the element read so far. -/
def expandFrom (keepEmpty : Bool) : Int → Bool → Text → Text → List Text
  | _, _, current, [] => element keepEmpty current
  | depth, escaped, current, c :: cs =>
      if c = ';' ∧ depth = 0 ∧ escaped = false then
        element keepEmpty current ++ expandFrom keepEmpty 0 false [] cs
      else if c = '\\' ∧ cs.head? = some ';' then expandFrom keepEmpty depth true current cs
      else expandFrom keepEmpty (depth + bracket c) false (current ++ [c]) cs

/-- The elements of a value. An unquoted `${...}` leaves the empty ones out, `list(GET)` keeps them. -/
def expandList (keepEmpty : Bool) (s : Text) : List Text := expandFrom keepEmpty 0 false [] s

def joinList (xs : List Text) : Text := [';'].intercalate xs

/-- A string that a list can hold wherever it stands in the list. -/
structure IsElement (s : Text) : Prop where
  ne_nil : s ≠ []
  noSemicolon : ';' ∉ s
  balanced : nesting s = 0
  noBackslash : s.getLast? ≠ some '\\'

instance (s : Text) : Decidable (IsElement s) :=
  decidable_of_iff (s ≠ [] ∧ ';' ∉ s ∧ nesting s = 0 ∧ s.getLast? ≠ some '\\')
    ⟨fun h => ⟨h.1, h.2.1, h.2.2.1, h.2.2.2⟩, fun h => ⟨h.1, h.2, h.3, h.4⟩⟩

variable {keepEmpty : Bool} {depth : Int} {current p s t : Text} {xs ys : List Text}

@[simp] theorem nesting_nil : nesting [] = 0 := rfl

@[simp] theorem nesting_cons (c : Char) : nesting (c :: s) = bracket c + nesting s := List.sum_cons

@[simp] theorem nesting_append : nesting (s ++ t) = nesting s + nesting t := by
  rw [nesting, List.map_append, List.sum_append, ← nesting, ← nesting]

@[simp] theorem joinList_singleton (x : Text) : joinList [x] = x := List.intercalate_singleton

@[simp] theorem joinList_cons_cons (x y : Text) :
    joinList (x :: y :: xs) = x ++ ';' :: joinList (y :: xs) := by
  simp [joinList]

theorem joinList_append (hxs : xs ≠ []) (hys : ys ≠ []) :
    joinList (xs ++ ys) = joinList xs ++ ';' :: joinList ys := by
  induction xs with
  | nil => exact absurd rfl hxs
  | cons x xs ih =>
      cases xs with
      | nil =>
          obtain ⟨y, ys, rfl⟩ := List.exists_cons_of_ne_nil hys
          simp
      | cons x' xs =>
          rw [List.cons_append, List.cons_append, joinList_cons_cons, joinList_cons_cons,
            ← List.cons_append, ih (List.cons_ne_nil _ _), List.append_assoc, List.cons_append]

/-- A prefix of the first element is a prefix of the value. -/
theorem append_joinList (x : Text) : p ++ joinList (x :: xs) = joinList ((p ++ x) :: xs) := by
  cases xs with
  | nil => simp
  | cons y ys => rw [joinList_cons_cons, joinList_cons_cons, List.append_assoc]

theorem joinList_ne_nil (hs : s ∈ xs) (hne : s ≠ []) : joinList xs ≠ [] := by
  cases xs with
  | nil => cases hs
  | cons x xs =>
      cases xs with
      | nil =>
          obtain rfl := List.mem_singleton.mp hs
          rwa [joinList_singleton]
      | cons y ys =>
          rw [joinList_cons_cons]
          exact List.append_ne_nil_of_right_ne_nil _ (List.cons_ne_nil _ _)

theorem element_of_ne_nil (h : current ≠ []) : element keepEmpty current = [current] :=
  if_neg fun he => h he.1

/-- Up to the next `;` the characters are collected. -/
theorem expandFrom_append (hs : ';' ∉ s) (hlast : t.head? = some ';' → s.getLast? ≠ some '\\') :
    expandFrom keepEmpty depth false current (s ++ t) =
      expandFrom keepEmpty (depth + nesting s) false (current ++ s) t := by
  induction s generalizing depth current with
  | nil => simp
  | cons c s ih =>
      obtain ⟨hc, hs'⟩ := List.ne_and_not_mem_of_not_mem_cons hs
      have hescape : ¬ (c = '\\' ∧ (s ++ t).head? = some ';') := by
        rintro ⟨rfl, hhead⟩
        cases s with
        | nil => exact hlast hhead rfl
        | cons d s => exact hs' (Option.some.inj hhead ▸ List.mem_cons_self)
      have hrest : t.head? = some ';' → s.getLast? ≠ some '\\' := by
        intro hhead
        cases s with
        | nil => exact fun he => by cases he
        | cons d s => simpa [List.getLast?_cons_cons] using hlast hhead
      rw [List.cons_append, expandFrom, if_neg fun he => hc he.1.symm, if_neg hescape, ih hs' hrest,
        nesting_cons, Int.add_assoc, List.append_assoc, List.singleton_append]

theorem expandFrom_of_noSemicolon (hs : ';' ∉ s) :
    expandFrom keepEmpty depth false current s = element keepEmpty (current ++ s) := by
  calc
    expandFrom keepEmpty depth false current s = expandFrom keepEmpty depth false current (s ++ []) := by
      rw [List.append_nil]
    _ = expandFrom keepEmpty (depth + nesting s) false (current ++ s) [] :=
      expandFrom_append hs fun he => by cases he
    _ = element keepEmpty (current ++ s) := rfl

/-- At a `;` the open brackets decide. -/
theorem expandFrom_semicolon : expandFrom keepEmpty depth false current (';' :: t) =
    if depth = 0 then element keepEmpty current ++ expandList keepEmpty t
    else expandFrom keepEmpty depth false (current ++ [';']) t := by
  rw [expandFrom]
  by_cases hdepth : depth = 0
  · rw [if_pos ⟨rfl, hdepth, rfl⟩, if_pos hdepth]
    rfl
  · rw [if_neg fun he => hdepth he.2.1, if_neg hdepth, if_neg (fun he => by cases he.1)]
    change expandFrom keepEmpty (depth + 0) false _ t = _
    rw [Int.add_zero]

theorem expandFrom_escaped : expandFrom keepEmpty depth false current ('\\' :: ';' :: t) =
    expandFrom keepEmpty depth false (current ++ [';']) t := by
  rw [expandFrom, if_neg (fun he => by cases he.1), if_pos ⟨rfl, rfl⟩, expandFrom,
    if_neg (fun he => by cases he.2.2), if_neg (fun he => by cases he.1)]
  change expandFrom keepEmpty (depth + 0) false _ t = _
  rw [Int.add_zero]

theorem expandFrom_cons_cons (x y : Text) (hx : ';' ∉ x) (hlast : x.getLast? ≠ some '\\') :
    expandFrom keepEmpty depth false current (joinList (x :: y :: xs)) =
      if depth + nesting x = 0 then
        element keepEmpty (current ++ x) ++ expandList keepEmpty (joinList (y :: xs))
      else
        expandFrom keepEmpty (depth + nesting x) false (current ++ x ++ [';']) (joinList (y :: xs)) := by
  rw [joinList_cons_cons, expandFrom_append hx fun _ => hlast, expandFrom_semicolon]

theorem expandList_cons (x y : Text) (hx : IsElement x) :
    expandList keepEmpty (joinList (x :: y :: xs)) = x :: expandList keepEmpty (joinList (y :: xs)) := by
  rw [expandList, expandFrom_cons_cons x y hx.noSemicolon hx.noBackslash, if_pos, List.nil_append,
    element_of_ne_nil hx.ne_nil, List.singleton_append]
  rw [hx.balanced]
  rfl

/-- Elements are divided off from what follows them. -/
theorem expandList_append (hxs : ∀ x ∈ xs, IsElement x) (hys : ys ≠ []) :
    expandList keepEmpty (joinList (xs ++ ys)) = xs ++ expandList keepEmpty (joinList ys) := by
  obtain ⟨y, ys, rfl⟩ := List.exists_cons_of_ne_nil hys
  induction xs with
  | nil => rfl
  | cons x xs ih =>
      have hrest := ih fun z hz => hxs z (List.mem_cons_of_mem _ hz)
      have hx := hxs x List.mem_cons_self
      cases xs with
      | nil => exact expandList_cons x y hx
      | cons x' xs =>
          rw [List.cons_append, List.cons_append, expandList_cons x x' hx, ← List.cons_append, hrest]
          rfl

/-- **Round trip.** What a list of elements is joined to is divided into these elements again. -/
theorem expandList_joinList (hxs : ∀ x ∈ xs, IsElement x) (hne : xs ≠ [] ∨ keepEmpty = false) :
    expandList keepEmpty (joinList xs) = xs := by
  rcases List.eq_nil_or_concat' xs with rfl | ⟨zs, x, rfl⟩
  · obtain rfl := hne.resolve_left fun he => he rfl
    rfl
  · have hx := hxs x (by simp)
    have hzs : ∀ z ∈ zs, IsElement z := fun z hz => hxs z (List.mem_append_left _ hz)
    rw [expandList_append hzs (List.cons_ne_nil _ _), joinList_singleton,
      expandList, expandFrom_of_noSemicolon hx.noSemicolon, List.nil_append, element_of_ne_nil hx.ne_nil]

/-- A prefix without special characters makes an element of an element. -/
theorem IsElement.append (hs : IsElement s) (hsemicolon : ';' ∉ p) (hnesting : nesting p = 0) :
    IsElement (p ++ s) where
  ne_nil := List.append_ne_nil_of_right_ne_nil _ hs.ne_nil
  noSemicolon := fun h => (List.mem_append.mp h).elim hsemicolon hs.noSemicolon
  balanced := by rw [nesting_append, hnesting, hs.balanced, Int.zero_add]
  noBackslash := by
    rw [List.getLast?_append_of_ne_nil _ hs.ne_nil]
    exact hs.noBackslash

/-- What has been collected stays at the head of the next element. -/
theorem expandFrom_head (escaped : Bool) (hne : current ≠ []) :
    ∃ u rest, expandFrom keepEmpty depth escaped current s = (current ++ u) :: rest := by
  induction s generalizing depth escaped current with
  | nil => exact ⟨[], [], by rw [expandFrom, element_of_ne_nil hne, List.append_nil]⟩
  | cons c s ih =>
      rw [expandFrom]
      split
      · refine ⟨[], expandFrom keepEmpty 0 false [] s, ?_⟩
        rw [element_of_ne_nil hne, List.append_nil, List.singleton_append]
      · split
        · exact ih true hne
        · obtain ⟨u, rest, hu⟩ := ih false (List.append_ne_nil_of_left_ne_nil hne _)
          exact ⟨c :: u, rest, by rw [hu, List.append_assoc, List.singleton_append]⟩

/-- A string with brackets left open or a `\\` at its end swallows the `;` after it. -/
theorem expandFrom_unsplit (hs : ';' ∉ s) (hbad : nesting s ≠ 0 ∨ s.getLast? = some '\\') :
    ∃ u rest, expandFrom keepEmpty 0 false current (s ++ ';' :: t) = (current ++ u) :: rest ∧
      ';' ∈ u := by
  by_cases hlast : s.getLast? = some '\\'
  · obtain ⟨r, rfl⟩ := List.getLast?_eq_some_iff.mp hlast
    have hr : ';' ∉ r := fun he => hs (List.mem_append_left _ he)
    obtain ⟨u, rest, hu⟩ := expandFrom_head (s := t) false
      (List.append_ne_nil_of_right_ne_nil (current ++ r) (List.cons_ne_nil ';' []))
    refine ⟨r ++ ';' :: u, rest, ?_, by simp⟩
    rw [List.append_assoc, expandFrom_append hr (fun he => by cases he), List.singleton_append,
      expandFrom_escaped, hu]
    simp
  · have hdepth : 0 + nesting s ≠ 0 := by
      rw [Int.zero_add]
      exact hbad.resolve_right hlast
    obtain ⟨u, rest, hu⟩ := expandFrom_head (s := t) false
      (List.append_ne_nil_of_right_ne_nil (current ++ s) (List.cons_ne_nil ';' []))
    refine ⟨s ++ ';' :: u, rest, ?_, by simp⟩
    rw [expandFrom_append hs fun _ => hlast, expandFrom_semicolon, if_neg hdepth, hu]
    simp

/-- No text is lost between the elements. -/
theorem joinList_expandFrom (hxs : ∀ x ∈ xs, x ≠ [] ∧ ';' ∉ x ∧ x.getLast? ≠ some '\\') (hne : xs ≠ []) :
    joinList (expandFrom keepEmpty depth false current (joinList xs)) = current ++ joinList xs ∧
      expandFrom keepEmpty depth false current (joinList xs) ≠ [] := by
  induction xs generalizing depth current with
  | nil => exact absurd rfl hne
  | cons x xs ih =>
      obtain ⟨hx, hsemicolon, hlast⟩ := hxs x List.mem_cons_self
      have hcurrent : current ++ x ≠ [] := List.append_ne_nil_of_right_ne_nil _ hx
      cases xs with
      | nil =>
          rw [joinList_singleton, expandFrom_of_noSemicolon hsemicolon, element_of_ne_nil hcurrent]
          exact ⟨joinList_singleton _, List.cons_ne_nil _ _⟩
      | cons y ys =>
          have hrest := fun depth current => @ih depth current
            (fun z hz => hxs z (List.mem_cons_of_mem _ hz))
            (List.cons_ne_nil _ _)
          rw [expandFrom_cons_cons x y hsemicolon hlast]
          split
          · obtain ⟨hjoin, hcons⟩ := hrest 0 []
            rw [element_of_ne_nil hcurrent, expandList, joinList_append (List.cons_ne_nil _ _) hcons,
              hjoin]
            simp
          · obtain ⟨hjoin, hcons⟩ := hrest (depth + nesting x) (current ++ x ++ [';'])
            refine ⟨?_, hcons⟩
            rw [hjoin]
            simp

/-- Where no element that is read holds a `;`, the elements are those that were joined. -/
theorem expandFrom_eq_of_noSemicolon
    (hxs : ∀ x ∈ xs, x ≠ [] ∧ ';' ∉ x ∧ x.getLast? ≠ some '\\') (x : Text) (hx : x ≠ [])
    (hsemicolon : ';' ∉ x) (hlast : x.getLast? ≠ some '\\')
    (hread : ∀ y ∈ expandFrom keepEmpty depth false current (joinList (x :: xs)), ';' ∉ y) :
    expandFrom keepEmpty depth false current (joinList (x :: xs)) = (current ++ x) :: xs := by
  have hcurrent : current ++ x ≠ [] := List.append_ne_nil_of_right_ne_nil _ hx
  induction xs generalizing x depth current with
  | nil => rw [joinList_singleton, expandFrom_of_noSemicolon hsemicolon, element_of_ne_nil hcurrent]
  | cons y ys ih =>
      obtain ⟨hy, hy', hy''⟩ := hxs y List.mem_cons_self
      have hys := fun z hz => hxs z (List.mem_cons_of_mem y hz)
      rw [expandFrom_cons_cons x y hsemicolon hlast] at hread ⊢
      split at hread
      · rw [if_pos ‹_›]
        rw [element_of_ne_nil hcurrent, expandList] at hread ⊢
        rw [ih hys y hy hy' hy'' (fun z hz => hread z (List.mem_append_right _ hz)) hy]
        rfl
      · exfalso
        obtain ⟨u, rest, hu⟩ := expandFrom_head (s := joinList (y :: ys)) false
          (List.append_ne_nil_of_right_ne_nil (current ++ x) (List.cons_ne_nil ';' []))
        rw [hu] at hread
        exact hread _ List.mem_cons_self (by simp)

theorem expandList_eq_of_noSemicolon (hxs : ∀ x ∈ xs, x ≠ [] ∧ ';' ∉ x ∧ x.getLast? ≠ some '\\')
    (hread : ∀ y ∈ expandList false (joinList xs), ';' ∉ y) : expandList false (joinList xs) = xs := by
  cases xs with
  | nil => rfl
  | cons x xs =>
      obtain ⟨hx, hsemicolon, hlast⟩ := hxs x List.mem_cons_self
      exact expandFrom_eq_of_noSemicolon (fun y hy => hxs y (List.mem_cons_of_mem _ hy)) x hx hsemicolon
        hlast hread

section Appending

/-- What `list(APPEND ...)` makes of the text of a list and one more argument. -/
def appendText (x y : Text) : Text := if x = [] then y else x ++ ';' :: y

variable {x y : Text} {zs : List Text}

theorem length_le_appendText (x y : Text) : x.length ≤ (appendText x y).length := by
  unfold appendText
  split
  · rw [‹x = []›]
    exact Nat.zero_le _
  · rw [List.length_append]
    exact Nat.le_add_right _ _

theorem length_lt_appendText (x : Text) (hy : y ≠ []) : x.length < (appendText x y).length := by
  have hlength := List.length_pos_iff.mpr hy
  unfold appendText
  split
  · rw [‹x = []›]
    exact hlength
  · rw [List.length_append, List.length_cons]
    omega

theorem appendText_length_lt {x' : Text} (h : x.length < x'.length) (y : Text) :
    (appendText x y).length < (appendText x' y).length := by
  have hx' : x' ≠ [] := List.length_pos_iff.mp (Nat.zero_lt_of_lt h)
  unfold appendText
  rw [if_neg hx', List.length_append, List.length_cons]
  split
  · omega
  · rw [List.length_append, List.length_cons]
    omega

theorem length_le_foldl_appendText (x : Text) (zs : List Text) :
    x.length ≤ (zs.foldl appendText x).length := by
  induction zs generalizing x with
  | nil => exact Nat.le_refl _
  | cons z zs ih => exact Nat.le_trans (length_le_appendText x z) (ih _)

theorem length_lt_foldl_appendText (x : Text) (hz : ∃ z ∈ zs, z ≠ []) :
    x.length < (zs.foldl appendText x).length := by
  induction zs generalizing x with
  | nil =>
      obtain ⟨z, hz, -⟩ := hz
      cases hz
  | cons z zs ih =>
      obtain ⟨y, hy, hne⟩ := hz
      cases hy with
      | head => exact Nat.lt_of_lt_of_le (length_lt_appendText x hne) (length_le_foldl_appendText _ zs)
      | tail _ hy => exact Nat.lt_of_le_of_lt (length_le_appendText x z) (ih _ ⟨y, hy, hne⟩)

theorem foldl_appendText_length_lt {x' : Text} (h : x.length < x'.length) (zs : List Text) :
    (zs.foldl appendText x).length < (zs.foldl appendText x').length := by
  induction zs generalizing x x' with
  | nil => exact h
  | cons z zs ih => exact ih (appendText_length_lt h z)

/-- A command that is longer at the start, or has more in the middle, stays longer. -/
theorem eq_nil_of_foldl_appendText {front middle rest : List Text}
    (h : (front ++ middle ++ rest).foldl appendText x = (front ++ rest).foldl appendText [])
    (hmiddle : ∀ z ∈ middle, z ≠ []) : x = [] ∧ middle = [] := by
  simp only [List.foldl_append] at h
  by_contra hne
  have hlonger : (front.foldl appendText []).length <
      (middle.foldl appendText (front.foldl appendText x)).length := by
    by_cases hx : x = []
    · subst hx
      obtain ⟨z, hz⟩ := List.exists_mem_of_ne_nil middle fun hnil => hne ⟨rfl, hnil⟩
      exact length_lt_foldl_appendText _ ⟨z, hz, hmiddle z hz⟩
    · have hstart : ([] : Text).length < x.length := List.length_pos_iff.mpr hx
      exact Nat.lt_of_lt_of_le (foldl_appendText_length_lt hstart front)
        (length_le_foldl_appendText _ middle)
  exact Nat.ne_of_lt (foldl_appendText_length_lt hlonger rest) (congrArg List.length h).symm

end Appending

end CMake
