import EasyGrpc.CMake.Lists

/-!
# Patterns of character classes

The regular expressions of a build are often rows of character classes, some of them repeated. A repeated
class takes as many characters as it can, and gives them back one by one where the rest does not match.
-/

namespace CMake

inductive Piece where
  | one (p : Char → Bool)
  | many (p : Char → Bool)

abbrev Pattern := List Piece

namespace Pattern

def literal (s : Text) : Pattern := s.map fun c => .one (· = c)

def plus (p : Char → Bool) : Pattern := [.one p, .many p]

/-- The characters of a class, as many as leave something that `next` accepts. -/
def manyThen (p : Char → Bool) (next : Text → Option Text) : Text → Option Text
  | [] => next []
  | c :: cs => if p c then (manyThen p next cs).or (next (c :: cs)) else next (c :: cs)

/-- What is left behind a match at the start of the text. -/
def matchAt : Pattern → Text → Option Text
  | [], s => some s
  | .one _ :: _, [] => none
  | .one p :: ps, c :: s => if p c then matchAt ps s else none
  | .many p :: ps, s => manyThen p (matchAt ps) s

def search (ps : Pattern) : Text → Option Text
  | [] => (matchAt ps []).map fun _ => []
  | c :: s =>
      match matchAt ps (c :: s) with
      | some rest => some ((c :: s).take ((c :: s).length - rest.length))
      | none => search ps s

inductive Matches : Pattern → Text → Prop where
  | nil : Matches [] []
  | one {p : Char → Bool} {ps : Pattern} {c : Char} {s : Text} (hc : p c = true) (hs : Matches ps s) :
      Matches (.one p :: ps) (c :: s)
  | many {p : Char → Bool} {ps : Pattern} {xs s : Text} (hxs : ∀ c ∈ xs,
    p c = true) (hs : Matches ps s) :
      Matches (.many p :: ps) (xs ++ s)

variable {p : Char → Bool} {ps qs : Pattern} {s t rest : Text} {next : Text → Option Text}

theorem exists_of_manyThen (h : manyThen p next s = some rest) :
    ∃ xs t, s = xs ++ t ∧ (∀ c ∈ xs, p c = true) ∧ next t = some rest := by
  induction s with
  | nil => exact ⟨[], [], rfl, nofun, h⟩
  | cons c s ih =>
      unfold manyThen at h
      split at h
      · rename_i hc
        rcases Option.or_eq_some_iff.mp h with h | ⟨-, h⟩
        · obtain ⟨xs, t, rfl, hxs, ht⟩ := ih h
          exact ⟨c :: xs, t, rfl, List.forall_mem_cons.mpr ⟨hc, hxs⟩, ht⟩
        · exact ⟨[], c :: s, rfl, nofun, h⟩
      · exact ⟨[], c :: s, rfl, nofun, h⟩

theorem manyThen_isSome (hs : ∀ c ∈ s, p c = true) (ht : (next t).isSome = true) :
    (manyThen p next (s ++ t)).isSome = true := by
  induction s with
  | nil =>
      cases t with
      | nil => exact ht
      | cons c t =>
          rw [List.nil_append, manyThen]
          split
          · rw [Option.isSome_or, ht, Bool.or_true]
          · exact ht
  | cons c s ih =>
      obtain ⟨hc, hs⟩ := List.forall_mem_cons.mp hs
      rw [List.cons_append, manyThen, if_pos hc, Option.isSome_or, ih hs, Bool.true_or]

/-- A class takes all its characters, if what comes behind them matches. -/
theorem manyThen_of_stop (hs : ∀ c ∈ s, p c = true) (hstop : ∀ c, t.head? = some c → p c = false)
    (hnext : next t = some rest) : manyThen p next (s ++ t) = some rest := by
  induction s with
  | nil =>
      cases t with
      | nil => exact hnext
      | cons c t =>
          rw [List.nil_append, manyThen, if_neg (by rw [hstop c rfl]; exact Bool.false_ne_true)]
          exact hnext
  | cons c s ih =>
      obtain ⟨hc, hs⟩ := List.forall_mem_cons.mp hs
      rw [List.cons_append, manyThen, if_pos hc, ih hs, Option.some_or]

/-- **Soundness.** A match is a text that the pattern describes. -/
theorem matches_of_matchAt (h : matchAt ps s = some rest) : ∃ x, s = x ++ rest ∧ Matches ps x := by
  induction ps generalizing s with
  | nil => exact ⟨[], Option.some.inj h, .nil⟩
  | cons piece ps ih =>
      cases piece with
      | one p =>
          cases s with
          | nil => cases h
          | cons c s =>
              unfold matchAt at h
              split at h
              · obtain ⟨x, rfl, hx⟩ := ih h
                exact ⟨c :: x, rfl, .one ‹_› hx⟩
              · cases h
      | many p =>
          obtain ⟨xs, t, rfl, hxs, ht⟩ := exists_of_manyThen h
          obtain ⟨x, rfl, hx⟩ := ih ht
          exact ⟨xs ++ x, (List.append_assoc _ _ _).symm, .many hxs hx⟩

/-- **Completeness.** Where the pattern describes the start of the text, there is a match. -/
theorem matchAt_isSome_of_matches (h : Matches ps s) : (matchAt ps (s ++ t)).isSome = true := by
  induction h with
  | nil => rfl
  | one hc _ ih => rw [List.cons_append, matchAt, if_pos hc, ih]
  | many hxs _ ih =>
      rw [List.append_assoc, matchAt]
      exact manyThen_isSome hxs ih

theorem matches_literal_append {x : Text} :
    Matches (literal s ++ ps) x ↔ ∃ y, x = s ++ y ∧ Matches ps y := by
  induction s generalizing x with
  | nil =>
      constructor
      · exact fun h => ⟨x, rfl, h⟩
      · rintro ⟨y, rfl, h⟩
        exact h
  | cons c s ih =>
      constructor
      · intro h
        cases h with
        | one hc hs =>
            obtain ⟨y, rfl, hy⟩ := ih.mp hs
            exact ⟨y, by rw [of_decide_eq_true hc]; rfl, hy⟩
      · rintro ⟨y, rfl, hy⟩
        exact .one (decide_eq_true rfl) (ih.mpr ⟨y, rfl, hy⟩)

theorem matches_plus_append {x : Text} : Matches (plus p ++ ps) x ↔
    ∃ y z, x = y ++ z ∧ y ≠ [] ∧ (∀ c ∈ y, p c = true) ∧ Matches ps z := by
  constructor
  · intro h
    cases h with
    | @one _ _ c _ hc h =>
        cases h with
        | @many _ _ y z hy hz =>
            exact ⟨c :: y, z, rfl, List.cons_ne_nil _ _, List.forall_mem_cons.mpr ⟨hc, hy⟩, hz⟩
  · rintro ⟨y, z, rfl, hne, hy, hz⟩
    obtain ⟨c, y, rfl⟩ := List.exists_cons_of_ne_nil hne
    obtain ⟨hc, hy⟩ := List.forall_mem_cons.mp hy
    exact .one hc (.many hy hz)

theorem matchAt_plus_append (hne : s ≠ []) (hs : ∀ c ∈ s, p c = true)
    (hstop : ∀ c, t.head? = some c → p c = false) (hnext : matchAt ps t = some rest) :
    matchAt (plus p ++ ps) (s ++ t) = some rest := by
  obtain ⟨c, s, rfl⟩ := List.exists_cons_of_ne_nil hne
  obtain ⟨hc, hs⟩ := List.forall_mem_cons.mp hs
  change (if p c then _ else none) = _
  rw [if_pos hc]
  exact manyThen_of_stop hs hstop hnext

/-- The first match is where no match starts before. -/
theorem search_append (hbefore : ∀ x y, s = x ++ y → y ≠ [] → matchAt ps (y ++ t) = none) (hne : t ≠ [])
    (hmatch : matchAt ps t = some rest) : search ps (s ++ t) = some
    (t.take (t.length - rest.length)) := by
  induction s with
  | nil =>
      obtain ⟨c, t, rfl⟩ := List.exists_cons_of_ne_nil hne
      rw [List.nil_append, search, hmatch]
  | cons c s ih =>
      have hnone := hbefore [] (c :: s) rfl (List.cons_ne_nil _ _)
      rw [List.cons_append] at hnone ⊢
      rw [search, hnone]
      exact ih fun x y hxy => hbefore (c :: x) y (by rw [hxy]; rfl)

end Pattern

end CMake
