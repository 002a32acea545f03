import EasyGrpc.CMake.Language

/-!
# Scopes that code cannot tell apart

Code that reads a variable after it has set it does not depend on what the variable was before, and
`if(name)` does not depend on which false value there is. Two scopes that differ in nothing else lead to
the same values and the same errors.
-/

namespace CMake

variable {s t s' t' : Scope} {hidden hidden' soft : List String} {name other : String} {v : Text}
  {xs : List Text}

namespace Scope

/-- The scopes may differ in the variables of `hidden`, and those of `soft` may have two false values. -/
structure Alike (hidden soft : List String) (s t : Scope) : Prop where
  agree : ∀ name, name ∉ hidden → name ∉ soft → t.value name = s.value name
  agreeSoft : ∀ name ∈ soft, name ∉ hidden →
    t.value name = s.value name ∨ (s.isTrue name = false ∧ t.isTrue name = false)

theorem isTrue_eq_of_value_eq (h : t.value name = s.value name) : t.isTrue name = s.isTrue name := by
  rw [isTrue, h, ← isTrue]

theorem expand_eq_of_value_eq (h : t.value name = s.value name) : t.expand name = s.expand name := by
  rw [expand, h, ← expand]

theorem value_congr (h : t.lookup name = s.lookup name) : t.value name = s.value name := by
  rw [value, h, ← value]

namespace Alike

theorem isTrue_eq (h : Alike hidden soft s t) (hname : name ∉ hidden) :
    t.isTrue name = s.isTrue name := by
  by_cases hsoft : name ∈ soft
  · obtain hvalue | ⟨hs, ht⟩ := h.agreeSoft name hsoft hname
    · exact isTrue_eq_of_value_eq hvalue
    · rw [hs, ht]
  · exact isTrue_eq_of_value_eq (h.agree name hname hsoft)

/-- A variable that holds is the same in both scopes. -/
theorem value_eq_of_isTrue (h : Alike hidden soft s t) (hname : name ∉ hidden)
    (htrue : s.isTrue name = true) : t.value name = s.value name := by
  by_cases hsoft : name ∈ soft
  · refine (h.agreeSoft name hsoft hname).resolve_right ?_
    rintro ⟨hs, -⟩
    rw [htrue] at hs
    cases hs
  · exact h.agree name hname hsoft

theorem mono (h : Alike hidden soft s t) (hsub : hidden ⊆ hidden') : Alike hidden' soft s t where
  agree name hname := h.agree name fun hmem => hname (hsub hmem)
  agreeSoft name hsoft hname := h.agreeSoft name hsoft fun hmem => hname (hsub hmem)

theorem harden (h : Alike hidden soft s t) (hname : name ∉ hidden) (htrue : s.isTrue name = true) :
    Alike hidden (soft.filter (· ≠ name)) s t := by
  constructor
  · intro other hother hsoft
    by_cases heq : other = name
    · exact heq ▸ h.value_eq_of_isTrue hname htrue
    · exact h.agree other hother fun hmem => hsoft (List.mem_filter.mpr ⟨hmem, by simpa using heq⟩)
  · exact fun other hsoft => h.agreeSoft other (List.mem_of_mem_filter hsoft)

/-- Both scopes give one variable a new value. -/
theorem update (h : Alike hidden soft s t) (hsub : hidden ⊆ name :: hidden')
    (hs : ∀ other, other ≠ name → s'.lookup other = s.lookup other)
    (ht : ∀ other, other ≠ name → t'.lookup other = t.lookup other)
    (hvalue : t'.value name = s'.value name) : Alike hidden' soft s' t' := by
  have hvisible : ∀ other, other ≠ name → other ∉ hidden' → other ∉ hidden := fun other hne hout hin =>
    (List.mem_cons.mp (hsub hin)).elim hne hout
  constructor
  · intro other hout hsoft
    by_cases heq : other = name
    · exact heq ▸ hvalue
    · rw [value_congr (hs other heq), value_congr (ht other heq)]
      exact h.agree other (hvisible other heq hout) hsoft
  · intro other hsoft hout
    by_cases heq : other = name
    · exact .inl (heq ▸ hvalue)
    · have hsame := h.agreeSoft other hsoft (hvisible other heq hout)
      rwa [isTrue_eq_of_value_eq (value_congr (hs other heq)),
        isTrue_eq_of_value_eq (value_congr (ht other heq)), value_congr (hs other heq),
        value_congr (ht other heq)]

theorem set (h : Alike hidden soft s t) (hsub : hidden ⊆ name :: hidden') :
    Alike hidden' soft (s.set name xs) (t.set name xs) :=
  h.update hsub (fun _ => set_of_ne) (fun _ => set_of_ne) (value_set_self.trans value_set_self.symm)

theorem define (h : Alike hidden soft s t) (hsub : hidden ⊆ name :: hidden') :
    Alike hidden' soft (s.define name v) (t.define name v) :=
  h.update hsub (fun _ => define_of_ne) (fun _ => define_of_ne)
    ((value_eq define_self).trans (value_eq define_self).symm)

theorem unset (h : Alike hidden soft s t) (hsub : hidden ⊆ name :: hidden') :
    Alike hidden' soft (s.unset name) (t.unset name) :=
  h.update hsub (fun _ => unset_of_ne) (fun _ => unset_of_ne)
  (by rw [value, value, unset_self, unset_self])

theorem append (h : Alike hidden soft s t) (hname : name ∉ hidden) (hsoft : name ∉ soft) :
    Alike hidden soft (s.append name xs) (t.append name xs) := by
  refine h.update (List.subset_cons_self _ _) (fun _ => append_of_ne) (fun _ => append_of_ne) ?_
  have hvalue := h.agree name hname hsoft
  unfold Scope.append
  rw [hvalue]
  split
  · exact hvalue
  · split <;> exact (Scope.value_eq define_self).trans (Scope.value_eq define_self).symm

theorem foldl_append {α : Type} (h : Alike hidden soft s t) (hname : name ∉ hidden) (hsoft : name ∉ soft)
    (f : α → List Text) (xs : List α) :
    Alike hidden soft (xs.foldl (fun s x => s.append name (f x)) s)
      (xs.foldl (fun s x => s.append name (f x)) t) := by
  induction xs generalizing s t with
  | nil => exact h
  | cons x xs ih => exact ih (h.append hname hsoft)

theorem setAll (h : Alike hidden soft s t) (vs : List (String × List Text)) :
    Alike hidden soft (s.setAll vs) (t.setAll vs) := by
  induction vs generalizing s t with
  | nil => exact h
  | cons v vs ih => exact ih (h.set (List.subset_cons_self _ _))

end Alike

end Scope

/-- Both succeed with scopes alike, or both fail with one message. -/
inductive OutcomesAlike (hidden soft : List String) :
Except String Scope → Except String Scope → Prop where
  | ok {s t : Scope} (h : s.Alike hidden soft t) : OutcomesAlike hidden soft (.ok s) (.ok t)
  | error (message : String) : OutcomesAlike hidden soft (.error message) (.error message)

namespace OutcomesAlike

variable {soft' : List String} {x y : Except String Scope} {f g : Scope → Except String Scope}

theorem bind (h : OutcomesAlike hidden soft x y)
    (hnext : ∀ s t, x = .ok s → s.Alike hidden soft t → OutcomesAlike hidden' soft' (f s) (g t)) :
    OutcomesAlike hidden' soft' (x >>= f) (y >>= g) := by
  cases h with
  | ok h => exact hnext _ _ rfl h
  | error message => exact .error message

theorem map (h : OutcomesAlike hidden soft x y) {f : Scope → Scope}
    (hf : ∀ s t, s.Alike hidden soft t → (f s).Alike hidden' soft' (f t)) :
    OutcomesAlike hidden' soft' (x.map f) (y.map f) := by
  cases h with
  | ok h => exact .ok (hf _ _ h)
  | error message => exact .error message

/-- What is read off the scopes is the same. -/
theorem map_eq (h : OutcomesAlike hidden soft x y) {α : Type} {read : Scope → α}
    (hread : ∀ s t, s.Alike hidden soft t → read t = read s) : y.map read = x.map read := by
  cases h with
  | ok h => exact congrArg Except.ok (hread _ _ h)
  | error message => rfl

end OutcomesAlike

end CMake
