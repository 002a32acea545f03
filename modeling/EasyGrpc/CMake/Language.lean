import EasyGrpc.CMake.Lists
import Mathlib.Logic.Function.Basic

/-! Conditions, variables and keyword arguments of the CMake language. -/

namespace CMake

section Conditions

def falseNames : List Text := ["0", "N", "NO", "OFF", "FALSE", "IGNORE"].map String.toList

/-- `cmIsOff`: the value is a false constant. The names are read in any letter case. -/
def isOff (s : Text) : Bool :=
  s = [] || s.map Char.toUpper ∈ falseNames || s = "NOTFOUND".toList || "-NOTFOUND".toList.isSuffixOf s

theorem ne_nil_of_isOff_eq_false {s : Text} (h : isOff s = false) : s ≠ [] := by
  rintro rfl
  cases h

end Conditions

structure Scope where
  lookup : String → Option Text

namespace Scope

/-- `${name}`, which is empty where nothing defines the variable. -/
def value (s : Scope) (name : String) : Text := (s.lookup name).getD []

/-- `${name}` as an unquoted argument. -/
def expand (s : Scope) (name : String) : List Text := expandList false (s.value name)

def isTrue (s : Scope) (name : String) : Bool := !isOff (s.value name)

def define (s : Scope) (name : String) (v : Text) : Scope := ⟨Function.update s.lookup name (some v)⟩

/-- `unset(name)`. A cache entry of that name, which would be seen from then on, is left out. -/
def unset (s : Scope) (name : String) : Scope := ⟨Function.update s.lookup name none⟩

/-- `set(name xs...)`, which unsets the variable where no value is given. The forms with `PARENT_SCOPE` and
with `CACHE`, which values like `a.proto PARENT_SCOPE` select, are left out. -/
def set (s : Scope) (name : String) (xs : List Text) : Scope :=
  if xs = [] then s.unset name else s.define name (joinList xs)

def append (s : Scope) (name : String) (xs : List Text) : Scope :=
  if xs = [] then s
  else if s.value name = [] then s.define name (joinList xs)
  else s.define name (s.value name ++ ';' :: joinList xs)

def removeDuplicates (s : Scope) (name : String) : Scope :=
  if s.value name = [] then s else s.set name (expandList true (s.value name)).eraseDups

def setAll (s : Scope) (vs : List (String × List Text)) : Scope :=
  vs.foldl (fun s v => s.set v.1 v.2) s

variable {s : Scope} {name other : String} {v : Text} {xs ys : List Text}

@[simp] theorem define_self : (s.define name v).lookup name = some v := Function.update_self ..

@[simp] theorem define_of_ne (h : other ≠ name) : (s.define name v).lookup other = s.lookup other :=
  Function.update_of_ne h ..

@[simp] theorem unset_self : (s.unset name).lookup name = none := Function.update_self ..

@[simp] theorem unset_of_ne (h : other ≠ name) : (s.unset name).lookup other = s.lookup other :=
  Function.update_of_ne h ..

theorem set_self (h : xs ≠ []) : (s.set name xs).lookup name = some (joinList xs) := by
  rw [set, if_neg h, define_self]

@[simp] theorem set_of_ne (h : other ≠ name) : (s.set name xs).lookup other = s.lookup other := by
  unfold set
  split
  · exact unset_of_ne h
  · exact define_of_ne h

@[simp] theorem append_of_ne (h : other ≠ name) : (s.append name xs).lookup other = s.lookup other := by
  unfold append
  split
  · rfl
  · split <;> exact define_of_ne h

theorem value_eq (h : s.lookup name = some v) : s.value name = v := by
  rw [value, h]
  rfl

@[simp] theorem value_set_self : (s.set name xs).value name = joinList xs := by
  by_cases hxs : xs = []
  · rw [value, set, if_pos hxs, unset_self, hxs]
    rfl
  · exact value_eq (set_self hxs)

theorem setAll_of_notMem {vs : List (String × List Text)} (h : other ∉ vs.map Prod.fst) :
    (s.setAll vs).lookup other = s.lookup other := by
  induction vs generalizing s with
  | nil => rfl
  | cons v vs ih =>
      obtain ⟨hv, hvs⟩ := List.ne_and_not_mem_of_not_mem_cons h
      exact (ih hvs).trans (set_of_ne hv)

theorem value_setAll {vs : List (String × List Text)} (hnodup : (vs.map Prod.fst).Nodup)
    (h : (name, xs) ∈ vs) : (s.setAll vs).value name = joinList xs := by
  induction vs generalizing s with
  | nil => cases h
  | cons v vs ih =>
      obtain ⟨hv, hvs⟩ := List.nodup_cons.mp hnodup
      cases h with
      | head => rw [value, setAll, List.foldl_cons, ← setAll, setAll_of_notMem hv, ← value,
        value_set_self]
      | tail _ h => exact ih hvs h

def SameBut (ns : List String) (s t : Scope) : Prop := ∀ name, name ∉ ns → t.lookup name = s.lookup name

section Frames

variable {t u : Scope} {ns ms : List String}

theorem SameBut.refl : SameBut ns s s := fun _ _ => rfl

theorem SameBut.trans (h : SameBut ns s t) (h' : SameBut ms t u) : SameBut (ns ++ ms) s u := by
  intro name hname
  obtain ⟨hns, hms⟩ := not_or.mp (mt List.mem_append.mpr hname)
  exact (h' name hms).trans (h name hns)

theorem SameBut.mono (h : SameBut ns s t) (hsub : ns ⊆ ms) : SameBut ms s t :=
  fun name hname => h name fun hns => hname (hsub hns)

theorem SameBut.value (h : SameBut ns s t) (hname : name ∉ ns) : t.value name = s.value name := by
  rw [Scope.value, h name hname, ← Scope.value]

theorem SameBut.isTrue (h : SameBut ns s t) (hname : name ∉ ns) : t.isTrue name = s.isTrue name := by
  rw [Scope.isTrue, h.value hname, ← Scope.isTrue]

theorem sameBut_set : SameBut [name] s (s.set name xs) :=
  fun _ hother => set_of_ne (List.ne_of_not_mem_cons hother)

theorem sameBut_define : SameBut [name] s (s.define name v) :=
  fun _ hother => define_of_ne (List.ne_of_not_mem_cons hother)

theorem sameBut_append : SameBut [name] s (s.append name xs) :=
  fun _ hother => append_of_ne (List.ne_of_not_mem_cons hother)

theorem sameBut_setAll {vs : List (String × List Text)} : SameBut (vs.map Prod.fst) s (s.setAll vs) :=
  fun _ hother => setAll_of_notMem hother

end Frames

/-- Appending joins the lists. -/
theorem value_append_self (h : s.value name = joinList xs) (hne : xs ≠ [] → joinList xs ≠ []) :
    (s.append name ys).value name = joinList (xs ++ ys) := by
  unfold append
  by_cases hys : ys = []
  · rw [if_pos hys, hys, List.append_nil, h]
  · rw [if_neg hys, h]
    by_cases hxs : xs = []
    · rw [if_pos (by rw [hxs]; rfl), value_eq define_self, hxs, List.nil_append]
    · rw [if_neg (hne hxs), value_eq define_self, joinList_append hxs hys]

theorem value_append_singleton (s : Scope) (name : String) (v : Text) :
    (s.append name [v]).value name = appendText (s.value name) v := by
  rw [append, if_neg (List.cons_ne_nil _ _), joinList_singleton]
  unfold appendText
  split <;> exact value_eq define_self

structure Lengthened (s : Scope) (name : String) (t : Scope) (xs : List Text) : Prop where
  sameBut : SameBut [name] s t
  value : t.value name = xs.foldl appendText (s.value name)

namespace Lengthened

variable {t : Scope}

theorem refl : s.Lengthened name s [] := ⟨SameBut.refl, rfl⟩

theorem congr (h : s.Lengthened name t xs) (hxs : xs = ys) : s.Lengthened name t ys := hxs ▸ h

theorem append (h : s.Lengthened name t xs) (v : Text) :
    s.Lengthened name (t.append name [v]) (xs ++ [v]) where
  sameBut := (h.sameBut.trans sameBut_append).mono (by simp)
  value := by
    rw [List.foldl_append, ← h.value, value_append_singleton]
    rfl

end Lengthened

end Scope

section Keywords

inductive Pending where
  | none
  | oneValue (keyword : Text)
  | multiValue (keyword : Text)

structure ParsedArguments where
  options : List Text := []
  oneValue : Text → Option Text := fun _ => none
  multiValue : Text → List Text := fun _ => []
  unparsed : List Text := []

/-- The parse of `cmake_parse_arguments`. A keyword ends the values of the keyword before it, and of
several values of a one-value keyword the last counts. -/
def parseArguments (options oneValue multiValue : List Text) : Pending → List Text → ParsedArguments
  | _, [] => {}
  | pending, arg :: args =>
      if arg ∈ options then
        let rest := parseArguments options oneValue multiValue .none args
        { rest with options := arg :: rest.options }
      else if arg ∈ oneValue then parseArguments options oneValue multiValue (.oneValue arg) args
      else if arg ∈ multiValue then parseArguments options oneValue multiValue (.multiValue arg) args
      else match pending with
        | .none =>
            let rest := parseArguments options oneValue multiValue .none args
            { rest with unparsed := arg :: rest.unparsed }
        | .oneValue keyword =>
            let rest := parseArguments options oneValue multiValue .none args
            let last := (rest.oneValue keyword).getD arg
            { rest with oneValue := Function.update rest.oneValue keyword (some last) }
        | .multiValue keyword =>
            let rest := parseArguments options oneValue multiValue (.multiValue keyword) args
            let values := arg :: rest.multiValue keyword
            { rest with multiValue := Function.update rest.multiValue keyword values }

def ParsedArguments.variables (p : ParsedArguments) (pre : String)
    (options oneValue multiValue : List String) : List (String × List Text) :=
  options.map (fun o =>
      (pre ++ "_" ++ o, [(if o.toList ∈ p.options then "TRUE" else "FALSE").toList])) ++
    oneValue.map (fun o => (pre ++ "_" ++ o, (p.oneValue o.toList).toList)) ++
    multiValue.map (fun m => (pre ++ "_" ++ m, p.multiValue m.toList))

variable {options oneValue multiValue : List Text}

structure ParsedArguments.From (p : ParsedArguments) (args : List Text) : Prop where
  oneValue : ∀ {keyword x}, p.oneValue keyword = some x → x ∈ args
  multiValue : ∀ {keyword x}, x ∈ p.multiValue keyword → x ∈ args

theorem ParsedArguments.From.cons {p : ParsedArguments} {args : List Text} (h : p.From args) (arg : Text) :
    p.From (arg :: args) where
  oneValue hx := List.mem_cons_of_mem _ (h.oneValue hx)
  multiValue hx := List.mem_cons_of_mem _ (h.multiValue hx)

theorem parseArguments_from (pending : Pending) (args : List Text) :
    (parseArguments options oneValue multiValue pending args).From args := by
  fun_induction parseArguments options oneValue multiValue pending args with
  | case1 =>
      constructor
      · intro keyword x hx
        cases hx
      · intro keyword x hx
        cases hx
  | case2 pending arg args _ rest ih => exact ⟨(ih.cons arg).oneValue, (ih.cons arg).multiValue⟩
  | case3 pending arg args _ _ ih => exact ih.cons arg
  | case4 pending arg args _ _ _ ih => exact ih.cons arg
  | case5 arg args _ _ _ rest ih => exact ⟨(ih.cons arg).oneValue, (ih.cons arg).multiValue⟩
  | case6 arg args _ _ _ k rest last ih =>
      refine ⟨fun {keyword x} hx => ?_, (ih.cons arg).multiValue⟩
      change Function.update rest.oneValue k (some last) keyword = some x at hx
      by_cases hk : keyword = k
      · subst hk
        rw [Function.update_self] at hx
        have hlast : (rest.oneValue keyword).getD arg = x := Option.some.inj hx
        cases hrest : rest.oneValue keyword with
        | none =>
            rw [hrest] at hlast
            exact hlast ▸ List.mem_cons_self
        | some y =>
            rw [hrest] at hlast
            obtain rfl : y = x := hlast
            exact (ih.cons arg).oneValue hrest
      · rw [Function.update_of_ne hk] at hx
        exact (ih.cons arg).oneValue hx
  | case7 arg args _ _ _ k rest values ih =>
      refine ⟨(ih.cons arg).oneValue, fun {keyword x} hx => ?_⟩
      change x ∈ Function.update rest.multiValue k values keyword at hx
      by_cases hk : keyword = k
      · subst hk
        rw [Function.update_self] at hx
        rcases List.mem_cons.mp hx with rfl | hx
        · exact List.mem_cons_self
        · exact (ih.cons arg).multiValue hx
      · rw [Function.update_of_ne hk] at hx
        exact (ih.cons arg).multiValue hx

/-- A keyword with its value. -/
theorem parseArguments_oneValue (pending : Pending) {keyword v : Text} {args : List Text}
    (hkeyword : keyword ∈ oneValue) (hoption : keyword ∉ options)
    (hv : v ∉ options ∧ v ∉ oneValue ∧ v ∉ multiValue) :
    parseArguments options oneValue multiValue pending (keyword :: v :: args) =
      let rest := parseArguments options oneValue multiValue .none args
      { rest with
        oneValue := Function.update rest.oneValue keyword (some ((rest.oneValue keyword).getD v)) } := by
  cases pending <;>
    simp only [parseArguments, hkeyword, hoption, hv.1, hv.2.1, hv.2.2, if_true, if_false]

/-- Keywords that are not among the arguments make no difference. -/
theorem parseArguments_congr {oneValue' multiValue' : List Text} (pending : Pending) {args : List Text}
    (hone : ∀ x ∈ args, x ∈ oneValue ↔ x ∈ oneValue') (hmulti : ∀ x ∈ args, x ∈ multiValue ↔ x ∈ multiValue') :
    parseArguments options oneValue multiValue pending args =
      parseArguments options oneValue' multiValue' pending args := by
  induction args generalizing pending with
  | nil => rfl
  | cons arg args ih =>
      have ih' := fun pending => ih pending (fun x hx => hone x (List.mem_cons_of_mem _ hx))
        (fun x hx => hmulti x (List.mem_cons_of_mem _ hx))
      cases pending <;>
        simp only [parseArguments, ih', hone arg List.mem_cons_self, hmulti arg List.mem_cons_self]

theorem parseArguments_oneValue_eq_none {keyword : Text} (pending : Pending) {args : List Text}
    (hpending : ∀ k, pending = .oneValue k → k ≠ keyword) (hkeyword : keyword ∉ args) :
    (parseArguments options oneValue multiValue pending args).oneValue keyword = none := by
  fun_induction parseArguments options oneValue multiValue pending args with
  | case1 => rfl
  | case2 pending arg args _ rest ih => exact ih nofun (List.not_mem_of_not_mem_cons hkeyword)
  | case3 pending arg args _ _ ih =>
      refine ih (fun k hk => ?_) (List.not_mem_of_not_mem_cons hkeyword)
      obtain rfl := Pending.oneValue.inj hk
      exact (List.ne_of_not_mem_cons hkeyword).symm
  | case4 pending arg args _ _ _ ih => exact ih nofun (List.not_mem_of_not_mem_cons hkeyword)
  | case5 arg args _ _ _ rest ih => exact ih nofun (List.not_mem_of_not_mem_cons hkeyword)
  | case6 arg args _ _ _ k rest last ih =>
      change Function.update rest.oneValue k (some last) keyword = none
      rw [Function.update_of_ne (hpending k rfl).symm]
      exact ih nofun (List.not_mem_of_not_mem_cons hkeyword)
  | case7 arg args _ _ _ k rest values ih => exact ih nofun (List.not_mem_of_not_mem_cons hkeyword)

end Keywords

end CMake
