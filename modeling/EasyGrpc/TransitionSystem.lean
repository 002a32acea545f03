import Mathlib.Algebra.GroupWithZero.Nat
import Mathlib.Logic.Function.Basic

/-!
# Transition systems with partial steps

A program run by several threads is a state together with a partial step function: an event names
which thread moves and what its environment answers, and the step is undefined where the event
cannot happen. Two kinds of statement are made about such a system. An invariant holds in every
reachable state. A property that some steps break is compared with a condition on steps instead:
along every run the property holds after each step exactly when each step meets the condition.
-/

namespace EasyGrpc

universe u v

/-- States, the initial ones, and the state an event leads to, if the event can happen. -/
structure TransitionSystem (σ : Type u) (ℓ : Type v) where
  init : σ → Prop
  step : σ → ℓ → Option σ

namespace TransitionSystem

variable {σ : Type u} {ℓ : Type v} (sys : TransitionSystem σ ℓ)

/-- The states reached by runs whose every step meets `allowed`. -/
inductive ReachableBy (allowed : σ → ℓ → Prop) : σ → Prop where
  | init {s : σ} : sys.init s → ReachableBy allowed s
  | step {s t : σ} {l : ℓ} :
      ReachableBy allowed s → allowed s l → sys.step s l = some t → ReachableBy allowed t

abbrev Reachable : σ → Prop := sys.ReachableBy fun _ _ => True

def run : σ → List ℓ → Option σ
  | s, [] => some s
  | s, l :: ls => (sys.step s l).bind fun t => run t ls

/-- Every step of the run meets `Q`, read on the state before, the event and the state after. The
run ends at the first event that cannot happen. -/
def AllSteps (Q : σ → ℓ → σ → Prop) : σ → List ℓ → Prop
  | _, [] => True
  | s, l :: ls => ∀ t, sys.step s l = some t → Q s l t ∧ AllSteps Q t ls

variable {sys}

/-- **Invariants.** What holds initially and is kept by every allowed step holds wherever allowed
steps lead. -/
theorem ReachableBy.invariant {allowed : σ → ℓ → Prop} {I : σ → Prop}
    (hinit : ∀ s, sys.init s → I s)
    (hstep : ∀ s l t, I s → allowed s l → sys.step s l = some t → I t)
    {s : σ} (hs : sys.ReachableBy allowed s) : I s := by
  induction hs with
  | init h => exact hinit _ h
  | step _ hallowed hst ih => exact hstep _ _ _ ih hallowed hst

theorem ReachableBy.mono {allowed allowed' : σ → ℓ → Prop}
    (himp : ∀ s l, allowed s l → allowed' s l) {s : σ} (hs : sys.ReachableBy allowed s) :
    sys.ReachableBy allowed' s := by
  induction hs with
  | init h => exact .init h
  | step _ hallowed hst ih => exact .step ih (himp _ _ hallowed) hst

theorem ReachableBy.reachable {allowed : σ → ℓ → Prop} {s : σ}
    (hs : sys.ReachableBy allowed s) : sys.Reachable s :=
  hs.mono fun _ _ _ => trivial

/-- **Simulation.** Where every step is, seen through `proj` and under an invariant that it keeps, a
step of another system or none, so is every run. -/
theorem Reachable.simulates {σ' : Type u} {ℓ' : Type v} {sys' : TransitionSystem σ' ℓ'} {I : σ → Prop}
    (proj : σ → σ') (hinit : ∀ s, sys.init s → I s ∧ sys'.init (proj s))
    (hstep : ∀ s l t, I s → sys.step s l = some t →
      I t ∧ (proj t = proj s ∨ ∃ l', sys'.step (proj s) l' = some (proj t)))
    {s : σ} (hs : sys.Reachable s) : I s ∧ sys'.Reachable (proj s) := by
  refine hs.invariant (I := fun s => I s ∧ sys'.Reachable (proj s)) ?_ ?_
  · exact fun s h => ⟨(hinit s h).1, .init (hinit s h).2⟩
  · rintro s l t ⟨hI, hr⟩ - hst
    obtain ⟨hI', hsame | ⟨l', hl'⟩⟩ := hstep s l t hI hst
    · exact ⟨hI', hsame ▸ hr⟩
    · exact ⟨hI', .step hr trivial hl'⟩

/-- **Projection.** Where every step is, seen through `proj`, a step of another system or none, so is
every run. -/
theorem Reachable.project {σ' : Type u} {ℓ' : Type v} {sys' : TransitionSystem σ' ℓ'} (proj : σ → σ')
    (hinit : ∀ s, sys.init s → sys'.init (proj s))
    (hstep : ∀ s l t, sys.step s l = some t →
      proj t = proj s ∨ ∃ l', sys'.step (proj s) l' = some (proj t))
    {s : σ} (hs : sys.Reachable s) : sys'.Reachable (proj s) :=
  (hs.simulates (I := fun _ => True) proj (fun s h => ⟨trivial, hinit s h⟩)
    fun s l t _ hst => ⟨trivial, hstep s l t hst⟩).2

/-- In a family of systems of which one moves, each makes a step or stays. -/
theorem step_update {ι : Type*} [DecidableEq ι] {f : ι → σ} {i j : ι} {t : σ} {l : ℓ}
    (hst : sys.step (f j) l = some t) :
    Function.update f j t i = f i ∨ ∃ l', sys.step (f i) l' = some (Function.update f j t i) := by
  by_cases hi : i = j
  · subst hi
    rw [Function.update_self]
    exact .inr ⟨l, hst⟩
  · exact .inl (Function.update_of_ne hi t f)

theorem run_cons_eq_some {s t : σ} {l : ℓ} {ls : List ℓ} :
    sys.run s (l :: ls) = some t ↔ ∃ m, sys.step s l = some m ∧ sys.run m ls = some t :=
  Option.bind_eq_some_iff

theorem allSteps_of_forall {Q : σ → ℓ → σ → Prop} {ls : List ℓ}
    (h : ∀ l ∈ ls, ∀ s t, sys.step s l = some t → Q s l t) (s : σ) : sys.AllSteps Q s ls := by
  induction ls generalizing s with
  | nil => trivial
  | cons l ls ih =>
      rw [List.forall_mem_cons] at h
      exact fun t hst => ⟨h.1 s t hst, ih h.2 t⟩

/-- A run whose steps meet `Q` keeps what such steps keep. -/
theorem AllSteps.run_invariant {I : σ → Prop} {Q : σ → ℓ → σ → Prop}
    (hinv : ∀ s l t, I s → sys.step s l = some t → Q s l t → I t) {s t : σ} {ls : List ℓ}
    (hs : I s) (h : sys.AllSteps Q s ls) (hrun : sys.run s ls = some t) : I t := by
  induction ls generalizing s with
  | nil => exact Option.some.inj hrun ▸ hs
  | cons l ls ih =>
      obtain ⟨m, hm, hrest⟩ := run_cons_eq_some.mp hrun
      exact ih (hinv _ _ _ hs hm (h m hm).1) (h m hm).2 hrest

/-- A run of any length keeps what each of its steps keeps. -/
theorem run_invariant {I : σ → Prop} (hstep : ∀ s l t, I s → sys.step s l = some t → I t)
    {s t : σ} {ls : List ℓ} (hs : I s) (hrun : sys.run s ls = some t) : I t := by
  refine AllSteps.run_invariant (Q := fun _ _ _ => True) ?_ hs ?_ hrun
  · exact fun s l t h hst _ => hstep s l t h hst
  · exact allSteps_of_forall (fun _ _ _ _ _ => trivial) s

theorem reachableBy_of_run {allowed : σ → ℓ → Prop} {s t : σ} (ls : List ℓ)
    (hallowed : ∀ l ∈ ls, ∀ u, allowed u l) (hs : sys.ReachableBy allowed s)
    (hrun : sys.run s ls = some t) : sys.ReachableBy allowed t := by
  refine AllSteps.run_invariant (Q := fun u l _ => allowed u l) ?_ hs ?_ hrun
  · exact fun u l v h hst hl => h.step hl hst
  · exact allSteps_of_forall (fun l hl u _ _ => hallowed l hl u) s

theorem reachable_of_run {s t : σ} (ls : List ℓ) (hs : sys.Reachable s)
    (hrun : sys.run s ls = some t) : sys.Reachable t :=
  reachableBy_of_run ls (fun _ _ _ => trivial) hs hrun

theorem run_append (s : σ) (ls ms : List ℓ) :
    sys.run s (ls ++ ms) = (sys.run s ls).bind fun t => sys.run t ms := by
  induction ls generalizing s with
  | nil => rfl
  | cons l ls ih =>
      simp only [List.cons_append, run, Option.bind_assoc]
      congr 1
      funext t
      exact ih t

theorem run_concat_eq_some {s t : σ} {ls : List ℓ} {l : ℓ} (h : sys.run s (ls ++ [l]) = some t) :
    ∃ m, sys.run s ls = some m ∧ sys.step m l = some t := by
  rw [run_append, Option.bind_eq_some_iff] at h
  obtain ⟨m, hm, hlast⟩ := h
  simp only [run, Option.bind_fun_some] at hlast
  exact ⟨m, hm, hlast⟩

/-- Along a run, an invariant of the steps that meet `Q` lets `Q` be traded for `C`: the two are
compared one step at a time, and only where the run has met `Q` so far. -/
theorem allSteps_congr {I : σ → Prop} {Q C : σ → ℓ → σ → Prop}
    (hiff : ∀ s l t, I s → sys.step s l = some t → (Q s l t ↔ C s l t))
    (hinv : ∀ s l t, I s → sys.step s l = some t → Q s l t → I t)
    {s : σ} (hs : I s) (ls : List ℓ) : sys.AllSteps Q s ls ↔ sys.AllSteps C s ls := by
  induction ls generalizing s with
  | nil => exact Iff.rfl
  | cons l ls ih =>
      simp only [AllSteps]
      refine forall₂_congr fun t hst => ?_
      constructor
      · rintro ⟨hq, hrest⟩
        exact ⟨(hiff s l t hs hst).mp hq, (ih (hinv s l t hs hst hq)).mp hrest⟩
      · rintro ⟨hc, hrest⟩
        have hq : Q s l t := (hiff s l t hs hst).mpr hc
        exact ⟨hq, (ih (hinv s l t hs hst hq)).mpr hrest⟩

/-- A property that a step keeps exactly when it meets `C`, and that once lost is not regained, holds
at the end of a run exactly when it holds at the start and every step meets `C`. -/
theorem run_iff_allSteps {I P : σ → Prop} {C : σ → ℓ → σ → Prop}
    (hinv : ∀ s l t, I s → sys.step s l = some t → I t)
    (hiff : ∀ s l t, I s → sys.step s l = some t → (P t ↔ P s ∧ C s l t))
    {s t : σ} {ls : List ℓ} (hs : I s) (hrun : sys.run s ls = some t) :
    P t ↔ P s ∧ sys.AllSteps C s ls := by
  induction ls generalizing s with
  | nil =>
      obtain rfl := Option.some.inj hrun
      exact ⟨fun h => ⟨h, trivial⟩, fun h => h.1⟩
  | cons l ls ih =>
      obtain ⟨m, hm, hrest⟩ := run_cons_eq_some.mp hrun
      have hlast := ih (hinv _ _ _ hs hm) hrest
      rw [hlast, hiff _ _ _ hs hm, and_assoc]
      refine and_congr_right fun _ => ?_
      constructor
      · rintro ⟨hc, hall⟩ u hu
        obtain rfl := Option.some.inj (hm.symm.trans hu)
        exact ⟨hc, hall⟩
      · exact fun hall => hall m hm

/-- A property that steps meeting `C` have where an invariant of these steps holds. -/
theorem AllSteps.imp {I : σ → Prop} {Q C : σ → ℓ → σ → Prop}
    (himp : ∀ s l t, I s → sys.step s l = some t → C s l t → Q s l t)
    (hinv : ∀ s l t, I s → sys.step s l = some t → C s l t → I t)
    {s : σ} {ls : List ℓ} (hs : I s) (h : sys.AllSteps C s ls) : sys.AllSteps Q s ls := by
  induction ls generalizing s with
  | nil => trivial
  | cons l ls ih =>
      intro t hst
      obtain ⟨hc, hrest⟩ := h t hst
      exact ⟨himp s l t hs hst hc, ih (hinv s l t hs hst hc) hrest⟩

/-- What holds of all steps of a run holds of its last. -/
theorem AllSteps.last {Q : σ → ℓ → σ → Prop} {s t u : σ} {ls : List ℓ} {l : ℓ}
    (h : sys.AllSteps Q s (ls ++ [l])) (hrun : sys.run s ls = some t) (hst : sys.step t l = some u) :
    Q t l u := by
  induction ls generalizing s with
  | nil =>
      obtain rfl := Option.some.inj hrun
      exact (h u hst).1
  | cons k ks ih =>
      obtain ⟨m, hm, hrest⟩ := run_cons_eq_some.mp hrun
      exact ih (h m hm).2 hrest

/-- **Costs.** Where each step that meets `Q` pays its cost out of `measure`, a run of such steps costs
no more than the measure it starts with. -/
theorem AllSteps.cost_le {I : σ → Prop} {Q : σ → ℓ → σ → Prop} (measure : σ → Nat) (cost : ℓ → Nat)
    (hinv : ∀ s l t, I s → sys.step s l = some t → Q s l t → I t)
    (hpay : ∀ s l t, I s → sys.step s l = some t → Q s l t → measure t + cost l ≤ measure s)
    {s t : σ} {ls : List ℓ} (hs : I s) (h : sys.AllSteps Q s ls) (hrun : sys.run s ls = some t) :
    measure t + (ls.map cost).sum ≤ measure s := by
  induction ls generalizing s with
  | nil => exact Option.some.inj hrun ▸ Nat.le_refl _
  | cons l ls ih =>
      obtain ⟨m, hm, hrest⟩ := run_cons_eq_some.mp hrun
      have hfirst := hpay s l m hs hm (h m hm).1
      have hlater := ih (hinv s l m hs hm (h m hm).1) (h m hm).2 hrest
      rw [List.map_cons, List.sum_cons]
      omega

/-- **Charges.** Where each step is paid for by the measure and by what is charged for the step, a run has no
more steps than the measure it starts with and its charges together. -/
theorem length_le_of_charges {I : σ → Prop} (measure : σ → Nat) (charge : ℓ → Nat)
    (hinv : ∀ s l t, I s → sys.step s l = some t → I t)
    (hpay : ∀ s l t, I s → sys.step s l = some t → measure t + 1 ≤ measure s + charge l)
    {s t : σ} {ls : List ℓ} (hs : I s) (hrun : sys.run s ls = some t) :
    measure t + ls.length ≤ measure s + (ls.map charge).sum := by
  induction ls generalizing s with
  | nil => exact Option.some.inj hrun ▸ Nat.le_refl _
  | cons l ls ih =>
      obtain ⟨m, hm, hrest⟩ := run_cons_eq_some.mp hrun
      have hfirst := hpay s l m hs hm
      have hlater := ih (hinv s l m hs hm) hrest
      rw [List.map_cons, List.sum_cons, List.length_cons]
      omega

/-- **Descent.** Where `P` fails a step that meets `Q` is possible and lowers the measure, so a run of
such steps leads to `P`. -/
theorem exists_run_of_descent {I P : σ → Prop} {Q : σ → ℓ → σ → Prop} (measure : σ → Nat)
    (hdescend : ∀ s, I s → ¬ P s → ∃ l t, sys.step s l = some t ∧ Q s l t ∧ I t ∧ measure t < measure s)
    {s : σ} (hs : I s) : ∃ ls t, sys.run s ls = some t ∧ sys.AllSteps Q s ls ∧ P t := by
  induction hn : measure s using Nat.strongRecOn generalizing s with
  | _ n ih =>
      by_cases hP : P s
      · exact ⟨[], s, rfl, trivial, hP⟩
      · obtain ⟨l, m, hm, hQ, hI, hlt⟩ := hdescend s hs hP
        obtain ⟨ls, t, hrun, hall, ht⟩ := ih (measure m) (hn ▸ hlt) hI rfl
        refine ⟨l :: ls, t, run_cons_eq_some.mpr ⟨m, hm, hrun⟩, fun u hu => ?_, ht⟩
        obtain rfl := Option.some.inj (hm.symm.trans hu)
        exact ⟨hQ, hall⟩

/-- From `s`, runs of allowed steps end within `bound` steps, and they end at rest: elsewhere some
internal step is possible. -/
structure Quiesces (sys : TransitionSystem σ ℓ) (allowed internal : σ → ℓ → Prop) (bound : Nat)
    (Rest : σ → Prop) (s : σ) : Prop where
  bounded : ∀ ls t, sys.run s ls = some t → sys.AllSteps (fun u l _ => allowed u l) s ls →
    ls.length ≤ bound
  rests : ∀ ls t, sys.run s ls = some t → sys.AllSteps (fun u l _ => allowed u l) s ls →
    (∀ l, internal t l → sys.step t l = none) → Rest t

/-- **Quiescence.** A measure that every allowed step lowers bounds all runs of them. -/
theorem quiesces_of_descent {I Rest : σ → Prop} {allowed internal : σ → ℓ → Prop} (measure : σ → Nat)
    (hstep : ∀ s l t, I s → allowed s l → sys.step s l = some t → I t ∧ measure t < measure s)
    (hrest : ∀ s, I s → (∀ l, internal s l → sys.step s l = none) → Rest s) {s : σ} (hs : I s) :
    sys.Quiesces allowed internal (measure s) Rest s := by
  have hinv : ∀ s l t, I s → sys.step s l = some t → allowed s l → I t :=
    fun s l t h hst hl => (hstep s l t h hl hst).1
  constructor
  · intro ls t hrun hall
    have hcost : measure t + (ls.map fun _ => 1).sum ≤ measure s := by
      refine AllSteps.cost_le measure (fun _ => 1) hinv ?_ hs hall hrun
      exact fun s l t h hst hl => (hstep s l t h hl hst).2
    rw [List.map_const', List.sum_replicate_nat, Nat.mul_one] at hcost
    omega
  · exact fun ls t hrun hall => hrest t (AllSteps.run_invariant hinv hs hall hrun)

def logged {α : Type u} (sys : TransitionSystem σ ℓ) (record : σ → ℓ → List α) :
    TransitionSystem (σ × List α) ℓ where
  init s := sys.init s.1 ∧ s.2 = []
  step s l := (sys.step s.1 l).map fun t => (t, s.2 ++ record s.1 l)

theorem logged_step_eq_some_iff {α : Type u} {record : σ → ℓ → List α} {s t : σ × List α} {l : ℓ} :
    (sys.logged record).step s l = some t ↔
      sys.step s.1 l = some t.1 ∧ t.2 = s.2 ++ record s.1 l := by
  obtain ⟨t, log⟩ := t
  simp only [logged, Option.map_eq_some_iff, Prod.mk.injEq]
  constructor
  · rintro ⟨t', hst, rfl, rfl⟩
    exact ⟨hst, rfl⟩
  · rintro ⟨hst, rfl⟩
    exact ⟨t, hst, rfl, rfl⟩

end TransitionSystem

end EasyGrpc
