import Mathlib.Data.List.Nodup
import Mathlib.Data.List.Perm.Basic

/-!
# Outstanding operations and what they hold

A completion queue holds the tags of the operations that were started and have not completed. They
come back in any order, each once: the environment names one that is in the list, and it is taken
out. A tag taken out leaves the list as it was, up to order.

Operations hold cells of a heap and pass them on. A ledger says that every cell allocated so far has
one holder or was freed once, and never both.
-/

namespace EasyGrpc

universe u

variable {α : Type u}

theorem perm_cons_eraseP_of_find? {p : α → Bool} {l : List α} {a : α} (h : l.find? p = some a) :
    l.Perm (a :: l.eraseP p) := by
  obtain ⟨hp, before, after, rfl, hbefore⟩ := List.find?_eq_some_iff_append.mp h
  have herase : (before ++ a :: after).eraseP p = before ++ after := by
    rw [List.eraseP_append_right _ (by simpa using hbefore), List.eraseP_cons_of_pos hp]
  rw [herase]
  exact List.perm_middle

/-- The cells below `next` are those in `held` and those in `freed`, each in one place. -/
def Ledger (held freed : List Nat) (next : Nat) : Prop :=
  (held ++ freed).Perm (List.range next)

namespace Ledger

variable {held held' freed : List Nat} {next c : Nat}

theorem empty : Ledger [] [] 0 := List.Perm.refl _

theorem of_perm (h : Ledger held freed next) (hperm : held.Perm held') :
    Ledger held' freed next :=
  (hperm.symm.append_right freed).trans h

theorem alloc (h : Ledger held freed next) : Ledger (held ++ [next]) freed (next + 1) := by
  unfold Ledger at *
  rw [List.range_succ, List.append_assoc]
  calc
    (held ++ ([next] ++ freed)).Perm (held ++ (freed ++ [next])) :=
      List.perm_append_comm.append_left held
    _ = (held ++ freed) ++ [next] := (List.append_assoc _ _ _).symm
    List.Perm _ (List.range next ++ [next]) := h.append_right [next]

theorem free (h : Ledger (c :: held) freed next) : Ledger held (freed ++ [c]) next := by
  unfold Ledger at *
  rw [← List.append_assoc]
  exact (List.perm_append_singleton c (held ++ freed)).trans h

theorem nodup (h : Ledger held freed next) : (held ++ freed).Nodup :=
  h.nodup_iff.mpr List.nodup_range

theorem held_nodup (h : Ledger held freed next) : held.Nodup :=
  h.nodup.of_append_left

theorem freed_nodup (h : Ledger held freed next) : freed.Nodup :=
  h.nodup.of_append_right

theorem not_mem_freed (h : Ledger held freed next) (hc : c ∈ held) : c ∉ freed := fun hfreed =>
  (List.nodup_append.mp h.nodup).2.2 c hc c hfreed rfl

theorem mem_held_or_freed (h : Ledger held freed next) : c < next ↔ c ∈ held ∨ c ∈ freed := by
  rw [← List.mem_append, h.mem_iff, List.mem_range]

theorem balance (h : Ledger held freed next) : next = freed.length + held.length := by
  have hlength := h.length_eq
  rw [List.length_append, List.length_range] at hlength
  omega

end Ledger

end EasyGrpc
