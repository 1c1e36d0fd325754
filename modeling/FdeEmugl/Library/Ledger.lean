import Mathlib.Data.List.Count
import Mathlib.Data.List.Range
import Mathlib.Data.List.Perm.Basic

/-!
# Resources that are held once or were given back once

Resources are numbered as they are given out. The account is exact if every one of them is held in one place and
was never given back, or is held nowhere and was given back once. A move gives something back, or takes a new
resource and may drop others that were held in its place; those are lost, and stay so.
-/

namespace FdeEmugl

/-- Who holds what, what was given back, and how many resources there have been. -/
structure Account where
  held : List ℕ
  released : List ℕ
  given : ℕ

namespace Account

variable {account next : Account} {dropped : List ℕ}

/-- Each resource is in one of the two lists, once. -/
def Exact (account : Account) : Prop := (account.held ++ account.released).Perm (List.range account.given)

def Lost (account : Account) : Prop :=
  ∃ resource < account.given, resource ∉ account.held ∧ resource ∉ account.released

theorem Exact.count_eq_one (h : account.Exact) {resource : ℕ} (hlt : resource < account.given) :
    account.held.count resource + account.released.count resource = 1 := by
  rw [← List.count_append, h.count_eq, List.count_range, if_pos hlt]

theorem Lost.count_eq_zero (h : account.Lost) :
    ∃ resource < account.given, account.held.count resource + account.released.count resource = 0 := by
  obtain ⟨resource, hlt, hheld, hreleased⟩ := h
  refine ⟨resource, hlt, ?_⟩
  rw [List.count_eq_zero_of_not_mem hheld, List.count_eq_zero_of_not_mem hreleased]

/-- What a step does to the account, with what it drops without giving it back. -/
inductive Moves (account next : Account) : List ℕ → Prop
  | release (back : List ℕ) (hheld : account.held.Perm (back ++ next.held))
    (hreleased : next.released = account.released ++ back) (hgiven : next.given = account.given) :
    Moves account next []
  | take (dropped rest : List ℕ) (hheld : account.held.Perm (dropped ++ rest))
    (hnext : next.held = account.given :: rest) (hreleased : next.released = account.released)
    (hgiven : next.given = account.given + 1) : Moves account next dropped

namespace Moves

theorem refl (account : Account) : Moves account account [] := .release [] (.refl _) (List.append_nil _).symm rfl

/-- A step that drops nothing keeps the account exact. -/
theorem exact (h : Moves account next []) (hexact : account.Exact) : next.Exact := by
  cases h with
  | release back hheld hreleased hgiven =>
    rw [Exact, hgiven, hreleased]
    refine List.Perm.trans ?_ hexact
    have hback : (account.released ++ back).Perm (back ++ account.released) := List.perm_append_comm
    refine (hback.append_left next.held).trans ?_
    rw [← List.append_assoc]
    exact (List.perm_append_comm.append_right _).trans (hheld.symm.append_right _)
  | take _ rest hheld hnext hreleased hgiven =>
    rw [Exact, hgiven, hreleased, hnext, List.range_succ]
    have hrest := (hheld.symm.append_right account.released).trans hexact
    exact (hrest.cons account.given).trans (List.perm_append_singleton _ _).symm

/-- What is dropped is lost. -/
theorem lost_of_mem (h : Moves account next dropped) (hexact : account.Exact) {resource : ℕ}
    (hmem : resource ∈ dropped) : next.Lost := by
  cases h with
  | release => cases hmem
  | take _ rest hheld hnext hreleased hgiven =>
    have hperm := (hheld.symm.append_right account.released).trans hexact
    rw [List.append_assoc] at hperm
    have hlt : resource < account.given := List.mem_range.mp (hperm.subset (List.mem_append_left _ hmem))
    have hdisjoint := (List.nodup_append.mp (hperm.nodup_iff.mpr List.nodup_range)).2.2
    refine ⟨resource, by omega, ?_, ?_⟩
    · rw [hnext, List.mem_cons, not_or]
      exact ⟨hlt.ne, fun hrest ↦ hdisjoint _ hmem _ (List.mem_append_left _ hrest) rfl⟩
    · rw [hreleased]
      exact fun hold ↦ hdisjoint _ hmem _ (List.mem_append_right _ hold) rfl

/-- What is lost stays lost. -/
theorem lost (h : Moves account next dropped) (hlost : account.Lost) : next.Lost := by
  obtain ⟨resource, hlt, hnotHeld, hnotReleased⟩ := hlost
  cases h with
  | release back hheld hreleased hgiven =>
    refine ⟨resource, hgiven ▸ hlt, fun hmem ↦ ?_, fun hmem ↦ ?_⟩
    · exact hnotHeld (hheld.symm.subset (List.mem_append_right _ hmem))
    · rw [hreleased] at hmem
      exact (List.mem_append.mp hmem).elim hnotReleased fun hback ↦
        hnotHeld (hheld.symm.subset (List.mem_append_left _ hback))
  | take _ rest hheld hnext hreleased hgiven =>
    refine ⟨resource, by omega, fun hmem ↦ ?_, hreleased ▸ hnotReleased⟩
    rw [hnext] at hmem
    exact (List.mem_cons.mp hmem).elim hlt.ne fun hrest ↦
      hnotHeld (hheld.symm.subset (List.mem_append_right _ hrest))

end Moves

end Account

end FdeEmugl
