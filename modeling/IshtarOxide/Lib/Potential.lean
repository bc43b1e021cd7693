import IshtarOxide.Lib.Machine

/-!
# Potentials

A potential pays for the steps of a machine that count: it falls with each of
them, and only steps that raise it, by a fixed price, make up for it.

* `Potential.run`: over every run, the steps that count are paid for.
* `Potential.settles`: where steps of some kind can go down from every state that
  has potential left, they lead to one that has none.
-/

namespace Machine

variable {σ α : Type} {M : Machine σ α} {s s' : σ} {a : α}

/-- A potential for `M`, on the states of an invariant. -/
structure Potential (M : Machine σ α) (price : Nat) (counts raises : α → Bool) where
  value : σ → Nat
  Holds : σ → Prop
  init : Holds M.init
  keeps {s s' : σ} {a : α} : Holds s → M.step s a = some s' → Holds s'
  pays {s s' : σ} {a : α} : Holds s → M.step s a = some s' →
    value s' + (counts a).toNat ≤ value s + price * (raises a).toNat

namespace Potential

variable {price : Nat} {counts raises : α → Bool} (pot : M.Potential price counts raises)

theorem run {l : List α} (hs : pot.Holds s) (h : M.run s l = some s') :
    pot.Holds s' ∧ l.countP counts + pot.value s' ≤ pot.value s + price * l.countP raises := by
  induction l generalizing s with
  | nil =>
    cases h
    exact ⟨hs, by simp⟩
  | cons a l ih =>
    obtain ⟨t, ht, h⟩ := run_cons.mp h
    obtain ⟨hs', hle⟩ := ih (pot.keeps hs ht) h
    refine ⟨hs', ?_⟩
    have hpays := pot.pays hs ht
    have hcons : ∀ p : α → Bool, (a :: l).countP p = l.countP p + (p a).toNat := fun p => by
      rw [List.countP_cons]
      cases p a <;> rfl
    rw [hcons, hcons, Nat.mul_add]
    omega

variable {own : σ → α → Prop}

/-- Steps of the kind `own` lead to a state without potential. -/
theorem settles
    (hown : ∀ s, pot.Holds s → 0 < pot.value s → ∃ s', Relation.ReflTransGen (M.StepWhen own) s s' ∧
      pot.Holds s' ∧ pot.value s' < pot.value s) (hs : pot.Holds s) :
    ∃ s', Relation.ReflTransGen (M.StepWhen own) s s' ∧ pot.Holds s' ∧ pot.value s' = 0 := by
  induction hn : pot.value s using Nat.strong_induction_on generalizing s with
  | _ n ih =>
    rcases Nat.eq_zero_or_pos (pot.value s) with hzero | hpos
    · exact ⟨s, .refl, hs, hzero⟩
    · obtain ⟨t, hst, ht, hlt⟩ := hown s hs hpos
      obtain ⟨s', hts', hs', hzero⟩ := ih (pot.value t) (hn ▸ hlt) ht rfl
      exact ⟨s', hst.trans hts', hs', hzero⟩

end Potential

end Machine
