import Mathlib.Data.List.Induction
import HotplugDetect.Proofs.Watch.Effect

/-! # Runs and their trails

The trail of a run lists every action together with the state in which it happens. What a run did
last is found by going back on its trail.
-/

namespace HotplugDetect

def Action.boot : List Action := .start :: Job.all.map (.move · true)

def Action.serve (j : Job) : List Action := List.replicate 6 (.move j true)

def Action.storm (p : Pin) : List Action :=
  List.replicate 6 (.interrupt ⟨.ofList [p], .ofList [p]⟩)

namespace Controller

variable {ρ : Type} [Probe ρ]

def trail (s : Controller ρ) : List Action → List (Controller ρ × Action)
  | [] => []
  | a :: as => (s, a) :: (s.act a).trail as

theorem run_append (s : Controller ρ) (as bs : List Action) :
    s.run (as ++ bs) = (s.run as).run bs := by
  simp [run]

theorem run_concat (s : Controller ρ) (as : List Action) (a : Action) :
    s.run (as ++ [a]) = (s.run as).act a :=
  s.run_append as [a]

theorem trail_append (s : Controller ρ) (as bs : List Action) :
    s.trail (as ++ bs) = s.trail as ++ (s.run as).trail bs := by
  induction as generalizing s with
  | nil => rfl
  | cons a as ih => exact congrArg _ (ih (s.act a))

theorem trail_concat (s : Controller ρ) (as : List Action) (a : Action) :
    s.trail (as ++ [a]) = s.trail as ++ [(s.run as, a)] :=
  s.trail_append as [a]

/-- What does not hold at the end of a run was given up by some action for good. -/
theorem given_up {P : Controller ρ → Prop} {s : Controller ρ} (h : P s) {as : List Action}
    (hn : ¬P (s.run as)) :
    ∃ bs a cs, as = bs ++ a :: cs ∧ P (s.run bs) ∧
      ∀ cs', cs' <+: cs → ¬P (s.run (bs ++ a :: cs')) := by
  induction as using List.reverseRecOn with
  | nil => exact absurd h hn
  | append_singleton as a ih =>
    by_cases hbefore : P (s.run as)
    · refine ⟨as, a, [], rfl, hbefore, fun cs' hcs' => ?_⟩
      obtain rfl := List.prefix_nil.mp hcs'
      exact hn
    · obtain ⟨bs, c, cs, rfl, hc, hsince⟩ := ih hbefore
      refine ⟨bs, c, cs ++ [a], List.append_assoc _ _ _, hc, fun cs' hcs' => ?_⟩
      rcases List.prefix_concat_iff.mp hcs' with rfl | hcs'
      · rwa [← List.cons_append, ← List.append_assoc]
      · exact hsince cs' hcs'

/-- Something good happened along a run, and nothing bad has happened since. -/
def Since (s : Controller ρ) (good bad : Controller ρ → Action → Prop) (as : List Action) : Prop :=
  ∃ bs a cs, as = bs ++ a :: cs ∧ good (s.run bs) a ∧
    ∀ x ∈ ((s.run bs).act a).trail cs, ¬bad x.1 x.2

theorem Since.exists_mem_trail {s : Controller ρ} {good bad : Controller ρ → Action → Prop}
    {as : List Action} (h : s.Since good bad as) : ∃ x ∈ s.trail as, good x.1 x.2 := by
  obtain ⟨bs, a, cs, rfl, hgood, -⟩ := h
  refine ⟨(s.run bs, a), ?_, hgood⟩
  rw [trail_append]
  exact List.mem_append_right _ List.mem_cons_self

theorem since_nil {s : Controller ρ} {good bad : Controller ρ → Action → Prop} :
    ¬s.Since good bad [] := by
  rintro ⟨bs, a, cs, h, -⟩
  simp at h

theorem since_concat {s : Controller ρ} {good bad : Controller ρ → Action → Prop}
    {as : List Action} {a : Action} :
    s.Since good bad (as ++ [a]) ↔
      good (s.run as) a ∨ s.Since good bad as ∧ ¬bad (s.run as) a := by
  have htrail (bs : List Action) (b : Action) (cs : List Action) :
      ((s.run bs).act b).trail (cs ++ [a]) =
        ((s.run bs).act b).trail cs ++ [(s.run (bs ++ b :: cs), a)] := by
    rw [trail_concat, run_append]
    rfl
  constructor
  · rintro ⟨bs, b, cs, h, hgood, hbad⟩
    cases cs using List.reverseRecOn with
    | nil =>
      obtain ⟨rfl, hlast⟩ := List.append_inj' h rfl
      obtain rfl := List.head_eq_of_cons_eq hlast
      exact .inl hgood
    | append_singleton cs c =>
      rw [← List.cons_append, ← List.append_assoc] at h
      obtain ⟨rfl, hlast⟩ := List.append_inj' h rfl
      obtain rfl := List.head_eq_of_cons_eq hlast
      rw [htrail, List.forall_mem_append] at hbad
      exact .inr ⟨⟨bs, b, cs, rfl, hgood, hbad.1⟩, hbad.2 _ (List.mem_singleton_self _)⟩
  · rintro (hgood | ⟨⟨bs, b, cs, rfl, hgood, hbad⟩, hnot⟩)
    · exact ⟨as, a, [], rfl, hgood, fun x hx => absurd hx List.not_mem_nil⟩
    · refine ⟨bs, b, cs ++ [a], List.append_assoc _ _ _, hgood, ?_⟩
      rw [htrail, List.forall_mem_append]
      exact ⟨hbad, List.forall_mem_singleton.mpr hnot⟩

theorem fixed_run (s : Controller ρ) (as : List Action) :
    (s.run as).watch.hasHotplug = s.watch.hasHotplug ∧
      (s.run as).watch.reenableDelay = s.watch.reenableDelay ∧
      (s.run as).watch.digital = s.watch.digital ∧
      (s.run as).watch.eligible = s.watch.eligible := by
  induction as using List.reverseRecOn with
  | nil => exact ⟨rfl, rfl, rfl, rfl⟩
  | append_singleton as a ih =>
    obtain ⟨hp, hd, hg, hl⟩ := (effect_act (s.run as) a).fixed
    obtain ⟨ihp, ihd, ihg, ihl⟩ := ih
    rw [run_concat]
    exact ⟨hp.trans ihp, hd.trans ihd, hg.trans ihg, hl.trans ihl⟩

theorem Effect.now_le {s : Controller ρ} {a : Action} {w : Watch} (he : s.Effect a w) :
    s.watch.now ≤ w.now := by
  cases he with
  | interrupts _ =>
    obtain ⟨stats, h⟩ := fixed_foldl_interrupted (s.interruptsOf a) s.watch
    rw [h]
  | advance instant => exact Nat.le_max_left _ _
  | _ => exact le_rfl

end Controller

end HotplugDetect
