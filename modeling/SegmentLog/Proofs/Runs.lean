/-!
Runs of a machine that takes events one after the other. `Along` says of every event what holds where
it happens.
-/

namespace SegmentLog

/-- Something holds of every event where it happens. -/
def Along {σ ε : Type} (step : σ → ε → σ) (P : σ → ε → Prop) (s : σ) : List ε → Prop
  | [] => True
  | e :: rest => P s e ∧ Along step P (step s e) rest

namespace Along

variable {σ ε : Type} {step : σ → ε → σ} {P Q : σ → ε → Prop} {s : σ} {es fs : List ε}

instance decidable (step : σ → ε → σ) (P : σ → ε → Prop) [∀ s e, Decidable (P s e)] (s : σ) :
    (es : List ε) → Decidable (Along step P s es)
  | [] => .isTrue trivial
  | e :: rest =>
    have := decidable step P (step s e) rest
    inferInstanceAs (Decidable (_ ∧ _))

@[simp] theorem nil : Along step P s [] := trivial

@[simp] theorem cons {e : ε} : Along step P s (e :: es) ↔ P s e ∧ Along step P (step s e) es :=
  Iff.rfl

theorem append :
    Along step P s (es ++ fs) ↔ Along step P s es ∧ Along step P (es.foldl step s) fs := by
  induction es generalizing s with
  | nil => simp
  | cons e es ih => simp only [List.cons_append, cons, ih, List.foldl_cons, and_assoc]

theorem mono (hpq : ∀ s e, P s e → Q s e) (h : Along step P s es) : Along step Q s es := by
  induction es generalizing s with
  | nil => exact trivial
  | cons e es ih => exact ⟨hpq s e h.1, ih h.2⟩

theorem and (hp : Along step P s es) (hq : Along step Q s es) :
    Along step (fun s e => P s e ∧ Q s e) s es := by
  induction es generalizing s with
  | nil => exact trivial
  | cons e es ih => exact ⟨⟨hp.1, hq.1⟩, ih hp.2 hq.2⟩

end Along

end SegmentLog
