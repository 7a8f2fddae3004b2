import CrossBuild.Proofs.Task

/-!
# Tasks in lockstep

Two runs of a task, from states that agree on what the task looks at, give the same and end in
states that agree. The relation of the states says what agrees. That a task keeps a property is the
case where both states are the same one.
-/

namespace CrossBuild.Task

variable {σ τ α β : Type}

/-- Started in related states, the task gives the same, and leaves related states. -/
def Respects (R : σ → σ → Prop) (t : Task σ α) : Prop :=
  ∀ s s', R s s' → (t.runOn s').1 = (t.runOn s).1 ∧ R (t.runOn s).2 (t.runOn s').2

variable {R : σ → σ → Prop}

theorem respects_pure (a : α) : Respects R (Pure.pure a : Task σ α) := fun _ _ h => ⟨rfl, h⟩

theorem respects_throw (f : Failure) : Respects R (throw f : Task σ α) := fun _ _ h => ⟨rfl, h⟩

theorem respects_ofExcept (r : Except Failure α) : Respects R (Task.ofExcept r) :=
  fun _ _ h => ⟨rfl, h⟩

theorem respects_ask {q : σ → Except Failure α} (h : ∀ s s', R s s' → q s' = q s) :
    Respects R (Task.ask q) := fun s s' hs => ⟨h s s' hs, hs⟩

theorem respects_update {g : σ → σ} (h : ∀ s s', R s s' → R (g s) (g s')) :
    Respects R (Task.update g) := fun s s' hs => ⟨rfl, h s s' hs⟩

/-- What is known of the value that both runs give can be used for the rest. -/
theorem Respects.bind_of {t : Task σ α} {next : α → Task σ β} {P : α → Prop} (ht : Respects R t)
    (hvalue : ∀ s s' a, R s s' → (t.runOn s).1 = .ok a → P a)
    (hnext : ∀ a, P a → Respects R (next a)) : Respects R (t >>= next) := by
  intro s s' hs
  obtain ⟨hsame, hafter⟩ := ht s s' hs
  rw [runOn_bind, runOn_bind]
  rcases h : t.runOn s with ⟨r, u⟩
  rcases h' : t.runOn s' with ⟨r', u'⟩
  rw [h, h'] at hsame hafter
  dsimp only at hsame hafter
  subst hsame
  cases r' with
  | ok a => exact hnext a (hvalue s s' a hs (by rw [h])) u u' hafter
  | error f => exact ⟨rfl, hafter⟩

theorem Respects.bind {t : Task σ α} {next : α → Task σ β} (ht : Respects R t)
    (hnext : ∀ a, Respects R (next a)) : Respects R (t >>= next) :=
  ht.bind_of (P := fun _ => True) (fun _ _ _ _ _ => trivial) fun a _ => hnext a

theorem Respects.ite {p : Prop} [Decidable p] {t u : Task σ α} (ht : Respects R t)
    (hu : Respects R u) : Respects R (if p then t else u) := by
  split
  · exact ht
  · exact hu

/-- A step that is taken under a condition alone, and what follows in any case. -/
theorem Respects.when {p : Prop} [Decidable p] {t : Task σ α} {rest : Task σ β} (ht : Respects R t)
    (hrest : Respects R rest) : Respects R (if p then t >>= fun _ => rest else rest) :=
  Respects.ite (ht.bind fun _ => hrest) hrest

theorem Respects.attempt {t : Task σ α} (ht : Respects R t) : Respects R (Task.attempt t) := by
  intro s s' hs
  obtain ⟨hsame, hafter⟩ := ht s s' hs
  rw [runOn_attempt, runOn_attempt]
  exact ⟨congrArg Except.ok hsame, hafter⟩

/-- A task on a part of the state, where related states have related parts. -/
theorem Respects.onPart {R' : τ → τ → Prop} {part : τ → σ} {replace : σ → τ → τ} {t : Task σ α}
    (ht : Respects R t) (hpart : ∀ s s', R' s s' → R (part s) (part s'))
    (hreplace : ∀ s s' x x', R' s s' → R x x' → R' (replace x s) (replace x' s')) :
    Respects R' (Task.onPart part replace t) := by
  intro s s' hs
  obtain ⟨hsame, hafter⟩ := ht _ _ (hpart s s' hs)
  rw [runOn_onPart, runOn_onPart]
  exact ⟨hsame, hreplace s s' _ _ hs hafter⟩

theorem respects_forIn {β : Type} {l : List α} {b : β} {round : α → β → Task σ (ForInStep β)}
    (h : ∀ a ∈ l, ∀ b, Respects R (round a b)) : Respects R (forIn l b round) := by
  induction l generalizing b with
  | nil => exact respects_pure b
  | cons a l ih =>
    rw [List.forIn_cons]
    refine (h a (by simp) b).bind fun step => ?_
    cases step with
    | done b => exact respects_pure b
    | yield b => exact ih fun a' ha' => h a' (by simp [ha'])

/-- What a task keeps of single states it keeps beside a relation that it respects. -/
theorem Respects.keeping {I : σ → Prop} {t : Task σ α} (ht : Respects R t) (hI : Keeps I t) :
    Respects (fun s s' => R s s' ∧ I s ∧ I s') t := by
  rintro s s' ⟨hs, hi, hi'⟩
  obtain ⟨hsame, hafter⟩ := ht s s' hs
  exact ⟨hsame, hafter, hI s hi, hI s' hi'⟩

/-- Keeping a property is to respect it together with equality. -/
theorem keeps_iff_respects {I : σ → Prop} {t : Task σ α} :
    Keeps I t ↔ Respects (fun s s' => s' = s ∧ I s) t := by
  constructor
  · rintro h s _ ⟨rfl, hs⟩
    exact ⟨rfl, rfl, h _ hs⟩
  · intro h s hs
    exact (h s s ⟨rfl, hs⟩).2.2

end CrossBuild.Task
