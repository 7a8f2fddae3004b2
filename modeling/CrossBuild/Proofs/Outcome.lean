import CrossBuild.Proofs.Task

/-!
# What programs give

Some programs are written for any monad: the questions that they ask may be answered from a state, and
may fail. What such a program gives is followed through its steps once, for every monad it is run in.
Their questions are known by what is said with each answer, and what was said once stays said.
-/

namespace CrossBuild

/-- What programs of a monad give, from one state to another: what comes of two steps is what comes of
the second one after the first one. -/
structure Outcome (m : Type → Type) [Monad m] (σ : Type) where
  Gives {α : Type} : m α → σ → α → σ → Prop
  of_pure {α : Type} {a b : α} {s s' : σ} : Gives (pure a) s b s' → b = a ∧ s' = s
  of_bind {α β : Type} {t : m α} {next : α → m β} {b : β} {s s' : σ} :
    Gives (t >>= next) s b s' → ∃ a s₁, Gives t s a s₁ ∧ Gives (next a) s₁ b s'

namespace Outcome

variable {m : Type → Type} [Monad m] {σ : Type}

/-- A program that may fail gives its value if it does not. -/
def except : Outcome (Except Failure) Unit where
  Gives x _ a _ := x = .ok a
  of_pure h := ⟨(Except.ok.inj h).symm, rfl⟩
  of_bind {_ _ t _ _ _ _} h := by
    cases t with
    | error f => cases h
    | ok a => exact ⟨a, (), rfl, h⟩

/-- A task gives its value if it does not fail, and leaves a state. -/
def task : Outcome (Task σ) σ where
  Gives t s a s' := t.runOn s = (.ok a, s')
  of_pure h := by
    obtain ⟨ha, hs⟩ := Prod.mk.inj h
    exact ⟨(Except.ok.inj ha).symm, hs.symm⟩
  of_bind {_ _ t _ _ s _} h := by
    rw [Task.runOn_bind] at h
    rcases ht : t.runOn s with ⟨f | a, s₁⟩ <;> rw [ht] at h
    · cases h
    · exact ⟨a, s₁, rfl, h⟩

/-- In the second state at least as much is said as in the first one. -/
def Extends (Told : σ → String → Bool → Prop) (s s' : σ) : Prop :=
  ∀ path answer, Told s path answer → Told s' path answer

variable {Told : σ → String → Bool → Prop} {s s' s'' : σ}

theorem Extends.refl (s : σ) : Extends Told s s := fun _ _ h => h

theorem Extends.trans (h : Extends Told s s') (h' : Extends Told s' s'') : Extends Told s s'' :=
  fun path answer hsaid => h' path answer (h path answer hsaid)

/-- What a question means by its answers holds after them, and nothing that was said is taken back. -/
def Tells (o : Outcome m σ) (Told Means : σ → String → Bool → Prop) (question : String → m Bool) :
    Prop :=
  ∀ path s answer s', o.Gives (question path) s answer s' →
    Means s' path answer ∧ Extends Told s s'

end Outcome

namespace Task

variable {σ : Type}

/-! ## Noting -/

/-- Asks, and notes what was answered with yes. -/
def noting (question : String → Task σ Bool) (path : String) : Task (σ × List String) Bool := do
  let answer ← onPart Prod.fst (fun s x => (s, x.2)) (question path)
  if answer then update fun x => (x.1, path :: x.2)
  return answer

/-- The task does what another one does, with notes beside the state. -/
def Noted {α : Type} (t : Task σ α) (t' : Task (σ × List String) α) : Prop :=
  ∀ s notes, ∃ notes', t'.runOn (s, notes) = ((t.runOn s).1, ((t.runOn s).2, notes'))

theorem noted_pure {α : Type} (a : α) : Noted (pure a : Task σ α) (pure a) :=
  fun _ notes => ⟨notes, rfl⟩

theorem Noted.bind {α β : Type} {t : Task σ α} {t' : Task (σ × List String) α}
    {next : α → Task σ β} {next' : α → Task (σ × List String) β} (h : Noted t t')
    (hnext : ∀ a, Noted (next a) (next' a)) : Noted (t >>= next) (t' >>= next') := by
  intro s notes
  obtain ⟨notes₁, h₁⟩ := h s notes
  rw [runOn_bind, runOn_bind, h₁]
  rcases t.runOn s with ⟨f | a, s₁⟩
  · exact ⟨notes₁, rfl⟩
  · exact hnext a s₁ notes₁

/-- Asking notes a yes and leaves the notes alone else. -/
theorem runOn_noting (question : String → Task σ Bool) (path : String) (s : σ) (notes : List String) :
    (noting question path).runOn (s, notes) =
      (((question path).runOn s).1, ((question path).runOn s).2,
        if ((question path).runOn s).1.toOption = some true then path :: notes else notes) := by
  unfold noting
  rw [runOn_bind, runOn_onPart]
  rcases (question path).runOn s with ⟨f | _ | _, s'⟩ <;> rfl

theorem noted_noting (question : String → Task σ Bool) (path : String) :
    Noted (question path) (noting question path) :=
  fun s notes => ⟨_, runOn_noting question path s notes⟩

/-- What was answered with yes is in the notes. -/
def NotedYes (s : σ × List String) (path : String) (answer : Bool) : Prop :=
  answer = true → path ∈ s.2

theorem tells_noting (question : String → Task σ Bool) :
    Outcome.task.Tells NotedYes NotedYes (noting question) := by
  rintro path ⟨s, notes⟩ answer s' h
  obtain ⟨hanswer, rfl⟩ := Prod.mk.inj ((runOn_noting question path s notes).symm.trans h)
  rw [hanswer]
  constructor
  · rintro rfl
    exact List.mem_cons_self
  · intro q b hq hb
    dsimp only
    split
    · exact List.mem_cons_of_mem _ (hq hb)
    · exact hq hb

end Task

end CrossBuild
