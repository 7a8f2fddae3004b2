import CrossBuild.Failure

/-!
# Tasks

A task changes a state and may fail. What it changed before it failed stays changed.
-/

namespace CrossBuild

abbrev Task (σ : Type) := ExceptT Failure (StateM σ)

namespace Task

variable {σ τ α β : Type}

/-- What a task gives and the state it leaves. -/
def runOn (t : Task σ α) (s : σ) : Except Failure α × σ :=
  t s

/-- A failure known beforehand, or a value. -/
def ofExcept (r : Except Failure α) : Task σ α :=
  fun s => (r, s)

/-- A question about the state. -/
def ask (f : σ → Except Failure α) : Task σ α :=
  fun s => (f s, s)

/-- Changes the state. -/
def update (f : σ → σ) : Task σ Unit :=
  fun s => (.ok (), f s)

/-- The outcome of a task as a value. -/
def attempt (t : Task σ α) : Task σ (Except Failure α) :=
  fun s => let (r, s) := t s; (.ok r, s)

/-- A task on a part of the state. -/
def onPart (part : τ → σ) (replace : σ → τ → τ) (t : Task σ α) : Task τ α :=
  fun s => let (r, x) := t (part s); (r, replace x s)

/-- Runs `t`, and afterwards `last` whether or not `t` failed. A failure of `last` hides that of
`t`. -/
def thenAlways (t : Task σ α) (last : Task σ Unit) : Task σ α := do
  let r ← attempt t
  last
  ofExcept r

@[simp] theorem runOn_pure (a : α) (s : σ) : (pure a : Task σ α).runOn s = (.ok a, s) := rfl

@[simp] theorem runOn_throw (f : Failure) (s : σ) :
    (throw f : Task σ α).runOn s = (.error f, s) := rfl

/-- The second task runs on what the first one leaves, and only if that one does not fail. -/
theorem runOn_bind (t : Task σ α) (next : α → Task σ β) (s : σ) :
    (t >>= next).runOn s =
      match t.runOn s with
      | (.ok a, s) => (next a).runOn s
      | (.error f, s) => (.error f, s) := by
  change ExceptT.bindCont next (t s).1 (t s).2 = _
  unfold runOn
  rcases t s with ⟨r, s'⟩
  cases r <;> rfl

@[simp] theorem runOn_ofExcept (r : Except Failure α) (s : σ) :
    (ofExcept r).runOn s = (r, s) := rfl

@[simp] theorem runOn_ask (f : σ → Except Failure α) (s : σ) : (ask f).runOn s = (f s, s) := rfl

@[simp] theorem runOn_update (f : σ → σ) (s : σ) : (update f).runOn s = (.ok (), f s) := rfl

@[simp] theorem runOn_attempt (t : Task σ α) (s : σ) :
    (attempt t).runOn s = (.ok (t.runOn s).1, (t.runOn s).2) := rfl

@[simp] theorem runOn_onPart (part : τ → σ) (replace : σ → τ → τ) (t : Task σ α) (s : τ) :
    (onPart part replace t).runOn s =
      ((t.runOn (part s)).1, replace (t.runOn (part s)).2 s) := rfl

/-- What comes last runs on what the task leaves, whether or not the task failed. -/
theorem runOn_thenAlways (t : Task σ α) (last : Task σ Unit) (s : σ) :
    (thenAlways t last).runOn s =
      match last.runOn (t.runOn s).2 with
      | (.ok (), s') => ((t.runOn s).1, s')
      | (.error f, s') => (.error f, s') := by
  simp only [thenAlways, runOn_bind, runOn_attempt]
  rcases last.runOn (t.runOn s).2 with ⟨r, s'⟩
  cases r <;> rfl

end Task

end CrossBuild
