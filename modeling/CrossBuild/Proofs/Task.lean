import CrossBuild.Task

/-!
# What tasks do to states

A statement about a task names what holds before it, what holds of the value and the state if it
succeeds, and what holds of the failure and the state if it fails. What a task changed before it
failed stays changed, so most statements here say the same of both endings: the task keeps a
property of states, however it ends.
-/

namespace CrossBuild.Task

variable {σ τ α β : Type}

/-- Started in a state with `pre`, the task ends as `post` says or fails as `failed` says. -/
def Meets (pre : σ → Prop) (t : Task σ α) (post : α → σ → Prop) (failed : Failure → σ → Prop) :
    Prop :=
  ∀ s, pre s →
    match t.runOn s with
    | (.ok a, s') => post a s'
    | (.error f, s') => failed f s'

/-- The task keeps a property of states, whether or not it fails. -/
def Keeps (I : σ → Prop) (t : Task σ α) : Prop :=
  ∀ s, I s → I (t.runOn s).2

variable {pre I : σ → Prop} {post : α → σ → Prop} {failed : Failure → σ → Prop}

theorem Meets.of_ok {t : Task σ α} (h : Meets pre t post failed) {s s' : σ} {a : α} (hs : pre s)
    (ht : t.runOn s = (.ok a, s')) : post a s' := by
  have := h s hs
  rw [ht] at this
  exact this

theorem Meets.of_error {t : Task σ α} (h : Meets pre t post failed) {s s' : σ} {f : Failure}
    (hs : pre s) (ht : t.runOn s = (.error f, s')) : failed f s' := by
  have := h s hs
  rw [ht] at this
  exact this

theorem meets_of_runOn {t : Task σ α}
    (hok : ∀ s s' a, pre s → t.runOn s = (.ok a, s') → post a s')
    (herror : ∀ s s' f, pre s → t.runOn s = (.error f, s') → failed f s') :
    Meets pre t post failed := by
  intro s hs
  split
  · next a s' h => exact hok s s' a hs h
  · next f s' h => exact herror s s' f hs h

theorem keeps_iff {t : Task σ α} : Keeps I t ↔ Meets I t (fun _ => I) (fun _ => I) := by
  constructor
  · intro h
    refine meets_of_runOn ?_ ?_
    · intro s s' a hs ht
      have := h s hs
      rwa [ht] at this
    · intro s s' f hs ht
      have := h s hs
      rwa [ht] at this
  · intro h s hs
    rcases ht : t.runOn s with ⟨r, s'⟩
    cases r with
    | ok a => exact h.of_ok hs ht
    | error f => exact h.of_error hs ht

theorem Meets.weaken {pre' : σ → Prop} {post' : α → σ → Prop} {failed' : Failure → σ → Prop}
    {t : Task σ α} (h : Meets pre t post failed) (hpre : ∀ s, pre' s → pre s)
    (hpost : ∀ a s, post a s → post' a s) (hfailed : ∀ f s, failed f s → failed' f s) :
    Meets pre' t post' failed' := by
  refine meets_of_runOn ?_ ?_
  · intro s s' a hs ht
    exact hpost a s' (h.of_ok (hpre s hs) ht)
  · intro s s' f hs ht
    exact hfailed f s' (h.of_error (hpre s hs) ht)

/-- What is known apart from the state can be used in the proof. -/
theorem Meets.assuming {known : Prop} {t : Task σ α} (h : known → Meets pre t post failed) :
    Meets (fun s => known ∧ pre s) t post failed := by
  intro s hs
  exact h hs.1 s hs.2

theorem Meets.and {post' : α → σ → Prop} {failed' : Failure → σ → Prop} {t : Task σ α}
    (h : Meets pre t post failed) (h' : Meets pre t post' failed') :
    Meets pre t (fun a s => post a s ∧ post' a s) fun f s => failed f s ∧ failed' f s :=
  meets_of_runOn (fun _ _ _ hs ht => ⟨h.of_ok hs ht, h'.of_ok hs ht⟩)
    fun _ _ _ hs ht => ⟨h.of_error hs ht, h'.of_error hs ht⟩

/-! ## Single steps -/

theorem Meets.pure {a : α} (h : ∀ s, pre s → post a s) :
    Meets pre (Pure.pure a : Task σ α) post failed := by
  intro s hs
  exact h s hs

theorem Meets.throw {f : Failure} (h : ∀ s, pre s → failed f s) :
    Meets pre (MonadExcept.throw f : Task σ α) post failed := by
  intro s hs
  exact h s hs

theorem Meets.ofExcept {r : Except Failure α} (hok : ∀ a s, r = .ok a → pre s → post a s)
    (herror : ∀ f s, r = .error f → pre s → failed f s) :
    Meets pre (Task.ofExcept r) post failed := by
  intro s hs
  rw [runOn_ofExcept]
  cases r with
  | ok a => exact hok a s rfl hs
  | error f => exact herror f s rfl hs

theorem Meets.ask {q : σ → Except Failure α} (hok : ∀ a s, pre s → q s = .ok a → post a s)
    (herror : ∀ f s, pre s → q s = .error f → failed f s) :
    Meets pre (Task.ask q) post failed := by
  refine meets_of_runOn ?_ ?_
  · intro s s' a hs ht
    obtain ⟨hq, rfl⟩ := Prod.mk.inj ht
    exact hok a s hs hq
  · intro s s' f hs ht
    obtain ⟨hq, rfl⟩ := Prod.mk.inj ht
    exact herror f s hs hq

theorem Meets.update {g : σ → σ} {post : Unit → σ → Prop} (h : ∀ s, pre s → post () (g s)) :
    Meets pre (Task.update g) post failed := by
  intro s hs
  exact h s hs

theorem Meets.bind {t : Task σ α} {next : α → Task σ β} {M : α → σ → Prop}
    {post : β → σ → Prop} (ht : Meets pre t M failed)
    (hnext : ∀ a, Meets (M a) (next a) post failed) : Meets pre (t >>= next) post failed := by
  intro s hs
  rw [runOn_bind]
  rcases h : t.runOn s with ⟨r, s'⟩
  cases r with
  | ok a => exact hnext a s' (ht.of_ok hs h)
  | error f => exact ht.of_error hs h

/-- Two tasks one after the other succeed only if both do. -/
theorem of_runOn_bind {t : Task σ α} {next : α → Task σ β} {s s' : σ} {b : β}
    (h : (t >>= next).runOn s = (.ok b, s')) :
    ∃ a s₁, t.runOn s = (.ok a, s₁) ∧ (next a).runOn s₁ = (.ok b, s') := by
  rw [runOn_bind] at h
  rcases ht : t.runOn s with ⟨f | a, s₁⟩
  · rw [ht] at h
    cases h
  · rw [ht] at h
    exact ⟨a, s₁, rfl, h⟩

/-- A step that is taken under a condition alone, and what follows in any case. -/
theorem Meets.when {p : Prop} [Decidable p] {t : Task σ α} {rest : Task σ β} {M : σ → Prop}
    {post : β → σ → Prop} (ht : p → Meets pre t (fun _ => M) failed)
    (hskip : ¬ p → ∀ s, pre s → M s) (hrest : Meets M rest post failed) :
    Meets pre (if p then t >>= fun _ => rest else rest) post failed := by
  split
  · next h => exact (ht h).bind fun _ => hrest
  · next h => exact hrest.weaken (hskip h) (fun _ _ hs => hs) fun _ _ hs => hs

theorem Meets.attempt {t : Task σ α} {post : Except Failure α → σ → Prop}
    {failed : Failure → σ → Prop}
    (h : Meets pre t (fun a => post (.ok a)) (fun f => post (.error f))) :
    Meets pre (Task.attempt t) post failed := by
  intro s hs
  rw [runOn_attempt]
  rcases ht : t.runOn s with ⟨r, s'⟩
  cases r with
  | ok a => exact h.of_ok hs ht
  | error f => exact h.of_error hs ht

/-- What comes last runs on either ending of the task, and the task's outcome stands if it does not
fail itself. -/
theorem Meets.thenAlways {t : Task σ α} {last : Task σ Unit} {M : α → σ → Prop}
    {F : Failure → σ → Prop} (ht : Meets pre t M F)
    (hok : ∀ a, Meets (M a) last (fun _ => post a) failed)
    (herror : ∀ f, Meets (F f) last (fun _ => failed f) failed) :
    Meets pre (Task.thenAlways t last) post failed := by
  refine Meets.bind (M := fun r s => match r with
    | .ok a => M a s
    | .error f => F f s) (Meets.attempt ht) fun r => ?_
  cases r with
  | ok a => exact (hok a).bind fun _ => Meets.pure fun _ hs => hs
  | error f => exact (herror f).bind fun _ => Meets.throw fun _ hs => hs

/-- A task on a part of the state, told of the whole state. -/
theorem Meets.onPart {J : τ → Prop} {post' : α → τ → Prop} {failed' : Failure → τ → Prop}
    {part : τ → σ} {replace : σ → τ → τ} {t : Task σ α} (ht : Meets pre t post failed)
    (hpart : ∀ s, J s → pre (part s)) (hpost : ∀ s a x, J s → post a x → post' a (replace x s))
    (hfailed : ∀ s f x, J s → failed f x → failed' f (replace x s)) :
    Meets J (Task.onPart part replace t) post' failed' := by
  refine meets_of_runOn ?_ ?_
  · intro s s' a hs hrun
    rw [runOn_onPart] at hrun
    obtain ⟨ha, rfl⟩ := Prod.mk.inj hrun
    exact hpost s a _ hs (ht.of_ok (hpart s hs) (Prod.ext ha rfl))
  · intro s s' f hs hrun
    rw [runOn_onPart] at hrun
    obtain ⟨hf, rfl⟩ := Prod.mk.inj hrun
    exact hfailed s f _ hs (ht.of_error (hpart s hs) (Prod.ext hf rfl))

/-! ## Keeping a property -/

@[simp] theorem keeps_pure (a : α) : Keeps I (Pure.pure a : Task σ α) := fun _ h => h

@[simp] theorem keeps_throw (f : Failure) : Keeps I (throw f : Task σ α) := fun _ h => h

@[simp] theorem keeps_ofExcept (r : Except Failure α) : Keeps I (Task.ofExcept r) := fun _ h => h

@[simp] theorem keeps_ask (q : σ → Except Failure α) : Keeps I (Task.ask q) := fun _ h => h

theorem keeps_update {g : σ → σ} (h : ∀ s, I s → I (g s)) : Keeps I (Task.update g) := h

theorem Keeps.bind {t : Task σ α} {next : α → Task σ β} (ht : Keeps I t)
    (hnext : ∀ a, Keeps I (next a)) : Keeps I (t >>= next) := by
  intro s hs
  have hs' := ht s hs
  rw [runOn_bind]
  rcases h : t.runOn s with ⟨r, s'⟩
  rw [h] at hs'
  cases r with
  | ok a => exact hnext a s' hs'
  | error f => exact hs'

theorem Keeps.ite {p : Prop} [Decidable p] {t u : Task σ α} (ht : Keeps I t) (hu : Keeps I u) :
    Keeps I (if p then t else u) := by
  split
  · exact ht
  · exact hu

/-- A step that is taken under a condition alone, and what follows in any case. -/
theorem Keeps.when {p : Prop} [Decidable p] {t : Task σ α} {rest : Task σ β} (ht : Keeps I t)
    (hrest : Keeps I rest) : Keeps I (if p then t >>= fun _ => rest else rest) :=
  Keeps.ite (ht.bind fun _ => hrest) hrest

theorem Keeps.attempt {t : Task σ α} (ht : Keeps I t) : Keeps I (Task.attempt t) := by
  intro s hs
  rw [runOn_attempt]
  exact ht s hs

/-- A loop over a list keeps what every round of it keeps. -/
theorem keeps_forIn {β : Type} {l : List α} {b : β} {round : α → β → Task σ (ForInStep β)}
    (h : ∀ a ∈ l, ∀ b, Keeps I (round a b)) : Keeps I (forIn l b round) := by
  induction l generalizing b with
  | nil => exact keeps_pure b
  | cons a l ih =>
    rw [List.forIn_cons]
    refine (h a (by simp) b).bind fun step => ?_
    cases step with
    | done b => exact keeps_pure b
    | yield b => exact ih fun a' ha' => h a' (by simp [ha'])

/-- A loop over a list establishes of each element what a round establishes of its own. -/
theorem meets_forIn {l : List α} {known : α → Prop} {round : α → PUnit → Task σ (ForInStep PUnit)}
    (h : ∀ a ∈ l, Meets I (round a ⟨⟩) (fun step s => step = .yield ⟨⟩ ∧ known a ∧ I s) failed) :
    Meets I (forIn l ⟨⟩ round) (fun _ s => (∀ a ∈ l, known a) ∧ I s) failed := by
  induction l with
  | nil => exact Meets.pure fun s hs => ⟨fun _ ha => (List.not_mem_nil ha).elim, hs⟩
  | cons a l ih =>
    obtain ⟨hfirst, hrest⟩ := List.forall_mem_cons.1 h
    rw [List.forIn_cons]
    refine hfirst.bind fun step => Meets.assuming fun hstep => Meets.assuming fun ha => ?_
    subst hstep
    exact (ih hrest).weaken (fun _ hs => hs)
      (fun _ _ hs => ⟨List.forall_mem_cons.2 ⟨ha, hs.1⟩, hs.2⟩) fun _ _ hs => hs

theorem keeps_mapM {l : List α} {next : α → Task σ β} (h : ∀ a ∈ l, Keeps I (next a)) :
    Keeps I (l.mapM next) := by
  induction l with
  | nil => exact keeps_pure []
  | cons a l ih =>
    rw [List.mapM_cons]
    refine (h a (by simp)).bind fun b => ?_
    refine (ih fun a' ha' => h a' (by simp [ha'])).bind fun bs => ?_
    exact keeps_pure (b :: bs)

/-- A task that keeps a property, where the property is enough for a failure. -/
theorem Keeps.meets {t : Task σ α} (ht : Keeps I t) (hfailed : ∀ f s, I s → failed f s) :
    Meets I t (fun _ => I) failed :=
  (keeps_iff.1 ht).weaken (fun _ hs => hs) (fun _ _ hs => hs) hfailed

/-- What a task meets it meets with a property that it keeps. -/
theorem Meets.keeping {t : Task σ α} (h : Meets pre t post failed) (ht : Keeps I t) :
    Meets (fun s => pre s ∧ I s) t (fun a s => post a s ∧ I s) fun f s => failed f s ∧ I s := by
  refine meets_of_runOn ?_ ?_
  · intro s s' a hs hrun
    exact ⟨h.of_ok hs.1 hrun, (keeps_iff.1 ht).of_ok hs.2 hrun⟩
  · intro s s' f hs hrun
    exact ⟨h.of_error hs.1 hrun, (keeps_iff.1 ht).of_error hs.2 hrun⟩

/-! ## Never failing -/

/-- The task keeps a property of states and does not fail. -/
def Succeeds (I : σ → Prop) (t : Task σ α) : Prop :=
  Meets I t (fun _ => I) fun _ _ => False

theorem Succeeds.of_keeps {t : Task σ α} (ht : Keeps I t)
    (hok : ∀ s, I s → ∃ a, (t.runOn s).1 = .ok a) : Succeeds I t := by
  refine meets_of_runOn ?_ ?_
  · intro s s' a hs hrun
    have := ht s hs
    rwa [hrun] at this
  · intro s s' f hs hrun
    obtain ⟨a, ha⟩ := hok s hs
    rw [hrun] at ha
    cases ha

theorem Succeeds.exists_ok {t : Task σ α} (ht : Succeeds I t) {s : σ} (hs : I s) :
    ∃ a s', t.runOn s = (.ok a, s') := by
  rcases hrun : t.runOn s with ⟨f | a, s'⟩
  · exact (ht.of_error hs hrun).elim
  · exact ⟨a, s', rfl⟩

theorem succeeds_pure (a : α) : Succeeds I (Pure.pure a : Task σ α) :=
  Succeeds.of_keeps (keeps_pure a) fun _ _ => ⟨a, rfl⟩

theorem Succeeds.bind {t : Task σ α} {next : α → Task σ β} (ht : Succeeds I t)
    (hnext : ∀ a, Succeeds I (next a)) : Succeeds I (t >>= next) :=
  Meets.bind ht hnext

theorem Succeeds.ite {p : Prop} [Decidable p] {t u : Task σ α} (ht : Succeeds I t)
    (hu : Succeeds I u) : Succeeds I (if p then t else u) := by
  split
  · exact ht
  · exact hu

theorem succeeds_forIn {β : Type} {l : List α} {b : β} {round : α → β → Task σ (ForInStep β)}
    (h : ∀ a ∈ l, ∀ b, Succeeds I (round a b)) : Succeeds I (forIn l b round) := by
  induction l generalizing b with
  | nil => exact succeeds_pure b
  | cons a l ih =>
    rw [List.forIn_cons]
    refine (h a (by simp) b).bind fun step => ?_
    cases step with
    | done b => exact succeeds_pure b
    | yield b => exact ih fun a' ha' => h a' (by simp [ha'])

/-! ## Kinds of failure -/

/-- Every failure that the task may end in is of the kind. -/
def FailsAs (K : Failure → Prop) (t : Task σ α) : Prop :=
  Meets (fun _ => True) t (fun _ _ => True) fun f _ => K f

section
variable {K K' : Failure → Prop}

theorem FailsAs.weaken {t : Task σ α} (h : FailsAs K t) (hK : ∀ f, K f → K' f) : FailsAs K' t :=
  Meets.weaken h (fun _ hs => hs) (fun _ _ hs => hs) fun f _ hf => hK f hf

theorem failsAs_of_error {t : Task σ α} (h : ∀ s f, (t.runOn s).1 = .error f → K f) :
    FailsAs K t :=
  meets_of_runOn (fun _ _ _ _ _ => trivial) fun s _ f _ ht => h s f (by rw [ht])

theorem failsAs_pure (a : α) : FailsAs K (Pure.pure a : Task σ α) := fun _ _ => trivial

theorem failsAs_throw {f : Failure} (h : K f) : FailsAs K (MonadExcept.throw f : Task σ α) :=
  fun _ _ => h

theorem failsAs_ask {q : σ → Except Failure α} (h : ∀ s f, q s = .error f → K f) :
    FailsAs K (Task.ask q) :=
  Meets.ask (fun _ _ _ _ => trivial) fun f s _ hq => h s f hq

theorem failsAs_ofExcept {r : Except Failure α} (h : ∀ f, r = .error f → K f) :
    FailsAs K (Task.ofExcept r : Task σ α) :=
  Meets.ofExcept (fun _ _ _ _ => trivial) fun f _ hr _ => h f hr

theorem failsAs_update (g : σ → σ) : FailsAs K (Task.update g) := fun _ _ => trivial

theorem FailsAs.bind {t : Task σ α} {next : α → Task σ β} (ht : FailsAs K t)
    (hnext : ∀ a, FailsAs K (next a)) : FailsAs K (t >>= next) :=
  Meets.bind ht hnext

/-- A task whose failures are told by kind goes on from its outcome. -/
theorem FailsAs.attempt_bind {t : Task σ α} {next : Except Failure α → Task σ β}
    (ht : FailsAs K' t) (hok : ∀ a, FailsAs K (next (.ok a)))
    (herror : ∀ f, K' f → FailsAs K (next (.error f))) : FailsAs K (Task.attempt t >>= next) := by
  refine Meets.bind (M := fun r _ => (∀ f, r = .error f → K' f) ∧ True) ?_ fun r =>
    Meets.assuming fun hr => ?_
  · refine Meets.attempt (Meets.weaken ht (fun _ hs => hs) (fun _ _ _ => ⟨?_, trivial⟩) ?_)
    · exact fun f hf => by cases hf
    · exact fun f _ hf => ⟨fun f' hf' => Except.error.inj hf' ▸ hf, trivial⟩
  · cases r with
    | ok a => exact hok a
    | error f => exact herror f (hr f rfl)

theorem FailsAs.ite {p : Prop} [Decidable p] {t u : Task σ α} (ht : FailsAs K t)
    (hu : FailsAs K u) : FailsAs K (if p then t else u) := by
  split
  · exact ht
  · exact hu

theorem FailsAs.onPart {part : τ → σ} {replace : σ → τ → τ} {t : Task σ α} (ht : FailsAs K t) :
    FailsAs K (Task.onPart part replace t) :=
  Meets.onPart ht (fun _ _ => trivial) (fun _ _ _ _ _ => trivial) fun _ _ _ _ hf => hf

theorem failsAs_forIn {β : Type} {l : List α} {b : β} {round : α → β → Task σ (ForInStep β)}
    (h : ∀ a ∈ l, ∀ b, FailsAs K (round a b)) : FailsAs K (forIn l b round) := by
  induction l generalizing b with
  | nil => exact failsAs_pure b
  | cons a l ih =>
    rw [List.forIn_cons]
    refine (h a (by simp) b).bind fun step => ?_
    cases step with
    | done b => exact failsAs_pure b
    | yield b => exact ih fun a' ha' => h a' (by simp [ha'])

end

end CrossBuild.Task
