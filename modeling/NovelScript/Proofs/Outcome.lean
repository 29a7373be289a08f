/-!
Taking results apart: when a sequence of steps that may fail gives a result. Steps that may also
change a state leave one behind where they fail (`runOn_bind_eq`).
-/

namespace NovelScript.Outcome

variable {ε ε' α β : Type}

theorem bind_eq_ok_iff {x : Except ε α} {k : α → Except ε β} {b : β} :
    (x >>= k) = .ok b ↔ ∃ a, x = .ok a ∧ k a = .ok b := by
  cases x with
  | error e => simp [bind, Except.bind]
  | ok a => simp [bind, Except.bind]

theorem pure_eq_ok_iff {a b : α} : (pure a : Except ε α) = .ok b ↔ b = a := by
  simp [pure, Except.pure, eq_comm]

/-- A step that can give only one result, followed by steps that cannot fail. -/
theorem bind_pure_eq_ok_iff {x : Except ε α} {P : Prop} {a : α}
    (h : ∀ a', x = .ok a' ↔ P ∧ a' = a) {f : α → β} {b : β} :
    (x >>= fun a ↦ pure (f a)) = .ok b ↔ P ∧ b = f a := by
  simp only [bind_eq_ok_iff, pure_eq_ok_iff, h]
  constructor
  · intro hb
    obtain ⟨_, ⟨hp, rfl⟩, rfl⟩ := hb
    exact ⟨hp, rfl⟩
  · intro hb
    obtain ⟨hp, rfl⟩ := hb
    exact ⟨a, ⟨hp, rfl⟩, rfl⟩

theorem map_eq_ok_iff {f : α → β} {x : Except ε α} {b : β} :
    x.map f = .ok b ↔ ∃ a, x = .ok a ∧ f a = b := by
  cases x with
  | error e => simp [Except.map]
  | ok a => simp [Except.map]

theorem mapError_eq_ok_iff {f : ε → ε'} {x : Except ε α} {a : α} :
    x.mapError f = .ok a ↔ x = .ok a := by
  cases x with
  | error e =>
    change Except.error (f e) = .ok a ↔ Except.error e = .ok a
    simp
  | ok b =>
    change Except.ok b = .ok a ↔ Except.ok b = .ok a
    simp

theorem toOption_eq_some_iff {x : Except ε α} {a : α} : x.toOption = some a ↔ x = .ok a := by
  cases x with
  | error e => simp [Except.toOption]
  | ok b => simp [Except.toOption]

theorem toOption_eq_none_iff {x : Except ε α} : x.toOption = none ↔ ∃ e, x = .error e := by
  cases x with
  | error e => simp [Except.toOption]
  | ok b => simp [Except.toOption]

theorem bind_eq_error_iff {x : Except ε α} {k : α → Except ε β} {e : ε} :
    (x >>= k) = .error e ↔ x = .error e ∨ ∃ a, x = .ok a ∧ k a = .error e := by
  cases x with
  | error d => simp [bind, Except.bind]
  | ok a => simp [bind, Except.bind]

theorem map_eq_error_iff {f : α → β} {x : Except ε α} {e : ε} :
    x.map f = .error e ↔ x = .error e := by
  cases x with
  | error d => simp [Except.map]
  | ok a => simp [Except.map]

theorem mapError_eq_error_iff {f : ε → ε'} {x : Except ε α} {e : ε'} :
    x.mapError f = .error e ↔ ∃ d, x = .error d ∧ f d = e := by
  cases x with
  | error d =>
    change Except.error (f d) = .error e ↔ _
    simp
  | ok a =>
    change Except.ok a = .error e ↔ _
    simp

theorem map_map {γ : Type} {f : α → β} {g : β → γ} {x : Except ε α} :
    (x.map f).map g = x.map fun a ↦ g (f a) := by
  cases x <;> rfl

theorem mapError_map {f : ε → ε'} {g : α → β} {x : Except ε α} :
    (g <$> x).mapError f = g <$> x.mapError f := by
  cases x <;> rfl

theorem map_ok_bind_cons {f : List α → β} {a : α} {x : Except ε (List α)} :
    ((.ok a : Except ε α) >>= fun a ↦ x >>= fun later ↦ pure (a :: later)).map f =
      x.map fun later ↦ f (a :: later) := by
  cases x <;> rfl

/-- A map succeeds if every step does, and then gives the results in order. -/
theorem mapM_eq_ok_iff {f : α → Except ε β} {P : α → Prop} {g : α → β} {items : List α}
    (h : ∀ a ∈ items, ∀ b, f a = .ok b ↔ P a ∧ b = g a) (results : List β) :
    items.mapM f = .ok results ↔ (∀ a ∈ items, P a) ∧ results = items.map g := by
  induction items generalizing results with
  | nil => simp [pure_eq_ok_iff]
  | cons a later ih =>
    have hlater := ih fun b hb ↦ h b (by simp [hb])
    simp only [List.mapM_cons, bind_eq_ok_iff, pure_eq_ok_iff, h a (by simp) _, hlater]
    constructor
    · intro h
      obtain ⟨_, ⟨ha, rfl⟩, _, ⟨hl, rfl⟩, rfl⟩ := h
      exact ⟨by simpa using ⟨ha, hl⟩, rfl⟩
    · intro h
      obtain ⟨hall, rfl⟩ := h
      exact ⟨_, ⟨hall a (by simp), rfl⟩, _, ⟨fun b hb ↦ hall b (by simp [hb]), rfl⟩, rfl⟩

/-- A map fails where the first of its steps does. -/
theorem mapM_eq_error_iff {f : α → Except ε β} {items : List α} {e : ε} :
    items.mapM f = .error e ↔ ∃ before a after, items = before ++ a :: after ∧
      (∀ b ∈ before, ∃ r, f b = .ok r) ∧ f a = .error e := by
  induction items with
  | nil => simp [pure, Except.pure]
  | cons b later ih =>
    rw [List.mapM_cons, bind_eq_error_iff]
    simp only [bind_eq_error_iff, ih]
    refine ⟨fun h ↦ ?_, fun h ↦ ?_⟩
    · obtain h | ⟨r, hr, h | ⟨_, -, hpure⟩⟩ := h
      · exact ⟨[], b, later, rfl, by simp, h⟩
      · obtain ⟨before, a, after, rfl, hall, ha⟩ := h
        exact ⟨b :: before, a, after, rfl, List.forall_mem_cons.2 ⟨⟨r, hr⟩, hall⟩, ha⟩
      · cases hpure
    · obtain ⟨before, a, after, hsplit, hall, ha⟩ := h
      cases before with
      | nil =>
        obtain ⟨rfl, -⟩ := List.cons.inj hsplit
        exact .inl ha
      | cons c before =>
        obtain ⟨rfl, rfl⟩ := List.cons.inj hsplit
        obtain ⟨⟨r, hr⟩, hall⟩ := List.forall_mem_cons.1 hall
        exact .inr ⟨r, hr, .inl ⟨before, a, after, rfl, hall, ha⟩⟩

section State

variable {σ : Type} {s s' : σ}

/-- What steps come to from a state on, and the state that they leave behind. What they have changed
before they fail stays changed. -/
def runOn (step : ExceptT ε (StateM σ) α) (s : σ) : Except ε α × σ := (ExceptT.run step).run s

/-- The outcome of a step that gives a new state or leaves the old one as it is. -/
def settled (s : σ) : Except ε σ → Except ε Unit × σ
  | .ok s' => (.ok (), s')
  | .error e => (.error e, s)

/-- Steps that only compute something change nothing when they fail. -/
theorem runOn_ofExcept_bind {x : Except ε α} {k : α → ExceptT ε (StateM σ) Unit}
    {k' : α → Except ε σ} (h : ∀ a, runOn (k a) s = settled s (k' a)) :
    runOn (ofExcept x >>= k) s = settled s (x >>= k') := by
  cases x with
  | error e => rfl
  | ok a => exact h a

theorem runOn_bind_of_ok {step : ExceptT ε (StateM σ) α} {next : α → ExceptT ε (StateM σ) β} {a : α}
    (h : runOn step s = (.ok a, s')) : runOn (step >>= next) s = runOn (next a) s' := by
  change (ExceptT.bindCont next (runOn step s).1).run (runOn step s).2 = _
  rw [h]
  rfl

theorem runOn_bind_of_error {step : ExceptT ε (StateM σ) α} {next : α → ExceptT ε (StateM σ) β}
    {e : ε} (h : runOn step s = (.error e, s')) : runOn (step >>= next) s = (.error e, s') := by
  change (ExceptT.bindCont next (runOn step s).1).run (runOn step s).2 = _
  rw [h]
  rfl

/-- A sequence fails with its first step, or goes on from where that has come to. -/
theorem runOn_bind_eq {step : ExceptT ε (StateM σ) α} {next : α → ExceptT ε (StateM σ) β}
    {outcome : Except ε β} (h : runOn (step >>= next) s = (outcome, s')) :
    (∃ e, runOn step s = (.error e, s') ∧ outcome = .error e) ∨
      ∃ a between, runOn step s = (.ok a, between) ∧
        runOn (next a) between = (outcome, s') := by
  cases hstep : runOn step s with
  | mk result between =>
    cases result with
    | error e =>
      rw [runOn_bind_of_error hstep] at h
      cases h
      exact .inl ⟨e, rfl, rfl⟩
    | ok a =>
      rw [runOn_bind_of_ok hstep] at h
      exact .inr ⟨a, between, rfl, h⟩

theorem exists_runOn_error {step : ExceptT ε (StateM σ) α}
    (h : (runOn step s).1.toOption = none) : ∃ e s', runOn step s = (.error e, s') := by
  obtain ⟨e, he⟩ := toOption_eq_none_iff.1 h
  exact ⟨e, (runOn step s).2, Prod.ext he rfl⟩

end State

end NovelScript.Outcome
