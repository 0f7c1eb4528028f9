import Mathlib

/-! Runs of a labelled transition relation, and the rules by which facts about one step become
facts about whole runs. -/
namespace Transition

variable {σ α : Type*}

/-- The states at the two ends of a run, and the labels of its steps in order. -/
inductive Run (step : σ → α → σ → Prop) : σ → List α → σ → Prop
  | nil (s : σ) : Run step s [] s
  | cons {s m t : σ} {a : α} {acts : List α} (hstep : step s a m) (hrun : Run step m acts t) :
      Run step s (a :: acts) t

/-- The steps that start where `ok` permits them. -/
def When (ok : σ → α → Prop) (step : σ → α → σ → Prop) (s : σ) (a : α) (t : σ) : Prop :=
  ok s a ∧ step s a t

variable {step step' : σ → α → σ → Prop} {s m t : σ} {acts acts' : List α}

theorem Run.single {a : α} (h : step s a t) : Run step s [a] t := .cons h (.nil t)

theorem Run.append (h : Run step s acts m) (h' : Run step m acts' t) :
    Run step s (acts ++ acts') t := by
  induction h with
  | nil s => exact h'
  | cons hstep _ ih => exact .cons hstep (ih h')

theorem Run.mono_on (h : Run step s acts t)
    (hstep : ∀ s a t, a ∈ acts → step s a t → step' s a t) : Run step' s acts t := by
  induction h with
  | nil s => exact .nil s
  | cons hfirst _ ih =>
    apply Run.cons (hstep _ _ _ (by simp) hfirst)
    exact ih fun s a t ha => hstep s a t (by simp [ha])

/-- A run makes permitted steps only, or it comes to a first step that is not. -/
theorem Run.when_or (ok : σ → α → Prop) (h : Run step s acts t) :
    Run (When ok step) s acts t ∨ ∃ (before after : List α) (a : α) (m m' : σ),
      acts = before ++ a :: after ∧ Run (When ok step) s before m ∧ ¬ ok m a ∧ step m a m' ∧
        Run step m' after t := by
  induction h with
  | nil s => exact Or.inl (.nil s)
  | @cons s m t a acts hstep hrun ih =>
    by_cases hok : ok s a
    · have hfirst : When ok step s a m := ⟨hok, hstep⟩
      rcases ih with hrest | ⟨before, after, b, u, u', rfl, hbefore, hnot, hbad, hafter⟩
      · exact Or.inl (.cons hfirst hrest)
      · right
        exact ⟨a :: before, after, b, u, u', rfl, .cons hfirst hbefore, hnot, hbad, hafter⟩
    · right
      exact ⟨[], acts, a, s, m, rfl, .nil s, hok, hstep, hrun⟩

theorem Run.of_when {ok : σ → α → Prop} (h : Run (When ok step) s acts t) : Run step s acts t :=
  h.mono_on fun _ _ _ _ hstep => hstep.2

/-- Steps that are computed one after the other are a run. -/
theorem Run.of_foldlM {next : σ → α → Option σ} (h : acts.foldlM next s = some t) :
    Run (fun s a t => next s a = some t) s acts t := by
  induction acts generalizing s with
  | nil =>
    obtain rfl : s = t := Option.some.inj h
    exact .nil s
  | cons a acts ih =>
    rw [List.foldlM_cons] at h
    obtain ⟨m, hstep, hrest⟩ := Option.bind_eq_some_iff.mp h
    exact .cons hstep (ih hrest)

/-- What holds at the start and is kept by every step holds at the end. -/
theorem Run.invariant (h : Run step s acts t) (I : σ → Prop) (hstart : I s)
    (hkeep : ∀ s a t, I s → step s a t → I t) : I t := by
  induction h with
  | nil s => exact hstart
  | cons hstep _ ih => exact ih (hkeep _ _ _ hstart hstep)

/-- The same, where only the labels of the run have to keep it. -/
theorem Run.invariant_on (h : Run step s acts t) (I : σ → Prop) (hstart : I s)
    (hkeep : ∀ s a t, a ∈ acts → I s → step s a t → I t) : I t := by
  induction h with
  | nil s => exact hstart
  | cons hstep _ ih =>
    apply ih (hkeep _ _ _ (by simp) hstart hstep)
    exact fun s a t ha => hkeep s a t (by simp [ha])

/-- Where an invariant makes every step another one, a run is a run of those. -/
theorem Run.strengthen (h : Run step s acts t) (I : σ → Prop) (hstart : I s)
    (hstep : ∀ s a t, a ∈ acts → I s → step s a t → step' s a t ∧ I t) : Run step' s acts t := by
  induction h with
  | nil s => exact .nil s
  | cons hfirst _ ih =>
    obtain ⟨hother, hnext⟩ := hstep _ _ _ (by simp) hstart hfirst
    exact .cons hother (ih hnext fun s a t ha => hstep s a t (by simp [ha]))

section Members
variable {ι β : Type*} (member : σ → ι → β)

/-- A step that changes one member only has to be looked at there. -/
theorem forall_member {I : β → Prop} {o : ι} (hs : ∀ i, I (member s i))
    (hother : ∀ i, i ≠ o → member t i = member s i) (hown : I (member t o)) (i : ι) :
    I (member t i) := by
  by_cases hi : i = o
  · rw [hi]
    exact hown
  · rw [hother i hi]
    exact hs i

/-- What holds of each member at the start, and is kept by every step of its own. -/
theorem Run.member_invariant (h : Run step s acts t) (owner : α → ι) (I : β → Prop)
    (hstart : ∀ i, I (member s i))
    (hother : ∀ s a t i, step s a t → i ≠ owner a → member t i = member s i)
    (hkeep : ∀ s a t, I (member s (owner a)) → step s a t → I (member t (owner a))) (i : ι) :
    I (member t i) := by
  refine h.invariant (fun s => ∀ i, I (member s i)) hstart ?_ i
  intro s a t hs hstep
  exact forall_member member hs (fun i hi => hother s a t i hstep hi)
    (hkeep s a t (hs (owner a)) hstep)

end Members

/-- Steps with the labels of `own` lower a measure that no other step raises. -/
theorem Run.measure_le (h : Run step s acts t) (I : σ → Prop) (μ : σ → ℕ) (own : α → Bool)
    (hstart : I s) (hkeep : ∀ s a t, a ∈ acts → I s → step s a t → I t)
    (hown : ∀ s a t, a ∈ acts → I s → step s a t → own a = true → μ t < μ s)
    (hother : ∀ s a t, a ∈ acts → I s → step s a t → own a = false → μ t ≤ μ s) :
    acts.countP own+μ t ≤ μ s := by
  induction h with
  | nil s => simp
  | @cons s m t a acts hstep _ ih =>
    have hrest := ih (hkeep _ _ _ (by simp) hstart hstep)
      (fun s a t ha => hkeep s a t (by simp [ha])) (fun s a t ha => hown s a t (by simp [ha]))
      (fun s a t ha => hother s a t (by simp [ha]))
    cases ha : own a with
    | true =>
      have hlt := hown _ _ _ (by simp) hstart hstep ha
      rw [List.countP_cons_of_pos ha]
      omega
    | false =>
      have hle := hother _ _ _ (by simp) hstart hstep ha
      rw [List.countP_cons_of_neg (by simp [ha])]
      omega

section Observed
variable {τ β : Type*} {see : σ → α → List β}

/-- A run, with what is seen of its steps from outside. -/
inductive Observed (step : σ → α → σ → Prop) (see : σ → α → List β) :
    σ → List α → List β → σ → Prop
  | nil (s : σ) : Observed step see s [] [] s
  | cons {s m t : σ} {a : α} {acts : List α} {events : List β} (hstep : step s a m)
      (hrest : Observed step see m acts events t) :
      Observed step see s (a :: acts) (see s a ++ events) t

theorem Run.observed (see : σ → α → List β) (h : Run step s acts t) :
    ∃ events, Observed step see s acts events t := by
  induction h with
  | nil s => exact ⟨[], .nil s⟩
  | cons hstep _ ih =>
    obtain ⟨events, hrest⟩ := ih
    exact ⟨_, .cons hstep hrest⟩

theorem Observed.run {events : List β} (h : Observed step see s acts events t) :
    Run step s acts t := by
  induction h with
  | nil s => exact .nil s
  | cons hstep _ ih => exact .cons hstep ih

theorem Observed.append {events events' : List β} (h : Observed step see s acts events m)
    (h' : Observed step see m acts' events' t) :
    Observed step see s (acts ++ acts') (events ++ events') t := by
  induction h with
  | nil s => exact h'
  | cons hstep _ ih =>
    rw [List.append_assoc]
    exact .cons hstep (ih h')

/-- What holds at the start, with nothing seen yet, and is kept by every step and what it shows,
holds at the end. -/
theorem Observed.invariant {events : List β} (h : Observed step see s acts events t)
    (I : σ → List β → Prop) (hstart : I s [])
    (hkeep : ∀ s a t seen, I s seen → step s a t → I t (seen ++ see s a)) : I t events := by
  have hall : ∀ seen, I s seen → I t (seen ++ events) := by
    clear hstart
    induction h with
    | nil s =>
      intro seen hs
      rwa [List.append_nil]
    | cons hstep _ ih =>
      intro seen hs
      rw [← List.append_assoc]
      exact ih _ (hkeep _ _ _ _ hs hstep)
  exact hall [] hstart

/-- Nothing is seen of a run whose steps show nothing. -/
theorem Observed.of_quiet (h : Run step s acts t)
    (hstep : ∀ s a t, a ∈ acts → step s a t → step' s a t ∧ see s a = []) :
    Observed step' see s acts [] t := by
  induction h with
  | nil s => exact .nil s
  | @cons s m t a acts hfirst _ ih =>
    obtain ⟨hstep', hsee⟩ := hstep _ _ _ (by simp) hfirst
    have hrest := ih fun s a t ha => hstep s a t (by simp [ha])
    have hcons : Observed step' see s (a :: acts) (see s a ++ []) t := .cons hstep' hrest
    rwa [hsee] at hcons

/-- A step that is answered by a run of what it shows, from related states to related states,
makes every run show a run. -/
theorem Observed.simulate {other : τ → β → τ → Prop} {u : τ} {events : List β}
    (h : Observed step see s acts events t) (R : σ → τ → Prop) (hstart : R s u)
    (hstep : ∀ s a m u, R s u → step s a m → ∃ v, Run other u (see s a) v ∧ R m v) :
    ∃ v, Run other u events v ∧ R t v := by
  induction h generalizing u with
  | nil s => exact ⟨u, .nil u, hstart⟩
  | cons hfirst _ ih =>
    obtain ⟨m', hshown, hrelated⟩ := hstep _ _ _ _ hstart hfirst
    obtain ⟨v, hrest, hend⟩ := ih hrelated
    exact ⟨v, hshown.append hrest, hend⟩

end Observed

section Attempts
variable {stop P Q : σ → Prop} {labels labels' : List α}

/-- A run of these labels to a state with `P`, or of the first of them to one where it stops. -/
def Attempts (step : σ → α → σ → Prop) (stop : σ → Prop) (s : σ) (labels : List α)
    (P : σ → Prop) : Prop :=
  ∃ made t, made <+: labels ∧ Run step s made t ∧ (stop t ∨ made = labels ∧ P t)

theorem Attempts.done (h : P s) : Attempts step stop s [] P :=
  ⟨[], s, List.prefix_rfl, .nil s, Or.inr ⟨rfl, h⟩⟩

theorem Attempts.single {a : α} (h : step s a t) (hend : stop t ∨ P t) :
    Attempts step stop s [a] P :=
  ⟨[a], t, List.prefix_rfl, .single h, hend.imp_right fun ht => ⟨rfl, ht⟩⟩

theorem Attempts.append (h : Attempts step stop s labels P)
    (h' : ∀ m, P m → Attempts step stop m labels' Q) :
    Attempts step stop s (labels ++ labels') Q := by
  obtain ⟨made, m, hinitial, hrun, hstop | ⟨rfl, hm⟩⟩ := h
  · exact ⟨made, m, hinitial.trans (List.prefix_append _ _), hrun, Or.inl hstop⟩
  · obtain ⟨made', t, hinitial', hrun', hend⟩ := h' m hm
    refine ⟨made ++ made', t, ?_, hrun.append hrun', ?_⟩
    · exact (List.prefix_append_right_inj made).mpr hinitial'
    · rcases hend with hstop | ⟨rfl, ht⟩
      · exact Or.inl hstop
      · exact Or.inr ⟨rfl, ht⟩

theorem Attempts.cons {a : α} (hstep : step s a m) (hrest : Attempts step stop m labels P) :
    Attempts step stop s (a :: labels) P := by
  have hfirst : Attempts step stop s [a] (· = m) := .single hstep (Or.inr rfl)
  apply hfirst.append
  rintro _ rfl
  exact hrest

theorem Attempts.mono (h : Attempts step stop s labels P)
    (hP : ∀ made t, Run step s made t → P t → Q t) : Attempts step stop s labels Q := by
  obtain ⟨made, t, hinitial, hrun, hend⟩ := h
  exact ⟨made, t, hinitial, hrun, hend.imp_right fun ht => ⟨ht.1, hP _ _ hrun ht.2⟩⟩

/-- Where what each step shows can be attempted from every related state, what a run shows can
be, from the related start. -/
theorem Observed.attempts {τ β : Type*} {see : σ → α → List β} {other : τ → β → τ → Prop}
    {stop : τ → Prop} {u : τ} {events : List β} (h : Observed step see s acts events t)
    (R : σ → τ → Prop) (hstart : R s u)
    (hstep : ∀ s a m u, R s u → step s a m → Attempts other stop u (see s a) (R m)) :
    Attempts other stop u events (R t) := by
  induction h generalizing u with
  | nil s => exact .done hstart
  | cons hfirst _ ih => exact (hstep _ _ _ _ hstart hfirst).append fun v hv => ih hv

end Attempts

end Transition
