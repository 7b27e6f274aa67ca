import Mathlib.Data.List.Basic

/-! Runs of a transition system.

A system is a step function that says where a label leads from a state, if it can
be taken there. A run takes a list of labels. Invariants are shown one step at a
time; they may speak of the labels taken so far, and of runs whose steps all meet
a condition on the state they start from. That some step can be taken is shown by
ranking what waits. -/
namespace Run

variable {S L : Type} (step : S → L → Option S)

/-- The state a list of labels leads to. -/
def run (s : S) : List L → Option S
  | [] => some s
  | l :: rest => (step s l).bind fun t => run t rest

/-- Every step of the run meets `cond` in the state it is taken from. -/
def Meets (cond : S → L → Prop) (s : S) : List L → Prop
  | [] => True
  | l :: rest => cond s l ∧ match step s l with
    | some t => Meets cond t rest
    | none => True

instance decidableMeets (cond : S → L → Prop) [∀ s l, Decidable (cond s l)] (s : S) :
    (labels : List L) → Decidable (Meets step cond s labels)
  | [] => .isTrue trivial
  | l :: rest => by
    have hrest : Decidable (match step s l with
        | some t => Meets step cond t rest
        | none => True) :=
      match step s l with
      | some t => decidableMeets cond t rest
      | none => .isTrue trivial
    exact inferInstanceAs (Decidable (_ ∧ _))

theorem run_cons {s t : S} {l : L} {rest : List L} :
    run step s (l :: rest) = some t ↔ ∃ u, step s l = some u ∧ run step u rest = some t := by
  simp only [run, Option.bind_eq_some_iff]

theorem run_append {s t : S} {first second : List L} :
    run step s (first ++ second) = some t ↔ ∃ u, run step s first = some u ∧ run step u second = some t := by
  induction first generalizing s with
  | nil => simp [run]
  | cons l rest ih =>
    simp only [List.cons_append, run_cons, ih]
    constructor
    · rintro ⟨v, hv, u, hu, ht⟩
      exact ⟨u, ⟨v, hv, hu⟩, ht⟩
    · rintro ⟨u, ⟨v, hv, hu⟩, ht⟩
      exact ⟨v, hv, u, hu, ht⟩

/-- Where every step of one system is a step of another, so is every run. -/
theorem run_simulated {T : Type} {step' : T → L → Option T} (f : S → T)
    (h : ∀ s l t, step s l = some t → step' (f s) l = some (f t)) {s t : S} {labels : List L}
    (hrun : run step s labels = some t) : run step' (f s) labels = some (f t) := by
  induction labels generalizing s with
  | nil =>
    cases hrun
    rfl
  | cons l rest ih =>
    obtain ⟨u, hu, hrest⟩ := (run_cons step).mp hrun
    exact (run_cons step').mpr ⟨f u, h s l u hu, ih hrest⟩

theorem Meets.trivial {s : S} (labels : List L) : Meets step (fun _ _ => True) s labels := by
  induction labels generalizing s with
  | nil => exact True.intro
  | cons l rest ih =>
    refine ⟨True.intro, ?_⟩
    cases step s l with
    | none => exact True.intro
    | some t => exact ih

/-- Two conditions at once, one of them on the labels alone. -/
theorem Meets.and {cond : S → L → Prop} {allowed : L → Prop} {s : S} {labels : List L}
    (h : Meets step cond s labels) (hallowed : ∀ l ∈ labels, allowed l) :
    Meets step (fun s l => cond s l ∧ allowed l) s labels := by
  induction labels generalizing s with
  | nil => trivial
  | cons l rest ih =>
    refine ⟨⟨h.1, hallowed l List.mem_cons_self⟩, ?_⟩
    have hrest := h.2
    cases hs : step s l with
    | none => trivial
    | some t =>
      rw [hs] at hrest
      exact ih hrest fun l' hl' => hallowed l' (List.mem_cons_of_mem l hl')

/-- The condition on a run, and on what comes after it. -/
theorem Meets.split {cond : S → L → Prop} {s t : S} {first second : List L}
    (h : Meets step cond s (first ++ second)) (hrun : run step s first = some t) :
    Meets step cond s first ∧ Meets step cond t second := by
  induction first generalizing s with
  | nil =>
    cases hrun
    exact ⟨True.intro, h⟩
  | cons l rest ih =>
    obtain ⟨u, hu, hrest⟩ := (run_cons step).mp hrun
    have hmeets := h.2
    simp only [hu] at hmeets
    obtain ⟨hfirst, hsecond⟩ := ih hmeets hrest
    refine ⟨⟨h.1, ?_⟩, hsecond⟩
    rw [hu]
    exact hfirst

/-- An invariant from the middle of a run on. -/
theorem invariant_from (cond : S → L → Prop) (Inv : List L → S → Prop)
    (hstep : ∀ past s l t, Inv past s → cond s l → step s l = some t → Inv (past ++ [l]) t)
    {s t : S} (past : List L) {labels : List L} (hs : Inv past s) (hmeets : Meets step cond s labels)
    (hrun : run step s labels = some t) : Inv (past ++ labels) t := by
  induction labels generalizing s past with
  | nil =>
    cases hrun
    rw [List.append_nil]
    exact hs
  | cons l rest ih =>
    obtain ⟨u, hu, hrest⟩ := (run_cons step).mp hrun
    have hu' := hstep past s l u hs hmeets.1 hu
    have hmeets' := hmeets.2
    rw [hu] at hmeets'
    rw [List.append_cons]
    exact ih _ hu' hmeets' hrest

/-- **Invariants**: what holds at the start and is kept by every step that meets
the condition holds after every run whose steps all meet it. -/
theorem invariant (cond : S → L → Prop) (Inv : List L → S → Prop)
    (hstep : ∀ past s l t, Inv past s → cond s l → step s l = some t → Inv (past ++ [l]) t)
    {s t : S} {labels : List L} (hs : Inv [] s) (hmeets : Meets step cond s labels)
    (hrun : run step s labels = some t) : Inv labels t :=
  invariant_from step cond Inv hstep [] hs hmeets hrun

/-! ### Traces -/

/-- What is seen of a run, one step after the other. -/
def trace {O : Type} (seen : S → L → List O) (s : S) : List L → List O
  | [] => []
  | l :: rest => seen s l ++ match step s l with
    | some t => trace seen t rest
    | none => []

section Trace
variable {O : Type} {seen : S → L → List O}

theorem trace_cons {s t : S} {l : L} (rest : List L) (hstep : step s l = some t) :
    trace step seen s (l :: rest) = seen s l ++ trace step seen t rest := by
  simp only [trace, hstep]

theorem trace_append {s t : S} {first : List L} (second : List L) (hrun : run step s first = some t) :
    trace step seen s (first ++ second) = trace step seen s first ++ trace step seen t second := by
  induction first generalizing s with
  | nil =>
    cases hrun
    rfl
  | cons l rest ih =>
    obtain ⟨u, hu, hrest⟩ := (run_cons step).mp hrun
    rw [List.cons_append, trace_cons step _ hu, trace_cons step _ hu, ih hrest, List.append_assoc]

/-- An invariant that speaks of what was seen. -/
theorem traced (cond : S → L → Prop) (seen : S → L → List O) (Inv : List O → S → Prop)
    (hstep : ∀ past s l t, Inv past s → cond s l → step s l = some t → Inv (past ++ seen s l) t) {s t : S}
    {labels : List L} (hs : Inv [] s) (hmeets : Meets step cond s labels) (hrun : run step s labels = some t) :
    Inv (trace step seen s labels) t := by
  suffices hfrom : ∀ past, Inv past s → Inv (past ++ trace step seen s labels) t from hfrom [] hs
  clear hs
  induction labels generalizing s with
  | nil =>
    cases hrun
    intro past hs
    exact (List.append_nil past).symm ▸ hs
  | cons l rest ih =>
    obtain ⟨u, hu, hrest⟩ := (run_cons step).mp hrun
    have hmeets' := hmeets.2
    rw [hu] at hmeets'
    intro past hs
    rw [trace_cons step rest hu, ← List.append_assoc]
    exact ih hmeets' hrest _ (hstep past s l u hs hmeets.1 hu)

/-- A condition on what is seen of each step is one on what is seen of the run. -/
theorem meets_iff_trace {cond : S → L → Prop} (P : O → Prop) (hcond : ∀ s l, cond s l ↔ ∀ o ∈ seen s l, P o) {s : S}
    (labels : List L) : Meets step cond s labels ↔ ∀ o ∈ trace step seen s labels, P o := by
  induction labels generalizing s with
  | nil => simp [Meets, trace]
  | cons l rest ih =>
    simp only [Meets, trace, hcond, List.forall_mem_append]
    cases step s l with
    | none => simp
    | some t => exact and_congr_right fun _ => ih

/-- **A queue**: what is taken from its head is what was put at its end, in that order, as far as it is
not in the queue. -/
theorem fifo (sends takes : S → L → List O) (queue : S → List O)
    (hstep : ∀ s l t, step s l = some t → takes s l ++ queue t = queue s ++ sends s l) {s t : S} {labels : List L}
    (hrun : run step s labels = some t) :
    trace step takes s labels ++ queue t = queue s ++ trace step sends s labels := by
  induction labels generalizing s with
  | nil =>
    cases hrun
    exact (List.append_nil _).symm
  | cons l rest ih =>
    obtain ⟨u, hu, hrest⟩ := (run_cons step).mp hrun
    rw [trace_cons step rest hu, trace_cons step rest hu, List.append_assoc, ih hrest, ← List.append_assoc,
      hstep s l u hu, List.append_assoc]

end Trace

/-- **A part of a system**: where every step of the whole is a list of steps of the part, a run of the
whole is a run of the part, with the labels in the order they come. -/
theorem projects {T M : Type} {step' : T → M → Option T} (part : S → T) (labels' : S → L → List M) (Inv : S → Prop)
    (hinv : ∀ s l t, Inv s → step s l = some t → Inv t)
    (hstep : ∀ s l t, Inv s → step s l = some t → run step' (part s) (labels' s l) = some (part t)) {s t : S}
    {labels : List L} (hs : Inv s) (hrun : run step s labels = some t) :
    run step' (part s) (trace step labels' s labels) = some (part t) := by
  induction labels generalizing s with
  | nil =>
    cases hrun
    rfl
  | cons l rest ih =>
    obtain ⟨u, hu, hrest⟩ := (run_cons step).mp hrun
    rw [trace_cons step rest hu]
    exact (run_append step').mpr ⟨part u, hstep s l u hs hu, ih (hinv s l u hs hu) hrest⟩

/-- **A change that no step notices**: where every step of a run goes the same way after the change, and
keeps it, so does the run. -/
theorem unnoticed (cond : S → L → Prop) (Inv : S → Prop) (change : S → S)
    (hinv : ∀ s l t, Inv s → cond s l → step s l = some t → Inv t)
    (hstep : ∀ s l, Inv s → cond s l → step (change s) l = (step s l).map change) {s : S} {labels : List L}
    (hs : Inv s) (hmeets : Meets step cond s labels) :
    run step (change s) labels = (run step s labels).map change := by
  induction labels generalizing s with
  | nil => rfl
  | cons l rest ih =>
    have hrest := hmeets.2
    simp only [run, hstep s l hs hmeets.1]
    cases ht : step s l with
    | none => rfl
    | some t =>
      rw [ht] at hrest
      exact ih (hinv s l t hs hmeets.1 ht) hrest

/-- **Refinement**: if every step of one system is matched by steps of another, in which the
same is seen, then every run of the one is matched by a run of the other. -/
theorem refines {T M O : Type} {step' : T → M → Option T} (R : S → T → Prop) (cond : S → L → Prop)
    (seen : S → L → List O) (seen' : T → M → List O)
    (hstep : ∀ s l s' t, R s t → cond s l → step s l = some s' → ∃ labels' t', run step' t labels' = some t' ∧
      R s' t' ∧ trace step' seen' t labels' = seen s l)
    {s s' : S} {t : T} (hs : R s t) {labels : List L} (hmeets : Meets step cond s labels)
    (hrun : run step s labels = some s') : ∃ labels' t', run step' t labels' = some t' ∧ R s' t' ∧
      trace step' seen' t labels' = trace step seen s labels := by
  induction labels generalizing s t with
  | nil =>
    cases hrun
    exact ⟨[], t, rfl, hs, rfl⟩
  | cons l rest ih =>
    obtain ⟨u, hu, hrest⟩ := (run_cons step).mp hrun
    obtain ⟨first, t₁, hfirst, hu', hseen₁⟩ := hstep s l u t hs hmeets.1 hu
    have hmeets' := hmeets.2
    rw [hu] at hmeets'
    obtain ⟨second, t₂, hsecond, hs', hseen₂⟩ := ih hu' hmeets' hrest
    refine ⟨first ++ second, t₂, (run_append step').mpr ⟨t₁, hfirst, hsecond⟩, hs', ?_⟩
    rw [trace_append step' second hfirst, hseen₁, hseen₂, trace_cons step rest hu]

/-! ### Waiting for an event -/

/-- **The first event that counts**: a system that takes every event, and that goes on waiting
until one is good or bad, gets somewhere exactly if the first of these is good, and what comes after
it leads there. -/
theorem awaits_iff {E : Type} (next : S → E → S) (Waits Goal : S → Prop) (good bad : E → Prop)
    (After : List E → Prop) (hwaits : ∀ s, Waits s → ¬ Goal s)
    (hstays : ∀ s e, Waits s → ¬ good e → ¬ bad e → Waits (next s e))
    (hbad : ∀ s e (rest : List E), Waits s → bad e → ¬ Goal (rest.foldl next (next s e)))
    (hafter : ∀ s e (rest : List E), Waits s → good e → (Goal (rest.foldl next (next s e)) ↔ After rest)) {s : S}
    (hs : Waits s) (events : List E) : Goal (events.foldl next s) ↔
      ∃ first e rest, events = first ++ e :: rest ∧ good e ∧ (∀ x ∈ first, ¬ good x ∧ ¬ bad x) ∧ After rest := by
  induction events generalizing s with
  | nil => simpa using hwaits s hs
  | cons x events ih =>
    rw [List.foldl_cons]
    by_cases hx : good x
    · rw [hafter s x events hs hx]
      constructor
      · intro h
        exact ⟨[], x, events, rfl, hx, by simp, h⟩
      · intro h
        obtain ⟨first, e, rest, heq, -, hfirst, h⟩ := h
        rcases List.cons_eq_append_iff.mp heq with ⟨rfl, htail⟩ | ⟨first, rfl, -⟩
        · cases htail
          exact h
        · exact absurd hx (hfirst x List.mem_cons_self).1
    · by_cases hx' : bad x
      · constructor
        · exact fun h => absurd h (hbad s x events hs hx')
        · intro h
          obtain ⟨first, e, rest, heq, he, hfirst, -⟩ := h
          rcases List.cons_eq_append_iff.mp heq with ⟨rfl, htail⟩ | ⟨first, rfl, -⟩
          · cases htail
            exact absurd he hx
          · exact absurd hx' (hfirst x List.mem_cons_self).2
      · rw [ih (hstays s x hs hx hx')]
        constructor
        · intro h
          obtain ⟨first, e, rest, rfl, he, hfirst, h⟩ := h
          refine ⟨x :: first, e, rest, rfl, he, ?_, h⟩
          intro y hy
          rcases List.mem_cons.mp hy with rfl | hy
          · exact ⟨hx, hx'⟩
          · exact hfirst y hy
        · intro h
          obtain ⟨first, e, rest, heq, he, hfirst, h⟩ := h
          rcases List.cons_eq_append_iff.mp heq with ⟨rfl, htail⟩ | ⟨first, rfl, htail⟩
          · cases htail
            exact absurd he hx
          · exact ⟨first, e, rest, htail, he, fun y hy => hfirst y (List.mem_cons_of_mem x hy), h⟩

/-! ### Deadlock -/

/-- **Waiting in ranks**: if every busy part can go on, or waits for a busy part of lower
rank, then some busy part can go on. -/
theorem goes_on {Part : Type} (rank : Part → Nat) {Busy GoesOn : Part → Prop}
    (hwaits : ∀ a, Busy a → GoesOn a ∨ ∃ b, Busy b ∧ rank b < rank a) {a : Part} (ha : Busy a) :
    ∃ b, Busy b ∧ GoesOn b := by
  induction hrank : rank a using Nat.strongRecOn generalizing a with
  | _ n ih =>
    rcases hwaits a ha with hgoes | ⟨b, hb, hlower⟩
    · exact ⟨a, ha, hgoes⟩
    · exact ih (rank b) (hrank ▸ hlower) hb rfl

end Run
