import CartBoot.Proofs.Ends

/-!
# Runs

A run performs operations one after the other. An operation that fails ends
nothing: the next one starts from the state that the failure left, as a caller's
would.

What every operation keeps holds at the end of every run. Two machines whose
operations match, answer for answer, match over whole runs.
-/

namespace CartBoot

variable {ε σ τ α β κ : Type}

theorem bind_of_ok {x : EStateM ε σ α} {f : α → EStateM ε σ β} {s t : σ} {a : α}
    (h : x s = .ok a t) : (x >>= f) s = f a t := by
  show EStateM.bind x f s = f a t
  unfold EStateM.bind
  rw [h]

theorem bind_of_error {x : EStateM ε σ α} {f : α → EStateM ε σ β} {s t : σ} {e : ε}
    (h : x s = .error e t) : (x >>= f) s = .error e t := by
  show EStateM.bind x f s = .error e t
  unfold EStateM.bind
  rw [h]

/-- The answer of an operation, and the state it leaves. -/
def outcome : EStateM.Result ε σ α → Except ε α × σ
  | .ok a s => (.ok a, s)
  | .error e s => (.error e, s)

/-- What a run leaves either way is so of the state it leaves. -/
theorem Ends.outcome {r : EStateM.Result ε σ α} {P : σ → Prop}
    (h : Ends r (fun _ t => P t) (fun _ t => P t)) : P (outcome r).2 := by
  cases r with
  | ok a s => exact h
  | error e s => exact h

/-- A sequence that only adds an answer leaves the state that its first part does. -/
theorem outcome_bind_pure (x : EStateM ε σ α) (b : β) (s : σ) :
    (outcome ((x >>= fun _ => pure b : EStateM ε σ β) s)).2 = (outcome (x s)).2 := by
  show (outcome (EStateM.bind x (fun _ => pure b) s)).2 = _
  unfold EStateM.bind
  cases x s <;> rfl

/-- Perform operations in order and collect their answers. -/
def runAll (step : κ → EStateM ε σ α) : List κ → σ → List (Except ε α) × σ
  | [], s => ([], s)
  | k :: ks, s =>
      let first := outcome (step k s)
      let rest := runAll step ks first.2
      (first.1 :: rest.1, rest.2)

theorem runAll_single (step : κ → EStateM ε σ α) (k : κ) (s : σ) :
    (runAll step [k] s).2 = (outcome (step k s)).2 := rfl

/-- One more operation at the end of a run. -/
theorem runAll_concat (step : κ → EStateM ε σ α) (ks : List κ) (k : κ) (s : σ) :
    (runAll step (ks ++ [k]) s).2 = (outcome (step k (runAll step ks s).2)).2 := by
  induction ks generalizing s with
  | nil => rfl
  | cons k' ks ih => exact ih _

/-- Every operation of a run is allowed in the state it finds. -/
def Admits (step : κ → EStateM ε σ α) (allowed : κ → σ → Prop) : List κ → σ → Prop
  | [], _ => True
  | k :: ks, s => allowed k s ∧ Admits step allowed ks (outcome (step k s)).2

/-- What is so of the operations of a run, wherever they are carried out, is allowed besides. -/
theorem Admits.and_mem {step : κ → EStateM ε σ α} {allowed : κ → σ → Prop} {P : κ → Prop}
    {ks : List κ} {s : σ} (h : Admits step allowed ks s) (hP : ∀ k ∈ ks, P k) :
    Admits step (fun k s => P k ∧ allowed k s) ks s := by
  induction ks generalizing s with
  | nil => trivial
  | cons k ks ih =>
      exact ⟨⟨hP k List.mem_cons_self, h.1⟩,
        ih h.2 fun k' hk' => hP k' (List.mem_cons_of_mem k hk')⟩

/-- What the operations of a run keep holds after it. -/
theorem runAll_invariant_of_mem {step : κ → EStateM ε σ α} {I : σ → Prop} {ks : List κ}
    (hstep : ∀ k ∈ ks, ∀ s, I s → Ends (step k s) (fun _ t => I t) (fun _ t => I t)) {s : σ}
    (hs : I s) : I (runAll step ks s).2 := by
  induction ks generalizing s with
  | nil => exact hs
  | cons k ks ih =>
      exact ih (fun k' hk' => hstep k' (List.mem_cons_of_mem k hk'))
        (hstep k List.mem_cons_self s hs).outcome

/-- An invariant holds after every run. -/
theorem runAll_invariant {step : κ → EStateM ε σ α} {I : σ → Prop}
    (hstep : ∀ k s, I s → Ends (step k s) (fun _ t => I t) (fun _ t => I t)) (ks : List κ) {s : σ}
    (hs : I s) : I (runAll step ks s).2 :=
  runAll_invariant_of_mem (fun k _ => hstep k) hs

/-! ## Matching runs -/

/-- Two operations give one answer and leave related states. -/
def Matches (R : σ → τ → Prop) (r : EStateM.Result ε σ α) (r' : EStateM.Result ε τ α) : Prop :=
  (outcome r).1 = (outcome r').1 ∧ R (outcome r).2 (outcome r').2

/-- Operations match if what is known of how they end leaves no other way. -/
theorem Matches.of_ends {R : σ → τ → Prop} {r : EStateM.Result ε σ α} {r' : EStateM.Result ε τ α}
    {done : α → σ → Prop} {failed : ε → σ → Prop} {done' : α → τ → Prop} {failed' : ε → τ → Prop}
    (h : Ends r done failed) (h' : Ends r' done' failed')
    (hok : ∀ a s b t, done a s → done' b t → a = b ∧ R s t)
    (hfail : ∀ e s e' t, failed e s → failed' e' t → e = e' ∧ R s t)
    (hmixed : ∀ a s e t, done a s → ¬ failed' e t) (hmixed' : ∀ e s a t, failed e s → ¬ done' a t) :
    Matches R r r' := by
  cases r with
  | ok a s =>
      cases r' with
      | ok b t =>
          rcases hok a s b t h h' with ⟨rfl, hR⟩
          exact ⟨rfl, hR⟩
      | error e t => exact absurd h' (hmixed a s e t h)
  | error e s =>
      cases r' with
      | ok a t => exact absurd h' (hmixed' e s a t h)
      | error e' t =>
          rcases hfail e s e' t h h' with ⟨rfl, hR⟩
          exact ⟨rfl, hR⟩

/-- What matches an operation with an answer has that answer. -/
theorem Matches.exists_ok {R : σ → τ → Prop} {r : EStateM.Result ε σ α} {a : α} {t : τ}
    (h : Matches R r (.ok a t)) : ∃ s, r = .ok a s ∧ R s t := by
  obtain ⟨hanswer, hstate⟩ := h
  cases r with
  | ok b s =>
      cases hanswer
      exact ⟨s, rfl, hstate⟩
  | error e s => cases hanswer

/-- What is known of the state on one side can be kept with the relation. -/
theorem Matches.and {R : σ → τ → Prop} {P : τ → Prop} {r : EStateM.Result ε σ α}
    {r' : EStateM.Result ε τ α} (h : Matches R r r') (hP : P (outcome r').2) :
    Matches (fun s t => R s t ∧ P t) r r' :=
  ⟨h.1, h.2, hP⟩

/-- Sequences match if their first parts do, which may relate the states more closely. -/
theorem Matches.bind_of {R Q : σ → τ → Prop} {x : EStateM ε σ α} {y : EStateM ε τ α}
    {f : α → EStateM ε σ β} {g : α → EStateM ε τ β} {s : σ} {t : τ} (h : Matches Q (x s) (y t))
    (hQ : ∀ s t, Q s t → R s t) (hf : ∀ a s t, Q s t → Matches R (f a s) (g a t)) :
    Matches R ((x >>= f) s) ((y >>= g) t) := by
  show Matches R (EStateM.bind x f s) (EStateM.bind y g t)
  obtain ⟨hanswer, hstate⟩ := h
  unfold EStateM.bind
  cases hx : x s with
  | ok a s' =>
      cases hy : y t with
      | ok b t' =>
          rw [hx, hy] at hanswer hstate
          cases hanswer
          exact hf _ _ _ hstate
      | error e t' =>
          rw [hx, hy] at hanswer
          cases hanswer
  | error e s' =>
      cases hy : y t with
      | ok b t' =>
          rw [hx, hy] at hanswer
          cases hanswer
      | error e' t' =>
          rw [hx, hy] at hanswer hstate
          cases hanswer
          exact ⟨rfl, hQ _ _ hstate⟩

theorem Matches.bind {R : σ → τ → Prop} {x : EStateM ε σ α} {y : EStateM ε τ α}
    {f : α → EStateM ε σ β} {g : α → EStateM ε τ β} {s : σ} {t : τ} (h : Matches R (x s) (y t))
    (hf : ∀ a s t, R s t → Matches R (f a s) (g a t)) : Matches R ((x >>= f) s) ((y >>= g) t) :=
  h.bind_of (fun _ _ h => h) hf

/-- **Machines that match step by step match over whole runs.** -/
theorem runAll_matches {R : σ → τ → Prop} {step : κ → EStateM ε σ α} {step' : κ → EStateM ε τ α}
    {allowed : κ → τ → Prop}
    (hstep : ∀ k s t, R s t → allowed k t → Matches R (step k s) (step' k t)) (ks : List κ) {s : σ}
    {t : τ} (hst : R s t) (hks : Admits step' allowed ks t) :
    (runAll step ks s).1 = (runAll step' ks t).1
      ∧ R (runAll step ks s).2 (runAll step' ks t).2 := by
  induction ks generalizing s t with
  | nil => exact ⟨rfl, hst⟩
  | cons k ks ih =>
      obtain ⟨hk, hks⟩ := hks
      obtain ⟨hanswer, hstate⟩ := hstep k s t hst hk
      obtain ⟨hanswers, hend⟩ := ih hstate hks
      exact ⟨List.cons_eq_cons.mpr ⟨hanswer, hanswers⟩, hend⟩

end CartBoot
