import CartBoot.Error

/-!
# How a run ends

An operation that can fail ends with an answer and a state, or with an error and
a state. `Ends` says what is so in either case, so one statement covers success,
failure, and what a failed operation leaves behind.

An operation composed of others is taken apart by the equations below; what is
left are the operations it calls, and for those their own `Ends` statement is
used through `Ends.mono`.
-/

namespace CartBoot

variable {ε σ α β : Type} {done : α → σ → Prop} {failed : ε → σ → Prop}

/-- What is so at the end of a run: `done` of its answer and state, or `failed` of its error and
state. -/
def Ends (r : EStateM.Result ε σ α) (done : α → σ → Prop) (failed : ε → σ → Prop) : Prop :=
  match r with
  | .ok a s => done a s
  | .error e s => failed e s

@[simp] theorem ends_ok {a : α} {s : σ} :
    Ends (.ok a s : EStateM.Result ε σ α) done failed ↔ done a s := Iff.rfl

@[simp] theorem ends_error {e : ε} {s : σ} :
    Ends (.error e s : EStateM.Result ε σ α) done failed ↔ failed e s := Iff.rfl

@[simp] theorem ends_pure {a : α} {s : σ} :
    Ends ((pure a : EStateM ε σ α) s) done failed ↔ done a s := Iff.rfl

@[simp] theorem ends_throw {e : ε} {s : σ} :
    Ends ((throw e : EStateM ε σ α) s) done failed ↔ failed e s := Iff.rfl

@[simp] theorem ends_get {done : σ → σ → Prop} {s : σ} :
    Ends ((get : EStateM ε σ σ) s) done failed ↔ done s s := Iff.rfl

@[simp] theorem ends_modify {done : PUnit → σ → Prop} {f : σ → σ} {s : σ} :
    Ends ((modify f : EStateM ε σ PUnit) s) done failed ↔ done () (f s) := Iff.rfl

/-- A sequence ends as its second part does after the first, or as its first part fails. -/
@[simp] theorem ends_bind {x : EStateM ε σ α} {f : α → EStateM ε σ β} {s : σ}
    {done : β → σ → Prop} :
    Ends ((x >>= f) s) done failed ↔ Ends (x s) (fun a t => Ends (f a t) done failed) failed := by
  show Ends (EStateM.bind x f s) done failed ↔ _
  unfold EStateM.bind
  cases x s <;> exact Iff.rfl

@[simp] theorem ends_discard {x : EStateM ε σ α} {s : σ} {done : PUnit → σ → Prop} :
    Ends ((discard x) s) done failed ↔ Ends (x s) (fun _ t => done () t) failed := by
  show Ends (EStateM.map (fun _ => PUnit.unit) x s) done failed ↔ _
  unfold EStateM.map
  cases x s <;> exact Iff.rfl

theorem word_of_lt {n : Nat} (h : n < wordLimit) : (word n : EStateM Error σ Nat) = pure n :=
  if_pos h

theorem word_of_not_lt {n : Nat} (h : ¬ n < wordLimit) :
    (word n : EStateM Error σ Nat) = throw .overflow :=
  if_neg h

/-- A number is taken as a word, or the run stops. -/
@[simp] theorem ends_word {n : Nat} {s : σ} {done : Nat → σ → Prop} {failed : Error → σ → Prop} :
    Ends (word n s) done failed ↔
      (n < wordLimit → done n s) ∧ (¬ n < wordLimit → failed .overflow s) := by
  unfold word
  by_cases h : n < wordLimit
  · simp [h]
  · simp [h]

namespace Ends

variable {r : EStateM.Result ε σ α} {done' : α → σ → Prop} {failed' : ε → σ → Prop}

theorem mono (h : Ends r done failed) (hd : ∀ a s, done a s → done' a s)
    (hf : ∀ e s, failed e s → failed' e s) : Ends r done' failed' := by
  cases r with
  | ok a s => exact hd a s h
  | error e s => exact hf e s h

/-- A run ends somehow. -/
theorem any (r : EStateM.Result ε σ α) : Ends r (fun _ _ => True) (fun _ _ => True) := by
  cases r <;> exact trivial

/-- Two things known of one run. -/
theorem and (h : Ends r done failed) (h' : Ends r done' failed') :
    Ends r (fun a s => done a s ∧ done' a s) (fun e s => failed e s ∧ failed' e s) := by
  cases r with
  | ok a s => exact ⟨h, h'⟩
  | error e s => exact ⟨h, h'⟩

theorem of_ok {a : α} {s : σ} (h : Ends r done failed) (hr : r = .ok a s) : done a s := by
  subst hr
  exact h

theorem of_error {e : ε} {s : σ} (h : Ends r done failed) (hr : r = .error e s) : failed e s := by
  subst hr
  exact h

theorem eq_error {e : ε} {s : σ}
    (h : Ends r (fun _ _ => False) fun e' t => e' = e ∧ t = s) : r = .error e s := by
  cases r with
  | ok a t => exact absurd h id
  | error e' t =>
      obtain ⟨rfl, rfl⟩ := h
      rfl

/-- A run that cannot fail has an answer. -/
theorem exists_ok (h : Ends r done failed) (hf : ∀ e s, ¬ failed e s) :
    ∃ a s, r = .ok a s ∧ done a s := by
  cases r with
  | ok a s => exact ⟨a, s, rfl, h⟩
  | error e s => exact absurd h (hf e s)

/-- A run that cannot succeed has an error. -/
theorem exists_error (h : Ends r done failed) (hd : ∀ a s, ¬ done a s) :
    ∃ e s, r = .error e s ∧ failed e s := by
  cases r with
  | ok a s => exact absurd h (hd a s)
  | error e s => exact ⟨e, s, rfl, h⟩

end Ends

end CartBoot
