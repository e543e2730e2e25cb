import Mathlib.Data.List.Forall2

/-! Results of steps that may fail, one alone or in a walk over a list. -/

/-- In two lists that are related element by element, each element of the first has one of the second
that it is related to. -/
theorem List.Forall₂.exists_of_mem {α β : Type} {R : α → β → Prop} {xs : List α} {ys : List β}
    (all : List.Forall₂ R xs ys) {x : α} (member : x ∈ xs) : ∃ y ∈ ys, R x y := by
  induction all with
  | nil => cases member
  | @cons x' y' xs ys first _ ih =>
    rcases List.mem_cons.1 member with same | later
    · exact ⟨y', List.mem_cons_self, same ▸ first⟩
    · obtain ⟨y, inside, related⟩ := ih later
      exact ⟨y, List.mem_cons_of_mem _ inside, related⟩

/-- In two lists that are related element by element, neighbours in the first have neighbours in the second
that they are related to. -/
theorem List.Forall₂.exists_adjacent {α β : Type} {R : α → β → Prop} {xs : List α} {ys : List β}
    (all : List.Forall₂ R xs ys) {x x' : α} (adjacent : [x, x'] <:+: xs) :
    ∃ y y', [y, y'] <:+: ys ∧ R x y ∧ R x' y' := by
  induction all with
  | nil => cases List.infix_nil.1 adjacent
  | @cons a b xs ys first rest ih =>
    rcases List.infix_cons_iff.1 adjacent with front | later
    · obtain ⟨rfl, next⟩ := List.cons_prefix_cons.1 front
      cases rest with
      | nil => cases List.prefix_nil.1 next
      | @cons a' b' xs ys second _ =>
        obtain ⟨rfl, _⟩ := List.cons_prefix_cons.1 next
        exact ⟨b, b', (List.prefix_append [b, b'] ys).isInfix, first, second⟩
    · obtain ⟨y, y', inside, both⟩ := ih later
      exact ⟨y, y', List.infix_cons inside, both⟩

namespace Except

variable {ε α β : Type} {xs : List α}

theorem exists_ok {result : Except ε α}
    (done : result.toOption.isSome = true) : ∃ a, result = .ok a := by
  cases result with
  | ok a => exact ⟨a, rfl⟩
  | error e => cases done

/-- Two steps succeed just when the first does, and then the second with what it gave. -/
theorem bind_eq_ok_iff {x : Except ε α} {f : α → Except ε β} {b : β} :
    (x >>= f) = .ok b ↔ ∃ a, x = .ok a ∧ f a = .ok b := by
  cases x <;> simp [bind, Except.bind]

theorem map_eq_ok_iff {x : Except ε α} {f : α → β} {b : β} :
    f <$> x = .ok b ↔ ∃ a, x = .ok a ∧ f a = b := by
  cases x <;> simp [Functor.map, Except.map]

/-- A walk over a list succeeds just when each of its steps does. -/
theorem mapM_eq_ok {f : α → Except ε β} {ys : List β} :
    xs.mapM f = .ok ys ↔ List.Forall₂ (fun x y => f x = .ok y) xs ys := by
  induction xs generalizing ys with
  | nil =>
    rw [List.mapM_nil, List.forall₂_nil_left_iff]
    exact ⟨fun same => by cases same; rfl, fun same => by rw [same]; rfl⟩
  | cons x xs ih =>
    rw [List.mapM_cons, List.forall₂_cons_left_iff]
    simp only [bind, Except.bind, pure, Except.pure]
    -- The first failure is that of the whole, so all elements succeed or none counts.
    cases first : f x with
    | error e => simp
    | ok y =>
      cases rest : xs.mapM f with
      | error e =>
        simp only [reduceCtorEq, Except.ok.injEq, false_iff, not_exists, not_and]
        rintro _ ys' _ all
        rw [ih.2 all] at rest
        cases rest
      | ok ys' =>
        simp only [Except.ok.injEq, ← ih, rest]
        constructor
        · rintro rfl
          exact ⟨y, ys', rfl, rfl, rfl⟩
        · rintro ⟨_, _, rfl, rfl, rfl⟩
          rfl

/-- Walks over a list that take the same steps come to the same. -/
theorem mapM_congr {f g : α → Except ε β} (same : ∀ x ∈ xs, f x = g x) : xs.mapM f = xs.mapM g := by
  induction xs with
  | nil => rfl
  | cons x xs ih =>
    rw [List.forall_mem_cons] at same
    rw [List.mapM_cons, List.mapM_cons, same.1, ih same.2]

theorem forM_eq_ok {f : α → Except ε PUnit} :
    xs.forM f = .ok ⟨⟩ ↔ ∀ x ∈ xs, f x = .ok ⟨⟩ := by
  induction xs with
  | nil => exact iff_of_true rfl fun _ inside => nomatch inside
  | cons x xs ih =>
    rw [List.forall_mem_cons, ← ih]
    change (f x >>= fun _ => xs.forM f) = _ ↔ _
    simp only [bind, Except.bind]
    cases f x <;> simp

/-- What a step of a walk over a list gives is among the results. -/
theorem exists_of_mapM {f : α → Except ε β} {ys : List β}
    (ran : xs.mapM f = .ok ys) {x : α} (member : x ∈ xs) : ∃ y ∈ ys, f x = .ok y :=
  (mapM_eq_ok.1 ran).exists_of_mem member

/-- Each result of a walk over a list is what some step gives. -/
theorem mem_of_mapM {f : α → Except ε β} {ys : List β} (ran : xs.mapM f = .ok ys) {y : β}
    (member : y ∈ ys) : ∃ x ∈ xs, f x = .ok y :=
  (mapM_eq_ok.1 ran).flip.exists_of_mem member

/-- A walk over a list is had if each of its steps is. -/
theorem exists_mapM {f : α → Except ε β} (each : ∀ x ∈ xs, ∃ y, f x = .ok y) :
    ∃ ys, xs.mapM f = .ok ys := by
  induction xs with
  | nil => exact ⟨[], rfl⟩
  | cons x xs ih =>
    rw [List.forall_mem_cons] at each
    obtain ⟨y, first⟩ := each.1
    obtain ⟨ys, rest⟩ := ih each.2
    exact ⟨y :: ys, mapM_eq_ok.2 (.cons first (mapM_eq_ok.1 rest))⟩

end Except

namespace EStateM

variable {ε σ α β : Type} {x : EStateM ε σ α} {s s' : σ}

/-- Two steps succeed just when the first does, and then the second from where it led to. -/
theorem bind_eq_ok_iff {f : α → EStateM ε σ β} {b : β} :
    (x >>= f) s = .ok b s' ↔ ∃ a s₁, x s = .ok a s₁ ∧ f a s₁ = .ok b s' := by
  simp only [bind, EStateM.bind]
  cases x s <;> simp

/-- Two steps fail just when the first does, or when it succeeds and the second fails from where it
led to. -/
theorem bind_eq_error_iff {f : α → EStateM ε σ β} {e : ε} :
    (x >>= f) s = .error e s' ↔
      x s = .error e s' ∨ ∃ a s₁, x s = .ok a s₁ ∧ f a s₁ = .error e s' := by
  simp only [bind, EStateM.bind]
  cases x s <;> simp

/-- Where the first of two steps succeeds, the second goes on from where it led to. -/
theorem bind_of_ok {a : α} (ran : x s = .ok a s') (f : α → EStateM ε σ β) :
    (x >>= f) s = f a s' := by
  simp only [bind, EStateM.bind, ran]

/-- Where the first of two steps fails, both do. -/
theorem bind_of_error {e : ε} (failed : x s = .error e s') (f : α → EStateM ε σ β) :
    (x >>= f) s = .error e s' := by
  simp only [bind, EStateM.bind, failed]

theorem bind_get (f : σ → EStateM ε σ β) : (get >>= f) s = f s s := rfl

theorem discard_eq_bind (x : EStateM ε σ α) : discard x = x >>= fun _ => pure () := by
  funext s
  simp only [discard, Functor.discard, Functor.mapConst, EStateM.map, Function.comp, bind, EStateM.bind]
  cases x s <;> rfl

theorem discard_eq_ok_iff : (discard x) s = .ok () s' ↔ ∃ a, x s = .ok a s' := by
  simp only [discard, Functor.discard, Functor.mapConst, EStateM.map, Function.comp]
  cases x s <;> simp

theorem pure_eq_ok_iff {a b : α} :
    (pure a : EStateM ε σ α) s = .ok b s' ↔ a = b ∧ s = s' := by
  simp [pure, EStateM.pure]

theorem tryCatch_of_ok {a : α} (ran : x s = .ok a s') (handle : ε → EStateM ε σ α) :
    tryCatch x handle s = .ok a s' := by
  simp only [tryCatch, tryCatchThe, MonadExceptOf.tryCatch, EStateM.tryCatch, ran]

theorem tryCatch_of_error {e : ε} (failed : x s = .error e s') (handle : ε → EStateM ε σ α) :
    tryCatch x handle s = handle e s' := by
  simp only [tryCatch, tryCatchThe, MonadExceptOf.tryCatch, EStateM.tryCatch, failed]
  rfl

/-- A run succeeds in a way that a test accepts. -/
def comesTo (x : EStateM ε σ α) (s : σ) (p : α → σ → Bool) : Bool :=
  match x s with
  | .ok a s' => p a s'
  | .error _ _ => false

theorem exists_ok {p : α → σ → Bool} (done : x.comesTo s p = true) :
    ∃ a s', x s = .ok a s' ∧ p a s' = true := by
  unfold comesTo at done
  cases ran : x s with
  | ok a s' =>
    rw [ran] at done
    exact ⟨a, s', rfl, done⟩
  | error e s' =>
    rw [ran] at done
    cases done

/-- A run fails in a way that a test accepts. -/
def breaksAt (x : EStateM ε σ α) (s : σ) (p : ε → σ → Bool) : Bool :=
  match x s with
  | .ok _ _ => false
  | .error e s' => p e s'

theorem exists_error {p : ε → σ → Bool} (done : x.breaksAt s p = true) :
    ∃ e s', x s = .error e s' ∧ p e s' = true := by
  unfold breaksAt at done
  cases ran : x s with
  | ok a s' =>
    rw [ran] at done
    cases done
  | error e s' =>
    rw [ran] at done
    exact ⟨e, s', rfl, done⟩

end EStateM
