import Mathlib.Tactic.Common

/-!
# Triples for programs that can stop early

A program over a state `σ` that returns a value or stops with an `ε`. What it
has written stays when it stops.
-/
namespace Hoare

variable {σ ε α β : Type}

abbrev Program (σ ε α : Type) : Type := ExceptT ε (StateM σ) α

/-- The result of the program from a state, and the state it leaves. -/
def runFrom (x : Program σ ε α) (s : σ) : Except ε α × σ := x.run.run s

/-- From a state with `P` the program returns with `Q` or stops with `E`. -/
def Triple (P : σ → Prop) (x : Program σ ε α) (Q : α → σ → Prop) (E : ε → σ → Prop) : Prop :=
  ∀ s, P s → match runFrom x s with
    | (.ok a,after) => Q a after
    | (.error e,after) => E e after

theorem runFrom_bind (x : Program σ ε α) (f : α → Program σ ε β) (s : σ) : runFrom (x >>= f) s = match runFrom x s with
      | (.ok a,after) => runFrom (f a) after
      | (.error e,after) => (.error e,after) := by
  show (match x.run.run s with
    | (r,after) => (ExceptT.bindCont f r).run after) = _
  simp only [runFrom]
  cases x.run.run s with
  | mk r after =>
    cases r with
    | ok a => rfl
    | error e => rfl

variable {x : Program σ ε α} {after : σ}

theorem runFrom_bind_ok {f : α → Program σ ε β} {s : σ} {b : β} (done : runFrom (x >>= f) s = (.ok b,after)) :
    ∃ a middle, runFrom x s = (.ok a,middle) ∧ runFrom (f a) middle = (.ok b,after) := by
  rw [runFrom_bind] at done
  cases result : runFrom x s with
  | mk r middle =>
    rw [result] at done
    cases r with
    | ok a => exact ⟨a,middle,rfl,done⟩
    | error e => cases done

theorem runFrom_get_ok {s now : σ} (done : runFrom (get : Program σ ε σ) s = (.ok now,after)) : now = s ∧ after = s := by
  obtain ⟨same,rfl⟩ := Prod.mk.inj done
  exact ⟨(Except.ok.inj same).symm,rfl⟩

variable {P P' : σ → Prop} {Q Q' : α → σ → Prop} {E E' : ε → σ → Prop}

theorem Triple.pure {a : α} (holds : ∀ s, P s → Q a s) : Triple P (pure a) Q E := holds

theorem Triple.throw {e : ε} (holds : ∀ s, P s → E e s) : Triple P (throw e) Q E := holds

theorem Triple.set {Q : PUnit → σ → Prop} (holds : ∀ s, P s → Q ⟨⟩ after) : Triple P (set after) Q E := holds

theorem Triple.consequence (triple : Triple P x Q E) (before : ∀ s, P' s → P s)
    (returned : ∀ a s, Q a s → Q' a s) (stopped : ∀ e s, E e s → E' e s) : Triple P' x Q' E' := by
  intro s holds
  have done := triple s (before s holds)
  cases result : runFrom x s with
  | mk r after =>
    rw [result] at done
    cases r with
    | ok a => exact returned a after done
    | error e => exact stopped e after done

theorem Triple.before (triple : Triple P x Q E) (before : ∀ s, P' s → P s) : Triple P' x Q E :=
  triple.consequence before (fun _ _ => id) (fun _ _ => id)

theorem Triple.bind {f : α → Program σ ε β} {R : β → σ → Prop} (first : Triple P x Q E)
    (later : ∀ a, Triple (Q a) (f a) R E) : Triple P (x >>= f) R E := by
  intro s holds
  have done := first s holds
  rw [runFrom_bind]
  cases result : runFrom x s with
  | mk r after =>
    rw [result] at done
    cases r with
    | ok a => exact later a after done
    | error e => exact done

theorem Triple.read {f : σ → Program σ ε α} (body : ∀ s, P s → Triple (fun now => now = s) (f s) Q E) :
    Triple P (MonadState.get >>= f) Q E := by
  intro s holds
  rw [runFrom_bind]
  exact body s holds s rfl
theorem Triple.write (body : Triple (fun now => now = after) x Q E) : Triple P (MonadStateOf.set after >>= fun _ => x) Q E := by
  intro s _
  rw [runFrom_bind]
  exact body after rfl

theorem Triple.tryCatch {C : ε → σ → Prop} {handle : ε → Program σ ε α} (body : Triple P x Q C)
    (handled : ∀ e, Triple (C e) (handle e) Q E) : Triple P (tryCatch x handle) Q E := by
  intro s holds
  have done := body s holds
  have caught : runFrom (MonadExcept.tryCatch x handle) s = match runFrom x s with
      | (.ok a,after) => (.ok a,after)
      | (.error e,after) => runFrom (handle e) after := by
    show (match x.run.run s with
      | (r,after) => (match r with
          | .ok a => Pure.pure (Except.ok a)
          | .error e => (handle e).run : StateM σ (Except ε α)).run after) = _
    simp only [runFrom]
    cases x.run.run s with
    | mk r after =>
      cases r with
      | ok a => rfl
      | error e => rfl
  rw [caught]
  cases result : runFrom x s with
  | mk r after =>
    rw [result] at done
    cases r with
    | ok a => exact done
    | error e => exact handled e after done

theorem Triple.assume {fact : Prop} (triple : fact → Triple P x Q E) : Triple (fun s => fact ∧ P s) x Q E :=
  fun s holds => triple holds.1 s holds.2

theorem Triple.exists_ {γ : Type} {P : γ → σ → Prop} (triple : ∀ c, Triple (P c) x Q E) : Triple (fun s => ∃ c, P c s) x Q E :=
  fun s ⟨c,holds⟩ => triple c s holds

/-- However the program ends, the state that it leaves is one that `R` allows. -/
def Within (R : σ → σ → Prop) (x : Program σ ε α) : Prop := ∀ s, R s (runFrom x s).2

section Within
variable {R : σ → σ → Prop} [Std.Refl R] [Trans R R R]

omit [Trans R R R] in
theorem Within.pure (a : α) : Within R (Pure.pure a : Program σ ε α) := fun s => Std.Refl.refl s
omit [Trans R R R] in
theorem Within.throw (e : ε) : Within R (MonadExcept.throw e : Program σ ε α) := fun s => Std.Refl.refl s

variable {x : Program σ ε α}

omit [Std.Refl R] in
theorem Within.bind {f : α → Program σ ε β} (first : Within R x) (later : ∀ a, Within R (f a)) : Within R (x >>= f) := by
  intro s
  have done := first s
  rw [runFrom_bind]
  cases result : runFrom x s with
  | mk r after =>
    rw [result] at done
    cases r with
    | ok a => exact Trans.trans done (later a after)
    | error e => exact done

omit [Std.Refl R] [Trans R R R] in
theorem Within.read {f : σ → Program σ ε α} (body : ∀ s, R s (runFrom (f s) s).2) : Within R (MonadState.get >>= f) := by
  intro s
  rw [runFrom_bind]
  exact body s

omit [Std.Refl R] [Trans R R R] in
theorem Within.mono {R' : σ → σ → Prop} (within : Within R x) (weaker : ∀ s after, R s after → R' s after) : Within R' x :=
  fun s => weaker _ _ (within s)

omit [Std.Refl R] [Trans R R R] in
theorem Within.triple {F F' : σ → Prop} (within : Within R x)
    (carried : ∀ s after, R s after → F s → F' after) : Triple F x (fun _ => F') (fun _ => F') := by
  intro s known
  have moved := within s
  cases result : runFrom x s with
  | mk r after =>
    rw [result] at moved
    cases r with
    | ok a => exact carried s after moved known
    | error e => exact carried s after moved known

omit [Std.Refl R] [Trans R R R] in
theorem Triple.within {F F' : σ → Prop} (triple : Triple P x Q E) (within : Within R x)
    (carried : ∀ s after, R s after → F s → F' after) :
    Triple (fun s => P s ∧ F s) x (fun a s => Q a s ∧ F' s) E := by
  rintro s ⟨holds,known⟩
  have done := triple s holds
  have moved := within s
  cases result : runFrom x s with
  | mk r after =>
    rw [result] at done moved
    cases r with
    | ok a => exact ⟨done,carried s after moved known⟩
    | error e => exact done
end Within

end Hoare
