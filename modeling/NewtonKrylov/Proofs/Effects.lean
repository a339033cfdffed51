import Mathlib.Tactic.Lemma
import Mathlib.Tactic.SplitIfs
import NewtonKrylov.Error

/-!
# Computations that have effects and may fail

A computation that fails keeps what it has done so far, so a statement about its runs is about
failures as well. `Leads m s Q E` says that the run of `m` from `s` ends with a result and a state
that satisfy `Q`, or fails in a state that satisfies `E`. The rules for the parts of a computation
are equivalences, so that a statement about a computation unfolds to one about its parts.

Of several tests that are made in order the first failure counts: `FailsFirst`.
-/

namespace NewtonKrylov

variable {σ β γ : Type}

/-! ### Computations without effects -/

section Pure

variable {ε ι : Type}

@[simp] lemma ok_bind (b : β) (f : β → Except ε γ) : (Except.ok b >>= f) = f b := rfl

@[simp] lemma pure_eq_ok (b : β) : (pure b : Except ε β) = .ok b := rfl

lemma bind_eq_ok {x : Except ε β} {f : β → Except ε γ} {c : γ} :
    x >>= f = .ok c ↔ ∃ b, x = .ok b ∧ f b = .ok c := by
  cases x <;> simp [bind, Except.bind]

lemma bind_eq_error {x : Except ε β} {f : β → Except ε γ} {e : ε} :
    x >>= f = .error e ↔ x = .error e ∨ ∃ b, x = .ok b ∧ f b = .error e := by
  cases x <;> simp [bind, Except.bind]

lemma map_eq_ok {x : Except ε β} {f : β → γ} {c : γ} :
    x.map f = .ok c ↔ ∃ b, x = .ok b ∧ f b = c := by
  cases x <;> simp [Except.map]

lemma map_eq_error {x : Except ε β} {f : β → γ} {e : ε} :
    x.map f = .error e ↔ x = .error e := by
  cases x <;> simp [Except.map]

/-- Of items that are gone through in order, all before one pass, and this one fails with `e`. -/
def FailsFirst (passes : ι → Prop) (fails : ι → ε → Prop) (l : List ι) (e : ε) : Prop :=
  ∃ before i after, l = before ++ i :: after ∧ (∀ j ∈ before, passes j) ∧ fails i e

section FailsFirst

variable {passes : ι → Prop} {fails : ι → ε → Prop} {i : ι} {l : List ι} {e : ε}

lemma not_failsFirst_nil : ¬ FailsFirst passes fails [] e := by
  rintro ⟨before, i, after, split, -⟩
  cases before <;> cases split

lemma failsFirst_cons : FailsFirst passes fails (i :: l) e
    ↔ fails i e ∨ passes i ∧ FailsFirst passes fails l e := by
  constructor
  · rintro ⟨before, j, after, split, passed, failed⟩
    obtain ⟨rfl, same⟩ | ⟨before, rfl, rfl⟩ := List.cons_eq_append_iff.mp split
    · cases same
      exact .inl failed
    · obtain ⟨first, others⟩ := List.forall_mem_cons.mp passed
      exact .inr ⟨first, before, j, after, rfl, others, failed⟩
  · rintro (failed | ⟨first, before, j, after, rfl, passed, failed⟩)
    · exact ⟨[], i, l, rfl, by simp, failed⟩
    · exact ⟨i :: before, j, after, rfl, List.forall_mem_cons.mpr ⟨first, passed⟩, failed⟩

end FailsFirst

section Tests

variable {test : ι → Except ε Unit} {l : List ι} {e : ε}

/-- Tests made in order succeed if each of them does. -/
lemma forM_eq_ok : forM l test = .ok () ↔ ∀ i ∈ l, test i = .ok () := by
  induction l with
  | nil => simp
  | cons i l ih =>
    rw [List.forM_cons, bind_eq_ok, List.forall_mem_cons, ← ih]
    exact ⟨fun ⟨(), both⟩ => both, fun both => ⟨(), both⟩⟩

/-- Tests made in order fail as the first of them does that fails. -/
lemma forM_eq_error : forM l test = .error e
    ↔ FailsFirst (fun i => test i = .ok ()) (fun i e => test i = .error e) l e := by
  induction l with
  | nil => simp [not_failsFirst_nil]
  | cons i l ih =>
    rw [List.forM_cons, bind_eq_error, failsFirst_cons, ← ih]
    exact or_congr_right ⟨fun ⟨(), both⟩ => both, fun both => ⟨(), both⟩⟩

end Tests

end Pure

/-! ### Computations with a state -/

lemma stateM_bind (m : StateM σ β) (f : β → StateM σ γ) (s : σ) :
    (m >>= f) s = f (m s).1 (m s).2 := rfl

@[simp] lemma run_pure (b : β) (s : σ) :
    (pure b : ExceptT Error (StateM σ) β).run s = (.ok b, s) := rfl

/-- A computation goes on from where its first part ends. -/
lemma run_bind_of_ok {m : ExceptT Error (StateM σ) β} {f : β → ExceptT Error (StateM σ) γ} {s t : σ}
    {b : β} (run : m.run s = (.ok b, t)) : (m >>= f).run s = (f b).run t := by
  rw [ExceptT.run_bind, stateM_bind, run]

lemma run_bind_of_error {m : ExceptT Error (StateM σ) β} {f : β → ExceptT Error (StateM σ) γ}
    {s t : σ} {e : Error} (run : m.run s = (.error e, t)) : (m >>= f).run s = (.error e, t) := by
  rw [ExceptT.run_bind, stateM_bind, run]
  rfl

lemma run_map (f : β → γ) (m : ExceptT Error (StateM σ) β) (s : σ) :
    (f <$> m).run s = ((m.run s).1.map f, (m.run s).2) := by
  rw [ExceptT.run_map]
  rfl

@[simp] lemma run_get_bind (f : σ → ExceptT Error (StateM σ) γ) (s : σ) :
    ((get : ExceptT Error (StateM σ) σ) >>= f).run s = (f s).run s := rfl

@[simp] lemma run_set_bind (new : σ) (f : PUnit → ExceptT Error (StateM σ) γ) (s : σ) :
    ((set new : ExceptT Error (StateM σ) PUnit) >>= f).run s = (f ⟨⟩).run new := rfl

@[simp] lemma run_modify_bind (g : σ → σ) (f : PUnit → ExceptT Error (StateM σ) γ) (s : σ) :
    ((modify g : ExceptT Error (StateM σ) PUnit) >>= f).run s = (f ⟨⟩).run (g s) := rfl

lemma run_lift_bind {r : Except Error β} {b : β} (success : r = .ok b)
    (f : β → ExceptT Error (StateM σ) γ) (s : σ) :
    ((liftM r : ExceptT Error (StateM σ) β) >>= f).run s = (f b).run s := by
  rw [success]
  rfl

lemma run_lift_bind_of_error {r : Except Error β} {e : Error} (failure : r = .error e)
    (f : β → ExceptT Error (StateM σ) γ) (s : σ) :
    ((liftM r : ExceptT Error (StateM σ) β) >>= f).run s = (.error e, s) := by
  rw [failure]
  rfl

/-- The run of `m` from `s` leads to a result and a state with `Q`, or to a failure with `E`. -/
def Leads (m : ExceptT Error (StateM σ) β) (s : σ) (Q : β → σ → Prop) (E : σ → Prop) : Prop :=
  match m.run s with
  | (.ok b, t) => Q b t
  | (.error _, t) => E t

section Rules

variable {s : σ} {Q : β → σ → Prop} {E : σ → Prop}

lemma Leads.mono {m : ExceptT Error (StateM σ) β} {Q' : β → σ → Prop} {E' : σ → Prop}
    (leads : Leads m s Q E) (result : ∀ b t, Q b t → Q' b t) (failure : ∀ t, E t → E' t) :
    Leads m s Q' E' := by
  unfold Leads at *
  match run : m.run s with
  | (.ok b, t) => exact result b t (by rwa [run] at leads)
  | (.error _, t) => exact failure t (by rwa [run] at leads)

/-- What is known of a run is put together. The failures are described by either part alone. -/
lemma Leads.and {m : ExceptT Error (StateM σ) β} {R : β → σ → Prop} {E' : σ → Prop}
    (leads : Leads m s Q E) (also : Leads m s R E') : Leads m s (fun b t => Q b t ∧ R b t) E := by
  unfold Leads at *
  match run : m.run s with
  | (.ok b, t) => exact ⟨by rwa [run] at leads, by rwa [run] at also⟩
  | (.error _, t) => rwa [run] at leads

/-- A run leads to nothing but its own result. -/
lemma leads_run (m : ExceptT Error (StateM σ) β) :
    Leads m s (fun b t => m.run s = (.ok b, t)) fun _ => True := by
  unfold Leads
  match m.run s with
  | (.ok b, t) => exact rfl
  | (.error _, t) => trivial

/-- What is known of the result and the state of a run. -/
lemma Leads.of_run {m : ExceptT Error (StateM σ) β} {b : β} {t : σ} (run : m.run s = (.ok b, t))
    (holds : Q b t) : Leads m s Q E := by
  rwa [Leads, run]

/-- What a run that has ended with a result leads to. -/
lemma Leads.result {m : ExceptT Error (StateM σ) β} {b : β} {t : σ} (leads : Leads m s Q E)
    (run : m.run s = (.ok b, t)) : Q b t := by
  unfold Leads at leads
  rwa [run] at leads

/-- What a run that has failed leads to. -/
lemma Leads.failure {m : ExceptT Error (StateM σ) β} {e : Error} {t : σ} (leads : Leads m s Q E)
    (run : m.run s = (.error e, t)) : E t := by
  unfold Leads at leads
  rwa [run] at leads

/-- What a run leads to whether or not it fails. -/
lemma Leads.state {m : ExceptT Error (StateM σ) β} {P : σ → Prop}
    (leads : Leads m s (fun _ => P) P) : P (m.run s).2 := by
  unfold Leads at leads
  match run : m.run s with
  | (.ok _, t) => rwa [run] at leads
  | (.error _, t) => rwa [run] at leads

lemma leads_pure (b : β) : Leads (pure b) s Q E ↔ Q b s := Iff.rfl

lemma leads_bind (m : ExceptT Error (StateM σ) γ) (f : γ → ExceptT Error (StateM σ) β) :
    Leads (m >>= f) s Q E ↔ Leads m s (fun c t => Leads (f c) t Q E) E := by
  unfold Leads
  rw [ExceptT.run_bind, stateM_bind]
  match m.run s with
  | (.ok c, t) => exact Iff.rfl
  | (.error e, t) => exact Iff.rfl

lemma leads_get {Q : σ → σ → Prop} :
    Leads (get : ExceptT Error (StateM σ) σ) s Q E ↔ Q s s := Iff.rfl

lemma leads_modify {Q : PUnit → σ → Prop} (f : σ → σ) :
    Leads (modify f : ExceptT Error (StateM σ) PUnit) s Q E ↔ Q ⟨⟩ (f s) := Iff.rfl

lemma leads_set {Q : PUnit → σ → Prop} (t : σ) :
    Leads (set t : ExceptT Error (StateM σ) PUnit) s Q E ↔ Q ⟨⟩ t := Iff.rfl

/-- A computation without effects either fails at once or hands on its result. -/
lemma Leads.lift_bind {r : Except Error γ} {f : γ → ExceptT Error (StateM σ) β} (failure : E s)
    (rest : ∀ c, r = .ok c → Leads (f c) s Q E) : Leads (liftM r >>= f) s Q E := by
  cases r with
  | ok c => exact rest c rfl
  | error e => exact failure

lemma Leads.bind {m : ExceptT Error (StateM σ) γ} {f : γ → ExceptT Error (StateM σ) β}
    {R : γ → σ → Prop} (first : Leads m s R E) (rest : ∀ c t, R c t → Leads (f c) t Q E) :
    Leads (m >>= f) s Q E :=
  (leads_bind m f).mpr (first.mono rest fun _ => id)

/-- A computation without effects that is known not to fail. -/
lemma Leads.ok_bind {r : Except Error γ} {f : γ → ExceptT Error (StateM σ) β} {c : γ}
    (success : r = .ok c) (rest : Leads (f c) s Q E) : Leads (liftM r >>= f) s Q E := by
  subst success
  exact rest

/-! ### Computations that cannot fail -/

/-- A run that has no way to fail has a result. -/
lemma Leads.exists_ok {m : ExceptT Error (StateM σ) β} (leads : Leads m s Q fun _ => False) :
    ∃ b t, m.run s = (.ok b, t) ∧ Q b t := by
  unfold Leads at leads
  match run : m.run s with
  | (.ok b, t) => exact ⟨b, t, rfl, by rwa [run] at leads⟩
  | (.error _, t) => exact absurd leads (by simp [run])

end Rules

/-! ### Computations that do the same -/

/-- From the state `f s` the computation `m'` does what `m` does from `s`, and leaves what `f` makes
of the state that `m` leaves. -/
def Agree (m m' : ExceptT Error (StateM σ) β) (f : σ → σ) (s : σ) : Prop :=
  m'.run (f s) = ((m.run s).1, f (m.run s).2)

section Agreement

variable {f : σ → σ} {s : σ}

lemma Agree.refl (m : ExceptT Error (StateM σ) β) (s : σ) : Agree m m id s := rfl

lemma Agree.bind {m m' : ExceptT Error (StateM σ) γ} {k k' : γ → ExceptT Error (StateM σ) β}
    (first : Agree m m' f s) (rest : ∀ c t, m.run s = (.ok c, t) → Agree (k c) (k' c) f t) :
    Agree (m >>= k) (m' >>= k') f s := by
  unfold Agree at *
  rw [ExceptT.run_bind, ExceptT.run_bind, stateM_bind, stateM_bind, first]
  match run : m.run s with
  | (.ok c, t) => exact rest c t run
  | (.error e, t) => rfl

lemma Agree.lift_bind {r : Except Error γ} {k k' : γ → ExceptT Error (StateM σ) β}
    (rest : ∀ c, r = .ok c → Agree (k c) (k' c) f s) :
    Agree (liftM r >>= k) (liftM r >>= k') f s := by
  cases r with
  | ok c => exact rest c rfl
  | error e => rfl

lemma Agree.lift (r : Except Error β) :
    Agree (liftM r : ExceptT Error (StateM σ) β) (liftM r) f s := by
  cases r <;> rfl

lemma Agree.get_bind {k k' : σ → ExceptT Error (StateM σ) β} (rest : Agree (k s) (k' (f s)) f s) :
    Agree (get >>= k) (get >>= k') f s := rest

lemma Agree.set_bind {t t' : σ} {k k' : PUnit → ExceptT Error (StateM σ) β} (same : t' = f t)
    (rest : Agree (k ⟨⟩) (k' ⟨⟩) f t) : Agree (set t >>= k) (set t' >>= k') f s := by
  subst same
  exact rest

lemma Agree.modify {g : σ → σ} (commutes : g (f s) = f (g s)) :
    Agree (modify g : ExceptT Error (StateM σ) PUnit) (modify g) f s := by
  change (Except.ok PUnit.unit, g (f s)) = (Except.ok PUnit.unit, f (g s))
  rw [commutes]

end Agreement

/-! ### Computations on images -/

/-- From the state `f s` the computation `m'` comes to the image under `g` of what `m` comes to from
`s`, and leaves the image under `f` of the state that `m` leaves. It fails where `m` does, with the
same error. -/
def Mirrors {τ δ : Type} (g : β → δ) (f : σ → τ) (m : ExceptT Error (StateM σ) β)
    (m' : ExceptT Error (StateM τ) δ) (s : σ) : Prop :=
  m'.run (f s) = ((m.run s).1.map g, f (m.run s).2)

section Mirrors

variable {τ δ ε : Type} {f : σ → τ} {s : σ} {g : β → δ}

lemma Mirrors.pure {b : β} {d : δ} (image : d = g b) :
    Mirrors g f (Pure.pure b) (Pure.pure d) s := by
  subst image
  rfl

lemma Mirrors.bind {h : γ → ε} {m : ExceptT Error (StateM σ) γ} {m' : ExceptT Error (StateM τ) ε}
    {k : γ → ExceptT Error (StateM σ) β} {k' : ε → ExceptT Error (StateM τ) δ}
    (first : Mirrors h f m m' s)
    (rest : ∀ c t, m.run s = (.ok c, t) → Mirrors g f (k c) (k' (h c)) t) :
    Mirrors g f (m >>= k) (m' >>= k') s := by
  unfold Mirrors at *
  rw [ExceptT.run_bind, ExceptT.run_bind, stateM_bind, stateM_bind, first]
  match run : m.run s with
  | (.ok c, t) => exact rest c t run
  | (.error e, t) => rfl

lemma Mirrors.lift_bind {h : γ → ε} {r : Except Error γ} {r' : Except Error ε}
    {k : γ → ExceptT Error (StateM σ) β} {k' : ε → ExceptT Error (StateM τ) δ}
    (image : r' = r.map h) (rest : ∀ c, r = .ok c → Mirrors g f (k c) (k' (h c)) s) :
    Mirrors g f (liftM r >>= k) (liftM r' >>= k') s := by
  subst image
  cases r with
  | ok c => exact rest c rfl
  | error e => rfl

/-- A part without effects that both computations have in common. -/
lemma Mirrors.same_bind {r : Except Error γ} {k : γ → ExceptT Error (StateM σ) β}
    {k' : γ → ExceptT Error (StateM τ) δ} (rest : ∀ c, r = .ok c → Mirrors g f (k c) (k' c) s) :
    Mirrors g f (liftM r >>= k) (liftM r >>= k') s := by
  cases r with
  | ok c => exact rest c rfl
  | error e => rfl

/-- A part without effects that the second computation has on its own, and that does not fail. -/
lemma Mirrors.ok_bind {r' : Except Error ε} {c : ε} {m : ExceptT Error (StateM σ) β}
    {k' : ε → ExceptT Error (StateM τ) δ} (success : r' = .ok c) (rest : Mirrors g f m (k' c) s) :
    Mirrors g f m (liftM r' >>= k') s := by
  subst success
  exact rest

/-- The second computation may look at its state. -/
lemma Mirrors.look {m : ExceptT Error (StateM σ) β} {k' : τ → ExceptT Error (StateM τ) δ}
    (rest : Mirrors g f m (k' (f s)) s) : Mirrors g f m (get >>= k') s := rest

lemma Mirrors.get_bind {k : σ → ExceptT Error (StateM σ) β} {k' : τ → ExceptT Error (StateM τ) δ}
    (rest : Mirrors g f (k s) (k' (f s)) s) : Mirrors g f (get >>= k) (get >>= k') s := rest

lemma Mirrors.set_bind {t : σ} {t' : τ} {k : PUnit → ExceptT Error (StateM σ) β}
    {k' : PUnit → ExceptT Error (StateM τ) δ} (image : t' = f t)
    (rest : Mirrors g f (k ⟨⟩) (k' ⟨⟩) t) : Mirrors g f (set t >>= k) (set t' >>= k') s := by
  subst image
  exact rest

lemma Mirrors.modify_bind {u : σ → σ} {u' : τ → τ} {k : PUnit → ExceptT Error (StateM σ) β}
    {k' : PUnit → ExceptT Error (StateM τ) δ} (image : u' (f s) = f (u s))
    (rest : Mirrors g f (k ⟨⟩) (k' ⟨⟩) (u s)) :
    Mirrors g f (modify u >>= k) (modify u' >>= k') s := by
  unfold Mirrors at rest ⊢
  rw [run_modify_bind, run_modify_bind, image, rest]

end Mirrors

/-! ### Computations that cannot be told apart -/

/-- From `s` and from `t` two computations come to the same, and leave states related by `R`. -/
def Matches (R : σ → σ → Prop) (m m' : ExceptT Error (StateM σ) β) (s t : σ) : Prop :=
  (m.run s).1 = (m'.run t).1 ∧ R (m.run s).2 (m'.run t).2

section Matches

variable {R R' : σ → σ → Prop} {s t : σ}

lemma Matches.mono {m m' : ExceptT Error (StateM σ) β} (first : Matches R m m' s t)
    (weaker : ∀ s' t', R s' t' → R' s' t') : Matches R' m m' s t :=
  ⟨first.1, weaker _ _ first.2⟩

lemma Matches.pure (related : R s t) (b : β) :
    Matches R (Pure.pure b : ExceptT Error (StateM σ) β) (Pure.pure b) s t := ⟨rfl, related⟩

lemma Matches.throw (related : R s t) (e : Error) :
    Matches R (MonadExcept.throw e : ExceptT Error (StateM σ) β) (MonadExcept.throw e) s t :=
  ⟨rfl, related⟩

lemma Matches.lift (related : R s t) (r : Except Error β) :
    Matches R (liftM r : ExceptT Error (StateM σ) β) (liftM r) s t := by
  cases r <;> exact ⟨rfl, related⟩

lemma Matches.bind {m m' : ExceptT Error (StateM σ) γ} {k k' : γ → ExceptT Error (StateM σ) β}
    (first : Matches R m m' s t)
    (rest : ∀ c s' t', m.run s = (.ok c, s') → R s' t' → Matches R (k c) (k' c) s' t') :
    Matches R (m >>= k) (m' >>= k') s t := by
  obtain ⟨same, related⟩ := first
  unfold Matches
  rw [ExceptT.run_bind, ExceptT.run_bind, stateM_bind, stateM_bind]
  rcases run : m.run s with ⟨c, s'⟩
  rw [run] at same related
  generalize m'.run t = y at same related ⊢
  obtain ⟨c', t'⟩ := y
  obtain rfl : c = c' := same
  cases c with
  | ok c => exact rest c s' t' run related
  | error e => exact ⟨rfl, related⟩

lemma Matches.lift_bind {r : Except Error γ} {k k' : γ → ExceptT Error (StateM σ) β}
    (related : R s t) (rest : ∀ c, r = .ok c → Matches R (k c) (k' c) s t) :
    Matches R (liftM r >>= k) (liftM r >>= k') s t := by
  cases r with
  | ok c => exact rest c rfl
  | error e => exact ⟨rfl, related⟩

lemma Matches.get_bind {k k' : σ → ExceptT Error (StateM σ) β}
    (rest : Matches R (k s) (k' t) s t) : Matches R (get >>= k) (get >>= k') s t := rest

lemma Matches.set_bind {s' t' : σ} {k k' : PUnit → ExceptT Error (StateM σ) β}
    (rest : Matches R (k ⟨⟩) (k' ⟨⟩) s' t') : Matches R (set s' >>= k) (set t' >>= k') s t := rest

lemma Matches.modify_bind {g g' : σ → σ} {k k' : PUnit → ExceptT Error (StateM σ) β}
    (rest : Matches R (k ⟨⟩) (k' ⟨⟩) (g s) (g' t)) :
    Matches R (modify g >>= k) (modify g' >>= k') s t := rest

lemma Matches.modify {g : σ → σ} (related : R (g s) (g t)) :
    Matches R (modify g : ExceptT Error (StateM σ) PUnit) (modify g) s t := ⟨rfl, related⟩

end Matches

end NewtonKrylov
