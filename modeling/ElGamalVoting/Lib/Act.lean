import Mathlib.Data.List.Basic

/- Computations that change a state and may raise. A computation that raises keeps
   what it changed before, as a program with side effects does.

   `Keeps P m`: however `m` ends, `P` still holds. `Yields m s a s'`: from `s`
   the computation returns `a` and leaves `s'`. Both have a rule for each way to
   build a computation, and a loop that returns has one invariant, over the part of
   the list done so far. -/
namespace Lib

def Act (ε σ α : Type) : Type := σ → Except ε α × σ

instance {ε σ : Type} : Monad (Act ε σ) where
  pure a := fun s => (.ok a, s)
  bind m f := fun s =>
    match m s with
    | (.ok a, s') => f a s'
    | (.error e, s') => (.error e, s')

instance {ε σ : Type} : LawfulMonad (Act ε σ) := by
  refine LawfulMonad.mk' _ ?_ ?_ ?_
  · intro α m
    funext s
    show (match m s with | (.ok a, s') => (.ok a, s') | (.error e, s') => (.error e, s')) = m s
    rcases m s with ⟨_ | _, _⟩ <;> rfl
  · intro α β a f
    rfl
  · intro α β γ m f g
    funext s
    show (match (match m s with | (.ok a, s') => f a s' | (.error e, s') => (.error e, s')) with
        | (.ok b, s') => g b s' | (.error e, s') => (.error e, s')) =
      match m s with | (.ok a, s') => (f a >>= g) s' | (.error e, s') => (.error e, s')
    rcases m s with ⟨_ | _, _⟩ <;> rfl

namespace Act
variable {ε σ α : Type}

def raise (e : ε) : Act ε σ α := fun s => (.error e, s)

def state : Act ε σ σ := fun s => (.ok s, s)

def setState (s : σ) : Act ε σ Unit := fun _ => (.ok (), s)

/-- The handler `except Exception: ...` that goes on without a value. -/
def ignore (m : Act ε σ α) : Act ε σ Unit := fun s => (.ok (), (m s).2)

def ofExcept {ε' : Type} (f : ε' → ε) (x : Except ε' α) : Act ε σ α := fun s => (x.mapError f, s)

end Act

variable {ε σ α β ι : Type} {P : σ → Prop} {s s' : σ}

/-! ## What is kept -/

/-- However the computation ends, `P` still holds. -/
def Keeps (P : σ → Prop) (m : Act ε σ α) : Prop := ∀ s, P s → P (m s).2

namespace Keeps

theorem pure (a : α) : Keeps P (Pure.pure a : Act ε σ α) := fun _ hs => hs

theorem raise (e : ε) : Keeps P (Act.raise e : Act ε σ α) := fun _ hs => hs

theorem ofExcept {ε' : Type} (f : ε' → ε) (x : Except ε' α) : Keeps P (Act.ofExcept f x : Act ε σ α) :=
  fun _ hs => hs

theorem ignore {m : Act ε σ α} (h : Keeps P m) : Keeps P m.ignore := fun s hs => h s hs

theorem bind {m : Act ε σ α} {f : α → Act ε σ β} (hm : Keeps P m) (hf : ∀ a, Keeps P (f a)) :
    Keeps P (m >>= f) := by
  intro s hs
  have hkept := hm s hs
  show P (match m s with | (.ok a, s') => f a s' | (.error e, s') => (.error e, s')).2
  generalize m s = outcome at hkept
  obtain ⟨result, s'⟩ := outcome
  cases result with
  | ok a => exact hf a s' hkept
  | error e => exact hkept

/-- A computation that reads the state and goes on from it. -/
theorem withState {f : σ → Act ε σ β} (h : ∀ s, P s → P (f s s).2) : Keeps P (Act.state >>= f) :=
  fun s hs => h s hs

theorem read {f : σ → Act ε σ β} (h : ∀ s, Keeps P (f s)) : Keeps P (Act.state >>= f) :=
  fun s hs => h s s hs

theorem setState {s : σ} (h : P s) : Keeps P (Act.setState s : Act ε σ Unit) := fun _ _ => h

theorem forM {f : ι → Act ε σ PUnit} {l : List ι} (h : ∀ i ∈ l, Keeps P (f i)) : Keeps P (l.forM f) := by
  induction l with
  | nil => exact pure _
  | cons i l ih => exact bind (h i List.mem_cons_self) fun _ => ih fun j hj => h j (List.mem_cons_of_mem i hj)

theorem mapM {f : ι → Act ε σ α} {l : List ι} (h : ∀ i ∈ l, Keeps P (f i)) : Keeps P (l.mapM f) := by
  induction l with
  | nil => exact pure _
  | cons i l ih =>
    rw [List.mapM_cons]
    exact bind (h i List.mem_cons_self) fun _ =>
      bind (ih fun j hj => h j (List.mem_cons_of_mem i hj)) fun _ => pure _

end Keeps

/-! ## What is returned -/

/-- From `s` the computation returns `a` and leaves `s'`. -/
def Yields (m : Act ε σ α) (s : σ) (a : α) (s' : σ) : Prop := m s = (.ok a, s')

namespace Yields

theorem pure (a : α) (s : σ) : Yields (Pure.pure a : Act ε σ α) s a s := rfl

theorem bind {m : Act ε σ α} {f : α → Act ε σ β} {a : α} {b : β} {s'' : σ} (hm : Yields m s a s')
    (hf : Yields (f a) s' b s'') : Yields (m >>= f) s b s'' := by
  show (match m s with | (.ok a, s') => f a s' | (.error e, s') => (.error e, s')) = _
  rw [hm]
  exact hf

theorem withState {f : σ → Act ε σ β} {b : β} (h : Yields (f s) s b s') :
    Yields (Act.state >>= f) s b s' := h

theorem setState (s s' : σ) : Yields (Act.setState s' : Act ε σ Unit) s () s' := rfl

theorem ofExcept {ε' : Type} {f : ε' → ε} {x : Except ε' α} {a : α} (h : x = .ok a) (s : σ) :
    Yields (Act.ofExcept f x : Act ε σ α) s a s := by
  rw [h]
  rfl

/-- A loop whose every turn returns, with an invariant over the part of the list done. -/
theorem forM {f : ι → Act ε σ PUnit} {l : List ι} {I : List ι → σ → Prop}
    (hstep : ∀ done i rest s, l = done ++ i :: rest → I done s →
      ∃ s', Yields (f i) s ⟨⟩ s' ∧ I (done ++ [i]) s') (hs : I [] s) :
    ∃ s', Yields (l.forM f) s ⟨⟩ s' ∧ I l s' := by
  suffices hloop : ∀ (done rest : List ι) (s : σ), l = done ++ rest → I done s →
      ∃ s', Yields (rest.forM f) s ⟨⟩ s' ∧ I l s' from hloop [] l s rfl hs
  intro done rest
  induction rest generalizing done with
  | nil =>
    intro s hl hinv
    refine ⟨s, pure _ s, ?_⟩
    rwa [hl, List.append_nil]
  | cons i rest ih =>
    intro s hl hinv
    obtain ⟨s', hi, hinv'⟩ := hstep done i rest s hl hinv
    obtain ⟨s'', hrest, hend⟩ := ih (done ++ [i]) s' (by simp [hl]) hinv'
    exact ⟨s'', hi.bind hrest, hend⟩

/-- A loop that leaves one element out, where `Q` says for which elements the turn is done. -/
theorem forM_others [DecidableEq ι] {f : ι → Act ε σ PUnit} {l : List ι} (own : ι)
    {Q : (ι → Prop) → σ → Prop} (hmono : ∀ p p' s, (∀ j ∈ l, p' j → p j) → Q p s → Q p' s)
    (hown : ∀ p s, Q p s → Q (fun j => p j ∨ j = own) s)
    (hstep : ∀ p s, ∀ i ∈ l, i ≠ own → Q p s → ∃ s', Yields (f i) s ⟨⟩ s' ∧ Q (fun j => p j ∨ j = i) s')
    (hs : Q (fun _ => False) s) :
    ∃ s', Yields (l.forM fun i => if i = own then Pure.pure ⟨⟩ else f i) s ⟨⟩ s' ∧ Q (· ∈ l) s' := by
  refine forM (I := fun done => Q (· ∈ done)) ?_ (hmono _ _ s (by simp) hs)
  intro done i rest s hl h
  have hgrow : ∀ s, Q (fun j => j ∈ done ∨ j = i) s → Q (· ∈ done ++ [i]) s := fun s =>
    hmono _ _ s fun j _ hj => by simpa using hj
  by_cases hi : i = own
  · subst hi
    refine ⟨s, ?_, hgrow s (hown _ s h)⟩
    rw [if_pos rfl]
    exact pure _ s
  · obtain ⟨s', hrun, hs'⟩ := hstep _ s i (by simp [hl]) hi h
    refine ⟨s', ?_, hgrow s' hs'⟩
    rw [if_neg hi]
    exact hrun

/-- A loop that collects what its turns return. -/
theorem mapM {f : ι → Act ε σ α} {g : ι → α} {l : List ι} {I : List ι → σ → Prop}
    (hstep : ∀ done i rest s, l = done ++ i :: rest → I done s →
      ∃ s', Yields (f i) s (g i) s' ∧ I (done ++ [i]) s') (hs : I [] s) :
    ∃ s', Yields (l.mapM f) s (l.map g) s' ∧ I l s' := by
  suffices hloop : ∀ (done rest : List ι) (s : σ), l = done ++ rest → I done s →
      ∃ s', Yields (rest.mapM f) s (rest.map g) s' ∧ I l s' from hloop [] l s rfl hs
  intro done rest
  induction rest generalizing done with
  | nil =>
    intro s hl hinv
    refine ⟨s, pure _ s, ?_⟩
    rwa [hl, List.append_nil]
  | cons i rest ih =>
    intro s hl hinv
    obtain ⟨s', hi, hinv'⟩ := hstep done i rest s hl hinv
    obtain ⟨s'', hrest, hend⟩ := ih (done ++ [i]) s' (by simp [hl]) hinv'
    refine ⟨s'', ?_, hend⟩
    rw [List.mapM_cons, List.map_cons]
    exact hi.bind (hrest.bind (pure _ s''))

end Yields

/-- What follows a computation that returned runs from the state it left. -/
theorem Yields.bind_eq {m : Act ε σ α} {a : α} (h : Yields m s a s') (f : α → Act ε σ β) :
    (m >>= f) s = f a s' := by
  show (match m s with | (.ok a, s') => f a s' | (.error e, s') => (.error e, s')) = _
  rw [h]

/-! ## What is raised -/

def Raises (m : Act ε σ α) (s : σ) : Prop := ∃ e s', m s = (.error e, s')

namespace Raises

theorem ofExcept {ε' : Type} {f : ε' → ε} {x : Except ε' α} {e : ε'} (h : x = .error e) (s : σ) :
    Raises (Act.ofExcept f x : Act ε σ α) s := by
  rw [h]
  exact ⟨f e, s, rfl⟩

theorem bind {m : Act ε σ α} (h : Raises m s) (f : α → Act ε σ β) : Raises (m >>= f) s := by
  obtain ⟨e, s', hm⟩ := h
  refine ⟨e, s', ?_⟩
  show (match m s with | (.ok a, s') => f a s' | (.error e, s') => (.error e, s')) = _
  rw [hm]

theorem withState {f : σ → Act ε σ β} (h : Raises (f s) s) : Raises (Act.state >>= f) s := h

/-- Nothing is changed after what raised. -/
theorem bind_snd {m : Act ε σ α} (h : Raises m s) (f : α → Act ε σ β) : ((m >>= f) s).2 = (m s).2 := by
  obtain ⟨e, s', hm⟩ := h
  show (match m s with | (.ok a, s') => f a s' | (.error e, s') => (.error e, s')).2 = _
  rw [hm]

theorem after {m : Act ε σ α} {f : α → Act ε σ β} {a : α} (hm : Yields m s a s')
    (h : Raises (f a) s') : Raises (m >>= f) s := by
  obtain ⟨e, s'', hf⟩ := h
  exact ⟨e, s'', (hm.bind_eq f).trans hf⟩

end Raises

end Lib
