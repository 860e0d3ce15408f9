import Mathlib.Data.List.Forall2
import Mathlib.Data.List.Perm.Basic

/- Computations that may raise: how a bind that returned splits into its two
   halves, what a loop over a list (`mapM`) that returned has computed, and which
   errors a computation can raise at all. -/
namespace Lib
variable {ε α β : Type}

theorem bind_eq_ok {x : Except ε α} {f : α → Except ε β} {b : β} :
    (x >>= f) = .ok b ↔ ∃ a, x = .ok a ∧ f a = .ok b := by
  cases x with
  | error e => simp [bind, Except.bind]
  | ok a => simp [bind, Except.bind]

theorem bind_eq_error {x : Except ε α} {f : α → Except ε β} {e : ε} :
    (x >>= f) = .error e ↔ x = .error e ∨ ∃ a, x = .ok a ∧ f a = .error e := by
  cases x with
  | error e' => simp [bind, Except.bind]
  | ok a => simp [bind, Except.bind]

@[simp] theorem ok_bind (a : α) (f : α → Except ε β) : ((.ok a : Except ε α) >>= f) = f a := by
  simp only [bind, Except.bind]

@[simp] theorem error_bind (e : ε) (f : α → Except ε β) :
    ((.error e : Except ε α) >>= f) = .error e := by
  simp only [bind, Except.bind]

@[simp] theorem pure_eq_ok (a : α) : (pure a : Except ε α) = .ok a := rfl

@[simp] theorem throw_eq_error (e : ε) : (throw e : Except ε α) = .error e := rfl

theorem mapM_eq_ok {f : α → Except ε β} {xs : List α} {ys : List β} :
    xs.mapM f = .ok ys ↔ List.Forall₂ (fun x y => f x = .ok y) xs ys := by
  induction xs generalizing ys with
  | nil => simp [eq_comm]
  | cons x xs ih =>
    rw [List.mapM_cons, bind_eq_ok]
    constructor
    · rintro ⟨y, hy, h⟩
      obtain ⟨zs, hzs, h⟩ := bind_eq_ok.mp h
      cases h
      exact .cons hy (ih.mp hzs)
    · rintro (_ | ⟨hy, hys⟩)
      exact ⟨_, hy, bind_eq_ok.mpr ⟨_, ih.mpr hys, rfl⟩⟩

section Forall2
variable {R : α → β → Prop} {xs : List α} {ys : List β}

theorem forall₂_exists_right (h : List.Forall₂ R xs ys) {x : α} (hx : x ∈ xs) : ∃ y ∈ ys, R x y := by
  induction h with
  | nil => cases hx
  | cons hy _ ih =>
    rcases List.mem_cons.mp hx with rfl | hx
    · exact ⟨_, List.mem_cons_self, hy⟩
    · obtain ⟨y, hmem, hr⟩ := ih hx
      exact ⟨y, List.mem_cons_of_mem _ hmem, hr⟩

theorem forall₂_exists_left (h : List.Forall₂ R xs ys) {y : β} (hy : y ∈ ys) : ∃ x ∈ xs, R x y := by
  obtain ⟨x, hx, hr⟩ := forall₂_exists_right (List.Forall₂.flip h) hy
  exact ⟨x, hx, hr⟩

theorem forall₂_trans {γ : Type} {zs : List γ} {R' : β → γ → Prop} {R'' : α → γ → Prop}
    (h : List.Forall₂ R xs ys) (h' : List.Forall₂ R' ys zs)
    (htrans : ∀ x y z, R x y → R' y z → R'' x z) : List.Forall₂ R'' xs zs := by
  induction h generalizing zs with
  | nil =>
    cases h'
    exact .nil
  | cons hxy _ ih =>
    cases h' with
    | cons hyz hrest => exact .cons (htrans _ _ _ hxy hyz) (ih hrest)

theorem countP_eq_of_forall₂ {p : α → Bool} {q : β → Bool} (h : List.Forall₂ R xs ys)
    (hpq : ∀ x y, R x y → q y = p x) : ys.countP q = xs.countP p := by
  induction h with
  | nil => rfl
  | @cons x y _ _ hr _ ih => rw [List.countP_cons, List.countP_cons, hpq x y hr, ih]

theorem forall₂_getElem? (h : List.Forall₂ R xs ys) {j : Nat} {x : α} (hx : xs[j]? = some x) :
    ∃ y, ys[j]? = some y ∧ R x y := by
  induction h generalizing j with
  | nil => simp at hx
  | cons hr _ ih =>
    cases j with
    | zero =>
      rw [List.getElem?_cons_zero, Option.some.injEq] at hx
      subst hx
      exact ⟨_, rfl, hr⟩
    | succ j => exact ih hx

/-- Related lists have the same image when related elements do. -/
theorem map_eq_of_forall₂ {γ : Type} {f : α → γ} {g : β → γ} (h : List.Forall₂ R xs ys)
    (hfg : ∀ x ∈ xs, ∀ y, R x y → g y = f x) : ys.map g = xs.map f := by
  induction h with
  | nil => rfl
  | @cons x y _ _ hr _ ih =>
    rw [List.map_cons, List.map_cons, hfg x List.mem_cons_self y hr,
      ih fun z hz => hfg z (List.mem_cons_of_mem _ hz)]

theorem exists_right_of_map_eq {γ : Type} {f : α → γ} {g : β → γ} (h : List.Forall₂ R xs ys)
    (heq : ys.map g = xs.map f) {x : α} (hx : x ∈ xs) : ∃ y, R x y ∧ g y = f x := by
  induction h with
  | nil => cases hx
  | cons hr _ ih =>
    rw [List.map_cons, List.map_cons, List.cons.injEq] at heq
    rcases List.mem_cons.mp hx with rfl | hx
    · exact ⟨_, hr, heq.1⟩
    · exact ih heq.2 hx

end Forall2

theorem mapM_ok_mem {f : α → Except ε β} {xs : List α} {ys : List β} (h : xs.mapM f = .ok ys)
    {x : α} (hx : x ∈ xs) : ∃ y ∈ ys, f x = .ok y :=
  forall₂_exists_right (mapM_eq_ok.mp h) hx

theorem mapM_ok_mem_right {f : α → Except ε β} {xs : List α} {ys : List β} (h : xs.mapM f = .ok ys)
    {y : β} (hy : y ∈ ys) : ∃ x ∈ xs, f x = .ok y :=
  forall₂_exists_left (mapM_eq_ok.mp h) hy

theorem toOption_eq_some {x : Except ε α} {a : α} : x.toOption = some a ↔ x = .ok a := by
  cases x with
  | error e => simp [Except.toOption]
  | ok b => simp [Except.toOption]

/-- `x` returns a value: it does not raise. -/
def Returns (x : Except ε α) : Prop := ∃ a, x = .ok a

theorem Returns.ok (a : α) : Returns (.ok a : Except ε α) := ⟨a, rfl⟩

theorem Returns.of_isOk {x : Except ε α} (h : x.isOk = true) : Returns x := by
  cases x with
  | error e => cases h
  | ok a => exact .ok a

theorem Returns.bind {x : Except ε α} {f : α → Except ε β} (hx : Returns x)
    (hf : ∀ a, x = .ok a → Returns (f a)) : Returns (x >>= f) := by
  obtain ⟨a, rfl⟩ := hx
  exact hf a rfl

theorem mapM_returns {f : α → Except ε β} {xs : List α} (h : ∀ x ∈ xs, Returns (f x)) :
    Returns (xs.mapM f) := by
  induction xs with
  | nil => exact .ok []
  | cons x xs ih =>
    rw [List.mapM_cons]
    exact (h x List.mem_cons_self).bind fun y _ =>
      (ih fun z hz => h z (List.mem_cons_of_mem x hz)).bind fun ys _ => .ok (y :: ys)

/-- A loop whose every step returns what `g` says returns the list of those. -/
theorem mapM_ok_of {f : α → Except ε β} {g : α → β} {xs : List α}
    (h : ∀ x ∈ xs, f x = .ok (g x)) : xs.mapM f = .ok (xs.map g) := by
  rw [mapM_eq_ok]
  induction xs with
  | nil => exact .nil
  | cons x xs ih =>
    exact .cons (h x List.mem_cons_self) (ih fun y hy => h y (List.mem_cons_of_mem x hy))

/-- A loop over the same elements in another order returns the same results in another order. -/
theorem mapM_perm {f : α → Except ε β} {xs xs' : List α} {ys' : List β} (hperm : xs.Perm xs')
    (h : xs'.mapM f = .ok ys') : ∃ ys, xs.mapM f = .ok ys ∧ ys.Perm ys' := by
  obtain ⟨ys, hys, hperm⟩ := List.perm_comp_forall₂ hperm (mapM_eq_ok.mp h)
  exact ⟨ys, mapM_eq_ok.mpr hys, hperm⟩

/-- A loop over the images of a list is a loop over the list. -/
theorem mapM_map_ok {γ : Type} {f : β → Except ε γ} {g : α → β} {h : α → Except ε γ} {xs : List α}
    {ys : List γ} (hf : ∀ x ∈ xs, f (g x) = h x) (hys : xs.mapM h = .ok ys) :
    (xs.map g).mapM f = .ok ys := by
  rw [mapM_eq_ok] at hys ⊢
  rw [List.forall₂_map_left_iff]
  have hboth := (List.forall₂_and_left xs ys).mpr ⟨fun x (hx : x ∈ xs) => hx, hys⟩
  exact hboth.imp fun x y hxy => (hf x hxy.1).trans hxy.2

/-- A loop that returns each element with its result, when every step returns. -/
theorem exists_mapM_tagged {f : α → Except ε β} {xs : List α} (h : ∀ x ∈ xs, ∃ y, f x = .ok y) :
    ∃ ps, (xs.mapM fun x => do let y ← f x; pure (x, y)) = .ok ps ∧ ps.map Prod.fst = xs := by
  induction xs with
  | nil => exact ⟨[], rfl, rfl⟩
  | cons x xs ih =>
    obtain ⟨y, hy⟩ := h x List.mem_cons_self
    obtain ⟨ps, hps, hfst⟩ := ih fun z hz => h z (List.mem_cons_of_mem x hz)
    refine ⟨(x, y) :: ps, ?_, by simp [hfst]⟩
    rw [List.mapM_cons, hy, ok_bind, pure_eq_ok, ok_bind, hps, ok_bind]
    rfl

/-- Such a loop that returned holds the elements in order, each with its own result. -/
theorem of_mapM_tagged {f : α → Except ε β} {xs : List α} {ps : List (α × β)}
    (h : (xs.mapM fun x => do let y ← f x; pure (x, y)) = .ok ps) :
    ps.map Prod.fst = xs ∧ ∀ p ∈ ps, f p.1 = .ok p.2 := by
  have hstep : List.Forall₂ (fun x p => x = p.1 ∧ f p.1 = .ok p.2) xs ps := by
    refine (mapM_eq_ok.mp h).imp ?_
    intro x p hp
    obtain ⟨y, hy, hp⟩ := bind_eq_ok.mp hp
    cases hp
    exact ⟨rfl, hy⟩
  have hfst : ps.map Prod.fst = xs.map id := map_eq_of_forall₂ hstep fun _ _ _ hp => hp.1.symm
  refine ⟨hfst.trans xs.map_id, ?_⟩
  intro p hp
  obtain ⟨x, -, hx⟩ := forall₂_exists_left hstep hp
  exact hx.2

/-- A loop that threads a state returns when every step does. -/
theorem foldlM_returns {σ : Type} {f : σ → α → Except ε σ} {xs : List α}
    (h : ∀ s, ∀ x ∈ xs, Returns (f s x)) (s : σ) : Returns (xs.foldlM f s) := by
  induction xs generalizing s with
  | nil => exact .ok s
  | cons x xs ih =>
    rw [List.foldlM_cons]
    exact (h s x List.mem_cons_self).bind fun s' _ =>
      ih (fun t y hy => h t y (List.mem_cons_of_mem x hy)) s'

/-! What is raised, and what has to return for the whole to return. -/

/-- `x` raises nothing but what `P` describes. -/
def RaisesOnly (P : ε → Prop) (x : Except ε α) : Prop := ∀ e, x = .error e → P e

namespace RaisesOnly
variable {P : ε → Prop}

theorem ok (a : α) : RaisesOnly P (.ok a : Except ε α) := nofun

theorem error {e : ε} (h : P e) : RaisesOnly P (.error e : Except ε α) := by
  intro e' he
  cases he
  exact h

theorem bind {x : Except ε α} {f : α → Except ε β} (hx : RaisesOnly P x) (hf : ∀ a, RaisesOnly P (f a)) :
    RaisesOnly P (x >>= f) := by
  intro e he
  rcases bind_eq_error.mp he with h | ⟨a, -, h⟩
  · exact hx e h
  · exact hf a e h

theorem mapM {f : α → Except ε β} (hf : ∀ a, RaisesOnly P (f a)) (xs : List α) : RaisesOnly P (xs.mapM f) := by
  induction xs with
  | nil => exact ok []
  | cons x xs ih =>
    rw [List.mapM_cons]
    exact bind (hf x) fun y => bind ih fun ys => ok (y :: ys)

theorem mono {Q : ε → Prop} {x : Except ε α} (hx : RaisesOnly P x) (h : ∀ e, P e → Q e) : RaisesOnly Q x :=
  fun e he => h e (hx e he)

end RaisesOnly

/-- Where the rest returns or not whatever was computed, each half returns on its own account. -/
theorem returns_bind_iff {x : Except ε α} {f : α → Except ε β} {Q : Prop} (h : ∀ a, Returns (f a) ↔ Q) :
    Returns (x >>= f) ↔ Returns x ∧ Q := by
  constructor
  · intro hret
    obtain ⟨b, hb⟩ := hret
    obtain ⟨a, ha, hb⟩ := bind_eq_ok.mp hb
    exact ⟨⟨a, ha⟩, (h a).mp ⟨b, hb⟩⟩
  · intro hret
    exact hret.1.bind fun a _ => (h a).mpr hret.2

theorem mapM_returns_iff {f : α → Except ε β} {xs : List α} :
    Returns (xs.mapM f) ↔ ∀ x ∈ xs, Returns (f x) := by
  constructor
  · intro hret x hx
    obtain ⟨ys, hys⟩ := hret
    obtain ⟨y, -, hy⟩ := mapM_ok_mem hys hx
    exact ⟨y, hy⟩
  · exact mapM_returns

/-! Loops that may fail without a reason. -/

theorem mapM_option_eq_some {α β : Type} {f : α → Option β} {xs : List α} {ys : List β} :
    xs.mapM f = some ys ↔ List.Forall₂ (fun y x => f x = some y) ys xs := by
  induction xs generalizing ys with
  | nil => simp [eq_comm]
  | cons x xs ih =>
    simp only [List.mapM_cons, Option.bind_eq_bind, Option.bind_eq_some_iff, ih, Option.pure_def,
      Option.some.injEq, List.forall₂_cons_right_iff]
    constructor
    · rintro ⟨y, hy, ys, hys, rfl⟩
      exact ⟨y, ys, hy, hys, rfl⟩
    · rintro ⟨y, ys, hy, hys, rfl⟩
      exact ⟨y, hy, ys, hys, rfl⟩

theorem exists_mapM_option {α β : Type} {f : α → Option β} {xs : List α} (h : ∀ x ∈ xs, ∃ y, f x = some y) :
    ∃ ys, xs.mapM f = some ys := by
  induction xs with
  | nil => exact ⟨[], rfl⟩
  | cons x xs ih =>
    obtain ⟨y, hy⟩ := h x List.mem_cons_self
    obtain ⟨ys, hys⟩ := ih fun z hz => h z (List.mem_cons_of_mem x hz)
    exact ⟨y :: ys, by rw [List.mapM_cons, hy, hys]; rfl⟩

theorem mapM_some_of {α β : Type} {f : α → Option β} {g : α → β} {xs : List α}
    (h : ∀ x ∈ xs, f x = some (g x)) : xs.mapM f = some (xs.map g) := by
  induction xs with
  | nil => rfl
  | cons x xs ih =>
    rw [List.mapM_cons, h x List.mem_cons_self, ih fun y hy => h y (List.mem_cons_of_mem x hy)]
    rfl

end Lib
