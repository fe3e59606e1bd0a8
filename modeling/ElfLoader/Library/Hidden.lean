import ElfLoader.Library.Exec

/-! # Runs with a hidden part of the state

A concrete state holds more than an abstract one: a cache, a scratch buffer, a counter.
`x` hides that part when its visible effect is the run of `y`, from every concrete state
that satisfies an invariant.
-/

namespace Exec

variable {ε σ σ' α β γ : Type}

/-- The result, with the state mapped. -/
def mapState (view : σ' → σ) : EStateM.Result ε σ' α → EStateM.Result ε σ α
  | .ok a s => .ok a (view s)
  | .error e s => .error e (view s)

@[simp] theorem mapState_ok (view : σ' → σ) (a : α) (s : σ') :
    mapState view (.ok a s : EStateM.Result ε σ' α) = .ok a (view s) := rfl

@[simp] theorem mapState_error (view : σ' → σ) (e : ε) (s : σ') :
    mapState view (.error e s : EStateM.Result ε σ' α) = .error e (view s) := rfl

/-- What `view` shows of a run of `x` is the run of `y`, and `I` is kept. -/
structure Hides (view : σ' → σ) (I : σ' → Prop) (x : EStateM ε σ' α) (y : EStateM ε σ α) :
    Prop where
  result : ∀ s, I s → mapState view (x s) = y (view s)
  keeps : Keeps I x

/-- The same run on the concrete state. -/
def onView (view : σ' → σ) (set : σ → σ' → σ') (y : EStateM ε σ α) : EStateM ε σ' α := fun s =>
  match y (view s) with
  | .ok a t => .ok a (set t s)
  | .error e t => .error e (set t s)

namespace Hides

variable {view : σ' → σ} {I : σ' → Prop}

theorem pure (a : α) :
    Hides view I (pure a : EStateM ε σ' α) (pure a : EStateM ε σ α) :=
  ⟨fun _ _ => rfl, Keeps.pure a⟩

theorem throw (e : ε) :
    Hides view I (throw e : EStateM ε σ' α) (throw e : EStateM ε σ α) :=
  ⟨fun _ _ => rfl, Keeps.throw e⟩

theorem bind {x : EStateM ε σ' α} {y : EStateM ε σ α} {f : α → EStateM ε σ' β}
    {g : α → EStateM ε σ β} (hx : Hides view I x y) (hf : ∀ a, Hides view I (f a) (g a)) :
    Hides view I (x >>= f) (y >>= g) := by
  refine ⟨fun s hs => ?_, Keeps.bind hx.keeps fun a => (hf a).keeps⟩
  have hresult := hx.result s hs
  have hkeeps := hx.keeps s hs
  cases hrun : x s with
  | ok a t =>
      rw [hrun] at hresult hkeeps
      rw [bind_of_ok hrun, bind_of_ok hresult.symm]
      exact (hf a).result t hkeeps
  | error e t =>
      rw [hrun] at hresult
      rw [bind_of_error hrun, bind_of_error hresult.symm]
      rfl

theorem ite {c : Prop} [Decidable c] {x x' : EStateM ε σ' α} {y y' : EStateM ε σ α}
    (hx : Hides view I x y) (hx' : Hides view I x' y') :
    Hides view I (if c then x else x') (if c then y else y') := by
  split
  · exact hx
  · exact hx'

/-- A step of the hidden part alone, in front of a run. -/
theorem modify_bind {f : σ' → σ'} {x : EStateM ε σ' α} {y : EStateM ε σ α}
    (hview : ∀ s, view (f s) = view s) (hI : ∀ s, I s → I (f s)) (hx : Hides view I x y) :
    Hides view I (modify f >>= fun _ => x) y := by
  refine ⟨fun s hs => ?_, Keeps.bind (Keeps.modify hI) fun _ => hx.keeps⟩
  rw [bind_of_ok (modify_apply f s), hx.result (f s) (hI s hs), hview]

theorem onView {set : σ → σ' → σ'} (hview : ∀ t s, view (set t s) = t)
    (hI : ∀ t s, I s → I (set t s)) (y : EStateM ε σ α) :
    Hides view I (onView view set y) y := by
  constructor
  · intro s _
    unfold Exec.onView
    cases y (view s) with
    | ok a t => exact congrArg (EStateM.Result.ok a) (hview t s)
    | error e t => exact congrArg (EStateM.Result.error e) (hview t s)
  · intro s hs
    unfold Exec.onView
    cases y (view s) with
    | ok a t => exact hI t s hs
    | error e t => exact hI t s hs

/-- Two concrete states that look alike run alike. -/
theorem agree {x : EStateM ε σ' α} {y : EStateM ε σ α} (hx : Hides view I x y) {s s' : σ'}
    (hs : I s) (hs' : I s') (hview : view s = view s') :
    mapState view (x s) = mapState view (x s') := by
  rw [hx.result s hs, hx.result s' hs', hview]

end Hides

end Exec
