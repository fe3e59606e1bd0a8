import Mathlib.Data.List.Basic
import Mathlib.Tactic.Basic

/-! # Stateful computations that may stop early

A computation of `EStateM ε σ` either returns a value or stops with a reason in
`ε`; the state survives in both cases, so effects performed before a stop stay
observable. The lemmas here take a finished run apart at its binds and lift a
one-step invariant through a loop over a list.
-/

namespace Exec

variable {ε σ α β γ : Type}

/-- The state a run ends in, whether it returned or stopped. -/
def finalState : EStateM.Result ε σ α → σ
  | .ok _ s => s
  | .error _ s => s

@[simp] theorem finalState_ok (a : α) (s : σ) :
    finalState (EStateM.Result.ok a s : EStateM.Result ε σ α) = s := rfl

@[simp] theorem finalState_error (e : ε) (s : σ) :
    finalState (EStateM.Result.error e s : EStateM.Result ε σ α) = s := rfl

/-- The run returned a value. -/
def returned : EStateM.Result ε σ α → Bool
  | .ok _ _ => true
  | .error _ _ => false

theorem exists_of_returned {r : EStateM.Result ε σ α} (h : returned r = true) :
    ∃ a s, r = .ok a s := by
  cases r with
  | ok a s => exact ⟨a, s, rfl⟩
  | error e s => cases h

theorem bind_ok_iff {x : EStateM ε σ α} {f : α → EStateM ε σ β} {s s' : σ} {b : β} :
    (x >>= f) s = .ok b s' ↔ ∃ a s₁, x s = .ok a s₁ ∧ f a s₁ = .ok b s' := by
  change EStateM.bind x f s = .ok b s' ↔ _
  unfold EStateM.bind
  cases x s with
  | ok a s₁ => simp
  | error e s₁ => simp

theorem bind_of_ok {x : EStateM ε σ α} {f : α → EStateM ε σ β} {s s₁ : σ} {a : α}
    (h : x s = .ok a s₁) : (x >>= f) s = f a s₁ := by
  change EStateM.bind x f s = _
  simp [EStateM.bind, h]

theorem bind_of_error {x : EStateM ε σ α} {f : α → EStateM ε σ β} {s s₁ : σ} {e : ε}
    (h : x s = .error e s₁) : (x >>= f) s = .error e s₁ := by
  change EStateM.bind x f s = _
  simp [EStateM.bind, h]

@[simp] theorem pure_apply (a : α) (s : σ) : (pure a : EStateM ε σ α) s = .ok a s := rfl

@[simp] theorem throw_apply (e : ε) (s : σ) :
    (throw e : EStateM ε σ α) s = .error e s := rfl

@[simp] theorem modify_apply (f : σ → σ) (s : σ) :
    (modify f : EStateM ε σ PUnit) s = .ok () (f s) := rfl

@[simp] theorem get_apply (s : σ) : (get : EStateM ε σ σ) s = .ok s s := rfl

theorem except_bind_ok_iff {x : Except ε α} {f : α → Except ε β} {b : β} :
    (x >>= f) = .ok b ↔ ∃ a, x = .ok a ∧ f a = .ok b := by
  cases x with
  | ok a => simp [bind, Except.bind]
  | error e => simp [bind, Except.bind]

theorem except_map_ok_iff {x : Except ε α} {f : α → β} {b : β} :
    x.map f = .ok b ↔ ∃ a, x = .ok a ∧ f a = b := by
  cases x with
  | ok a => simp [Except.map]
  | error e => simp [Except.map]

/-- A traversal returns related results exactly when every element has one. -/
theorem except_mapM_forall₂_iff {f : α → Except ε β} {R : α → β → Prop} {xs : List α} :
    (∃ ys, xs.mapM f = .ok ys ∧ List.Forall₂ R xs ys) ↔ ∀ x ∈ xs, ∃ y, f x = .ok y ∧ R x y := by
  induction xs with
  | nil => exact ⟨fun _ x hx => absurd hx List.not_mem_nil, fun _ => ⟨[], rfl, .nil⟩⟩
  | cons x xs ih =>
      rw [List.forall_mem_cons, ← ih]
      constructor
      · rintro ⟨ys, hys, hrel⟩
        rw [List.mapM_cons] at hys
        obtain ⟨y, hy, hrest⟩ := except_bind_ok_iff.mp hys
        obtain ⟨zs, hzs, hret⟩ := except_bind_ok_iff.mp hrest
        cases hret
        cases hrel with
        | cons hhead htail => exact ⟨⟨y, hy, hhead⟩, zs, hzs, htail⟩
      · rintro ⟨⟨y, hy, hhead⟩, ys, hys, htail⟩
        refine ⟨y :: ys, ?_, .cons hhead htail⟩
        rw [List.mapM_cons, hy, hys]
        rfl

/-- A pure partial computation seen as one that leaves the state alone. -/
def lift (r : Except ε α) : EStateM ε σ α := fun s =>
  match r with
  | .ok a => .ok a s
  | .error e => .error e s

@[simp] theorem lift_ok (a : α) (s : σ) : (lift (.ok a) : EStateM ε σ α) s = .ok a s := rfl

@[simp] theorem lift_error (e : ε) (s : σ) :
    (lift (.error e) : EStateM ε σ α) s = .error e s := rfl

theorem lift_ok_iff {r : Except ε α} {s s' : σ} {a : α} :
    lift r s = .ok a s' ↔ r = .ok a ∧ s' = s := by
  cases r with
  | ok b => simp [eq_comm]
  | error e => simp

@[simp] theorem finalState_lift (r : Except ε α) (s : σ) : finalState (lift r s) = s := by
  cases r <;> rfl

/-! ## Invariants of the state a run ends in -/

/-- `x` keeps `P`, also when it stops early. -/
def Keeps (P : σ → Prop) (x : EStateM ε σ α) : Prop :=
  ∀ s, P s → P (finalState (x s))

theorem Keeps.pure {P : σ → Prop} (a : α) : Keeps P (pure a : EStateM ε σ α) :=
  fun _ h => h

theorem Keeps.throw {P : σ → Prop} (e : ε) : Keeps P (throw e : EStateM ε σ α) :=
  fun _ h => h

theorem Keeps.lift {P : σ → Prop} (r : Except ε α) : Keeps P (lift r : EStateM ε σ α) := by
  intro s h
  rwa [finalState_lift]

theorem Keeps.get {P : σ → Prop} : Keeps P (get : EStateM ε σ σ) :=
  fun _ h => h

theorem Keeps.modify {P : σ → Prop} {f : σ → σ} (hf : ∀ s, P s → P (f s)) :
    Keeps P (modify f : EStateM ε σ PUnit) :=
  hf

theorem Keeps.ite {P : σ → Prop} {c : Prop} [Decidable c] {x y : EStateM ε σ α}
    (hx : Keeps P x) (hy : Keeps P y) : Keeps P (if c then x else y) := by
  split
  · exact hx
  · exact hy

/-- What `x` establishes, `x >>= f` establishes when `f` keeps it. -/
theorem finalState_bind_of_keeps {P : σ → Prop} {x : EStateM ε σ α} {f : α → EStateM ε σ β} {s : σ}
    (hx : P (finalState (x s))) (hf : ∀ a, Keeps P (f a)) : P (finalState ((x >>= f) s)) := by
  cases hr : x s with
  | ok a s₁ =>
      rw [bind_of_ok hr]
      rw [hr] at hx
      exact hf a s₁ hx
  | error e s₁ =>
      rw [bind_of_error hr]
      rw [hr] at hx
      exact hx

theorem Keeps.bind {P : σ → Prop} {x : EStateM ε σ α} {f : α → EStateM ε σ β}
    (hx : Keeps P x) (hf : ∀ a, Keeps P (f a)) : Keeps P (x >>= f) :=
  fun s h => finalState_bind_of_keeps (hx s h) hf

/-- What follows a pure partial computation may use that it returned. -/
theorem Keeps.lift_bind {P : σ → Prop} {r : Except ε α} {f : α → EStateM ε σ β}
    (hf : ∀ a, r = .ok a → Keeps P (f a)) : Keeps P (Exec.lift r >>= f) := by
  intro s h
  cases hr : r with
  | ok a =>
      rw [bind_of_ok (lift_ok a s)]
      exact hf a hr s h
  | error e =>
      rw [bind_of_error (lift_error e s)]
      exact h

/-! ## Loops -/

section Loop

variable {body : α → EStateM ε σ PUnit}

theorem forM_cons_apply (x : α) (xs : List α) (s : σ) :
    (x :: xs).forM body s = (body x >>= fun _ => xs.forM body) s := rfl

theorem forM_cons_ok_iff {x : α} {xs : List α} {s s' : σ} :
    (x :: xs).forM body s = .ok () s' ↔
      ∃ s₁, body x s = .ok () s₁ ∧ xs.forM body s₁ = .ok () s' := by
  rw [forM_cons_apply, bind_ok_iff]
  constructor
  · rintro ⟨_, s₁, h₁, h₂⟩
    exact ⟨s₁, h₁, h₂⟩
  · rintro ⟨s₁, h₁, h₂⟩
    exact ⟨(), s₁, h₁, h₂⟩

theorem forM_append_apply (xs ys : List α) (s : σ) :
    (xs ++ ys).forM body s = (xs.forM body >>= fun _ => ys.forM body) s := by
  have h : (xs ++ ys).forM body = (xs.forM body >>= fun _ => ys.forM body) :=
    List.forM_append
  exact congrFun h s

theorem forM_map_apply (f : γ → α) (xs : List γ) (s : σ) :
    (xs.map f).forM body s = xs.forM (fun x => body (f x)) s := by
  have h : (xs.map f).forM body = xs.forM fun x => body (f x) := List.forM_map
  exact congrFun h s

/-- A loop over the rows of a table is a loop over its entries. -/
theorem forM_flatten (xss : List (List α)) (s : σ) :
    xss.forM (fun xs => xs.forM body) s = xss.flatten.forM body s := by
  induction xss generalizing s with
  | nil => rfl
  | cons xs xss ih =>
      rw [List.flatten_cons, forM_append_apply]
      change (xs.forM body >>= fun _ => xss.forM fun xs => xs.forM body) s = _
      cases hx : xs.forM body s with
      | ok u s₁ => rw [bind_of_ok hx, bind_of_ok hx, ih]
      | error e s₁ => rw [bind_of_error hx, bind_of_error hx]

/-- Two loops whose bodies agree wherever the first one comes to do the same. -/
theorem forM_congr_reached {body' : α → EStateM ε σ PUnit} {xs : List α} {s : σ}
    (h : ∀ before x after s₁, xs = before ++ x :: after → before.forM body s = .ok () s₁ →
      body x s₁ = body' x s₁) : xs.forM body s = xs.forM body' s := by
  induction xs generalizing s with
  | nil => rfl
  | cons x xs ih =>
      have hhead := h [] x xs s rfl rfl
      rw [forM_cons_apply, forM_cons_apply]
      cases hx : body x s with
      | error e s₂ =>
          rw [bind_of_error hx]
          rw [hx] at hhead
          rw [bind_of_error hhead.symm]
      | ok u s₂ =>
          rw [bind_of_ok hx]
          rw [hx] at hhead
          rw [bind_of_ok hhead.symm]
          refine ih fun before y after s₁ hsplit hbefore => ?_
          exact h (x :: before) y after s₁ (by rw [hsplit]; rfl)
            (forM_cons_ok_iff.mpr ⟨s₂, hx, hbefore⟩)

/-- If a run stops, it is for a reason in `Q`. -/
def StopsOnly (Q : ε → Prop) (r : EStateM.Result ε σ γ) : Prop := ∀ e s', r = .error e s' → Q e

@[simp] theorem stopsOnly_ok (Q : ε → Prop) (a : γ) (s : σ) :
    StopsOnly Q (.ok a s : EStateM.Result ε σ γ) := nofun

@[simp] theorem stopsOnly_error (Q : ε → Prop) (e : ε) (s : σ) :
    StopsOnly Q (.error e s : EStateM.Result ε σ γ) ↔ Q e := by
  constructor
  · intro h
    exact h e s rfl
  · intro h e' s' heq
    cases heq
    exact h

/-- A loop stops for a reason in `Q` exactly when every iteration it comes to does. -/
theorem forM_stopsOnly_iff {Q : ε → Prop} {xs : List α} {s : σ} :
    StopsOnly Q (xs.forM body s) ↔
      ∀ before x after s₁, xs = before ++ x :: after → before.forM body s = .ok () s₁ →
        StopsOnly Q (body x s₁) := by
  induction xs generalizing s with
  | nil =>
      refine ⟨fun _ before x after s₁ hsplit => ?_, fun _ => stopsOnly_ok Q () s⟩
      simp at hsplit
  | cons x xs ih =>
      rw [forM_cons_apply]
      constructor
      · intro h before y after s₁ hsplit hbefore
        cases before with
        | nil =>
            obtain ⟨rfl, rfl⟩ := List.cons.inj hsplit
            cases hbefore
            cases hx : body x s with
            | ok u s₂ => exact stopsOnly_ok Q u s₂
            | error e s₂ =>
                rw [bind_of_error hx] at h
                exact h
        | cons z before =>
            obtain ⟨rfl, rfl⟩ := List.cons.inj hsplit
            obtain ⟨s₂, hx, hrest⟩ := forM_cons_ok_iff.mp hbefore
            rw [bind_of_ok hx] at h
            exact ih.mp h before y after s₁ rfl hrest
      · intro h
        cases hx : body x s with
        | error e s₂ =>
            rw [bind_of_error hx]
            have hhead := h [] x xs s rfl rfl
            rw [hx] at hhead
            exact hhead
        | ok u s₂ =>
            rw [bind_of_ok hx]
            refine ih.mpr fun before y after s₁ hsplit hbefore => ?_
            exact h (x :: before) y after s₁ (by rw [hsplit]; rfl)
              (forM_cons_ok_iff.mpr ⟨s₂, hx, hbefore⟩)

/-- What every iteration keeps, the whole loop keeps, also when it stops early. -/
theorem Keeps.forM {P : σ → Prop} {xs : List α} (h : ∀ x ∈ xs, Keeps P (body x)) :
    Keeps P (xs.forM body) := by
  induction xs with
  | nil => exact fun _ hs => hs
  | cons x xs ih =>
      have hx := h x List.mem_cons_self
      have hxs := ih (fun y hy => h y (List.mem_cons_of_mem x hy))
      exact Keeps.bind hx (fun _ => hxs)

end Loop

/-! ## Events that end a run

An event is a property of the state that is never undone. It surfaces in a run
when the run cannot go on after it: the run has stopped, for a reason in `Q`. -/

/-- `x` does not undo `F`, and once `F` holds, it has stopped for a reason in `Q`. -/
structure Surfaces (F : σ → Prop) (Q : ε → Prop) (x : EStateM ε σ α) : Prop where
  kept : Keeps F x
  ok : ∀ {s a s'}, ¬ F s → x s = .ok a s' → ¬ F s'
  error : ∀ {s e s'}, ¬ F s → x s = .error e s' → F s' → Q e

namespace Surfaces

variable {F : σ → Prop} {Q : ε → Prop}

/-- The run has stopped when the event has happened. -/
theorem stops {x : EStateM ε σ α} (hx : Surfaces F Q x) {s : σ} (hs : ¬ F s)
    (hF : F (finalState (x s))) : ∃ e s', x s = .error e s' ∧ Q e := by
  cases h : x s with
  | ok a s' =>
      rw [h] at hF
      exact absurd hF (hx.ok hs h)
  | error e s' =>
      rw [h] at hF
      exact ⟨e, s', rfl, hx.error hs h hF⟩

/-- A computation that has nothing to do with the event. -/
theorem of_frame {x : EStateM ε σ α} (hx : ∀ s, F (finalState (x s)) ↔ F s) : Surfaces F Q x where
  kept := fun s hs => (hx s).mpr hs
  ok := by
    intro s a s' hs h
    have hend := hx s
    rw [h] at hend
    exact fun hF => hs (hend.mp hF)
  error := by
    intro s e s' hs h hF
    have hend := hx s
    rw [h] at hend
    exact absurd (hend.mp hF) hs

theorem bind {x : EStateM ε σ α} {f : α → EStateM ε σ β} (hx : Surfaces F Q x)
    (hf : ∀ a, Surfaces F Q (f a)) : Surfaces F Q (x >>= f) where
  kept := hx.kept.bind fun a => (hf a).kept
  ok := by
    intro s b s' hs h
    obtain ⟨a, s₁, hx', hf'⟩ := bind_ok_iff.mp h
    exact (hf a).ok (hx.ok hs hx') hf'
  error := by
    intro s e s' hs h hF
    cases hx' : x s with
    | ok a s₁ =>
        rw [bind_of_ok hx'] at h
        exact (hf a).error (hx.ok hs hx') h hF
    | error e₁ s₁ =>
        rw [bind_of_error hx'] at h
        cases h
        exact hx.error hs hx' hF

theorem ite {c : Prop} [Decidable c] {x y : EStateM ε σ α} (hx : Surfaces F Q x)
    (hy : Surfaces F Q y) : Surfaces F Q (if c then x else y) := by
  split
  · exact hx
  · exact hy

theorem pure (a : α) : Surfaces F Q (pure a : EStateM ε σ α) := of_frame fun _ => Iff.rfl

theorem throw (e : ε) : Surfaces F Q (throw e : EStateM ε σ α) := of_frame fun _ => Iff.rfl

theorem lift (r : Except ε α) : Surfaces F Q (lift r : EStateM ε σ α) :=
  of_frame fun s => by rw [finalState_lift]

theorem get : Surfaces F Q (get : EStateM ε σ σ) := of_frame fun _ => Iff.rfl

theorem forM {body : α → EStateM ε σ PUnit} {xs : List α}
    (h : ∀ x ∈ xs, Surfaces F Q (body x)) : Surfaces F Q (xs.forM body) := by
  induction xs with
  | nil => exact pure ()
  | cons x xs ih =>
      have hx := h x List.mem_cons_self
      have hxs := ih fun y hy => h y (List.mem_cons_of_mem x hy)
      exact bind hx fun _ => hxs

end Surfaces

/-! ## Two runs side by side

A second run follows a first one when it returns wherever the first one does,
with related values and related states. The relation on states may change from
one part of the run to the next. -/

section Follows

variable {σ' α' β' : Type}

def Follows (S : σ → σ' → Prop) (V : α → α' → Prop) (r : EStateM.Result ε σ α)
    (r' : EStateM.Result ε σ' α') : Prop :=
  ∀ a t, r = .ok a t → ∃ a' t', r' = .ok a' t' ∧ V a a' ∧ S t t'

namespace Follows

variable {S S₁ : σ → σ' → Prop} {V : α → α' → Prop} {W : β → β' → Prop}

theorem pure {a : α} {a' : α'} {s : σ} {s' : σ'} (hV : V a a') (hS : S s s') :
    Follows S V ((pure a : EStateM ε σ α) s) ((pure a' : EStateM ε σ' α') s') := by
  intro b t h
  cases h
  exact ⟨a', s', rfl, hV, hS⟩

theorem mono {S' : σ → σ' → Prop} {V' : α → α' → Prop} {r : EStateM.Result ε σ α}
    {r' : EStateM.Result ε σ' α'} (h : Follows S V r r') (hS : ∀ s s', S s s' → S' s s')
    (hV : ∀ a a', V a a' → V' a a') : Follows S' V' r r' := by
  intro a t ha
  obtain ⟨a', t', ha', hv, hs⟩ := h a t ha
  exact ⟨a', t', ha', hV a a' hv, hS t t' hs⟩

theorem bind {x : EStateM ε σ α} {x' : EStateM ε σ' α'} {f : α → EStateM ε σ β}
    {f' : α' → EStateM ε σ' β'} {s : σ} {s' : σ'} (hx : Follows S V (x s) (x' s'))
    (hf : ∀ a a' t t', x s = .ok a t → V a a' → S t t' → Follows S₁ W (f a t) (f' a' t')) :
    Follows S₁ W ((x >>= f) s) ((x' >>= f') s') := by
  intro b t h
  obtain ⟨a, s₁, hxa, hfa⟩ := bind_ok_iff.mp h
  obtain ⟨a', s₁', hxa', hV, hS⟩ := hx a s₁ hxa
  obtain ⟨b', t', hfa', hW, hS₁⟩ := hf a a' s₁ s₁' hxa hV hS b t hfa
  exact ⟨b', t', bind_ok_iff.mpr ⟨a', s₁', hxa', hfa'⟩, hW, hS₁⟩

theorem lift {r : Except ε α} {r' : Except ε α'} {s : σ} {s' : σ'}
    (hr : ∀ a, r = .ok a → ∃ a', r' = .ok a' ∧ V a a') (hS : S s s') :
    Follows S V (lift r s) (lift r' s') := by
  intro a t h
  obtain ⟨ha, rfl⟩ := lift_ok_iff.mp h
  obtain ⟨a', rfl, hV⟩ := hr a ha
  exact ⟨a', s', rfl, hV, hS⟩

theorem modify {f : σ → σ} {f' : σ' → σ'} {s : σ} {s' : σ'} (hS : S (f s) (f' s')) :
    Follows S (fun _ _ => True) ((modify f : EStateM ε σ PUnit) s)
      ((modify f' : EStateM ε σ' PUnit) s') := by
  intro a t h
  cases h
  exact ⟨(), f' s', rfl, trivial, hS⟩

theorem get {s : σ} {s' : σ'} (hS : S s s') :
    Follows S S ((get : EStateM ε σ σ) s) ((get : EStateM ε σ' σ') s') := by
  intro a t h
  cases h
  exact ⟨s', s', rfl, hS, hS⟩

/-- Both runs do the same list of steps. -/
theorem forM {body : α → EStateM ε σ PUnit} {body' : α → EStateM ε σ' PUnit} {xs : List α}
    (h : ∀ x ∈ xs, ∀ s s', S s s' → Follows S (fun _ _ => True) (body x s) (body' x s'))
    {s : σ} {s' : σ'} (hS : S s s') :
    Follows S (fun _ _ => True) (xs.forM body s) (xs.forM body' s') := by
  induction xs generalizing s s' with
  | nil => exact pure trivial hS
  | cons x xs ih =>
      refine bind (h x List.mem_cons_self s s' hS) fun _ _ t t' _ _ hS₁ => ?_
      exact ih (fun y hy => h y (List.mem_cons_of_mem x hy)) hS₁

end Follows

end Follows

end Exec
