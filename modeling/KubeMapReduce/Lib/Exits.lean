/-!
# Programs with a state that can return early

A program has a state, and it returns a value or leaves early with an error; its state stays as it
is then. `Ensures P p Q E` says what holds at each of its exits: from a state with `P` the program
returns with `Q` or leaves with `E`. There is a rule for every way to build a program.
-/

namespace Exits

variable {σ ε α β : Type} {a : α} {P' : σ → Prop}


/-- What holds of the exit of a program. -/
def Exit (Q : α → σ → Prop) (E : ε → σ → Prop) : Except ε α × σ → Prop
  | (.ok a, s) => Q a s
  | (.error e, s) => E e s

def Ensures (P : σ → Prop) (p : ExceptT ε (StateM σ) α) (Q : α → σ → Prop) (E : ε → σ → Prop) :
    Prop :=
  ∀ s, P s → Exit Q E (p s)

/-- A check that has passed. -/
theorem ok_of_guard {c : Prop} [Decidable c] {e : ε} {x : Except ε α}
    (h : (if c then .error e else x) = .ok a) : ¬ c ∧ x = .ok a := by
  split at h
  · cases h
  · next hc => exact ⟨hc, h⟩

variable {P : σ → Prop} {Q Q' : α → σ → Prop} {R : β → σ → Prop} {E E' : ε → σ → Prop}
  {p : ExceptT ε (StateM σ) α}

theorem ensures_pure (h : ∀ s, P s → Q a s) : Ensures P (pure a : ExceptT ε (StateM σ) α) Q E := h

theorem ensures_throw {e : ε} (h : ∀ s, P s → E e s) :
    Ensures P (throw e : ExceptT ε (StateM σ) α) Q E := h

theorem ensures_modify {f : σ → σ} {Q : PUnit → σ → Prop} (h : ∀ s, P s → Q ⟨⟩ (f s)) :
    Ensures P (modify f : ExceptT ε (StateM σ) PUnit) Q E := h

theorem ensures_modifyGet {f : σ → α × σ} (h : ∀ s, P s → Q (f s).1 (f s).2) :
    Ensures P (modifyGet f : ExceptT ε (StateM σ) α) Q E := h

/-- The state is read, and the rest of the program starts from it. -/
theorem ensures_get {k : σ → ExceptT ε (StateM σ) β}
    (h : ∀ s, P s → Ensures (· = s) (k s) R E) :
    Ensures P ((get : ExceptT ε (StateM σ) σ) >>= k) R E :=
  fun s hs => h s hs s rfl

theorem ensures_bind {k : α → ExceptT ε (StateM σ) β} (hp : Ensures P p Q E)
    (hk : ∀ a, Ensures (Q a) (k a) R E) : Ensures P (p >>= k) R E := by
  intro s hs
  have hpost := hp s hs
  show Exit R E (ExceptT.bindCont k (p s).1 (p s).2)
  rcases h : p s with ⟨_ | a, t⟩
  · rw [h] at hpost
    exact hpost
  · rw [h] at hpost
    exact hk a t hpost

theorem ensures_tryCatch {handle : ε → ExceptT ε (StateM σ) α} (hp : Ensures P p Q E')
    (hh : ∀ e, Ensures (E' e) (handle e) Q E) : Ensures P (tryCatch p handle) Q E := by
  intro s hs
  have hpost := hp s hs
  rcases h : p s with ⟨e | a, t⟩
  · rw [h] at hpost
    have heq : (tryCatch p handle : ExceptT ε (StateM σ) α) s = handle e t := by
      show (ExceptT.tryCatch p handle : ExceptT ε (StateM σ) α) s = _
      simp only [ExceptT.tryCatch, ExceptT.mk, bind, StateT.bind, h]
    rw [heq]
    exact hh e t hpost
  · rw [h] at hpost
    have heq : (tryCatch p handle : ExceptT ε (StateM σ) α) s = (.ok a, t) := by
      show (ExceptT.tryCatch p handle : ExceptT ε (StateM σ) α) s = _
      simp only [ExceptT.tryCatch, ExceptT.mk, bind, StateT.bind, h]
      rfl
    rw [heq]
    exact hpost

theorem ensures_ite {c : Prop} [Decidable c] {p' : ExceptT ε (StateM σ) α}
    (ht : c → Ensures P p Q E) (hf : ¬ c → Ensures P p' Q E) :
    Ensures P (if c then p else p') Q E := by
  split
  · next h => exact ht h
  · next h => exact hf h

theorem Ensures.mono (h : Ensures P p Q E) (hP : ∀ s, P' s → P s) (hQ : ∀ a s, Q a s → Q' a s)
    (hE : ∀ e s, E e s → E' e s) : Ensures P' p Q' E' := by
  intro s hs
  have hpost := h s (hP s hs)
  rcases h : p s with ⟨e | a, t⟩
  · rw [h] at hpost
    exact hE e t hpost
  · rw [h] at hpost
    exact hQ a t hpost

theorem Ensures.pre (h : Ensures P p Q E) (hP : ∀ s, P' s → P s) :
    Ensures P' p Q E := fun s hs => h s (hP s hs)

theorem Ensures.post (h : Ensures P p Q E) (hQ : ∀ a s, Q a s → Q' a s) : Ensures P p Q' E :=
  h.mono (fun _ hs => hs) hQ fun _ _ hs => hs

theorem Ensures.exit (h : Ensures P p Q E) (hE : ∀ e s, E e s → E' e s) : Ensures P p Q E' :=
  h.mono (fun _ hs => hs) (fun _ _ hs => hs) hE

/-- A fact that follows from the precondition. -/
theorem ensures_of_fact (h : ∀ s, P s → Ensures P p Q E) : Ensures P p Q E :=
  fun s hs => h s hs s hs

/-- What holds of the state at every exit. -/
theorem Ensures.state {R : σ → Prop} {s : σ} (h : Ensures P p (fun _ => R) fun _ => R) (hs : P s) :
    R (p s).2 := by
  have hpost := h s hs
  rcases h : p s with ⟨_ | _, t⟩ <;> rwa [h] at hpost

theorem Ensures.ok {s : σ} (h : Ensures P p Q E) (hs : P s) (hok : (p s).1 = .ok a) :
    Q a (p s).2 := by
  have hpost := h s hs
  rcases h : p s with ⟨_ | _, t⟩ <;> rw [h] at hok hpost <;> cases hok
  exact hpost

end Exits
