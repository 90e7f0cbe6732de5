/-
Computations that read and change a state and may throw.  The state survives a
throw, as it does in a language with exceptions.  The rules below are the
program logic of the development: what every outcome of a computation keeps
(`Respects`), how a successful run decomposes (`bind_eq_ok`), and pre- and
postconditions with one postcondition for returning and one for throwing
(`Triple`).
-/
import Mathlib.Order.Basic

namespace Effects

universe u

variable {ε σ : Type u} {α β γ : Type u}

/-- A computation over `σ` that returns an `α` or throws an `ε`. -/
def Eff (ε σ α : Type u) : Type u := σ → Except ε α × σ

namespace Eff

protected def pure (a : α) : Eff ε σ α := fun s => (.ok a, s)

protected def bind (x : Eff ε σ α) (f : α → Eff ε σ β) : Eff ε σ β := fun s =>
  match x s with
  | (.ok a, s') => f a s'
  | (.error e, s') => (.error e, s')

instance : Monad (Eff ε σ) where
  pure := Eff.pure
  bind := Eff.bind

def throw (e : ε) : Eff ε σ α := fun s => (.error e, s)

def get : Eff ε σ σ := fun s => (.ok s, s)

def modify (f : σ → σ) : Eff ε σ PUnit := fun s => (.ok ⟨⟩, f s)

/-- Run a computation that only reads the state. -/
def asks (f : σ → Except ε α) : Eff ε σ α := fun s => (f s, s)

def ofExcept (x : Except ε α) : Eff ε σ α := fun s => (x, s)

/-- `try x catch handler; rethrow`: the handler runs for its effect and the
original exception goes on, unless the handler throws itself.  Only the
exceptions in `caught` reach the handler. -/
def onThrow (caught : ε → Bool) (x : Eff ε σ α) (handler : Eff ε σ PUnit) : Eff ε σ α :=
  fun s =>
    match x s with
    | (.ok a, s') => (.ok a, s')
    | (.error e, s') =>
        if caught e then
          match handler s' with
          | (.ok _, s'') => (.error e, s'')
          | (.error e', s'') => (.error e', s'')
        else (.error e, s')

/-- Run a computation for every element, in order. -/
def forEach (f : α → Eff ε σ PUnit) : List α → Eff ε σ PUnit
  | [] => pure ⟨⟩
  | a :: rest => do
      f a
      forEach f rest

/-- Perform operations one after the other; an operation that throws leaves
whatever it has done so far and the next one goes on from there. -/
def performAll {op : Type*} (run : op → Eff ε σ PUnit) : List op → σ → σ
  | [], s => s
  | o :: rest, s => performAll run rest (run o s).2

@[simp]
theorem pure_apply (a : α) (s : σ) : (pure a : Eff ε σ α) s = (.ok a, s) := rfl

@[simp]
theorem throw_apply (e : ε) (s : σ) : (throw e : Eff ε σ α) s = (.error e, s) := rfl

@[simp]
theorem get_apply (s : σ) : (get : Eff ε σ σ) s = (.ok s, s) := rfl

@[simp]
theorem modify_apply (f : σ → σ) (s : σ) :
    (modify f : Eff ε σ PUnit) s = (.ok ⟨⟩, f s) := rfl

@[simp]
theorem asks_apply (f : σ → Except ε α) (s : σ) : asks f s = (f s, s) := rfl

@[simp]
theorem ofExcept_apply (x : Except ε α) (s : σ) : (ofExcept x : Eff ε σ α) s = (x, s) := rfl

theorem bind_apply (x : Eff ε σ α) (f : α → Eff ε σ β) (s : σ) :
    (x >>= f) s = match x s with
      | (.ok a, s') => f a s'
      | (.error e, s') => (.error e, s') := rfl

theorem bind_of_ok {x : Eff ε σ α} {s s' : σ} {a : α} (h : x s = (.ok a, s'))
    (f : α → Eff ε σ β) : (x >>= f) s = f a s' := by
  rw [bind_apply, h]

theorem bind_of_error {x : Eff ε σ α} {s s' : σ} {e : ε} (h : x s = (.error e, s'))
    (f : α → Eff ε σ β) : (x >>= f) s = (.error e, s') := by
  rw [bind_apply, h]

theorem bind_assoc (x : Eff ε σ α) (f : α → Eff ε σ β) (g : β → Eff ε σ γ) :
    x >>= f >>= g = x >>= fun a => f a >>= g := by
  funext s
  simp only [bind_apply]
  rcases x s with ⟨e | a, s'⟩ <;> rfl

/-- A sequence returns exactly when its parts return one after the other. -/
theorem bind_eq_ok {x : Eff ε σ α} {f : α → Eff ε σ β} {s s' : σ} {b : β} :
    (x >>= f) s = (.ok b, s') ↔
      ∃ a middle, x s = (.ok a, middle) ∧ f a middle = (.ok b, s') := by
  rw [bind_apply]
  rcases hx : x s with ⟨a | a, middle⟩
  · simp
  · constructor
    · exact fun h => ⟨a, middle, rfl, h⟩
    · rintro ⟨a', middle', heq, h⟩
      cases heq
      exact h

/-- A sequence throws exactly when its first part throws, or its second part
after the first returned. -/
theorem bind_eq_error {x : Eff ε σ α} {f : α → Eff ε σ β} {s s' : σ} {e : ε} :
    (x >>= f) s = (.error e, s') ↔
      x s = (.error e, s') ∨
        ∃ a middle, x s = (.ok a, middle) ∧ f a middle = (.error e, s') := by
  rw [bind_apply]
  rcases hx : x s with ⟨e' | a, middle⟩
  · simp
  · constructor
    · exact fun h => .inr ⟨a, middle, rfl, h⟩
    · rintro (heq | ⟨a', middle', heq, h⟩)
      · cases heq
      · cases heq
        exact h

theorem onThrow_of_ok {caught : ε → Bool} {x : Eff ε σ α} {handler : Eff ε σ PUnit} {s s' : σ}
    {a : α} (h : x s = (.ok a, s')) : x.onThrow caught handler s = (.ok a, s') := by
  rw [onThrow, h]

theorem onThrow_of_uncaught {caught : ε → Bool} {x : Eff ε σ α} {handler : Eff ε σ PUnit}
    {s s' : σ} {e : ε} (h : x s = (.error e, s')) (hcaught : caught e = false) :
    x.onThrow caught handler s = (.error e, s') := by
  simp [onThrow, h, hcaught]

theorem onThrow_of_caught {caught : ε → Bool} {x : Eff ε σ α} {handler : Eff ε σ PUnit}
    {s s' s'' : σ} {e : ε} {r : Except ε PUnit} (h : x s = (.error e, s'))
    (hcaught : caught e = true) (hhandler : handler s' = (r, s'')) :
    x.onThrow caught handler s =
      (.error (match r with | .ok _ => e | .error e' => e'), s'') := by
  cases r <;> simp [onThrow, h, hcaught, hhandler]

theorem onThrow_eq_ok {caught : ε → Bool} {x : Eff ε σ α} {handler : Eff ε σ PUnit} {s s' : σ}
    {a : α} (h : x.onThrow caught handler s = (.ok a, s')) : x s = (.ok a, s') := by
  unfold onThrow at h
  rcases hx : x s with ⟨e | b, middle⟩
  · simp only [hx] at h
    by_cases hcaught : caught e = true
    · rw [if_pos hcaught] at h
      rcases hhandler : handler middle with ⟨e' | u, last⟩ <;> rw [hhandler] at h <;> cases h
    · rw [if_neg hcaught] at h
      cases h
  · rw [hx] at h
    exact h

/-- A computation that leaves the state alone throws or returns in it. -/
theorem cases_of_snd_eq {x : Eff ε σ α} {s : σ} (h : (x s).2 = s) :
    (∃ e, x s = (.error e, s)) ∨ ∃ a, x s = (.ok a, s) := by
  rcases hx : x s with ⟨e | a, s'⟩
  · rw [hx] at h
    exact .inl ⟨e, by rw [← h]⟩
  · rw [hx] at h
    exact .inr ⟨a, by rw [← h]⟩

/-- Every outcome of `x`, normal or exceptional, relates the state before to
the state after by `R`. -/
def Respects (R : σ → σ → Prop) (x : Eff ε σ α) : Prop := ∀ s, R s (x s).2

variable {R : σ → σ → Prop}

theorem Respects.apply_eq {x : Eff ε σ α} {s s' : σ} {r : Except ε α} (hx : Respects R x)
    (h : x s = (r, s')) : R s s' := by
  have hs := hx s
  rwa [h] at hs

theorem Respects.mono {R' : σ → σ → Prop} {x : Eff ε σ α} (hx : Respects R x)
    (h : ∀ s s', R s s' → R' s s') : Respects R' x :=
  fun s => h s _ (hx s)

theorem Respects.pure [Std.Refl R] (a : α) : Respects R (pure a : Eff ε σ α) :=
  fun s => refl_of R s

theorem Respects.throw [Std.Refl R] (e : ε) : Respects R (throw e : Eff ε σ α) :=
  fun s => refl_of R s

theorem Respects.get [Std.Refl R] : Respects R (get : Eff ε σ σ) :=
  fun s => refl_of R s

theorem Respects.asks [Std.Refl R] (f : σ → Except ε α) : Respects R (asks f) :=
  fun s => refl_of R s

theorem Respects.ofExcept [Std.Refl R] (x : Except ε α) :
    Respects R (ofExcept x : Eff ε σ α) :=
  fun s => refl_of R s

theorem Respects.modify {f : σ → σ} (h : ∀ s, R s (f s)) :
    Respects R (modify f : Eff ε σ PUnit) := h

/-- A sequence relates two states if its first part does, and its second part
from where the first returned. -/
theorem related_bind [IsTrans σ R] {x : Eff ε σ α} {f : α → Eff ε σ β} {s : σ}
    (hx : R s (x s).2) (hf : ∀ a s', x s = (.ok a, s') → R s' (f a s').2) :
    R s ((x >>= f) s).2 := by
  rw [bind_apply]
  rcases h : x s with ⟨e | a, middle⟩
  · simpa [h] using hx
  · rw [h] at hx
    exact trans_of R hx (hf a middle h)

/-- The second step need only respect the relation where the first returned. -/
theorem Respects.bindOk [IsTrans σ R] {x : Eff ε σ α} {f : α → Eff ε σ β}
    (hx : Respects R x)
    (hf : ∀ s a s', x s = (.ok a, s') → Respects R (f a)) : Respects R (x >>= f) :=
  fun s => related_bind (hx s) fun a s' h => hf s a s' h s'

theorem Respects.bind [IsTrans σ R] {x : Eff ε σ α} {f : α → Eff ε σ β}
    (hx : Respects R x) (hf : ∀ a, Respects R (f a)) : Respects R (x >>= f) :=
  hx.bindOk fun _ a _ _ => hf a

/-- After a pure step only its actual result matters. -/
theorem Respects.bindOfExcept [Std.Refl R] {x : Except ε α} {f : α → Eff ε σ β}
    (hf : ∀ a, x = .ok a → Respects R (f a)) :
    Respects R ((Eff.ofExcept x : Eff ε σ α) >>= f) := by
  intro s
  cases x with
  | error e => exact refl_of R s
  | ok a => exact hf a rfl s

theorem Respects.ite {c : Prop} [Decidable c] {x y : Eff ε σ α}
    (hx : Respects R x) (hy : Respects R y) : Respects R (if c then x else y) := by
  split <;> assumption

theorem Respects.onThrow [IsTrans σ R] {caught : ε → Bool} {x : Eff ε σ α}
    {handler : Eff ε σ PUnit} (hx : Respects R x) (hhandler : Respects R handler) :
    Respects R (x.onThrow caught handler) := by
  intro s
  have hfirst := hx s
  unfold Eff.onThrow
  rcases h : x s with ⟨e | a, middle⟩
  · rw [h] at hfirst
    have hboth := trans_of R hfirst (hhandler middle)
    by_cases hcaught : caught e
    · rcases h' : handler middle with ⟨e' | u, last⟩ <;> simpa [h', hcaught] using hboth
    · simpa [hcaught] using hfirst
  · simpa [h] using hfirst

theorem Respects.forEach [Std.Refl R] [IsTrans σ R] {f : α → Eff ε σ PUnit}
    {items : List α} (h : ∀ a ∈ items, Respects R (f a)) :
    Respects R (forEach f items) := by
  induction items with
  | nil => exact Respects.pure _
  | cons a rest ih =>
      exact Respects.bind (h a List.mem_cons_self)
        (fun _ => ih fun b hb => h b (List.mem_cons_of_mem a hb))

theorem Respects.performAll [Std.Refl R] [IsTrans σ R] {op : Type*}
    {run : op → Eff ε σ PUnit} (h : ∀ o, Respects R (run o)) (ops : List op) (s : σ) :
    R s (performAll run ops s) := by
  induction ops generalizing s with
  | nil => exact refl_of R s
  | cons o rest ih => exact trans_of R (h o s) (ih (run o s).2)

/-- Keeping an invariant is respecting the relation it induces. -/
def Carries (I : σ → Prop) (s s' : σ) : Prop := I s → I s'

instance (I : σ → Prop) : Std.Refl (Carries I) := ⟨fun _ h => h⟩

instance (I : σ → Prop) : IsTrans σ (Carries I) := ⟨fun _ _ _ h h' hI => h' (h hI)⟩

/-- What one round of a loop establishes and every round keeps holds after the
loop. -/
theorem forEach_establishes {I : σ → Prop} {f : α → Eff ε σ PUnit} {items : List α} {a : α}
    (hmem : a ∈ items) (hkeeps : ∀ b ∈ items, Respects (Carries I) (f b))
    (hround : ∀ s s' u, f a s = (.ok u, s') → I s') {s s' : σ} {u : PUnit}
    (h : forEach f items s = (.ok u, s')) : I s' := by
  induction items generalizing s with
  | nil => cases hmem
  | cons b rest ih =>
      obtain ⟨_, middle, hfirst, hrest⟩ := bind_eq_ok.mp h
      have hkeeps' : ∀ c ∈ rest, Respects (Carries I) (f c) :=
        fun c hc => hkeeps c (List.mem_cons_of_mem b hc)
      rcases List.mem_cons.mp hmem with rfl | hmem'
      · exact (Respects.forEach hkeeps').apply_eq hrest (hround _ _ _ hfirst)
      · exact ih hmem' hkeeps' hrest

/-- Keeping a projection of the state fixed. -/
def Fixes (f : σ → γ) (s s' : σ) : Prop := f s' = f s

instance (f : σ → γ) : Std.Refl (Fixes f) := ⟨fun _ => rfl⟩

instance (f : σ → γ) : IsTrans σ (Fixes f) := ⟨fun _ _ _ h h' => h'.trans h⟩

/-- From a state with `P`, every run of `x` that returns ends with `Q` and every
run that throws ends with `E`. -/
def Triple (P : σ → Prop) (x : Eff ε σ α) (Q : α → σ → Prop) (E : ε → σ → Prop) : Prop :=
  ∀ s, P s → (∀ a s', x s = (.ok a, s') → Q a s') ∧ ∀ e s', x s = (.error e, s') → E e s'

namespace Triple

variable {P P' : σ → Prop} {Q Q' : α → σ → Prop} {E E' : ε → σ → Prop}

theorem mono {x : Eff ε σ α} (h : Triple P x Q E) (hpre : ∀ s, P' s → P s)
    (hpost : ∀ a s, Q a s → Q' a s) (hthrow : ∀ e s, E e s → E' e s) : Triple P' x Q' E' := by
  intro s hs
  obtain ⟨hok, herror⟩ := h s (hpre s hs)
  exact ⟨fun a s' heq => hpost a s' (hok a s' heq), fun e s' heq => hthrow e s' (herror e s' heq)⟩

theorem pre {x : Eff ε σ α} (h : Triple P x Q E) (hpre : ∀ s, P' s → P s) : Triple P' x Q E :=
  h.mono hpre (fun _ _ hs => hs) fun _ _ hs => hs

/-- A computation whose outcome is known. -/
theorem of_eq_ok {x : Eff ε σ α} {s s' : σ} {a : α} (h : x s = (.ok a, s')) (hpost : Q a s') :
    (∀ a s', x s = (.ok a, s') → Q a s') ∧ ∀ e s', x s = (.error e, s') → E e s' := by
  rw [h]
  exact ⟨fun _ _ heq => by cases heq; exact hpost, fun _ _ heq => by cases heq⟩

theorem of_eq_error {x : Eff ε σ α} {s s' : σ} {e : ε} (h : x s = (.error e, s'))
    (hthrow : E e s') :
    (∀ a s', x s = (.ok a, s') → Q a s') ∧ ∀ e s', x s = (.error e, s') → E e s' := by
  rw [h]
  exact ⟨fun _ _ heq => (by cases heq), fun _ _ heq => by cases heq; exact hthrow⟩

theorem pure {a : α} (h : ∀ s, P s → Q a s) : Triple P (Pure.pure a : Eff ε σ α) Q E :=
  fun s hs => of_eq_ok rfl (h s hs)

theorem throw {e : ε} (h : ∀ s, P s → E e s) : Triple P (throw e : Eff ε σ α) Q E :=
  fun s hs => of_eq_error rfl (h s hs)

theorem modify {f : σ → σ} {Q : PUnit → σ → Prop} (h : ∀ s, P s → Q ⟨⟩ (f s)) :
    Triple P (modify f : Eff ε σ PUnit) Q E :=
  fun s hs => of_eq_ok rfl (h s hs)

theorem bind {x : Eff ε σ α} {f : α → Eff ε σ β} {Q' : β → σ → Prop} (hx : Triple P x Q E)
    (hf : ∀ a, Triple (Q a) (f a) Q' E) : Triple P (x >>= f) Q' E := by
  intro s hs
  obtain ⟨hok, herror⟩ := hx s hs
  rcases h : x s with ⟨e | a, middle⟩
  · exact of_eq_error (bind_of_error h f) (herror e middle h)
  · rw [bind_of_ok h]
    exact hf a middle (hok a middle h)

/-- Reading the state first gives the rest of the computation its name. -/
theorem get_bind {f : σ → Eff ε σ α} (h : ∀ s, P s → Triple (· = s) (f s) Q E) :
    Triple P (Eff.get >>= f) Q E :=
  fun s hs => h s hs s rfl

theorem ite {c : Prop} [Decidable c] {x y : Eff ε σ α} (hx : c → Triple P x Q E)
    (hy : ¬ c → Triple P y Q E) : Triple P (if c then x else y) Q E := by
  split
  · exact hx ‹c›
  · exact hy ‹¬ c›

/-- The precondition at the state itself. -/
theorem of_forall {x : Eff ε σ α} (h : ∀ s, P s → Triple (· = s) x Q E) : Triple P x Q E :=
  fun s hs => h s hs s rfl

/-- What every outcome keeps, both outcomes keep. -/
theorem of_respects {x : Eff ε σ α} (h : Respects (Carries P) x) :
    Triple P x (fun _ => P) (fun _ => P) := by
  intro s hs
  have hs' := h s hs
  exact ⟨fun a s' heq => by rwa [heq] at hs', fun e s' heq => by rwa [heq] at hs'⟩

/-- The handler runs from where a caught exception was thrown; the exception
goes on after it. -/
theorem onThrow {caught : ε → Bool} {x : Eff ε σ α} {handler : Eff ε σ PUnit}
    {thrown : ε → σ → Prop} (hx : Triple P x Q thrown)
    (hcaught : ∀ e, caught e = true → Triple (thrown e) handler (fun _ => E e) E)
    (huncaught : ∀ e s, caught e = false → thrown e s → E e s) :
    Triple P (x.onThrow caught handler) Q E := by
  intro s hs
  obtain ⟨hok, herror⟩ := hx s hs
  rcases h : x s with ⟨e | a, middle⟩
  · have hthrown := herror e middle h
    cases hc : caught e with
    | false => exact of_eq_error (onThrow_of_uncaught h hc) (huncaught e middle hc hthrown)
    | true =>
        obtain ⟨hok', herror'⟩ := hcaught e hc middle hthrown
        rcases h' : handler middle with ⟨e' | u, last⟩
        · exact of_eq_error (onThrow_of_caught h hc h') (herror' e' last h')
        · exact of_eq_error (onThrow_of_caught h hc h') (hok' u last h')
  · exact of_eq_ok (onThrow_of_ok h) (hok a middle h)

theorem forEach {f : α → Eff ε σ PUnit} {items : List α}
    (h : ∀ a ∈ items, Triple P (f a) (fun _ => P) E) :
    Triple P (forEach f items) (fun _ => P) E := by
  induction items with
  | nil => exact pure fun _ hs => hs
  | cons a rest ih =>
      exact bind (h a List.mem_cons_self) fun _ => ih fun b hb => h b (List.mem_cons_of_mem a hb)

end Triple

end Eff

end Effects
