import FiberScheduler.Act

/-!
# How acts end

`x.Ends s Q` says of the result of an act and of the state it leaves that they
satisfy `Q`. The rules follow the way acts are built, so a statement about an act
is turned into one about its parts by rewriting.
-/

namespace FiberScheduler.Act

variable {ρ σ τ α β : Type} {s : σ} {P Q : Except Fault α → σ → Prop}

def Ends (x : Act ρ σ α) (s : σ) (Q : Except Fault α → σ → Prop) : Prop :=
  Q (x s).result (x s).state

theorem Ends.mono {x : Act ρ σ α} (h : x.Ends s P) (hPQ : ∀ r t, P r t → Q r t) : x.Ends s Q :=
  hPQ _ _ h

theorem Ends.and {x : Act ρ σ α} (hP : x.Ends s P) (hQ : x.Ends s Q) :
    x.Ends s fun r t => P r t ∧ Q r t :=
  ⟨hP, hQ⟩

theorem Ends.pin {x : Act ρ σ α} {r : Except Fault α} {t : σ} (h : x.Ends s Q)
    (hx : x.Ends s fun r' t' => r' = r ∧ t' = t) : Q r t := by
  obtain ⟨rfl, rfl⟩ := hx
  exact h

theorem ends_of_eq {x : Act ρ σ α} {r : Except Fault α} {t : σ} {log : List (Entry ρ)}
    (h : x s = ⟨r, t, log⟩) :
    x.Ends s Q ↔ Q r t := by
  unfold Ends; rw [h]

def after (f : α → Act ρ σ β) (Q : Except Fault β → σ → Prop) : Except Fault α → σ → Prop
  | .ok a, t => (f a).Ends t Q
  | .error fault, t => Q (.error fault) t

@[simp] theorem after_ok (f : α → Act ρ σ β) (Q : Except Fault β → σ → Prop) (a : α) (t : σ) :
    after f Q (.ok a) t ↔ (f a).Ends t Q := Iff.rfl

@[simp] theorem after_error (f : α → Act ρ σ β) (Q : Except Fault β → σ → Prop) (fault : Fault) (t : σ) :
    after f Q (.error fault) t ↔ Q (.error fault) t := Iff.rfl

@[simp] theorem ends_bind (x : Act ρ σ α) (f : α → Act ρ σ β) (Q : Except Fault β → σ → Prop) :
    (x >>= f).Ends s Q ↔ x.Ends s (after f Q) := by
  unfold Ends
  rcases h : x s with ⟨_ | a, t, log⟩
  · rw [bind_of_error s h]; rfl
  · rw [bind_of_ok s h]; rfl

@[simp] theorem ends_map (x : Act ρ σ α) (f : α → β) (Q : Except Fault β → σ → Prop) :
    (f <$> x).Ends s Q ↔ x.Ends s (after (fun a => (pure (f a) : Act ρ σ β)) Q) :=
  ends_bind x (fun a => pure (f a)) Q

@[simp] theorem ends_discard (x : Act ρ σ α) (Q : Except Fault Unit → σ → Prop) :
    (discard x).Ends s Q ↔ x.Ends s (after (fun _ => (pure () : Act ρ σ Unit)) Q) :=
  ends_map x (fun _ => ()) Q

@[simp] theorem ends_pure (a : α) : (pure a : Act ρ σ α).Ends s Q ↔ Q (.ok a) s := Iff.rfl

@[simp] theorem ends_get (Q : Except Fault σ → σ → Prop) : (get : Act ρ σ σ).Ends s Q ↔ Q (.ok s) s := Iff.rfl

@[simp] theorem ends_modify (f : σ → σ) (Q : Except Fault Unit → σ → Prop) :
    (modify f : Act ρ σ Unit).Ends s Q ↔ Q (.ok ()) (f s) := Iff.rfl

@[simp] theorem ends_fail (fault : Fault) : (fail fault : Act ρ σ α).Ends s Q ↔ Q (.error fault) s := Iff.rfl

@[simp] theorem ends_note (notice : Notice) (Q : Except Fault Unit → σ → Prop) :
    (note notice : Act ρ σ Unit).Ends s Q ↔ Q (.ok ()) s := Iff.rfl

@[simp] theorem ends_report (r : ρ) (Q : Except Fault Unit → σ → Prop) :
    (report r : Act ρ σ Unit).Ends s Q ↔ Q (.ok ()) s := Iff.rfl

@[simp] theorem ends_lift (x : Except Fault α) : (lift x : Act ρ σ α).Ends s Q ↔ Q x s := Iff.rfl

@[simp] theorem ends_attempt (x : Act ρ σ α) (Q : Except Fault (Except Fault α) → σ → Prop) :
    x.attempt.Ends s Q ↔ x.Ends s fun r t => Q (.ok r) t := Iff.rfl

@[simp] theorem ends_zoom (view : σ → τ) (put : σ → τ → σ) (x : Act ρ τ α) :
    (zoom view put x).Ends s Q ↔ x.Ends (view s) fun r t => Q r (put s t) := Iff.rfl

@[simp] theorem ends_ite {p : Prop} [Decidable p] (x y : Act ρ σ α) :
    (if p then x else y).Ends s Q ↔ if p then x.Ends s Q else y.Ends s Q := by
  split <;> rfl

theorem ends_blame (mode : Mode) (notice : Notice) (fault : Fault) (Q : Except Fault Unit → σ → Prop) :
    (blame mode notice fault : Act ρ σ Unit).Ends s Q ↔
      match mode with
      | .strict => Q (.error fault) s
      | .lenient => Q (.ok ()) s := by
  cases mode <;> rfl

theorem bind_congr_left {x y : Act ρ σ α} {f : α → Act ρ σ β} (h : x s = y s) :
    (x >>= f) s = (y >>= f) s := by
  show Act.bind x f s = Act.bind y f s
  unfold Act.bind
  rw [h]

theorem ends_forM {I : σ → Prop} {f : α → Act ρ σ Unit} {xs : List α} (hs : I s)
    (hf : ∀ a ∈ xs, ∀ t, I t → (f a).Ends t fun _ u => I u) : (xs.forM f).Ends s fun _ t => I t := by
  induction xs generalizing s with
  | nil => exact hs
  | cons a xs ih =>
    refine (ends_bind (f a) (fun _ => xs.forM f) _).mpr ?_
    refine (hf a List.mem_cons_self s hs).mono fun r t ht => ?_
    cases r with
    | error fault => exact ht
    | ok _ => exact ih ht fun b hb => hf b (List.mem_cons_of_mem a hb)

/-! ## Acts that succeed -/

def Gives (x : Act ρ σ α) (s : σ) (a : α) (t : σ) : Prop :=
  x.Ends s fun r u => r = .ok a ∧ u = t

section
variable {x : Act ρ σ α} {f : α → Act ρ σ β} {a : α} {b : β} {t u : σ}

theorem Gives.bind (hx : x.Gives s a t) (hf : (f a).Gives t b u) : (x >>= f).Gives s b u := by
  refine (ends_bind x f _).mpr (hx.mono ?_)
  rintro _ _ ⟨rfl, rfl⟩
  exact hf

theorem Gives.bind_ends {Q : Except Fault β → σ → Prop} (hx : x.Gives s a t) (hf : (f a).Ends t Q) :
    (x >>= f).Ends s Q := by
  refine (ends_bind x f _).mpr (hx.mono ?_)
  rintro _ _ ⟨rfl, rfl⟩
  exact hf

theorem Gives.ends {Q : Except Fault α → σ → Prop} (hx : x.Gives s a t) (hQ : Q (.ok a) t) : x.Ends s Q :=
  hx.mono fun _ _ ⟨hr, hu⟩ => hr ▸ hu ▸ hQ

theorem Gives.bind_congr {g : α → Act ρ σ β} (hx : x.Gives s a t) (h : f a t = g a t) :
    (x >>= f) s = (x >>= g) s := by
  obtain ⟨hr, rfl⟩ := hx
  show Act.bind x f s = Act.bind x g s
  unfold Act.bind
  rcases hx : x s with ⟨fault | a, t, log⟩
  · rfl
  · rw [hx] at hr h
    cases hr
    dsimp only at h ⊢
    rw [h]

end

theorem gives_pure (a : α) : (pure a : Act ρ σ α).Gives s a s :=
  ⟨rfl, rfl⟩

theorem gives_forM {f : α → Act ρ σ Unit} {xs : List α} (hf : ∀ a ∈ xs, (f a).Gives s () s) :
    (xs.forM f).Gives s () s := by
  induction xs with
  | nil => exact gives_pure ()
  | cons a xs ih => exact (hf a List.mem_cons_self).bind (ih fun b hb => hf b (List.mem_cons_of_mem a hb))

theorem Gives.zoom {view : σ → τ} {put : σ → τ → σ} {x : Act ρ τ α} {a : α} {t : τ}
    (hx : x.Gives (view s) a t) : (zoom view put x).Gives s a (put s t) :=
  ⟨hx.1, congrArg (put s) hx.2⟩

/-! ## Acts that may fail -/

def Yields (x : Act ρ σ α) (s : σ) (P : α → Prop) : Prop :=
  x.Ends s fun r _ => ∀ a, r = .ok a → P a

section
variable {s : σ} {P : α → Prop} {Q : β → Prop} {x : Act ρ σ α}

theorem Yields.bind {f : α → Act ρ σ β} (hx : x.Yields s P) (hf : ∀ a t, P a → (f a).Yields t Q) :
    (x >>= f).Yields s Q := by
  refine (ends_bind x f _).mpr (hx.mono fun r t hr => ?_)
  cases r with
  | error fault => exact fun _ h => by cases h
  | ok a => exact hf a t (hr a rfl)

theorem yields_any (x : Act ρ σ α) (s : σ) : x.Yields s fun _ => True :=
  fun _ _ => trivial

theorem yields_result (x : Act ρ σ α) (s : σ) : x.Yields s fun a => (x s).result = .ok a :=
  fun _ hr => hr

theorem yields_pure {a : α} (h : P a) : (pure a : Act ρ σ α).Yields s P :=
  fun _ hr => Except.ok.inj hr ▸ h

theorem yields_lift (x : Except Fault α) : (lift x : Act ρ σ α).Yields s fun a => x = .ok a :=
  fun _ hr => hr

end

/-! ## Acts followed on a state -/

section
variable {s' : σ} {x : Act ρ σ α} {a : α}

theorem get_bind (f : σ → Act ρ σ α) (s : σ) : (get >>= f) s = f s s := rfl

theorem modify_bind (g : σ → σ) (f : Unit → Act ρ σ α) (s : σ) : (modify g >>= f) s = f () (g s) := rfl

theorem bind_quiet (f : α → Act ρ σ β) (h : x s = ⟨.ok a, s', []⟩) : (x >>= f) s = f a s' := by
  rw [bind_of_ok s h]
  rfl

theorem lift_bind {r : Except Fault α} (f : α → Act ρ σ β) (s : σ) (h : r = .ok a) :
    (lift r >>= f) s = f a s := by
  rw [h]
  exact bind_quiet f rfl

theorem lift_bind_error {r : Except Fault α} {fault : Fault} (f : α → Act ρ σ β) (s : σ)
    (h : r = .error fault) : (lift r >>= f) s = ⟨.error fault, s, []⟩ := by
  rw [h]
  exact bind_of_error s rfl

theorem bind_logged {s'' : σ} {result : Except Fault β} {log : List (Entry ρ)} (f : α → Act ρ σ β)
    (h : x s = ⟨.ok a, s', log⟩) (hf : f a s' = ⟨result, s'', []⟩) : (x >>= f) s = ⟨result, s'', log⟩ := by
  rw [bind_of_ok s h, hf, List.append_nil]

end

end FiberScheduler.Act
