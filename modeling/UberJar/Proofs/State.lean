import Mathlib.Order.Defs.Unbundled
import UberJar.Proofs.Except

namespace UberJar

variable {σ ε α β : Type} {x : ExceptT ε (StateM σ) α} {f : α → ExceptT ε (StateM σ) β} {s s₁ s₂ : σ}

theorem run_bind_of_ok {a : α} (hx : x.run.run s = (.ok a, s₁)) : (x >>= f).run.run s = (f a).run.run s₁ := by
  change ExceptT.bindCont f (x.run.run s).1 (x.run.run s).2 = _
  rw [hx]
  rfl

theorem run_bind_of_error {e : ε} (hx : x.run.run s = (.error e, s₁)) : (x >>= f).run.run s = (.error e, s₁) := by
  change ExceptT.bindCont f (x.run.run s).1 (x.run.run s).2 = _
  rw [hx]
  rfl

theorem run_bind_congr {y : ExceptT ε (StateM σ) α} (hsame : x.run.run s = y.run.run s) :
    (x >>= f).run.run s = (y >>= f).run.run s := by
  change ExceptT.bindCont f (x.run.run s).1 (x.run.run s).2 = ExceptT.bindCont f (y.run.run s).1 (y.run.run s).2
  rw [hsame]

theorem exists_state_of_isOk {result : Except ε Unit × σ} (hok : result.1.isOk = true) :
    ∃ s, result = (.ok (), s) :=
  ⟨result.2, Prod.ext (eq_ok_of_isOk hok) rfl⟩

theorem eq_of_fst_eq {α β : Type} {result : α × β} {a : α} (hfst : result.1 = a) : result = (a, result.2) :=
  Prod.ext hfst rfl

/-- A computation in two steps ends well exactly if both steps do, one after the other. -/
theorem run_bind_state_eq_ok_iff {b : β} :
    (x >>= f).run.run s = (.ok b, s₂) ↔
      ∃ a s₁, x.run.run s = (.ok a, s₁) ∧ (f a).run.run s₁ = (.ok b, s₂) := by
  cases hx : x.run.run s with
  | mk result s₁ =>
    cases result with
    | error e =>
      rw [run_bind_of_error hx]
      constructor
      · intro h
        cases h
      · rintro ⟨a, s₁, h, -⟩
        cases h
    | ok a =>
      rw [run_bind_of_ok hx]
      constructor
      · exact fun h => ⟨a, s₁, rfl, h⟩
      · rintro ⟨a', s₁', h, hrest⟩
        cases h
        exact hrest

/-- A computation in two steps fails exactly if one of them does. -/
theorem run_bind_state_eq_error_iff {e : ε} :
    (x >>= f).run.run s = (.error e, s₂) ↔
      x.run.run s = (.error e, s₂) ∨ ∃ a s₁, x.run.run s = (.ok a, s₁) ∧ (f a).run.run s₁ = (.error e, s₂) := by
  cases hx : x.run.run s with
  | mk result s₁ =>
    cases result with
    | error e' =>
      rw [run_bind_of_error hx]
      constructor
      · intro h
        cases h
        exact .inl rfl
      · rintro (h | ⟨a, s₁, h, -⟩)
        · cases h
          rfl
        · cases h
    | ok a =>
      rw [run_bind_of_ok hx]
      constructor
      · exact fun h => .inr ⟨a, s₁, rfl, h⟩
      · rintro (h | ⟨a', s₁', h, hrest⟩)
        · cases h
        · cases h
          exact hrest

theorem run_pure (a : α) (s : σ) : (pure a : ExceptT ε (StateM σ) α).run.run s = (.ok a, s) :=
  rfl

theorem run_pure_eq_ok {a b : α} (hrun : (pure a : ExceptT ε (StateM σ) α).run.run s₁ = (.ok b, s₂)) :
    a = b ∧ s₁ = s₂ := by
  obtain ⟨hresult, hs⟩ := Prod.mk.inj hrun
  exact ⟨Except.ok.inj hresult, hs⟩

/-- What is done with a result does not change the state any more. -/
theorem snd_run_bind_pure (f : α → β) : ((x >>= fun a => pure (f a)).run.run s).2 = (x.run.run s).2 := by
  cases hx : x.run.run s with
  | mk result s₁ =>
    cases result with
    | error e => rw [run_bind_of_error hx]
    | ok a =>
      rw [run_bind_of_ok hx]
      rfl

theorem run_get_bind (f : σ → ExceptT ε (StateM σ) α) (s : σ) : (get >>= f).run.run s = (f s).run.run s :=
  rfl

theorem run_lift (x : StateM σ α) (s : σ) :
    (ExceptT.lift x : ExceptT ε (StateM σ) α).run.run s = (.ok (x.run s).1, (x.run s).2) :=
  rfl

theorem run_adapt {ε' : Type} (x : ExceptT ε (StateM σ) α) (g : ε → ε') (s : σ) :
    (x.adapt g).run.run s = ((x.run.run s).1.mapError g, (x.run.run s).2) :=
  rfl

theorem run_lift_bind (x : StateM σ α) (f : α → ExceptT ε (StateM σ) β) (s : σ) :
    (ExceptT.lift x >>= f).run.run s = (f (x.run s).1).run.run (x.run s).2 :=
  run_bind_of_ok (run_lift x s)

/-- Wherever a computation starts, where it ends stands in a relation to the start. -/
def Leads (R : σ → σ → Prop) (x : StateM σ α) : Prop := ∀ s, R s (x.run s).2

theorem Leads.bind {R : σ → σ → Prop} {x : StateM σ α} {f : α → StateM σ β}
    (htrans : ∀ {s₁ s₂ s₃}, R s₁ s₂ → R s₂ s₃ → R s₁ s₃) (hx : Leads R x) (hf : ∀ a, Leads R (f a)) :
    Leads R (x >>= f) :=
  fun s => htrans (hx s) (hf _ _)

theorem leads_lift {R : σ → σ → Prop} {x : StateM σ α} (hx : Leads R x) :
    Leads R (ExceptT.lift x : ExceptT ε (StateM σ) α).run := hx

theorem leads_adapt {R : σ → σ → Prop} {ε' : Type} (hx : Leads R x.run) (g : ε → ε') : Leads R (x.adapt g).run := hx

theorem Leads.mono {R R' : σ → σ → Prop} {x : StateM σ α} (hx : Leads R x) (h : ∀ {s₁ s₂}, R s₁ s₂ → R' s₁ s₂) :
    Leads R' x := fun s => h (hx s)

section Preorder

variable {R : σ → σ → Prop} [IsPreorder σ R]

theorem leads_pure (a : α) : Leads R (pure a : StateM σ α) := Std.Refl.refl

theorem leads_result (result : Except ε α) : Leads R (ExceptT.mk (pure result) : ExceptT ε (StateM σ) α).run :=
  Std.Refl.refl

/-- A computation in two steps leads on if both steps do, also if it fails after the first one. -/
theorem leads_bind (hx : Leads R x.run) (hf : ∀ a, Leads R (f a).run) : Leads R (x >>= f).run := by
  refine Leads.bind (x := x.run) (f := ExceptT.bindCont f) (IsTrans.trans _ _ _) hx fun result => ?_
  cases result with
  | ok a => exact hf a
  | error e => exact Std.Refl.refl

theorem leads_mapM {g : α → ExceptT ε (StateM σ) β} (hg : ∀ a, Leads R (g a).run) (items : List α) :
    Leads R (items.mapM g).run := by
  induction items with
  | nil => exact leads_result (.ok [])
  | cons a items ih =>
    rw [List.mapM_cons]
    exact leads_bind (hg a) fun b => leads_bind ih fun bs => leads_result (.ok (b :: bs))

theorem leads_foldlM {g : β → α → ExceptT ε (StateM σ) β} (hg : ∀ b a, Leads R (g b a).run) (b : β) (items : List α) :
    Leads R (items.foldlM g b).run := by
  induction items generalizing b with
  | nil => exact leads_result (.ok b)
  | cons a items ih =>
    rw [List.foldlM_cons]
    exact leads_bind (hg b a) fun b => ih b

end Preorder

/-- A computation that leaves the state as it is. -/
abbrev ReadsOnly (x : StateM σ α) : Prop := Leads (fun before after => after = before) x

theorem ReadsOnly.bind {x : StateM σ α} {f : α → StateM σ β} (hx : ReadsOnly x) (hf : ∀ a, ReadsOnly (f a)) :
    ReadsOnly (x >>= f) :=
  Leads.bind (fun hfirst hsecond => hsecond.trans hfirst) hx hf

theorem ReadsOnly.run_eq {x : StateM σ α} (hx : ReadsOnly x) (s : σ) : x.run s = ((x.run s).1, s) :=
  Prod.ext rfl (hx s)

/-- A computation in two steps ends where it starts if both of its steps do from there. -/
theorem snd_run_bind_of_unchanged (hx : (x.run.run s).2 = s) (hf : ∀ a, ((f a).run.run s).2 = s) :
    ((x >>= f).run.run s).2 = s := by
  cases hrun : x.run.run s with
  | mk result s₁ =>
    rw [hrun] at hx
    subst hx
    cases result with
    | error e => rw [run_bind_of_error hrun]
    | ok a => rw [run_bind_of_ok hrun, hf]

section Gives

variable {P : σ → Prop}

/-- From all states of a kind, a computation gives one result and ends in a state of that kind. -/
def Gives (P : σ → Prop) (x : StateM σ α) (a : α) : Prop := ∀ s, P s → (x.run s).1 = a ∧ P (x.run s).2

theorem gives_of_unchanged {x : StateM σ α} (hsame : (x.run s).2 = s) : Gives (· = s) x (x.run s).1 := by
  rintro _ rfl
  exact ⟨rfl, hsame⟩

theorem Gives.run_eq {x : StateM σ α} {a : α} (hx : Gives (· = s) x a) : x.run s = (a, s) :=
  Prod.ext (hx s rfl).1 (hx s rfl).2

theorem gives_result (result : Except ε α) : Gives P (ExceptT.mk (pure result) : ExceptT ε (StateM σ) α).run result :=
  fun _ hs => ⟨rfl, hs⟩

theorem gives_lift {x : StateM σ α} {a : α} (hx : Gives P x a) :
    Gives P (ExceptT.lift x : ExceptT ε (StateM σ) α).run (.ok a) :=
  fun s hs => ⟨congrArg Except.ok (hx s hs).1, (hx s hs).2⟩

/-- A computation in two steps gives what two steps without a state give, if each of its steps does. -/
theorem gives_bind {y : ExceptT ε Id α} {g : α → ExceptT ε Id β} (hx : Gives P x.run y.run)
    (hf : ∀ a, Gives P (f a).run (g a).run) : Gives P (x >>= f).run (y >>= g).run := by
  intro s hs
  obtain ⟨hresult, hstate⟩ := hx s hs
  change _ = ExceptT.bindCont g y.run ∧ _
  cases hy : y.run with
  | error e =>
    rw [run_bind_of_error (eq_of_fst_eq (hresult.trans hy))]
    exact ⟨rfl, hstate⟩
  | ok a =>
    rw [run_bind_of_ok (eq_of_fst_eq (hresult.trans hy))]
    exact hf a _ hstate

theorem gives_mapM {f : α → ExceptT ε (StateM σ) β} {g : α → ExceptT ε Id β}
    (hf : ∀ a, Gives P (f a).run (g a).run) (items : List α) : Gives P (items.mapM f).run (items.mapM g).run := by
  induction items with
  | nil => exact gives_result (.ok [])
  | cons a items ih =>
    rw [List.mapM_cons, List.mapM_cons]
    exact gives_bind (hf a) fun b => gives_bind ih fun bs => gives_result (.ok (b :: bs))

theorem gives_foldlM {f : β → α → ExceptT ε (StateM σ) β} {g : β → α → ExceptT ε Id β}
    (hf : ∀ b a, Gives P (f b a).run (g b a).run) (b : β) (items : List α) :
    Gives P (items.foldlM f b).run (items.foldlM g b).run := by
  induction items generalizing b with
  | nil => exact gives_result (.ok b)
  | cons a items ih =>
    rw [List.foldlM_cons, List.foldlM_cons]
    exact gives_bind (hf b a) fun b => ih b

end Gives

end UberJar
