import Mathlib.Logic.Basic
import Coupling.Project.Collector

/-!
# Steps that a fault may end

Analysers are made of steps on a state. A step that meets a fault ends there, and what was done
before it stays done. Three things are said of a step: what it did if it came to its end
(`bind_eq_ok`, `forM_cons_eq_ok`), which properties of the state it keeps however it ended
(`Keeps`), and which correspondence of two states it keeps, ending alike in both (`Simulates`). What
is kept by the parts of a step is kept by the step.

A collection is made of steps whose state is lost at a fault; of these only the first is said.
-/

namespace Coupling.Steps

open Project (Fault need textOf)

variable {ε σ α β : Type}

/-! ## What a step did -/

@[simp] theorem run_pure (a : α) (s : σ) :
    (pure a : ExceptT ε (StateM σ) α).run.run s = (.ok a, s) := rfl

@[simp] theorem run_get (s : σ) : (get : ExceptT ε (StateM σ) σ).run.run s = (.ok s, s) := rfl

@[simp] theorem run_set (s s' : σ) :
    (set s' : ExceptT ε (StateM σ) Unit).run.run s = (.ok (), s') := rfl

@[simp] theorem run_modify (f : σ → σ) (s : σ) :
    (modify f : ExceptT ε (StateM σ) Unit).run.run s = (.ok (), f s) := rfl

@[simp] theorem run_throw (e : ε) (s : σ) :
    (throw e : ExceptT ε (StateM σ) α).run.run s = (.error e, s) := rfl

@[simp] theorem run_liftExcept (x : Except ε α) (s : σ) :
    (liftExcept x : ExceptT ε (StateM σ) α).run.run s = (x, s) := by
  cases x <;> rfl

variable {x : Except ε α} {s s' : σ} {b : β} {f : α → ExceptT ε (StateM σ) Unit} {xs : List α}

theorem liftExcept_eq_ok {a : α} :
    (liftExcept x : ExceptT ε (StateM σ) α).run.run s = (.ok a, s') ↔ x = .ok a ∧ s' = s := by
  rw [run_liftExcept, Prod.mk.injEq, eq_comm (a := s)]

theorem run_bind (x : ExceptT ε (StateM σ) α) (f : α → ExceptT ε (StateM σ) β) (s : σ) :
    (x >>= f).run.run s =
      match x.run.run s with
      | (.ok a, s') => (f a).run.run s'
      | (.error e, s') => (.error e, s') := by
  show (StateT.run (ExceptT.run x >>= ExceptT.bindCont f) s) = _
  rw [StateT.run_bind]
  show (match ExceptT.run x |>.run s with
    | (a, s') => StateT.run (ExceptT.bindCont f a) s') = _
  obtain ⟨r, s'⟩ := StateT.run (ExceptT.run x) s
  cases r <;> rfl

/-- A sequence comes to its end if its parts do, one after the other. -/
theorem bind_eq_ok {x : ExceptT ε (StateM σ) α} {f : α → ExceptT ε (StateM σ) β} {s'' : σ} :
    (x >>= f).run.run s = (.ok b, s'') ↔
      ∃ a s', x.run.run s = (.ok a, s') ∧ (f a).run.run s' = (.ok b, s'') := by
  rw [run_bind]
  rcases hx : x.run.run s with ⟨_ | a, s'⟩
  · constructor
    · intro h
      cases h
    · rintro ⟨a, s₁, h, _⟩
      cases h
  · constructor
    · intro h
      exact ⟨a, s', rfl, h⟩
    · rintro ⟨a', s₁, h, hf⟩
      cases h
      exact hf

@[simp] theorem run_need (property : String) (part : Option α) (s : σ) :
    (need property part : ExceptT Fault (StateM σ) α).run.run s =
      match part with
      | some v => (.ok v, s)
      | none => (.error (.absent property), s) := by
  cases part <;> rfl

theorem textOf_eq_ok {part : Option Java.ParseTree} {text : String} :
    (textOf part : ExceptT Fault (StateM σ) String).run.run s = (.ok text, s') ↔
      ∃ t, part = some t ∧ t.text = text ∧ s' = s := by
  unfold textOf
  rw [bind_eq_ok]
  constructor
  · rintro ⟨t, s₁, h, h'⟩
    rw [run_need] at h
    cases part with
    | none => cases h
    | some t' =>
      cases h
      cases h'
      exact ⟨t, rfl, rfl, rfl⟩
  · rintro ⟨t, rfl, rfl, rfl⟩
    exact ⟨t, s', rfl, rfl⟩

theorem forM_nil_eq_ok : (([] : List α).forM f).run.run s = (.ok (), s') ↔ s' = s := by
  show ((.ok (), s) : Except ε Unit × σ) = (.ok (), s') ↔ s' = s
  constructor
  · intro h
    cases h
    rfl
  · rintro rfl
    rfl

theorem forM_cons_eq_ok {x : α} {s'' : σ} :
    ((x :: xs).forM f).run.run s = (.ok (), s'') ↔
      ∃ s', (f x).run.run s = (.ok (), s') ∧ (xs.forM f).run.run s' = (.ok (), s'') := by
  show (f x >>= fun _ => xs.forM f).run.run s = _ ↔ _
  rw [bind_eq_ok]
  constructor
  · rintro ⟨⟨⟩, s', h, hs⟩
    exact ⟨s', h, hs⟩
  · rintro ⟨s', h, hs⟩
    exact ⟨(), s', h, hs⟩

theorem forM_congr_left {g : α → ExceptT ε (StateM σ) Unit} (h : ∀ x ∈ xs, f x = g x) :
    xs.forM f = xs.forM g := by
  induction xs with
  | nil => rfl
  | cons x xs ih =>
    obtain ⟨hx, hxs⟩ := List.forall_mem_cons.mp h
    rw [List.forM, List.forM, hx, ih hxs]

/-- A step whose outcome is tested came to its end. -/
theorem eq_ok_of_toBool {r : Except ε Unit × σ} (h : r.1.toBool = true) : r = (.ok (), r.2) := by
  obtain ⟨_ | ⟨⟩, s⟩ := r
  · cases h
  · rfl

/-- Every step of a loop that came to its end did. -/
theorem of_mem_forM (h : (xs.forM f).run.run s = (.ok (), s')) {x : α} (hx : x ∈ xs) :
    ∃ s₁ s₂, (f x).run.run s₁ = (.ok (), s₂) := by
  induction xs generalizing s with
  | nil => cases hx
  | cons y xs ih =>
    obtain ⟨s₁, hy, hrest⟩ := forM_cons_eq_ok.mp h
    rcases List.mem_cons.mp hx with rfl | hx
    · exact ⟨s, s₁, hy⟩
    · exact ih hrest hx

theorem of_mem_foldlM {f : β → α → ExceptT ε (StateM σ) β} {b' : β}
    (h : (xs.foldlM f b).run.run s = (.ok b', s'))
    {x : α} (hx : x ∈ xs) : ∃ b₁ s₁ b₂ s₂, (f b₁ x).run.run s₁ = (.ok b₂, s₂) := by
  induction xs generalizing b s with
  | nil => cases hx
  | cons y xs ih =>
    rw [List.foldlM_cons] at h
    obtain ⟨b₁, s₁, hy, hrest⟩ := bind_eq_ok.mp h
    rcases List.mem_cons.mp hx with rfl | hx
    · exact ⟨b, s, b₁, s₁, hy⟩
    · exact ih hrest hx

/-! ## Steps without a state -/

theorem except_bind_eq_ok {f : α → Except ε β} :
    x >>= f = .ok b ↔ ∃ a, x = .ok a ∧ f a = .ok b := by
  cases x with
  | error e => exact ⟨fun h => (nomatch h), fun ⟨_, h, _⟩ => (nomatch h)⟩
  | ok a => exact ⟨fun h => ⟨a, rfl, h⟩, fun ⟨_, h, hf⟩ => Except.ok.inj h ▸ hf⟩

theorem exists_of_toBool (h : x.toBool = true) : ∃ a, x = .ok a := by
  cases x with
  | error e => cases h
  | ok a => exact ⟨a, rfl⟩

theorem exists_bind_of_ok {f : α → Except ε β} {a : α} (hx : x = .ok a) (hf : ∃ b, f a = .ok b) :
    ∃ b, x >>= f = .ok b := by
  obtain ⟨b, hb⟩ := hf
  exact ⟨b, except_bind_eq_ok.mpr ⟨a, hx, hb⟩⟩

theorem exists_except_bind {f : α → Except ε β} (hx : ∃ a, x = .ok a)
    (hf : ∀ a, x = .ok a → ∃ b, f a = .ok b) :
    ∃ b, x >>= f = .ok b := by
  obtain ⟨a, ha⟩ := hx
  exact exists_bind_of_ok ha (hf a ha)

theorem exists_mapM_iff {f : α → Except ε β} :
    (∃ ys, xs.mapM f = .ok ys) ↔ ∀ x ∈ xs, ∃ y, f x = .ok y := by
  induction xs with
  | nil => exact ⟨fun _ x hx => (nomatch hx), fun _ => ⟨[], rfl⟩⟩
  | cons x xs ih =>
    rw [List.forall_mem_cons, ← ih]
    constructor
    · rintro ⟨ys, h⟩
      rw [List.mapM_cons] at h
      obtain ⟨y, hy, h⟩ := except_bind_eq_ok.mp h
      obtain ⟨ys, hys, -⟩ := except_bind_eq_ok.mp h
      exact ⟨⟨y, hy⟩, ys, hys⟩
    · rintro ⟨⟨y, hy⟩, ys, hys⟩
      exact ⟨y :: ys, by rw [List.mapM_cons, hy, hys]; rfl⟩

theorem exists_foldlM {f : β → α → Except ε β} (h : ∀ x ∈ xs, ∀ b, ∃ b', f b x = .ok b') (b : β) :
    ∃ b', xs.foldlM f b = .ok b' := by
  induction xs generalizing b with
  | nil => exact ⟨b, rfl⟩
  | cons x xs ih =>
    obtain ⟨hx, hxs⟩ := List.forall_mem_cons.mp h
    obtain ⟨b₁, hb₁⟩ := hx b
    rw [List.foldlM_cons, hb₁]
    exact ih hxs b₁

/-! ## What a step keeps -/

/-- A property holds after a step, whether or not a fault ended it, if it held before. -/
def Keeps (P : σ → Prop) (x : ExceptT ε (StateM σ) α) : Prop := ∀ s, P s → P (x.run.run s).2

variable {P : σ → Prop}

/-- What a step keeps holds in the state it led to. -/
theorem Keeps.of_run {x : ExceptT ε (StateM σ) α} (h : Keeps P x) {r : Except ε α} (hs : P s)
    (hrun : x.run.run s = (r, s')) : P s' := by
  have hkept := h s hs
  rwa [hrun] at hkept

theorem keeps_pure (a : α) : Keeps P (pure a : ExceptT ε (StateM σ) α) := fun _ h => h

theorem keeps_get : Keeps P (get : ExceptT ε (StateM σ) σ) := fun _ h => h

theorem keeps_throw (e : ε) : Keeps P (throw e : ExceptT ε (StateM σ) α) := fun _ h => h

theorem keeps_liftExcept (x : Except ε α) : Keeps P (liftExcept x : ExceptT ε (StateM σ) α) := by
  intro s h
  rw [run_liftExcept]
  exact h

theorem keeps_modify {f : σ → σ} (hf : ∀ s, P s → P (f s)) :
    Keeps P (modify f : ExceptT ε (StateM σ) Unit) := hf

theorem keeps_bind {x : ExceptT ε (StateM σ) α} {f : α → ExceptT ε (StateM σ) β} (hx : Keeps P x)
    (hf : ∀ a, Keeps P (f a)) : Keeps P (x >>= f) := by
  intro s h
  have hs := hx s h
  rw [run_bind]
  rcases hr : x.run.run s with ⟨_ | a, s'⟩
  · rw [hr] at hs
    exact hs
  · rw [hr] at hs
    exact hf a s' hs

/-- A step that keeps a property and gives a result that the rest can rely on. -/
theorem keeps_bind_of {Q : α → Prop} {x : ExceptT ε (StateM σ) α} {f : α → ExceptT ε (StateM σ) β}
    (hx : ∀ s, P s → P (x.run.run s).2 ∧ ∀ a s', x.run.run s = (.ok a, s') → Q a)
    (hf : ∀ a, Q a → Keeps P (f a)) : Keeps P (x >>= f) := by
  intro s h
  obtain ⟨hs, hq⟩ := hx s h
  rw [run_bind]
  rcases hr : x.run.run s with ⟨_ | a, s'⟩
  · rw [hr] at hs
    exact hs
  · rw [hr] at hs
    exact hf a (hq a s' hr) s' hs

theorem keeps_forM_of_mem (hf : ∀ a ∈ xs, Keeps P (f a)) : Keeps P (xs.forM f) := by
  induction xs with
  | nil => exact fun _ h => h
  | cons x xs ih =>
    obtain ⟨hx, hxs⟩ := List.forall_mem_cons.mp hf
    exact keeps_bind hx fun _ => ih hxs

theorem keeps_forM (xs : List α) (hf : ∀ a, Keeps P (f a)) :
    Keeps P (xs.forM f) :=
  keeps_forM_of_mem fun a _ => hf a

theorem keeps_foldlM {f : β → α → ExceptT ε (StateM σ) β} (hf : ∀ x ∈ xs, ∀ b, Keeps P (f b x))
    (b : β) :
    Keeps P (xs.foldlM f b) := by
  induction xs generalizing b with
  | nil => exact keeps_pure b
  | cons x xs ih =>
    obtain ⟨hx, hxs⟩ := List.forall_mem_cons.mp hf
    rw [List.foldlM_cons]
    exact keeps_bind (hx b) fun b' => ih hxs b'

/-- What a step keeps that goes by the state it starts in. -/
theorem keeps_get_bind {f : σ → ExceptT ε (StateM σ) α} (hf : ∀ s, P s → Keeps P (f s)) :
    Keeps P (get >>= f) :=
  fun s h => hf s h s h

theorem keeps_liftExcept_bind {k : α → ExceptT ε (StateM σ) β}
    (hk : ∀ a, x = .ok a → Keeps P (k a)) :
    Keeps P (liftExcept x >>= k) := by
  cases x with
  | error e => exact fun _ h => h
  | ok a => exact hk a rfl

/-! ## Two runs of a step -/

/-- From states that correspond, a step has the same outcome and leads to states that correspond. -/
def Simulates (R : σ → σ → Prop) (x : ExceptT ε (StateM σ) α) : Prop :=
  ∀ s s', R s s' → (x.run.run s').1 = (x.run.run s).1 ∧ R (x.run.run s).2 (x.run.run s').2

variable {R : σ → σ → Prop}

theorem simulates_pure (a : α) : Simulates R (pure a : ExceptT ε (StateM σ) α) :=
  fun _ _ h => ⟨rfl, h⟩

theorem simulates_throw (e : ε) : Simulates R (throw e : ExceptT ε (StateM σ) α) :=
  fun _ _ h => ⟨rfl, h⟩

theorem simulates_liftExcept (x : Except ε α) :
    Simulates R (liftExcept x : ExceptT ε (StateM σ) α) := by
  intro s s' h
  rw [run_liftExcept, run_liftExcept]
  exact ⟨rfl, h⟩

theorem simulates_modify {f : σ → σ} (hf : ∀ s s', R s s' → R (f s) (f s')) :
    Simulates R (modify f : ExceptT ε (StateM σ) Unit) :=
  fun s s' h => ⟨rfl, hf s s' h⟩

theorem simulates_bind {x : ExceptT ε (StateM σ) α} {f : α → ExceptT ε (StateM σ) β}
    (hx : Simulates R x) (hf : ∀ a, Simulates R (f a)) : Simulates R (x >>= f) := by
  intro s s' h
  obtain ⟨hend, hR⟩ := hx s s' h
  rw [run_bind, run_bind]
  rcases hr : x.run.run s with ⟨r, s₁⟩
  rcases hr' : x.run.run s' with ⟨r', s₁'⟩
  rw [hr, hr'] at hend hR
  cases hend
  cases r with
  | error e => exact ⟨rfl, hR⟩
  | ok a => exact hf a s₁ s₁' hR

/-- A step that goes by a part of the state which corresponding states have in common. -/
theorem simulates_get {f : σ → ExceptT ε (StateM σ) α} (hcommon : ∀ s s', R s s' → f s' = f s)
    (hf : ∀ s s', R s s' → Simulates R (f s)) : Simulates R (get >>= f) := by
  intro s s' h
  rw [run_bind, run_bind, run_get, run_get]
  simp only [hcommon s s' h]
  exact hf s s' h s s' h

theorem simulates_forM (xs : List α) (hf : ∀ a, Simulates R (f a)) : Simulates R (xs.forM f) := by
  induction xs with
  | nil => exact simulates_pure ()
  | cons x xs ih => exact simulates_bind (hf x) fun _ => ih

end Coupling.Steps
