import Artboard.Proofs.Conversion.Passes

/-!
# Computations in lockstep

Two computations go in lockstep if from related worlds they come to related worlds, and either both
come to values that are related too, or both to the same panic (`Pass.Lockstep`). They need not be
computations of the same kind of value: one may follow the other only to keep an account of it.

A panic may leave the worlds less closely related than a value does (`Pass.InStep`), for nothing
comes after it.
-/

namespace Artboard.Pass

variable {α β γ δ : Type} {R : World → World → Prop} {V : α → β → Prop} {V' : γ → δ → Prop}

/-- The same panic, or values in a relation. -/
inductive Matching (V : α → β → Prop) : Except Panic α → Except Panic β → Prop
  | value {a : α} {b : β} (h : V a b) : Matching V (.ok a) (.ok b)
  | panic (panic : Panic) : Matching V (.error panic) (.error panic)

def Lockstep (R : World → World → Prop) (V : α → β → Prop) (p : Pass α) (q : Pass β) : Prop :=
  ∀ w w', R w w' → Matching V (p.runIn w).1 (q.runIn w').1 ∧ R (p.runIn w).2 (q.runIn w').2

namespace Lockstep

variable {p : Pass α} {q : Pass β} {f : α → Pass γ} {g : β → Pass δ}

theorem pure {a : α} {b : β} (h : V a b) : Lockstep R V (pure a) (pure b) :=
  fun _ _ hw => ⟨.value h, hw⟩

theorem bind (h : Lockstep R V p q) (hf : ∀ a b, V a b → Lockstep R V' (f a) (g b)) :
    Lockstep R V' (p >>= f) (q >>= g) := by
  intro w w' hw
  obtain ⟨hvalue, hworld⟩ := h w w' hw
  rw [runIn_bind, runIn_bind]
  rcases hp : p.runIn w with ⟨value, v⟩
  rcases hq : q.runIn w' with ⟨value', v'⟩
  rw [hp, hq] at hvalue hworld
  cases hvalue with
  | value hab => exact hf _ _ hab v v' hworld
  | panic panic => exact ⟨.panic panic, hworld⟩

/-- Every computation goes in lockstep with itself in the same world. -/
theorem refl (p : Pass α) : Lockstep Eq Eq p p := by
  rintro w _ rfl
  refine ⟨?_, rfl⟩
  cases (p.runIn w).1 with
  | ok a => exact .value rfl
  | error panic => exact .panic panic

/-- Worlds stay related through a computation that leaves the same world as the first. -/
theorem after {r : Pass γ} {W : β → γ → Prop} (h : Lockstep Eq V p q) (h' : Lockstep R W q r) :
    Lockstep R (fun _ _ => True) p r := by
  intro w w' hw
  obtain ⟨hvalue, hworld⟩ := h w w rfl
  obtain ⟨hvalue', hworld'⟩ := h' w w' hw
  rw [← hworld] at hworld'
  refine ⟨?_, hworld'⟩
  generalize (p.runIn w).1 = a, (q.runIn w).1 = b, (r.runIn w').1 = c at hvalue hvalue' ⊢
  cases hvalue with
  | value =>
    cases hvalue' with
    | value => exact .value True.intro
  | panic panic =>
    cases hvalue' with
    | panic => exact .panic panic

end Lockstep

/-! ## Panics that leave the step -/

/-- Values and worlds in a relation, or the same panic and worlds in another relation. -/
inductive Ending (R E : World → World → Prop) (V : α → β → Prop) :
    Except Panic α × World → Except Panic β × World → Prop
  | value {a : α} {b : β} {w w' : World} (h : V a b) (hw : R w w') :
      Ending R E V (.ok a, w) (.ok b, w')
  | panic (panic : Panic) {w w' : World} (hw : E w w') :
      Ending R E V (.error panic, w) (.error panic, w')

/-- From worlds related by `R` the computations come to values and worlds related by `V` and `R`, or
to the same panic and worlds related by `E`. -/
def InStep (R E : World → World → Prop) (V : α → β → Prop) (p : Pass α) (q : Pass β) : Prop :=
  ∀ w w', R w w' → Ending R E V (p.runIn w) (q.runIn w')

namespace InStep

variable {E : World → World → Prop} {p : Pass α} {q : Pass β} {f : α → Pass γ} {g : β → Pass δ}

theorem pure {a : α} {b : β} (h : V a b) : InStep R E V (pure a) (pure b) :=
  fun _ _ hw => .value h hw

theorem bind (h : InStep R E V p q) (hf : ∀ a b, V a b → InStep R E V' (f a) (g b)) :
    InStep R E V' (p >>= f) (q >>= g) := by
  intro w w' hw
  have hend := h w w' hw
  rw [runIn_bind, runIn_bind]
  generalize p.runIn w = result, q.runIn w' = result' at hend ⊢
  cases hend with
  | value hab hv => exact hf _ _ hab _ _ hv
  | panic panic hv => exact .panic panic hv

theorem mono {W : α → β → Prop} (h : InStep R E V p q) (hV : ∀ a b, V a b → W a b) :
    InStep R E W p q := by
  intro w w' hw
  have hend := h w w' hw
  generalize p.runIn w = result, q.runIn w' = result' at hend ⊢
  cases hend with
  | value hab hv => exact .value (hV _ _ hab) hv
  | panic panic hv => exact .panic panic hv

/-- What each side gives by itself holds too. -/
theorem and_gives {P : α → Prop} {Q : β → Prop} (h : InStep R E V p q) (hp : Gives p P)
    (hq : Gives q Q) : InStep R E (fun a b => V a b ∧ P a ∧ Q b) p q := by
  intro w w' hw
  have hend := h w w' hw
  have ha := hp w
  have hb := hq w'
  generalize p.runIn w = result, q.runIn w' = result' at hend ha hb ⊢
  cases hend with
  | value hab hv => exact .value ⟨hab, ha _ rfl, hb _ rfl⟩ hv
  | panic panic hv => exact .panic panic hv

theorem matching (h : InStep R E V p q) {w w' : World} (hw : R w w') :
    Matching V (p.runIn w).1 (q.runIn w').1 := by
  have hend := h w w' hw
  generalize p.runIn w = result, q.runIn w' = result' at hend ⊢
  cases hend with
  | value hab _ => exact .value hab
  | panic panic _ => exact .panic panic

/-- Where one computation comes to a value, so does the other. -/
theorem exists_value (h : InStep R E V p q) {w w' v : World} {a : α} (hw : R w w')
    (hp : p.runIn w = (.ok a, v)) :
    ∃ b v', q.runIn w' = (.ok b, v') ∧ V a b ∧ R v v' := by
  have hend := h w w' hw
  rw [hp] at hend
  generalize q.runIn w' = result at hend ⊢
  cases hend with
  | value hab hv => exact ⟨_, _, rfl, hab, hv⟩

end InStep

theorem lockstep_iff_inStep {p : Pass α} {q : Pass β} :
    Lockstep R V p q ↔ InStep R R V p q := by
  refine forall₃_congr fun w w' hw => ?_
  generalize p.runIn w = result, q.runIn w' = result'
  constructor
  · obtain ⟨value, v⟩ := result
    obtain ⟨value', v'⟩ := result'
    rintro ⟨hvalue, hworld⟩
    cases hvalue with
    | value h => exact .value h hworld
    | panic panic => exact .panic panic hworld
  · intro hend
    cases hend with
    | value h hworld => exact ⟨.value h, hworld⟩
    | panic panic hworld => exact ⟨.panic panic, hworld⟩

end Artboard.Pass
