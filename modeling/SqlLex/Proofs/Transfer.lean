import SqlLex.Proofs.Move

namespace SqlLex

/-!
# Runs side by side

Two texts are read side by side when each character of one does to its piece what the character of
the other does to that of the other: then whole runs correspond, with their fragments, errors and
values.

* `Progress.mapWith` — a scan with other fragments, errors and values.
* `Move.apply_map` — the same move, made of another piece.
* `Scanner.scan_map`, `Scanner.read_map` — steps that correspond make runs that do.
-/

variable {α β γ δ : Type} {φ : Fragment → Fragment} {ε : LexError → LexError}

/-! ### Scans -/

namespace Progress

/-- The scan with `φ` of its fragments, and with `ε` of its error or `g` of its value. -/
def mapWith (φ : Fragment → Fragment) (ε : LexError → LexError) (g : α → β) (p : Progress α) :
    Progress β :=
  ⟨p.fragments.map φ, (p.outcome.map g).mapError ε⟩

@[simp] theorem mapWith_pure (g : α → β) (a : α) : (pure a).mapWith φ ε g = pure (g a) := rfl

/-- Of two scans one after the other, the second need only correspond where the first leads. -/
theorem mapWith_andThen {p : Progress α} {f : α → Progress β} {f' : γ → Progress δ}
    {g : α → γ} {h : β → δ}
    (hf : ∀ a, p.outcome = .ok a → (f a).mapWith φ ε h = f' (g a)) :
    (p.andThen f).mapWith φ ε h = (p.mapWith φ ε g).andThen f' := by
  obtain ⟨fs, e | a⟩ := p
  · rfl
  · show _ = Progress.mk (fs.map φ ++ (f' (g a)).fragments) (f' (g a)).outcome
    rw [← hf a rfl]
    simp [mapWith, andThen]

end Progress

/-! ### Pieces -/

section Pieces

variable {π : Piece → Piece}

theorem openLiteral?_map (hkind : ∀ p, (π p).kind = p.kind) (pending : Option Piece) :
    openLiteral? (pending.map π) = (openLiteral? pending).map fun q => (π q.1, q.2) := by
  cases pending with
  | none => rfl
  | some p =>
    simp only [openLiteral?, Option.map_some, hkind]
    cases p.kind <;> rfl

theorem isReading_map (hkind : ∀ p, (π p).kind = p.kind) (kind : PieceKind)
    (pending : Option Piece) : isReading kind (pending.map π) = isReading kind pending := by
  cases pending with
  | none => rfl
  | some p => simp only [isReading, Option.map_some, Option.any_some, hkind]

theorem completed_map (hdone : ∀ p, (π p).toFragment = φ p.toFragment) (pending : Option Piece) :
    completed (pending.map π) = (completed pending).map φ := by
  cases pending with
  | none => rfl
  | some p => simp [completed, hdone]

/-- The same move comes to the same, made of another piece by another character. -/
theorem Move.apply_map {m : Move} {pending : Option Piece} {position position' : Nat} {c c' : Char}
    (hdone : ∀ p, (π p).toFragment = φ p.toFragment)
    (hpush : ∀ p, (π p).push c' = π (p.push c))
    (hnext : ∀ kind, Piece.singleton kind position' c' = π (.singleton kind position c))
    (halone : Fragment.ofChar position' c' = φ (.ofChar position c))
    (hfault : m = .fault → m.apply (pending.map π) position' c' =
      (m.apply pending position c).mapWith φ ε (Option.map π)) :
    m.apply (pending.map π) position' c' =
      (m.apply pending position c).mapWith φ ε (Option.map π) := by
  have hpending : (pending.map π).map (·.push c') = (pending.map (·.push c)).map π := by
    cases pending with
    | none => rfl
    | some p => simp [hpush]
  cases m with
  | push => rw [apply, apply, hpending, Progress.mapWith_pure]
  | close =>
    rw [apply, hpending, completed_map hdone]
    rfl
  | next kind =>
    rw [apply, completed_map hdone, hnext]
    rfl
  | skip =>
    rw [apply, completed_map hdone]
    rfl
  | alone =>
    rw [apply, completed_map hdone, halone, ← List.map_singleton, ← List.map_append]
    rfl
  | fault => exact hfault rfl

end Pieces

/-! ### Texts -/

namespace Scanner

variable {v : Vocabulary} {I : Scanner → Prop} {σ : Scanner → Scanner} {χ : Char → Char}

/-- **Steps that correspond make runs that do.**  The steps need only correspond where `I` holds, if
    that is kept by each step. -/
theorem scan_map
    (hstep : ∀ s c, I s → (σ s).step v (χ c) = (s.step v c).mapWith φ ε σ)
    (hkept : ∀ s t c fs, I s → s.step v c = ⟨fs, .ok t⟩ → I t)
    {s : Scanner} (hs : I s) (cs : List Char) :
    (σ s).scan v (cs.map χ) = (s.scan v cs).mapWith φ ε σ := by
  induction cs generalizing s with
  | nil => rfl
  | cons c cs ih =>
    rw [List.map_cons, scan_cons, scan_cons, hstep s c hs]
    symm
    apply Progress.mapWith_andThen
    intro t ht
    exact (ih (hkept s t c _ hs (by rw [← ht]))).symm

theorem read_map
    (hstep : ∀ s c, I s → (σ s).step v (χ c) = (s.step v c).mapWith φ ε σ)
    (hkept : ∀ s t c fs, I s → s.step v c = ⟨fs, .ok t⟩ → I t)
    (hfinish : ∀ s, (σ s).finish = s.finish.mapWith φ ε id)
    {s : Scanner} (hs : I s) (cs : List Char) :
    (σ s).read v (cs.map χ) = (s.read v cs).mapWith φ ε id := by
  rw [read, scan_map hstep hkept hs]
  symm
  apply Progress.mapWith_andThen
  intro t _
  exact (hfinish t).symm

end Scanner

end SqlLex
