import SqlLex.Fragment.Basic
import SqlLex.Text.Blank

namespace SqlLex

open Text

/-!
# Fragments in a text

How the fragments of a text lie in it: one behind the other, each over its own characters, and
nothing but blanks between them.

* `Fragment.ofList` — the fragment of given characters.
* `LaidOut` — a text is made of fragments at their places and of blanks.
* `Spaced` — a text behind a gap; `joinSpaced`, `placeSpaced` — the text that such parts make, and
  the fragments in it.
* `LaidOut.append` — layouts follow one another.
* `LaidOut.slice?_eq`, `LaidOut.pairwise`, `LaidOut.covered` — fragments are cut out by their spans,
  do not overlap, and leave out blanks only.
* `LaidOut.of_spaced`, `LaidOut.exists_spaced` — the layout of given gaps and texts, and those of a
  layout.
-/

/-- The fragment of the characters `cs` at `position`. -/
def Fragment.ofList (position : Nat) (cs : List Char) : Fragment :=
  ⟨String.ofList cs, ⟨position, position + byteSize cs⟩⟩

/-- The text that starts at a position consists of the fragments, each at its place and none of
    them empty, and of blanks between them. -/
inductive LaidOut : Nat → List Char → List Fragment → Prop where
  | nil {n : Nat} : LaidOut n [] []
  | blank {n : Nat} {c : Char} {cs : List Char} {fs : List Fragment} :
    isBlank c = true → LaidOut (n + c.utf8Size) cs fs → LaidOut n (c :: cs) fs
  | fragment {n : Nat} {w cs : List Char} {fs : List Fragment} :
    w ≠ [] → LaidOut (n + byteSize w) cs fs → LaidOut n (w ++ cs) (.ofList n w :: fs)

/-- The byte at `n` lies under the span. -/
def Span.Covers (s : Span) (n : Nat) : Prop := s.start ≤ n ∧ n < s.stop

/-- Of two first parts of a text, the shorter one is a first part of the other. -/
theorem exists_append_of_byteSize_le {as bs cs ds : List Char} (h : as ++ bs = cs ++ ds)
    (hle : byteSize as ≤ byteSize cs) : ∃ u, cs = as ++ u ∧ bs = u ++ ds := by
  rcases List.append_eq_append_iff.1 h with ⟨u, hcs, hbs⟩ | ⟨u, has, hds⟩
  · exact ⟨u, hcs, hbs⟩
  · have hu : u = [] := by
      rw [has, byteSize_append] at hle
      exact byteSize_eq_zero_iff.1 (by omega)
    subst hu
    exact ⟨[], by rw [has, List.append_nil, List.append_nil], hds.symm⟩

/-! ### Texts behind gaps -/

/-- A text and what stands between it and the text before it. -/
structure Spaced where
  gap : List Char
  text : List Char
deriving DecidableEq, Repr

/-- The text of the parts in order. -/
def joinSpaced (ps : List Spaced) : List Char := ps.flatMap fun p => p.gap ++ p.text

/-- The fragments of the parts, where the first gap starts at a position. -/
def placeSpaced (n : Nat) : List Spaced → List Fragment
  | [] => []
  | p :: ps =>
    .ofList (n + byteSize p.gap) p.text ::
      placeSpaced (n + byteSize p.gap + byteSize p.text) ps

@[simp] theorem joinSpaced_nil : joinSpaced [] = [] := rfl

theorem joinSpaced_cons (p : Spaced) (ps : List Spaced) :
    joinSpaced (p :: ps) = p.gap ++ p.text ++ joinSpaced ps := rfl

theorem joinSpaced_append (ps qs : List Spaced) :
    joinSpaced (ps ++ qs) = joinSpaced ps ++ joinSpaced qs := List.flatMap_append

/-- The fragments up to some place are those of the parts up to there. -/
theorem exists_append_of_placeSpaced_eq_append {n : Nat} {ps : List Spaced}
    {fs gs : List Fragment} (h : placeSpaced n ps = fs ++ gs) :
    ∃ qs rs, ps = qs ++ rs ∧ fs = placeSpaced n qs ∧
      gs = placeSpaced (n + byteSize (joinSpaced qs)) rs := by
  induction fs generalizing n ps with
  | nil => exact ⟨[], ps, rfl, rfl, h.symm⟩
  | cons f fs ih =>
    cases ps with
    | nil => cases h
    | cons p ps =>
      obtain ⟨rfl, hrest⟩ := List.cons.inj h
      obtain ⟨qs, rs, rfl, rfl, rfl⟩ := ih hrest
      refine ⟨p :: qs, rs, rfl, rfl, ?_⟩
      simp only [joinSpaced_cons, byteSize_append, Nat.add_assoc]

/-! ### Layouts -/

namespace LaidOut

variable {n : Nat} {cs ds : List Char} {fs gs : List Fragment}

/-- Blanks are laid out with no fragment. -/
theorem of_blanks {g : List Char} (h : g.all isBlank = true) (n : Nat) : LaidOut n g [] := by
  induction g generalizing n with
  | nil => exact .nil
  | cons c g ih =>
    rw [List.all_cons, Bool.and_eq_true] at h
    exact .blank h.1 (ih h.2 _)

theorem singleton {w : List Char} (h : w ≠ []) (n : Nat) :
    LaidOut n w [.ofList n w] := by
  have := LaidOut.fragment h (LaidOut.nil (n := n + byteSize w))
  rwa [List.append_nil] at this

/-- Layouts follow one another. -/
theorem append (h₁ : LaidOut n cs fs) (h₂ : LaidOut (n + byteSize cs) ds gs) :
    LaidOut n (cs ++ ds) (fs ++ gs) := by
  induction h₁ with
  | nil => exact h₂
  | blank hc _ ih =>
    rw [byteSize_cons, ← Nat.add_assoc] at h₂
    exact .blank hc (ih h₂)
  | fragment hw _ ih =>
    rw [byteSize_append, ← Nat.add_assoc] at h₂
    rw [List.append_assoc]
    exact .fragment hw (ih h₂)

/-- The fragments of a layout lie in its text, and each covers some of it. -/
theorem bounds (h : LaidOut n cs fs) {f : Fragment} (hf : f ∈ fs) :
    n ≤ f.span.start ∧ f.span.start < f.span.stop ∧ f.span.stop ≤ n + byteSize cs := by
  induction h with
  | nil => cases hf
  | blank _ _ ih =>
    have := ih hf
    rw [byteSize_cons]
    omega
  | @fragment n w cs fs hw _ ih =>
    have hpos : byteSize w ≠ 0 := fun h => hw (byteSize_eq_zero_iff.1 h)
    rw [byteSize_append]
    rcases List.mem_cons.1 hf with rfl | hf
    · simp only [Fragment.ofList]
      omega
    · have := ih hf
      omega

/-- A layout whose first fragment stands at its start starts with the text of that. -/
theorem exists_append_of_start {f : Fragment} (h : LaidOut n cs (f :: fs))
    (hstart : f.span.start = n) : ∃ ds, cs = f.text.toList ++ ds := by
  cases h with
  | @blank _ c cs _ _ hrest =>
    have := (hrest.bounds List.mem_cons_self).1
    have := c.utf8Size_pos
    omega
  | @fragment _ w cs _ _ _ => exact ⟨cs, by simp [Fragment.ofList]⟩

/-- No fragment is empty. -/
theorem text_ne_empty (h : LaidOut n cs fs) {f : Fragment} (hf : f ∈ fs) : f.text ≠ "" := by
  induction h with
  | nil => cases hf
  | blank _ _ ih => exact ih hf
  | fragment hw _ ih =>
    rcases List.mem_cons.1 hf with rfl | hf
    · simpa [Fragment.ofList] using hw
    · exact ih hf

/-- A fragment is cut out of any text around the layout by its span. -/
theorem slice?_eq (h : LaidOut n cs fs) {before : List Char} (hn : n = byteSize before)
    (after : List Char) {f : Fragment} (hf : f ∈ fs) :
    f.span.slice? (String.ofList (before ++ cs ++ after)) = some f.text := by
  -- What is passed over joins the text before the layout.
  induction h generalizing before with
  | nil => cases hf
  | @blank n c cs fs _ _ ih =>
    have hn' : n + c.utf8Size = byteSize (before ++ [c]) := by simp [hn]
    simpa using ih hn' hf
  | @fragment n w cs fs _ _ ih =>
    rcases List.mem_cons.1 hf with rfl | hf
    · subst hn
      have := Span.slice?_append before w (cs ++ after)
      simpa [Fragment.ofList] using this
    · have hn' : n + byteSize w = byteSize (before ++ w) := by simp [hn]
      simpa using ih hn' hf

/-- The fragments stand in order and do not overlap. -/
theorem pairwise (h : LaidOut n cs fs) :
    fs.Pairwise fun f g => f.span.stop ≤ g.span.start := by
  induction h with
  | nil => exact .nil
  | blank _ _ ih => exact ih
  | fragment _ h ih => exact .cons (fun g hg => (h.bounds hg).1) ih

/-- A character that is not blank lies in a fragment. -/
theorem covered (h : LaidOut n cs fs) {u es : List Char} {c : Char} (hcs : cs = u ++ c :: es)
    (hc : isBlank c = false) : ∃ f ∈ fs, f.span.Covers (n + byteSize u) := by
  induction h generalizing u with
  | nil => simp at hcs
  | @blank n d cs fs hd _ ih =>
    cases u with
    | nil =>
      obtain ⟨rfl, -⟩ := List.cons.inj hcs
      rw [hd] at hc
      cases hc
    | cons e u =>
      obtain ⟨rfl, htail⟩ := List.cons.inj hcs
      obtain ⟨f, hf, hcov⟩ := ih htail
      refine ⟨f, hf, ?_⟩
      rwa [byteSize_cons, ← Nat.add_assoc]
  | @fragment n w cs fs hw _ ih =>
    rcases List.append_eq_append_iff.1 hcs with ⟨a, rfl, htail⟩ | ⟨a, rfl, htail⟩
    · -- The character stands behind the fragment.
      obtain ⟨f, hf, hcov⟩ := ih htail
      refine ⟨f, List.mem_cons_of_mem _ hf, ?_⟩
      rwa [byteSize_append, ← Nat.add_assoc]
    · cases a with
      | nil =>
        obtain ⟨f, hf, hcov⟩ := ih (u := []) htail.symm
        refine ⟨f, List.mem_cons_of_mem _ hf, ?_⟩
        simpa using hcov
      | cons d a =>
        -- The character stands in the fragment.
        obtain ⟨rfl, -⟩ := List.cons.inj htail
        refine ⟨_, List.mem_cons_self, ?_⟩
        have := c.utf8Size_pos
        simp only [Fragment.ofList, Span.Covers, byteSize_append, byteSize_cons]
        omega

/-- The byte of a character lies in one fragment at most. -/
theorem covers_unique (h : LaidOut n cs fs) {f g : Fragment} (hf : f ∈ fs) (hg : g ∈ fs) {m : Nat}
    (hfm : f.span.Covers m) (hgm : g.span.Covers m) : f = g := by
  induction h with
  | nil => cases hf
  | blank _ _ ih => exact ih hf hg
  | fragment _ h ih =>
    -- The others start where the first fragment stops, so they share no byte with it.
    unfold Span.Covers at hfm hgm
    rcases List.mem_cons.1 hf with rfl | hf <;> rcases List.mem_cons.1 hg with rfl | hg
    · rfl
    · have := (h.bounds hg).1
      simp only [Fragment.ofList] at hfm
      omega
    · have := (h.bounds hf).1
      simp only [Fragment.ofList] at hgm
      omega
    · exact ih hf hg

/-- Texts behind blanks are laid out where they stand. -/
theorem of_spaced {ps : List Spaced} (h : ∀ p ∈ ps, p.gap.all isBlank = true ∧ p.text ≠ [])
    (n : Nat) : LaidOut n (joinSpaced ps) (placeSpaced n ps) := by
  induction ps generalizing n with
  | nil => exact .nil
  | cons p ps ih =>
    obtain ⟨⟨hgap, htext⟩, hps⟩ := List.forall_mem_cons.1 h
    rw [joinSpaced_cons, List.append_assoc]
    exact (LaidOut.of_blanks hgap n).append (.fragment htext (ih hps _))

/-- The gaps and texts of a layout, and the blanks at its end. -/
theorem exists_spaced (h : LaidOut n cs fs) :
    ∃ ps g, (∀ p ∈ ps, p.gap.all isBlank = true ∧ p.text ≠ []) ∧ g.all isBlank = true ∧
      cs = joinSpaced ps ++ g ∧ fs = placeSpaced n ps := by
  induction h with
  | nil => exact ⟨[], [], by simp, rfl, rfl, rfl⟩
  | @blank n c cs fs hc _ ih =>
    obtain ⟨ps, g, hps, hg, rfl, rfl⟩ := ih
    cases ps with
    | nil => exact ⟨[], c :: g, by simp, by simp [hc, hg], rfl, rfl⟩
    | cons p ps =>
      -- The blank becomes the first one of the first gap.
      obtain ⟨⟨hgap, htext⟩, hps⟩ := List.forall_mem_cons.1 hps
      refine ⟨⟨c :: p.gap, p.text⟩ :: ps, g, ?_, hg, rfl, ?_⟩
      · exact List.forall_mem_cons.2 ⟨⟨by simp [hc, hgap], htext⟩, hps⟩
      · simp [placeSpaced, Nat.add_assoc]
  | @fragment n w cs fs hw _ ih =>
    obtain ⟨ps, g, hps, hg, rfl, rfl⟩ := ih
    exact ⟨⟨[], w⟩ :: ps, g, List.forall_mem_cons.2 ⟨⟨rfl, hw⟩, hps⟩, hg, by simp [joinSpaced_cons],
      rfl⟩

end LaidOut

end SqlLex
