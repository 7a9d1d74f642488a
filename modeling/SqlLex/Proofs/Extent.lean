import Mathlib.Data.List.Chain
import SqlLex.Proofs.Respacing

namespace SqlLex

open Text

/-!
# The part of a text under some fragments

Fragments that follow one another stand in one part of their text, which goes from the first of them
to the last, and whose characters are theirs and blanks.

* `Extent` — the part in which some fragments stand.
* `exists_parts` — the parts under the groups of some fragments are laid out as the fragments are.
* `withoutBlanks` — a text without its blanks; `Extent.withoutBlanks_eq` — the words of the
  fragments have the same characters otherwise.
* `squeeze` — a text with one space for each run of blanks; `Extent.squeeze_eq` — the words of
  fragments that do not touch are the part so written.
-/

/-! ### Parts of a query -/

/-- The part of a text in which the fragments stand, from the first of them to the last. -/
def Extent (part : Fragment) (fs : List Fragment) : Prop :=
  ∃ n w ps, part = .ofList n (w ++ joinSpaced ps) ∧
    fs = .ofList n w :: placeSpaced (n + byteSize w) ps ∧
    ∀ p ∈ ps, p.gap.all isBlank = true ∧ p.text ≠ []

/-- The last of fragments that follow one another from `m` on starts where the first does, or behind
    that, and stops where the last text does. -/
theorem getLastD_placeSpaced {n m : Nat} {f : Fragment} (hstart : n ≤ f.span.start)
    (hstop : f.span.stop = m) (hm : n ≤ m) (ps : List Spaced) :
    n ≤ ((placeSpaced m ps).getLastD f).span.start ∧
      ((placeSpaced m ps).getLastD f).span.stop = m + byteSize (joinSpaced ps) := by
  induction ps generalizing m f with
  | nil => exact ⟨hstart, hstop⟩
  | cons p ps ih =>
    rw [placeSpaced, List.getLastD_cons, joinSpaced_cons, byteSize_append, byteSize_append,
      ← Nat.add_assoc, ← Nat.add_assoc]
    apply ih
    · show n ≤ m + byteSize p.gap
      omega
    · rfl
    · omega

/-- A group spans the part in which its fragments stand: the first of them starts it, and the last
    one stops it. -/
theorem Extent.span_eq {part : Fragment} {g : Group} (h : Extent part g.fragments) :
    g.span = part.span ∧ part.span = ⟨g.head.span.start, (g.tail.getLastD g.head).span.stop⟩ := by
  obtain ⟨n, w, ps, rfl, hfs, -⟩ := h
  obtain ⟨hhead, htail⟩ := List.cons.inj hfs
  have hlast := getLastD_placeSpaced (f := .ofList n w) (m := n + byteSize w) (Nat.le_refl n) rfl
    (Nat.le_add_right n _) ps
  rw [Group.span, hhead, htail, Span.merge]
  simp only [Fragment.ofList, byteSize_append, Span.mk.injEq, true_and] at hlast ⊢
  omega

/-- **The parts under groups.**  Each group stands in one part of a text, and the parts are laid out
    in it as the fragments are. -/
theorem exists_parts {gs : List Group} {n : Nat} {ps : List Spaced}
    (h : placeSpaced n ps = gs.flatMap Group.fragments)
    (hps : ∀ p ∈ ps, p.gap.all isBlank = true ∧ p.text ≠ []) :
    ∃ qs, joinSpaced qs = joinSpaced ps ∧ (∀ q ∈ qs, q.gap.all isBlank = true ∧ q.text ≠ []) ∧
      (placeSpaced n qs).map (·.span) = gs.map Group.span ∧
      ∀ g ∈ gs, ∃ part ∈ placeSpaced n qs, Extent part g.fragments := by
  induction gs generalizing n ps with
  | nil =>
    cases ps with
    | nil => exact ⟨[], rfl, by simp, rfl, by simp⟩
    | cons p ps => cases h
  | cons g gs ih =>
    rw [List.flatMap_cons] at h
    obtain ⟨ps, rs, rfl, hg, hrest⟩ := exists_append_of_placeSpaced_eq_append h
    obtain ⟨qs, hjoin, hqs, hspans, hparts⟩ :=
      ih hrest.symm fun p hp => hps p (List.mem_append_right _ hp)
    cases ps with
    | nil => cases hg
    | cons p ps =>
      -- The first of the texts keeps its gap, and takes in the others with theirs.
      obtain ⟨⟨hgap, htext⟩, htail⟩ := List.forall_mem_cons.1 fun q hq =>
        hps q (List.mem_append_left rs hq)
      have hplace : placeSpaced n (⟨p.gap, p.text ++ joinSpaced ps⟩ :: qs) =
          .ofList (n + byteSize p.gap) (p.text ++ joinSpaced ps) ::
            placeSpaced (n + byteSize (joinSpaced (p :: ps))) qs := by
        simp only [placeSpaced, joinSpaced_cons, byteSize_append, Nat.add_assoc]
      have hextent : Extent (.ofList (n + byteSize p.gap) (p.text ++ joinSpaced ps)) g.fragments :=
        ⟨_, p.text, ps, rfl, hg, htail⟩
      refine ⟨⟨p.gap, p.text ++ joinSpaced ps⟩ :: qs, ?_, ?_, ?_, ?_⟩
      · rw [joinSpaced_append, joinSpaced_cons, joinSpaced_cons, hjoin]
        simp only [List.append_assoc]
      · exact List.forall_mem_cons.2 ⟨⟨hgap, by simp [htext]⟩, hqs⟩
      · rw [hplace, List.map_cons, List.map_cons, hspans, hextent.span_eq.1]
      · rw [hplace]
        rintro g' (_ | ⟨_, hg'⟩)
        · exact ⟨_, List.mem_cons_self, hextent⟩
        · obtain ⟨part, hpart, hover⟩ := hparts g' hg'
          exact ⟨part, List.mem_cons_of_mem _ hpart, hover⟩

/-! ### Blanks in a part -/

/-- The text without its blanks. -/
def withoutBlanks (cs : List Char) : List Char := cs.filter fun c => !isBlank c

/-- The text with one space for each run of blanks: the last blank of a run becomes the space, and
    the others are left out. -/
def squeeze : List Char → List Char
  | [] => []
  | c :: cs =>
    if isBlank c then
      if cs.head?.any isBlank then squeeze cs else ' ' :: squeeze cs
    else c :: squeeze cs

theorem squeeze_solid {w : List Char} (h : ∀ c ∈ w, isBlank c = false) (cs : List Char) :
    squeeze (w ++ cs) = w ++ squeeze cs := by
  induction w with
  | nil => rfl
  | cons c w ih =>
    obtain ⟨hc, hw⟩ := List.forall_mem_cons.1 h
    rw [List.cons_append, squeeze, hc, if_neg Bool.false_ne_true, ih hw, List.cons_append]

theorem squeeze_blanks {g : List Char} (hne : g ≠ []) (h : g.all isBlank = true) {c : Char}
    (hc : isBlank c = false) (cs : List Char) :
    squeeze (g ++ c :: cs) = ' ' :: squeeze (c :: cs) := by
  induction g with
  | nil => exact absurd rfl hne
  | cons b g ih =>
    rw [List.all_cons, Bool.and_eq_true] at h
    rw [List.cons_append, squeeze, if_pos h.1]
    cases g with
    | nil => simp [hc]
    | cons b' g =>
      have hb' : isBlank b' = true := List.all_eq_true.1 h.2 b' List.mem_cons_self
      rw [List.cons_append, List.head?_cons, Option.any_some, if_pos hb', ← List.cons_append]
      exact ih (List.cons_ne_nil _ _) h.2

/-- Only the gaps lose anything. -/
theorem withoutBlanks_joinSpaced {ps : List Spaced} (h : ∀ p ∈ ps, p.gap.all isBlank = true) :
    withoutBlanks (joinSpaced ps) = (ps.map (·.text)).flatMap withoutBlanks := by
  induction ps with
  | nil => rfl
  | cons p ps ih =>
    obtain ⟨hgap, hps⟩ := List.forall_mem_cons.1 h
    have hnone : withoutBlanks p.gap = [] := by
      simpa [withoutBlanks] using hgap
    rw [joinSpaced_cons, withoutBlanks, List.filter_append, List.filter_append, List.map_cons,
      List.flatMap_cons, ← ih hps]
    show withoutBlanks p.gap ++ _ ++ _ = _
    rw [hnone]
    rfl

/-- Gaps become single spaces where there are any. -/
theorem squeeze_joinSpaced {ps : List Spaced} (hgaps : ∀ p ∈ ps, p.gap ≠ [])
    (hblank : ∀ p ∈ ps, p.gap.all isBlank = true)
    (htexts : ∀ p ∈ ps, p.text ≠ [] ∧ ∀ c ∈ p.text, isBlank c = false) :
    squeeze (joinSpaced ps) = joinSpaced (ps.map fun p => ⟨[' '], p.text⟩) := by
  induction ps with
  | nil => rfl
  | cons p ps ih =>
    obtain ⟨hgap, hgaps⟩ := List.forall_mem_cons.1 hgaps
    obtain ⟨hp, hblank⟩ := List.forall_mem_cons.1 hblank
    obtain ⟨⟨hne, hsolid⟩, htexts⟩ := List.forall_mem_cons.1 htexts
    obtain ⟨c, w, hw⟩ := List.exists_cons_of_ne_nil hne
    have hc : isBlank c = false := hsolid c (hw ▸ List.mem_cons_self)
    have hfirst : squeeze (p.gap ++ (p.text ++ joinSpaced ps)) =
        ' ' :: squeeze (p.text ++ joinSpaced ps) := by
      rw [hw]
      exact squeeze_blanks hgap hp hc _
    rw [joinSpaced_cons, List.append_assoc, hfirst, squeeze_solid hsolid,
      ih hgaps hblank htexts, List.map_cons, joinSpaced_cons]
    rfl

section Extent

variable {part : Fragment} {fs : List Fragment}

theorem map_toList_placeSpaced (n : Nat) (ps : List Spaced) :
    (placeSpaced n ps).map (·.text.toList) = ps.map (·.text) := by
  have := congrArg (List.map String.toList) (map_text_placeSpaced n ps)
  simpa [List.map_map, Function.comp_def] using this

/-- The words of fragments, from one text on. -/
theorem toList_joinWords_placeSpaced (n m : Nat) (w : List Char) (ps : List Spaced) :
    (joinWords ((Fragment.ofList n w :: placeSpaced m ps).map (·.text))).toList =
      joinSpaced (singleSpaced (w :: ps.map (·.text))) := by
  rw [toList_joinWords, List.map_map, ← map_toList_placeSpaced m]
  simp [Fragment.ofList, Function.comp_def]

/-- The words of the fragments have the characters of the part that are not blank. -/
theorem Extent.withoutBlanks_eq (h : Extent part fs) :
    withoutBlanks part.text.toList = withoutBlanks (joinWords (fs.map (·.text))).toList := by
  obtain ⟨n, w, ps, rfl, rfl, hps⟩ := h
  have hwords := withoutBlanks_joinSpaced (wellSpaced_singleSpaced (w :: ps.map (·.text))).blank
  rw [map_text_singleSpaced] at hwords
  rw [toList_joinWords_placeSpaced, hwords]
  show withoutBlanks (String.ofList _).toList = _
  rw [String.toList_ofList]
  have hblank : ∀ p ∈ Spaced.mk [] w :: ps, p.gap.all isBlank = true :=
    List.forall_mem_cons.2 ⟨rfl, fun p hp => (hps p hp).1⟩
  exact withoutBlanks_joinSpaced hblank

/-- The part of a single fragment is the fragment. -/
theorem Extent.text_eq {f : Fragment} (h : Extent part [f]) : part.text = f.text := by
  obtain ⟨n, w, ps, rfl, hf, -⟩ := h
  obtain ⟨rfl, hnil⟩ := List.cons.inj hf
  cases ps with
  | nil => simp [Fragment.ofList]
  | cons p ps => cases hnil

/-- Texts that do not touch have gaps between them. -/
theorem gap_ne_nil_of_isChain {n : Nat} {w : List Char} {ps : List Spaced}
    (h : (Fragment.ofList n w :: placeSpaced (n + byteSize w) ps).IsChain fun f g =>
      f.span.stop ≠ g.span.start) : ∀ p ∈ ps, p.gap ≠ [] := by
  induction ps generalizing n w with
  | nil => simp
  | cons p ps ih =>
    obtain ⟨hp, hps⟩ := List.isChain_cons_cons.1 h
    refine List.forall_mem_cons.2 ⟨?_, ih hps⟩
    intro hgap
    apply hp
    simp [Fragment.ofList, hgap]

/-- The words of fragments that do not touch, with single spaces between them, are what is left of
    the part when each run of blanks is one space. -/
theorem Extent.squeeze_eq (h : Extent part fs)
    (hapart : fs.IsChain fun f g => f.span.stop ≠ g.span.start)
    (hsolid : ∀ f ∈ fs, ∀ c ∈ f.text.toList, isBlank c = false) :
    squeeze part.text.toList = (joinWords (fs.map (·.text))).toList := by
  obtain ⟨n, w, ps, rfl, rfl, hps⟩ := h
  obtain ⟨hw, hfragments⟩ := List.forall_mem_cons.1 hsolid
  have htexts : ∀ p ∈ ps, ∀ c ∈ p.text, isBlank c = false := by
    have hall : ∀ x ∈ (placeSpaced (n + byteSize w) ps).map (·.text.toList), ∀ c ∈ x,
        isBlank c = false := List.forall_mem_map.2 hfragments
    rw [map_toList_placeSpaced] at hall
    exact List.forall_mem_map.1 hall
  have hw : ∀ c ∈ w, isBlank c = false := by simpa [Fragment.ofList] using hw
  rw [toList_joinWords_placeSpaced]
  show squeeze (String.ofList _).toList = _
  rw [String.toList_ofList, squeeze_solid hw, squeeze_joinSpaced (gap_ne_nil_of_isChain hapart)
    (fun p hp => (hps p hp).1) fun p hp => ⟨(hps p hp).2, htexts p hp⟩]
  simp [singleSpaced, joinSpaced_cons, Function.comp_def]

end Extent

end SqlLex
