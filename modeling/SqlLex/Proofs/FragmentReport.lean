import SqlLex.Proofs.TextReport
import SqlLex.Proofs.Lossless

namespace SqlLex

open Text

/-!
# What the report of fragments tells

The line of a fragment says between which bytes it stands, and its text follows as it is: it may
hold line ends, tabs and what looks like further lines.  How long it is is told from the places
before it, so the fragments are told from the report.

* `Fragment.IsSized` — the text has as many bytes as the span covers; `isSized_of_split` — that of a
  fragment of a query has.
* `eq_of_numeral_append` — a number at the front of a text, up to what is no digit.
* `eq_of_fragmentLine_append` — a fragment, from its line at the front of a report.
* `fragmentReport_eq_iff` — fragments with the same report.
-/

/-- The text has as many bytes as the span covers. -/
def Fragment.IsSized (f : Fragment) : Prop := f.text.utf8ByteSize = f.span.size

/-- What is laid out has the size of its place. -/
theorem LaidOut.isSized {n : Nat} {cs : List Char} {fs : List Fragment} (h : LaidOut n cs fs)
    {f : Fragment} (hf : f ∈ fs) : f.IsSized := by
  induction h with
  | nil => cases hf
  | blank _ _ ih => exact ih hf
  | @fragment n w _ _ _ _ ih =>
    rcases List.mem_cons.1 hf with rfl | hf
    · simp [Fragment.IsSized, Fragment.ofList, Span.size, utf8ByteSize_ofList]
    · exact ih hf

theorem isSized_of_split {v : Vocabulary} {sql : String} {fs : List Fragment}
    (h : split v sql = .ok fs) {f : Fragment} (hf : f ∈ fs) : f.IsSized := by
  obtain ⟨cs, t, -, hlaid, -⟩ := exists_laidOut_of_split h
  exact hlaid.isSized hf

/-! ### Numbers at the front -/

theorem notMem_toString {c : Char} (hc : c.isDigit = false) (n : Nat) :
    c ∉ (toString n).toList := by
  intro hmem
  rw [Nat.toString_eq_repr, Nat.toList_repr] at hmem
  rw [Nat.isDigit_of_mem_toDigits (by omega) (by omega) hmem] at hc
  cases hc

/-- A number is told from a text that goes on with what is no digit. -/
theorem eq_of_numeral_append {m n : Nat} {c : Char} (hc : c.isDigit = false) {r s : List Char}
    (h : (toString m).toList ++ c :: r = (toString n).toList ++ c :: s) : m = n ∧ r = s := by
  obtain ⟨hdigits, hrest⟩ := eq_of_append_cons_eq (notMem_toString hc m) (notMem_toString hc n) h
  simp only [Nat.toString_eq_repr, Nat.toList_repr] at hdigits
  have hvalue := congrArg (fun ds => Nat.ofDigitChars 10 ds 0) hdigits
  simp only [Nat.ofDigitChars_ten_toDigits] at hvalue
  exact ⟨hvalue, hrest⟩

/-! ### Lines -/

theorem toList_fragmentLine (f : Fragment) :
    (Report.fragmentLine f).toList = (toString f.span.start).toList ++ '.' :: '.' ::
      ((toString f.span.stop).toList ++ '\t' :: f.text.toList) := by
  simp [Report.fragmentLine]

/-- Texts of one size in front of two equal texts are equal. -/
theorem eq_of_append_of_size_eq {x y : String} {r s : List Char}
    (hsize : x.utf8ByteSize = y.utf8ByteSize) (h : x.toList ++ r = y.toList ++ s) :
    x = y ∧ r = s := by
  rw [← byteSize_toList, ← byteSize_toList] at hsize
  obtain ⟨u, hu, hr⟩ := exists_append_of_byteSize_le h (Nat.le_of_eq hsize)
  have hnil : u = [] := by
    rw [hu, byteSize_append] at hsize
    exact byteSize_eq_zero_iff.1 (by omega)
  subst hnil
  rw [List.append_nil] at hu
  exact ⟨String.toList_inj.1 hu.symm, hr⟩

/-- **A fragment is told from its line** at the front of a report: its places end where there is no
    digit, and they tell where its text ends, whatever that holds. -/
theorem eq_of_fragmentLine_append {f g : Fragment} (hf : f.IsSized) (hg : g.IsSized)
    {r s : List Char}
    (h : (Report.fragmentLine f).toList ++ r = (Report.fragmentLine g).toList ++ s) :
    f = g ∧ r = s := by
  obtain ⟨text, start, stop⟩ := f
  obtain ⟨text', start', stop'⟩ := g
  simp only [toList_fragmentLine, List.append_assoc, List.cons_append] at h
  obtain ⟨hstart, hpoints⟩ := eq_of_numeral_append (by decide) h
  obtain ⟨hstop, htab⟩ := eq_of_numeral_append (by decide) (List.cons.inj hpoints).2
  subst hstart hstop
  obtain ⟨rfl, hrest⟩ := eq_of_append_of_size_eq (hf.trans hg.symm) htab
  exact ⟨rfl, hrest⟩

namespace Report

theorem fragmentLine_ne_empty (f : Fragment) : fragmentLine f ≠ "" := by
  rw [Ne, ← String.toList_inj, toList_fragmentLine]
  simp

/-- Fragments that have the size of their places are told from their lines. -/
theorem fragments_text_injective {fs gs : List Fragment} (hfs : ∀ f ∈ fs, f.IsSized)
    (hgs : ∀ g ∈ gs, g.IsSized) (h : fragments .text fs = fragments .text gs) : fs = gs := by
  have hne : ∀ hs : List Fragment, ∀ x ∈ hs.map fragmentLine, x ≠ "" := by
    intro hs x hx
    obtain ⟨f, -, rfl⟩ := List.mem_map.1 hx
    exact fragmentLine_ne_empty f
  have hlines := flatMap_eq_of_lines_eq (hne fs) (hne gs) h
  rw [List.flatMap_map, List.flatMap_map] at hlines
  rw [← List.forall₂_eq_eq_eq]
  refine forall₂_of_flatMap_eq (by simp) ?_ hfs hgs hlines
  intro f g r s hf hg hfg
  rw [List.append_assoc, List.append_assoc] at hfg
  obtain ⟨rfl, hrest⟩ := eq_of_fragmentLine_append hf hg hfg
  exact ⟨rfl, List.append_cancel_left hrest⟩

end Report

/-! ### Fragments of a query -/

/-- **The report of fragments can be read back.**  Fragments whose texts have the sizes of their
    places have the same report iff they are the same, with their texts and places; and those of
    every query have such texts. -/
theorem fragmentReport_eq_iff :
    (∀ fs gs : List Fragment, (∀ f ∈ fs, f.IsSized) → (∀ g ∈ gs, g.IsSized) →
      (Report.fragments .text fs = Report.fragments .text gs ↔ fs = gs)) ∧
    ∀ (v : Vocabulary) (sql : String) (fs : List Fragment), split v sql = .ok fs →
      ∀ f ∈ fs, f.IsSized := by
  refine ⟨?_, fun v sql fs h f hf => isSized_of_split h hf⟩
  intro fs gs hfs hgs
  constructor
  · exact Report.fragments_text_injective hfs hgs
  · rintro rfl
    rfl

/-- A literal whose text goes on with what looks like the line of another fragment, and two
    fragments with these lines. -/
theorem fragmentReport_eq_iff_standard :
    ∃ fs gs : List Fragment, split .standard "'π\n5..7\tb'" = .ok fs ∧ (∀ f ∈ fs, f.IsSized) ∧
      (∀ g ∈ gs, g.IsSized) ∧
      Report.fragments .text fs = "0..11\t'π\n5..7\tb'" ∧
      Report.fragments .text gs = "0..3\t'π\n5..7\tb'" ∧
      (Report.fragments .text fs = Report.fragments .text gs ↔ fs = gs) := by
  have hsplit : split .standard "'π\n5..7\tb'" = .ok [⟨"'π\n5..7\tb'", ⟨0, 11⟩⟩] := by
    decide +kernel
  have hfs := fragmentReport_eq_iff.2 .standard _ _ hsplit
  have hgs : ∀ g ∈ [(⟨"'π", ⟨0, 3⟩⟩ : Fragment), ⟨"b'", ⟨5, 7⟩⟩], g.IsSized := by
    simp only [Fragment.IsSized]
    decide +kernel
  exact ⟨_, _, hsplit, hfs, hgs, by decide +kernel, by decide +kernel,
    fragmentReport_eq_iff.1 _ _ hfs hgs⟩

end SqlLex
