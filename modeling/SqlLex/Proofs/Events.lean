import SqlLex.Proofs.Fault
import SqlLex.Proofs.LongestPhrase

namespace SqlLex

open Text

/-!
# What the events of a run tell

A run notes each fragment when it is complete, and each fragment on which no keyword starts.  The
events of a query that is read so tell its fragments and what its unknown tokens are, and those of
one that is not tell all that stands before the place where it is at fault.

* `LosslessUpTo` — fragments that account for all characters up to a place.
* `LexError.SeenIn` — the part of a query in which an error is seen;
  `exists_losslessUpTo_of_split` — the fragments before it.
* `Token.isUnmatched` — words that no keyword matches; `Group.Justified.isUnmatched_token`.
* `trace_events_of_ok`, `trace_events_of_error` — the events of a run.
* `trace_tells` — what they tell.
-/

variable {v : Vocabulary}

/-! ### Fragments up to a place -/

/-- The fragments account for all characters of the query before the byte `stop`. -/
structure LosslessUpTo (sql : String) (stop : Nat) (fs : List Fragment) : Prop where
  /-- A fragment is a part of the query that is not empty, and its span cuts it out. -/
  slices : ∀ f ∈ fs, f.text ≠ "" ∧ f.span.start < f.span.stop ∧ f.span.slice? sql = some f.text
  /-- The fragments stand in order, do not overlap, and stop before that byte. -/
  ordered : fs.Pairwise fun f g => f.span.stop ≤ g.span.start
  bounded : ∀ f ∈ fs, f.span.stop ≤ stop
  /-- A character before that byte that is not blank lies in exactly one fragment. -/
  covered : ∀ u c ds, sql.toList = u ++ c :: ds → isBlank c = false → byteSize u < stop →
    ∃! f, f ∈ fs ∧ f.span.Covers (byteSize u)

/-- What is laid out at the front of a query accounts for its characters up to there. -/
theorem LaidOut.losslessUpTo {sql : String} {cs ds : List Char} {fs : List Fragment}
    (hlaid : LaidOut 0 cs fs) (hsql : sql.toList = cs ++ ds) :
    LosslessUpTo sql (byteSize cs) fs where
  slices f hf := hlaid.slices hsql hf
  ordered := hlaid.pairwise
  bounded f hf := by
    have := (hlaid.bounds hf).2.2
    rwa [Nat.zero_add] at this
  covered u c es hu hc hlt := by
    obtain ⟨w, rfl, hw⟩ := exists_append_of_byteSize_le (hu.symm.trans hsql) (Nat.le_of_lt hlt)
    cases w with
    | nil =>
      rw [List.append_nil] at hlt
      exact absurd hlt (Nat.lt_irrefl _)
    | cons d w =>
      obtain ⟨rfl, -⟩ := List.cons.inj hw
      exact hlaid.existsUnique_covers hc

/-! ### Where an error is seen -/

/-- The error is seen in the text `rest`, which starts at the byte `start` and goes to the end of
    what is read. -/
inductive LexError.SeenIn (v : Vocabulary) (start : Nat) (rest : List Char) : LexError → Prop where
  /-- A literal starts there. -/
  | openLiteral {k : Container} : k ∈ v.containers → rest.head? = some k.opener →
    SeenIn v start rest (.unterminatedContainer k.opener k.closer start)
  /-- A number that has a point starts there, and a further point follows it. -/
  | secondPoint {text : String} {ds : List Char} {position : Nat} :
    rest = text.toList ++ '.' :: ds → IsNumeral text.toList → '.' ∈ text.toList →
      position = start + text.utf8ByteSize →
        SeenIn v start rest (.invalidNumeric '.' text position)
  /-- There are no blanks, and the last character is an escape that waits. -/
  | escape {position : Nat} : (∀ c ∈ rest, isBlank c = false) → endsEscaped rest = true →
    position + 1 = start + byteSize rest → SeenIn v start rest (.unterminatedEscape position)

/-- **Before a fault.**  The fragments that are complete are laid out in what stands before the part
    of the text in which the error is seen. -/
theorem Scanner.Fails.exists_seenIn {position : Nat} {cs : List Char} {fs : List Fragment}
    {e : LexError} (h : Fails v (start position) cs fs e) :
    ∃ used rest, cs = used ++ rest ∧ LaidOut position used fs ∧
      e.SeenIn v (position + byteSize used) rest := by
  cases h with
  | @secondPoint u ds _ t p hcs hscan hp hk hpoint _ =>
    obtain ⟨hfits, used, rfl, hstart, hlaid⟩ := exists_laidOut_of_pending hscan hp
    have hnumeral : IsNumeral p.text.toList := hfits.of_kind hk
    refine ⟨used, p.text.toList ++ '.' :: ds, by rw [hcs, List.append_assoc], hlaid, ?_⟩
    refine .secondPoint rfl hnumeral hpoint ?_
    rw [scan_start_position hscan, byteSize_append, byteSize_toList, Nat.add_assoc]
  | @openLiteral _ t p k hscan hp hk =>
    obtain ⟨hfits, used, rfl, hstart, hlaid⟩ := exists_laidOut_of_pending hscan hp
    obtain ⟨hmem, hhead⟩ := hfits.of_kind hk
    exact ⟨used, p.text.toList, rfl, hlaid, hstart ▸ .openLiteral hmem hhead⟩
  | @escape _ t p hscan hopen hescape =>
    obtain ⟨q, hq, hk, hbehind⟩ := exists_word_of_escape hscan hopen hescape
    obtain ⟨hfits, used, rfl, hstart, hlaid⟩ := exists_laidOut_of_pending hscan hq
    obtain ⟨-, hword⟩ := hfits.of_kind hk
    obtain ⟨hends, ds, hds, rfl⟩ := exists_of_escapeBehind hbehind
    refine ⟨used, q.text.toList, rfl, hlaid, .escape ?_ hends ?_⟩
    · intro c hc
      exact isBlank_of_classOf_ne (by simp [hword c hc])
    · rw [hds, byteSize_append, hstart]
      exact Nat.add_assoc ..

/-- The fragments that are complete when a query turns out to be at fault account for all of it
    before the part in which the error is seen. -/
theorem exists_losslessUpTo_of_split {sql : String} {e : LexError} (h : split v sql = .error e) :
    ∃ used rest, bodyOf sql.toList = used ++ rest ∧
      LosslessUpTo sql (bodyStart sql.toList + byteSize used) (splitting v sql).fragments ∧
      e.SeenIn v (bodyStart sql.toList + byteSize used) rest := by
  have hfails : Scanner.Fails v (.start (bodyStart sql.toList)) (bodyOf sql.toList)
      (splitting v sql).fragments e := by
    rw [← Scanner.read_eq_error_iff]
    show splitting v sql = _
    rw [← split_eq_error_iff.1 h]
  obtain ⟨used, rest, hbody, hlaid, hseen⟩ := hfails.exists_seenIn
  refine ⟨used, rest, hbody, ?_, hseen⟩
  obtain ⟨t, -, hsql⟩ := exists_body_append sql.toList
  -- The blanks before the body are laid out with no fragment.
  have hfront : LaidOut 0 (sql.toList.takeWhile isBlank ++ used) (splitting v sql).fragments := by
    refine (LaidOut.of_blanks List.all_takeWhile 0).append ?_
    rwa [Nat.zero_add]
  have hquery : sql.toList = sql.toList.takeWhile isBlank ++ used ++ (rest ++ t) := by
    conv_lhs => rw [hsql, hbody]
    simp
  have := hfront.losslessUpTo hquery
  rwa [byteSize_append] at this

/-! ### Words that no keyword matches -/

/-- The words are neither a literal nor a number, and the vocabulary does not have them. -/
def Token.isUnmatched (v : Vocabulary) (t : Token) : Bool :=
  isPlain v ⟨t.raw, t.span⟩ && (v.keyword? (lowercase t.raw)).isNone

/-- It is told from the token of a group that no keyword matched it. -/
theorem Group.Justified.isUnmatched_token {g : Group} (h : g.Justified v) :
    g.token.isUnmatched v = (g.basis == .unmatched) := by
  cases h with
  | @literal f k hk =>
    have hplain : isPlain v f = false := by simp [isPlain, hk]
    rw [Group.token_singleton, Token.isUnmatched, isPlain_congr v (g := f) rfl, hplain]
    rfl
  | @number f hk hn =>
    have hplain : isPlain v f = false := by simp [isPlain, hn]
    rw [Group.token_singleton, Token.isUnmatched, isPlain_congr v (g := f) rfl, hplain]
    rfl
  | @keyword f fs k hplain hkey =>
    show (_ && (v.keyword? (phrase (f :: fs))).isNone) = false
    rw [hkey]
    exact Bool.and_false _
  | @unmatched f hplain hkey =>
    rw [phrase, List.map_singleton, joinWords_singleton] at hkey
    rw [Group.token_singleton, Token.isUnmatched, isPlain_congr v (g := f) rfl, hplain, hkey]
    rfl

/-- Words that no keyword matches are unknown. -/
theorem Group.Justified.kind_eq_unknown {g : Group} (h : g.Justified v)
    (hg : g.token.isUnmatched v = true) : g.token.kind = .unknown := by
  rw [h.isUnmatched_token] at hg
  cases h with
  | unmatched => rfl
  | literal | number | keyword => cases hg

/-- The vocabulary makes nothing unknown that it has. -/
structure Vocabulary.KnowsItsOwn (v : Vocabulary) : Prop where
  containers : ∀ k ∈ v.containers, k.kind ≠ .unknown
  entries : ∀ e ∈ v.entries, e.kind ≠ .unknown

/-- Nothing else is unknown then. -/
theorem Group.Justified.isUnknown_token (hv : v.KnowsItsOwn) {g : Group} (h : g.Justified v) :
    g.token.isUnknown = g.token.isUnmatched v := by
  rw [h.isUnmatched_token]
  cases h with
  | @literal f k hk =>
    obtain ⟨c, -, hc⟩ := Option.bind_eq_some_iff.1 hk
    obtain ⟨l, hl, rfl⟩ := Option.map_eq_some_iff.1 hc
    have hne := hv.containers l (Vocabulary.containerOpenedBy?_eq_some_iff.1 hl).1
    exact beq_eq_false_iff_ne.2 hne
  | number | unmatched => rfl
  | keyword _ hkey =>
    have hne := hv.entries _ (Vocabulary.keyword?_eq_some_iff.1 hkey)
    exact beq_eq_false_iff_ne.2 hne

/-! ### The events of a run -/

/-- The groups that no keyword matched are told from the tokens. -/
theorem filter_isUnmatched_tokensOf (fs : List Fragment) :
    (tokensOf v fs).filter (·.isUnmatched v) =
      ((groups v fs).filter (·.basis == .unmatched)).map Group.token := by
  have hbasis : (groups v fs).filter (·.token.isUnmatched v) =
      (groups v fs).filter (·.basis == .unmatched) := by
    apply List.filter_congr
    intro g hg
    exact (justified_of_mem_groups hg).isUnmatched_token
  rw [tokensOf, List.filter_map, ← hbasis]
  rfl

/-- The events of grouping are, too. -/
theorem unmatchedEvents_groups (fs : List Fragment) :
    unmatchedEvents (groups v fs) =
      ((tokensOf v fs).filter (·.isUnmatched v)).map (.keywordUnmatched ·.raw) := by
  rw [filter_isUnmatched_tokensOf, List.map_map]
  rfl

theorem trace_events_of_ok {sql : String} {fs : List Fragment} (h : split v sql = .ok fs) :
    (trace v sql).events = fs.map .fragmentSplit ++
      ((tokensOf v fs).filter (·.isUnmatched v)).map (.keywordUnmatched ·.raw) ++
      [summaryOf fs (tokensOf v fs)] := by
  rw [trace, split_eq_ok_iff.1 h]
  show _ ++ unmatchedEvents (groups v fs) ++ _ = _
  rw [unmatchedEvents_groups]
  rfl

theorem trace_events_of_error {sql : String} {e : LexError} (h : split v sql = .error e) :
    (trace v sql).events = (splitting v sql).fragments.map .fragmentSplit := by
  rw [trace, split_eq_error_iff.1 h]

/-- **What the events of a run tell.**  If the query is read, they are its fragments in order, then
    the tokens that no keyword matches, in order, and then the numbers of fragments, of tokens and
    of unknown tokens.  The tokens that no keyword matches are those that grouping gave up on, they
    are unknown, and no others are if the vocabulary has nothing of that kind.  If the query is not
    read, the events are fragments that account for all of it before the part in which the error is
    seen. -/
theorem trace_tells (v : Vocabulary) (sql : String) :
    (trace v sql).result = tokenize v sql ∧
    (∀ ts, tokenize v sql = .ok ts → ∃ fs, split v sql = .ok fs ∧
      (trace v sql).events = fs.map .fragmentSplit ++
        (ts.filter (·.isUnmatched v)).map (.keywordUnmatched ·.raw) ++
        [.queryTokenized fs.length ts.length (ts.countP (·.kind == .unknown))] ∧
      ts.filter (·.isUnmatched v) =
        ((groups v fs).filter (·.basis == .unmatched)).map Group.token ∧
      (∀ t ∈ ts, t.isUnmatched v = true → t.kind = .unknown) ∧
      (v.KnowsItsOwn →
        ts.countP (·.kind == .unknown) = (ts.filter (·.isUnmatched v)).length)) ∧
    ∀ e, tokenize v sql = .error e → ∃ fs used rest,
      (trace v sql).events = fs.map .fragmentSplit ∧ bodyOf sql.toList = used ++ rest ∧
      LosslessUpTo sql (bodyStart sql.toList + byteSize used) fs ∧
      e.SeenIn v (bodyStart sql.toList + byteSize used) rest := by
  refine ⟨trace_result v sql, ?_⟩
  cases hsplit : split v sql with
  | error e =>
    rw [tokenize_of_error hsplit]
    refine ⟨fun ts h => (by cases h), ?_⟩
    rintro _ ⟨⟩
    obtain ⟨used, rest, hbody, hlossless, hseen⟩ := exists_losslessUpTo_of_split hsplit
    exact ⟨_, used, rest, trace_events_of_error hsplit, hbody, hlossless, hseen⟩
  | ok fs =>
    rw [tokenize_of_split hsplit]
    refine ⟨?_, fun e h => (by cases h)⟩
    rintro _ ⟨⟩
    refine ⟨fs, rfl, trace_events_of_ok hsplit, filter_isUnmatched_tokensOf fs, ?_, ?_⟩
    · intro t ht
      obtain ⟨g, hg, rfl⟩ := List.mem_map.1 ht
      exact (justified_of_mem_groups hg).kind_eq_unknown
    · intro hv
      rw [← List.countP_eq_length_filter]
      apply List.countP_congr
      intro t ht
      obtain ⟨g, hg, rfl⟩ := List.mem_map.1 ht
      rw [← (justified_of_mem_groups hg).isUnknown_token hv]
      rfl

/-- Two words that no keyword matches beside a keyword of two others, and a query that ends with an
    escape behind a word. -/
theorem trace_tells_standard :
    Vocabulary.standard.KnowsItsOwn ∧
    tokenize .standard "π left\n JOIN t" = .ok [⟨.unknown, "π", ⟨0, 2⟩⟩,
      ⟨.leftJoin, "left JOIN", ⟨3, 13⟩⟩, ⟨.unknown, "t", ⟨14, 15⟩⟩] ∧
    (∃ fs, split .standard "π left\n JOIN t" = .ok fs ∧
      (trace .standard "π left\n JOIN t").events = fs.map .fragmentSplit ++
        [.keywordUnmatched "π", .keywordUnmatched "t"] ++ [.queryTokenized fs.length 3 2]) ∧
    tokenize .standard " a 'b' c\\;" = .error (.unterminatedEscape 8) ∧
    ∃ fs used rest, (trace .standard " a 'b' c\\;").events = fs.map .fragmentSplit ∧
      bodyOf " a 'b' c\\;".toList = used ++ rest ∧
      LosslessUpTo " a 'b' c\\;" (bodyStart " a 'b' c\\;".toList + byteSize used) fs ∧
      (LexError.unterminatedEscape 8).SeenIn .standard
        (bodyStart " a 'b' c\\;".toList + byteSize used) rest := by
  have hread : tokenize .standard "π left\n JOIN t" = .ok [⟨.unknown, "π", ⟨0, 2⟩⟩,
      ⟨.leftJoin, "left JOIN", ⟨3, 13⟩⟩, ⟨.unknown, "t", ⟨14, 15⟩⟩] := by
    decide +kernel
  have hfault : tokenize .standard " a 'b' c\\;" = .error (.unterminatedEscape 8) := by
    decide +kernel
  obtain ⟨fs, hfs, hevents, -⟩ := (trace_tells .standard _).2.1 _ hread
  exact ⟨⟨by decide, by decide⟩, hread, ⟨fs, hfs, hevents⟩, hfault,
    (trace_tells .standard _).2.2 _ hfault⟩

end SqlLex
