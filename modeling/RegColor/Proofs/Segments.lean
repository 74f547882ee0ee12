import Mathlib.Data.List.Chain
import RegColor.Proofs.Accepted

/-!
# Every character has its place

A text is a sequence of segments: line breaks, blanks, comments, tokens and unknown characters. The
scanner leaves no character out, and gives every token and every unknown character the line and the
column of the place where it stands (`exists_segments`).

A comment may hold carriage returns, which take no column elsewhere but count in it. Only the end of
the line follows a comment, so the count matters for nothing that has a place.
-/

namespace RegColor

/-! ## Lines and columns -/

/-- The line of what follows a text: one more than there are line breaks in it. -/
def lineAfter (before : List Char) : Int := 1 + before.countP (· = '\n')

/-- The column of what follows a text: one more than there are characters after its last line break,
carriage returns apart. -/
def columnAfter (before : List Char) : Int :=
  1 + (before.reverse.takeWhile (· ≠ '\n')).countP (· ≠ '\r')

section Places

variable {before text : List Char} {c : Char}

theorem lineAfter_newline : lineAfter (before ++ ['\n']) = lineAfter before + 1 := by
  simp [lineAfter]
  omega

theorem lineAfter_append (h : ∀ d ∈ text, d ≠ '\n') :
    lineAfter (before ++ text) = lineAfter before := by
  have none : text.countP (· = '\n') = 0 := by simpa [List.countP_eq_zero] using h
  rw [lineAfter, List.countP_append, none, lineAfter, Nat.add_zero]

theorem columnAfter_newline : columnAfter (before ++ ['\n']) = 1 := by
  simp [columnAfter]

theorem columnAfter_return : columnAfter (before ++ ['\r']) = columnAfter before := by
  simp [columnAfter]

/-- A character that stands in a column of its own. -/
def TakesColumn (c : Char) : Prop := c ≠ '\n' ∧ c ≠ '\r'

instance : DecidablePred TakesColumn := fun c => inferInstanceAs (Decidable (c ≠ '\n' ∧ c ≠ '\r'))

theorem columnAfter_append (h : ∀ d ∈ text, TakesColumn d) :
    columnAfter (before ++ text) = columnAfter before + text.length := by
  have inside : ∀ d ∈ text.reverse, decide (d ≠ '\n') = true :=
    fun d mem => decide_eq_true (h d (List.mem_reverse.1 mem)).1
  have all : text.reverse.countP (· ≠ '\r') = text.reverse.length :=
    List.countP_eq_length.2 fun d mem => decide_eq_true (h d (List.mem_reverse.1 mem)).2
  rw [columnAfter, List.reverse_append, List.takeWhile_append_of_pos inside, List.countP_append,
    all, List.length_reverse, columnAfter]
  omega

end Places

/-! ## Characters of a token -/

namespace Scan

variable {c d : Char} {cs more : List Char} {kind : TokenKind}

/-- Characters of a class that neither a line break nor a carriage return belongs to. -/
theorem takesColumn_of_class {p : Char → Bool} (newline : p '\n' = false) (ret : p '\r' = false)
    (h : p d = true) : TakesColumn d := by
  constructor
  · rintro rfl
    cases newline.symm.trans h
  · rintro rfl
    cases ret.symm.trans h

/-- The first characters of a text, each in a column of its own. -/
structure Inline (text cs : List Char) : Prop where
  starts : text <+: cs
  columns : ∀ d ∈ text, TakesColumn d

theorem Inline.nil (cs : List Char) : Inline [] cs := ⟨List.nil_prefix, List.forall_mem_nil _⟩

theorem Inline.cons (h : Inline more cs) (column : TakesColumn c) : Inline (c :: more) (c :: cs) :=
  ⟨List.cons_prefix_cons.2 ⟨rfl, h.starts⟩, List.forall_mem_cons.2 ⟨column, h.columns⟩⟩

theorem Inline.append {text : List Char} (h : Inline text cs)
    (h' : Inline more (cs.drop text.length)) : Inline (text ++ more) cs := by
  refine ⟨?_, List.forall_mem_append.2 ⟨h.columns, h'.columns⟩⟩
  obtain ⟨rest, rfl⟩ := h.starts
  rw [List.drop_left] at h'
  exact (List.prefix_append_right_inj text).2 h'.starts

theorem inline_takeWhile {p : Char → Bool} (newline : p '\n' = false) (ret : p '\r' = false)
    (cs : List Char) : Inline (cs.takeWhile p) cs :=
  ⟨List.takeWhile_prefix p, fun d mem =>
    takesColumn_of_class newline ret (List.all_eq_true.1 List.all_takeWhile d mem)⟩

theorem inline_digits (cs : List Char) : Inline (cs.takeWhile Char.isDigit) cs :=
  inline_takeWhile rfl rfl cs

theorem inline_fraction (cs : List Char) : Inline (fraction cs) cs := by
  unfold fraction
  split
  · split
    · next d cs digit =>
      exact ((inline_digits cs).cons (takesColumn_of_class rfl rfl digit)).cons (by decide)
    · exact .nil _
  · exact .nil _

theorem inline_exponentTail (cs : List Char) : Inline (exponentTail cs) cs := by
  unfold exponentTail
  split
  · split
    · next c cs sign =>
      refine (inline_digits cs).cons ?_
      rcases sign with rfl | rfl <;> decide
    · exact inline_digits _
  · exact .nil _

theorem inline_exponent (cs : List Char) : Inline (exponent cs) cs := by
  unfold exponent
  split
  · split
    · next c cs mark =>
      refine (inline_exponentTail cs).cons ?_
      rcases mark with rfl | rfl <;> decide
    · exact .nil _
  · exact .nil _

theorem inline_number (c : Char) (cs : List Char) : Inline (number c cs).2 cs := by
  unfold number
  split
  · exact (inline_takeWhile rfl rfl _).cons (by decide)
  · exact (inline_takeWhile rfl rfl _).cons (by decide)
  · have whole := inline_digits cs
    refine (whole.append (inline_fraction _)).append ?_
    rw [List.length_append]
    exact inline_exponent _

/-- A token is the first characters of a text, all on one line. -/
theorem inline_lexeme? (h : lexeme? c cs = some (kind, more)) : Inline (c :: more) (c :: cs) := by
  unfold lexeme? at h
  split at h
  · next digit =>
    have same : (number c cs).2 = more := congrArg Prod.snd (Option.some.inj h)
    exact (same ▸ inline_number c cs).cons (takesColumn_of_class rfl rfl digit)
  · split at h
    · next start =>
      cases h
      exact (inline_takeWhile rfl rfl cs).cons (takesColumn_of_class rfl rfl start)
    · obtain ⟨kind, found, same⟩ := Option.map_eq_some_iff.1 h
      cases same
      have delimiter : (delimiter? c).isSome = true := by rw [found]; rfl
      exact (Inline.nil cs).cons
        (takesColumn_of_class (p := fun d => (delimiter? d).isSome) rfl rfl delimiter)

theorem kind_ne_newline (h : lexeme? c cs = some (kind, more)) : kind ≠ .newline := by
  rcases lexeme?_cases h with ⟨-, number | number⟩ | ⟨-, -, word⟩ | delimiter
  · simp [number]
  · simp [number]
  · have mem := wordKind_mem (String.ofList (c :: more))
    rw [← word] at mem
    rintro rfl
    simp at mem
  · have mem := delimiter?_mem delimiter
    rintro rfl
    simp at mem

end Scan

/-! ## Segments -/

/-- A part of a text. -/
inductive Segment where
  | newline
  | blank (c : Char)
  | comment (text : List Char)
  | token (t : Token)
  | unknown (e : UnknownChar)

namespace Segment

/-- The characters of a segment. -/
def text : Segment → List Char
  | newline => ['\n']
  | blank c => [c]
  | comment text => text
  | token t => t.value.toList
  | unknown e => [e.char]

def token? : Segment → Option Token
  | token t => some t
  | _ => none

def unknown? : Segment → Option UnknownChar
  | unknown e => some e
  | _ => none

/-- A text that starts like a comment. -/
def OpensComment (text : List Char) : Prop := ['#'] <+: text ∨ ['/', '/'] <+: text

/-- A segment has the form of its kind and stands at its place between two texts. A comment runs up
to the end of its line, a token is the one that starts at its place, and where a character is
unknown neither a blank nor a comment nor a token starts. -/
def Fits (before after : List Char) : Segment → Prop
  | newline => True
  | blank c => c = ' ' ∨ c = '\t' ∨ c = '\r'
  | comment text => OpensComment text ∧ '\n' ∉ text ∧ ∀ c ∈ after.head?, c = '\n'
  | token t => (∃ c more, t.value.toList = c :: more ∧
        Scan.lexeme? c (more ++ after) = some (t.kind, more)) ∧
      t.line = lineAfter before ∧ t.column = columnAfter before
  | unknown e => e.char ∉ ['\n', ' ', '\t', '\r'] ∧ ¬OpensComment (e.char :: after) ∧
      Scan.lexeme? e.char after = none ∧ e.line = lineAfter before ∧ e.column = columnAfter before

/-- Segments one after the other, from a place on. -/
def AllFit (before : List Char) : List Segment → Prop
  | [] => True
  | s :: ss => s.Fits before (ss.flatMap text) ∧ AllFit (before ++ s.text) ss

theorem AllFit.fits {before : List Char} {pre post : List Segment} {s : Segment}
    (h : AllFit before (pre ++ s :: post)) :
    s.Fits (before ++ pre.flatMap text) (post.flatMap text) := by
  induction pre generalizing before with
  | nil => simpa using h.1
  | cons r pre ih => simpa using ih h.2

end Segment

namespace Piece

def token? : Piece → Option Token
  | token t => some t
  | unknown _ => none

def unknown? : Piece → Option UnknownChar
  | token _ => none
  | unknown e => some e

end Piece

namespace Scan

variable {c : Char} {cs : List Char}

theorem startsComment_iff : startsComment cs = true ↔ Segment.OpensComment cs := by
  unfold startsComment Segment.OpensComment
  split
  · simp
  · simp
  · next plain comment =>
    rw [iff_of_false Bool.false_ne_true]
    rintro (⟨rest, rfl⟩ | ⟨rest, rfl⟩)
    · exact plain rest rfl
    · exact comment rest rfl

/-- Segments tell what the scanner finds: their tokens are its tokens, line breaks apart, and their
unknown characters are its own. -/
structure Tells (before cs : List Char) (pieces : List Piece) (segments : List Segment) : Prop where
  text : segments.flatMap Segment.text = cs
  fit : Segment.AllFit before segments
  tokens : segments.filterMap Segment.token? =
    (pieces.filterMap Piece.token?).filter (·.kind ≠ .newline)
  unknown : segments.filterMap Segment.unknown? = pieces.filterMap Piece.unknown?

/-- One more segment in front. -/
theorem Tells.cons {before cs : List Char} {pieces pieces' : List Piece} {segments : List Segment}
    {s : Segment} (h : Tells (before ++ s.text) cs pieces segments) (fits : s.Fits before cs)
    (tokens : (pieces'.filterMap Piece.token?).filter (·.kind ≠ .newline) =
      s.token?.toList ++ (pieces.filterMap Piece.token?).filter (·.kind ≠ .newline))
    (unknown : pieces'.filterMap Piece.unknown? =
      s.unknown?.toList ++ pieces.filterMap Piece.unknown?) :
    Tells before (s.text ++ cs) pieces' (s :: segments) where
  text := by rw [List.flatMap_cons, h.text]
  fit := ⟨h.text.symm ▸ fits, h.fit⟩
  tokens := by rw [tokens, List.filterMap_cons, ← h.tokens]; cases s.token? <;> rfl
  unknown := by rw [unknown, List.filterMap_cons, ← h.unknown]; cases s.unknown? <;> rfl

/-- Where the scanner stands after a text. The column counts only where something with a place can
follow, which is not so at the end of a line. -/
structure Stands (before : List Char) (line column : Int) (cs : List Char) : Prop where
  line : line = lineAfter before
  column : column = columnAfter before ∨ ∀ c ∈ cs.head?, c = '\n'

section Stands

variable {before text : List Char} {line column : Int}

theorem Stands.columnAfter_eq (h : Stands before line column (c :: cs)) (inside : c ≠ '\n') :
    column = columnAfter before :=
  h.column.resolve_right fun ends => inside (ends c rfl)

theorem Stands.newline (h : Stands before line column ('\n' :: cs)) :
    Stands (before ++ ['\n']) (line + 1) 1 cs :=
  ⟨by rw [h.line, lineAfter_newline], .inl columnAfter_newline.symm⟩

theorem Stands.return (h : Stands before line column ('\r' :: cs)) :
    Stands (before ++ ['\r']) line column cs :=
  ⟨by rw [h.line, lineAfter_append (by simp)],
    .inl (by rw [h.columnAfter_eq (by decide), columnAfter_return])⟩

theorem Stands.inline {rest : List Char} (h : Stands before line column (c :: cs))
    (columns : ∀ d ∈ c :: text, TakesColumn d) :
    Stands (before ++ c :: text) line (column + 1 + text.length) rest := by
  have inside : c ≠ '\n' := (columns c (List.mem_cons_self ..)).1
  refine ⟨by rw [h.line, lineAfter_append fun d mem => (columns d mem).1], .inl ?_⟩
  rw [h.columnAfter_eq inside, columnAfter_append columns, List.length_cons]
  omega

theorem Stands.single {rest : List Char} (h : Stands before line column (c :: cs))
    (takes : TakesColumn c) : Stands (before ++ [c]) line (column + 1) rest := by
  have next : Stands (before ++ [c]) line (column + 1 + ([] : List Char).length) rest :=
    h.inline (List.forall_mem_singleton.2 takes)
  rwa [List.length_nil, Int.natCast_zero, Int.add_zero] at next

end Stands

/-- What a comment takes of a text: it opens the comment, and ends with the line. -/
theorem comment_takeWhile (inside : c ≠ '\n') (opens : startsComment (c :: cs) = true) :
    let more := cs.takeWhile (· ≠ '\n')
    Segment.OpensComment (c :: more) ∧ (∀ d ∈ c :: more, d ≠ '\n') ∧
      c :: more ++ cs.drop more.length = c :: cs ∧
      ∀ d ∈ (cs.drop more.length).head?, d = '\n' := by
  intro more
  have split : c :: more ++ cs.drop more.length = c :: cs :=
    congrArg (c :: ·) (List.prefix_iff_eq_append.1 (List.takeWhile_prefix _))
  refine ⟨?_, ?_, split, ?_⟩
  · rcases startsComment_iff.1 opens with ⟨rest, same⟩ | ⟨rest, same⟩
    · cases same
      exact .inl ⟨more, rfl⟩
    · cases same
      exact .inr ⟨rest.takeWhile (· ≠ '\n'), by simp [more]⟩
  · exact List.forall_mem_cons.2
      ⟨inside, fun d mem => of_decide_eq_true (List.all_eq_true.1 List.all_takeWhile d mem)⟩
  · have rest : cs.drop more.length = cs.dropWhile (· ≠ '\n') :=
      List.append_cancel_left ((List.prefix_iff_eq_append.1 (List.takeWhile_prefix _)).trans
        List.takeWhile_append_dropWhile.symm)
    intro d mem
    have stops := List.head?_dropWhile_not (fun c => decide (c ≠ '\n')) cs
    rw [← rest, mem] at stops
    simpa using stops

/-- The pieces of a text come from segments. -/
theorem exists_segments (line column : Int) (cs : List Char) :
    ∀ before, Stands before line column cs →
      ∃ segments, Tells before cs (scan line column cs).1 segments := by
  fun_induction scan line column cs with
  | case1 line column => exact fun _ _ => ⟨[], rfl, trivial, rfl, rfl⟩
  | case2 line column cs ps stop eq ih =>
    intro before stands
    obtain ⟨segments, later⟩ := ih _ stands.newline
    rw [eq] at later
    exact ⟨_, later.cons (s := .newline) trivial (by simp [Piece.token?, Segment.token?]) rfl⟩
  | case3 line column c cs _ blank ih =>
    intro before stands
    have takes : TakesColumn c := by rcases blank with rfl | rfl <;> decide
    obtain ⟨segments, later⟩ := ih _ (stands.single takes)
    exact ⟨_, later.cons (s := .blank c) (blank.imp_right .inl) rfl rfl⟩
  | case4 line column cs _ _ ih =>
    intro before stands
    obtain ⟨segments, later⟩ := ih _ stands.return
    exact ⟨_, later.cons (s := .blank '\r') (.inr (.inr rfl)) rfl rfl⟩
  | case5 line column c cs solid _ _ opens more ih =>
    intro before stands
    obtain ⟨comment, inside, split, ends⟩ := comment_takeWhile solid opens
    obtain ⟨segments, later⟩ := ih (before ++ c :: more)
      ⟨by rw [stands.line, lineAfter_append inside], .inr ends⟩
    rw [← split]
    exact ⟨_, later.cons (s := .comment (c :: more))
      ⟨comment, fun mem => inside _ mem rfl, ends⟩ rfl rfl⟩
  | case6 line column c cs solid _ _ _ kind more found ps stop eq ih =>
    intro before stands
    obtain ⟨starts, columns⟩ := inline_lexeme? found
    obtain ⟨segments, later⟩ := ih _ (stands.inline columns)
    have notNewline := kind_ne_newline found
    let t : Token := ⟨kind, String.ofList (c :: more), line, column⟩
    have text : (Segment.token t).text = c :: more := String.toList_ofList
    have split : more ++ cs.drop more.length = cs :=
      (List.cons.inj (List.prefix_iff_eq_append.1 starts)).2
    rw [eq, ← text] at later
    have shown : Tells before _ (.token t :: ps) _ := later.cons (s := .token t)
      ⟨⟨c, more, text, by rw [split, found]⟩, stands.line, stands.columnAfter_eq solid⟩
      (by simp [Piece.token?, Segment.token?, notNewline, t]) rfl
    rw [text, List.cons_append, split] at shown
    exact ⟨_, shown⟩
  | case7 line column c cs solid plain ret closed found ps stop eq ih =>
    intro before stands
    obtain ⟨segments, later⟩ := ih _ (stands.single ⟨solid, ret⟩)
    rw [eq] at later
    refine ⟨_, later.cons (s := .unknown ⟨c, line, column⟩)
      ⟨?_, ?_, found, stands.line, stands.columnAfter_eq solid⟩ rfl rfl⟩
    · simp [solid, ret, not_or.1 plain]
    · exact fun opens => closed (startsComment_iff.2 opens)

/-! ## Line breaks -/

section Collapse

variable {after : Bool} {ts : List Token}

theorem filter_collapse (after : Bool) (ts : List Token) :
    (collapse after ts).filter (·.kind ≠ .newline) = ts.filter (·.kind ≠ .newline) := by
  fun_induction collapse after ts with
  | case1 => rfl
  | case2 t ts newline ih => simpa [newline] using ih
  | case3 after t ts newline _ ih => simpa [newline] using ih
  | case4 after t ts other ih => simpa [other] using ih

theorem head?_collapse (ts : List Token) : ∀ t ∈ (collapse false ts).head?, t.kind ≠ .newline := by
  induction ts with
  | nil => simp [collapse]
  | cons t ts ih =>
    unfold collapse
    split
    · exact ih
    · next other => simpa using other

/-- No two line breaks stand side by side. -/
theorem isChain_collapse (after : Bool) (ts : List Token) :
    (collapse after ts).IsChain fun t u => ¬(t.kind = .newline ∧ u.kind = .newline) := by
  fun_induction collapse after ts with
  | case1 => exact .nil
  | case2 t ts newline ih =>
    exact List.isChain_cons.2 ⟨fun u mem both => head?_collapse ts u mem both.2, ih⟩
  | case3 after t ts newline _ ih => exact ih
  | case4 after t ts other ih =>
    exact List.isChain_cons.2 ⟨fun u _ both => other both.1, ih⟩

theorem collapse_true_ne_nil {ts : List Token} (h : ts ≠ []) : collapse true ts ≠ [] := by
  obtain ⟨t, ts, rfl⟩ := List.exists_cons_of_ne_nil h
  unfold collapse
  split <;> exact List.cons_ne_nil _ _

/-- What stands after a line break or nothing, and ends with one, still ends with one. -/
theorem getLast?_collapse {e : Token} (newline : e.kind = .newline) (after : Bool)
    (ts : List Token) : ∀ t ∈ (collapse after (ts ++ [e])).getLast?, t.kind = .newline := by
  induction ts generalizing after with
  | nil => cases after <;> simp [collapse, newline]
  | cons t ts ih =>
    intro u mem
    rw [List.cons_append, collapse] at mem
    split at mem
    · next here =>
      split at mem
      · rw [List.getLast?_cons] at mem
        cases last : (collapse false (ts ++ [e])).getLast? with
        | none =>
          rw [last] at mem
          cases mem
          exact here
        | some v =>
          rw [last] at mem
          cases mem
          exact ih false v last
      · exact ih false u mem
    · have more := collapse_true_ne_nil (List.concat_ne_nil e ts)
      rw [List.getLast?_cons_of_ne_nil more] at mem
      exact ih true u mem

end Collapse

end Scan

/-- The tokens of a text before its end come from the scanner's, and a line break after them. -/
theorem tokenize_eq (source : List Char) :
    ∃ front last newline, (tokenize source).tokens = front ++ [last] ∧ last.kind = .eof ∧
      (∀ t ∈ front, t.kind ≠ .eof) ∧ newline.kind = .newline ∧
      front = Scan.collapse false
        ((Scan.scan 1 1 source).1.filterMap Piece.token? ++ [newline]) := by
  obtain ⟨front, last, tokens, ends, inside⟩ := tokens_tokenize source
  have same := (List.append_inj' (tokens.symm.trans rfl) rfl).1
  exact ⟨front, last, _, tokens, ends, inside, rfl, same⟩

/-- Reading a text loses nothing, and places are right. The text is a sequence of segments, one
after the other, each of its form and at its place: the tokens among them are those that reading
gives, line breaks and the end apart, and the unknown characters are those that it reports. The end
comes last and only there, no line break comes first or right after another one, and the last line
is closed. -/
theorem tokenize_segments (bytes : List UInt8) :
    (∃ segments : List Segment, segments.flatMap Segment.text = sourceOfBytes bytes ∧
        (∀ pre s post, segments = pre ++ s :: post →
          s.Fits (pre.flatMap Segment.text) (post.flatMap Segment.text)) ∧
        segments.filterMap Segment.token? = (tokenize (sourceOfBytes bytes)).tokens.filter
          (fun t => t.kind ≠ .newline ∧ t.kind ≠ .eof) ∧
        segments.filterMap Segment.unknown? = (tokenize (sourceOfBytes bytes)).unknown) ∧
      ∃ front last, (tokenize (sourceOfBytes bytes)).tokens = front ++ [last] ∧ last.kind = .eof ∧
        (∀ t ∈ front, t.kind ≠ .eof) ∧ (∀ t ∈ front.head?, t.kind ≠ .newline) ∧
        front.IsChain (fun t u => ¬(t.kind = .newline ∧ u.kind = .newline)) ∧
        ∀ t ∈ front.getLast?, t.kind = .newline := by
  generalize sourceOfBytes bytes = source
  obtain ⟨front, last, newline, tokens, ends, inside, breaks, collapsed⟩ := tokenize_eq source
  obtain ⟨segments, told⟩ := Scan.exists_segments 1 1 source [] ⟨rfl, .inl rfl⟩
  have words : (tokenize source).tokens.filter (fun t => t.kind ≠ .newline ∧ t.kind ≠ .eof) =
      front.filter (·.kind ≠ .newline) := by
    have kept : front.filter (fun t => t.kind ≠ .newline ∧ t.kind ≠ .eof) =
        front.filter (·.kind ≠ .newline) := List.filter_congr fun t mem => by simp [inside t mem]
    rw [tokens, List.filter_append, kept]
    simp [ends]
  refine ⟨⟨segments, told.text, fun pre s post split => ?_, ?_, told.unknown⟩,
    front, last, tokens, ends, inside, ?_⟩
  · exact (split ▸ told.fit).fits
  · rw [words, collapsed, Scan.filter_collapse, told.tokens, List.filter_append]
    simp [breaks]
  · rw [collapsed]
    exact ⟨Scan.head?_collapse _, Scan.isChain_collapse _ _, Scan.getLast?_collapse breaks _ _⟩

end RegColor
