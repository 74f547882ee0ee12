import RegColor.Proofs.Lexing
import RegColor.Proofs.Segments

/-!
# Texts line by line

The scanner needs nothing of a text but what it takes of it. Cutting a text off behind a token
leaves the token as it is (`lexeme?_cut`), and so does anything put behind it that no token can
continue with (`lexeme?_append`). A line break is such a thing, and ends comments too, so a text is
scanned line by line (`scan_append`), each line as it would be scanned alone but for its number
(`scan_down`). Line breaks are collapsed line by line as well (`collapse_append`): the end of a text
closes its last line as a line break would.
-/

namespace RegColor

/-! ## Further down -/

/-- The same token some lines further down. -/
def Token.down (n : Int) (t : Token) : Token := { t with line := t.line + n }

/-- The same unknown character some lines further down. -/
def UnknownChar.down (n : Int) (e : UnknownChar) : UnknownChar := { e with line := e.line + n }

/-- The same piece some lines further down. -/
def Piece.down (n : Int) : Piece → Piece
  | token t => token (t.down n)
  | unknown e => unknown (e.down n)

theorem filterMap_token?_down (n : Int) (ps : List Piece) :
    (ps.map (Piece.down n)).filterMap Piece.token? =
      (ps.filterMap Piece.token?).map (Token.down n) := by
  rw [List.filterMap_map, List.map_filterMap]
  exact List.filterMap_congr fun p _ => by cases p <;> rfl

theorem filterMap_unknown?_down (n : Int) (ps : List Piece) :
    (ps.map (Piece.down n)).filterMap Piece.unknown? =
      (ps.filterMap Piece.unknown?).map (UnknownChar.down n) := by
  rw [List.filterMap_map, List.map_filterMap]
  exact List.filterMap_congr fun p _ => by cases p <;> rfl

namespace Scan

variable {c d : Char} {cs more rest xs ys : List Char} {kind : TokenKind}

/-! ## Cutting a text off -/

/-- Cutting a text off behind what is taken of it changes nothing. -/
def Tight (take : List Char → List Char) : Prop :=
  ∀ xs ys, take (xs ++ ys) <+: xs → take xs = take (xs ++ ys)

theorem tight_takeWhile (p : Char → Bool) : Tight (List.takeWhile p) := by
  intro xs ys inside
  rw [List.takeWhile_append] at inside ⊢
  split at inside
  · next all =>
    have whole : xs.takeWhile p = xs := (List.takeWhile_prefix p).eq_of_length all
    have short := inside.length_le
    rw [List.length_append] at short
    have nothing : ys.takeWhile p = [] := List.eq_nil_of_length_eq_zero (by omega)
    rw [if_pos all, nothing, List.append_nil, whole]
  · next some => rw [if_neg some]

theorem tight_fraction : Tight fraction := by
  intro xs ys inside
  match xs with
  | [] => exact (List.prefix_nil.1 inside).symm
  | [x] =>
    -- A fraction has two characters at least.
    rw [show fraction [x] = [] by simp [fraction]]
    have short := inside.length_le
    revert short
    rw [List.singleton_append]
    unfold fraction
    split
    · split
      · simp
      · exact fun _ => rfl
    · exact fun _ => rfl
  | x :: y :: zs =>
    by_cases point : x = '.' ∧ y.isDigit = true
    · obtain ⟨rfl, digit⟩ := point
      simp only [List.cons_append, fraction, digit, if_true, List.cons_prefix_cons] at inside ⊢
      rw [tight_takeWhile _ zs ys inside.2.2]
    · have none (rest : List Char) : fraction (x :: y :: rest) = [] := by
        unfold fraction
        split
        · next same =>
          cases same
          exact if_neg fun digit => point ⟨rfl, digit⟩
        · rfl
      rw [List.cons_append, List.cons_append, none, none]

theorem tight_exponentTail : Tight exponentTail := by
  intro xs ys inside
  cases xs with
  | nil => exact (List.prefix_nil.1 inside).symm
  | cons x xs =>
    by_cases sign : x = '+' ∨ x = '-'
    · simp only [List.cons_append, exponentTail, sign, if_true, List.cons_prefix_cons] at inside ⊢
      rw [tight_takeWhile _ xs ys inside.2]
    · simp only [List.cons_append, exponentTail, sign, if_false] at inside ⊢
      exact tight_takeWhile _ (x :: xs) ys inside

theorem tight_exponent : Tight exponent := by
  intro xs ys inside
  cases xs with
  | nil => exact (List.prefix_nil.1 inside).symm
  | cons x xs =>
    by_cases mark : x = 'e' ∨ x = 'E'
    · simp only [List.cons_append, exponent, mark, if_true, List.cons_prefix_cons] at inside ⊢
      rw [tight_exponentTail xs ys inside.2]
    · simp only [List.cons_append, exponent, mark, if_false]

/-- What is taken behind a part of a text, if the text is cut off behind both. -/
theorem Tight.drop {take : List Char → List Char} (h : Tight take) {part : List Char}
    (inside : part ++ take ((xs ++ ys).drop part.length) <+: xs) :
    take (xs.drop part.length) = take ((xs ++ ys).drop part.length) := by
  obtain ⟨left, rfl⟩ := (List.prefix_append part _).trans inside
  rw [List.append_assoc, List.drop_left] at inside ⊢
  rw [List.drop_left]
  exact h left ys ((List.prefix_append_right_inj part).1 inside)

/-- The rest of a number without a base mark, and its kind. -/
def decimal (cs : List Char) : TokenKind × List Char :=
  let whole := cs.takeWhile Char.isDigit
  let frac := fraction (cs.drop whole.length)
  let exp := exponent (cs.drop (whole ++ frac).length)
  (if frac.isEmpty && exp.isEmpty then .int else .float, whole ++ frac ++ exp)

/-- A number has a base mark, or it is a decimal one. -/
theorem number_cases (c : Char) (cs : List Char) :
    (∃ x ds, c = '0' ∧ (x = 'x' ∨ x = 'X') ∧ cs = x :: ds ∧
        number c cs = (.int, x :: ds.takeWhile isHexDigit)) ∨
      (¬(c = '0' ∧ (cs.head? = some 'x' ∨ cs.head? = some 'X')) ∧ number c cs = decimal cs) := by
  unfold number
  split
  · exact .inl ⟨_, _, rfl, .inl rfl, rfl, rfl⟩
  · exact .inl ⟨_, _, rfl, .inr rfl, rfl, rfl⟩
  · next small capital =>
    refine .inr ⟨?_, by simp only [decimal, List.length_append]⟩
    rintro ⟨rfl, mark | mark⟩
    · obtain ⟨ds, same⟩ := List.head?_eq_some_iff.1 mark
      exact small ds rfl same
    · obtain ⟨ds, same⟩ := List.head?_eq_some_iff.1 mark
      exact capital ds rfl same

theorem decimal_cut (inside : (decimal (xs ++ ys)).2 <+: xs) : decimal xs = decimal (xs ++ ys) := by
  unfold decimal at inside ⊢
  dsimp only at inside ⊢
  have front := (List.prefix_append _ _).trans inside
  rw [tight_takeWhile _ xs ys ((List.prefix_append _ _).trans front), tight_fraction.drop front,
    tight_exponent.drop inside]

theorem number_cut (inside : (number c (xs ++ ys)).2 <+: xs) :
    number c xs = number c (xs ++ ys) := by
  rcases number_cases c (xs ++ ys) with ⟨x, ds, rfl, mark, split, taken⟩ | ⟨plain, taken⟩
  · rw [taken] at inside ⊢
    cases xs with
    | nil => exact absurd (List.prefix_nil.1 inside) (List.cons_ne_nil _ _)
    | cons x' xs =>
      rw [List.cons_append] at split
      obtain ⟨rfl, rfl⟩ := List.cons.inj split
      rw [← tight_takeWhile _ xs ys (List.cons_prefix_cons.1 inside).2]
      rcases mark with rfl | rfl <;> rfl
  · rw [taken] at inside ⊢
    rcases number_cases c xs with ⟨x, ds, rfl, mark, rfl, -⟩ | ⟨-, same⟩
    · exact absurd ⟨rfl, by simpa using mark⟩ plain
    · rw [same, decimal_cut inside]

/-- Cutting a text off behind a token leaves the token as it is. -/
theorem lexeme?_cut (h : lexeme? c (xs ++ ys) = some (kind, more)) (inside : more <+: xs) :
    lexeme? c xs = some (kind, more) := by
  unfold lexeme? at h ⊢
  split at h
  · next digit =>
    have taken : number c (xs ++ ys) = (kind, more) := Option.some.inj h
    rw [if_pos digit, number_cut (by rw [taken]; exact inside), taken]
  · next other =>
    rw [if_neg other]
    split at h
    · next start =>
      cases h
      rw [if_pos start, tight_takeWhile _ xs ys inside]
    · next delimiter => rw [if_neg delimiter, h]

/-! ## What parts tokens -/

/-- A character that a token can have after its first one. -/
def MayFollow (d : Char) : Prop := isNamePart d = true ∨ d = '+' ∨ d = '-'

instance : DecidablePred MayFollow :=
  fun d => inferInstanceAs (Decidable (isNamePart d = true ∨ d = '+' ∨ d = '-'))

theorem MayFollow.toNat_lt (h : MayFollow d) : d.toNat < 128 := by
  rcases h with part | rfl | rfl
  · exact toNat_lt_of_isNamePart part
  · decide
  · decide

theorem mayFollow_of_mem_takeWhile {p : Char → Bool} (part : ∀ d, p d = true → isNamePart d = true)
    (mem : d ∈ cs.takeWhile p) : MayFollow d :=
  .inl (part d (List.all_eq_true.1 List.all_takeWhile d mem))

theorem mayFollow_digits (mem : d ∈ cs.takeWhile Char.isDigit) : MayFollow d :=
  mayFollow_of_mem_takeWhile (fun _ => isNamePart_of_isDigit) mem

theorem mayFollow_fraction (mem : d ∈ fraction cs) : MayFollow d := by
  unfold fraction at mem
  split at mem
  · split at mem
    · next digit =>
      rcases List.mem_cons.1 mem with rfl | mem
      · exact .inl rfl
      · rcases List.mem_cons.1 mem with rfl | mem
        · exact .inl (isNamePart_of_isDigit digit)
        · exact mayFollow_digits mem
    · cases mem
  · cases mem

theorem mayFollow_exponentTail (mem : d ∈ exponentTail cs) : MayFollow d := by
  unfold exponentTail at mem
  split at mem
  · split at mem
    · next sign =>
      rcases List.mem_cons.1 mem with rfl | mem
      · exact .inr sign
      · exact mayFollow_digits mem
    · exact mayFollow_digits mem
  · cases mem

theorem mayFollow_exponent (mem : d ∈ exponent cs) : MayFollow d := by
  unfold exponent at mem
  split at mem
  · split at mem
    · next mark =>
      rcases List.mem_cons.1 mem with rfl | mem
      · rcases mark with rfl | rfl <;> exact .inl rfl
      · exact mayFollow_exponentTail mem
    · cases mem
  · cases mem

theorem isNamePart_of_isHexDigit (h : isHexDigit d = true) : isNamePart d = true := by
  simp only [isHexDigit, Bool.or_eq_true, Bool.and_eq_true, decide_eq_true_eq] at h
  have part (alpha : d.isAlpha = true) : isNamePart d = true :=
    isNamePart_of_isNameStart (by simp [isNameStart, alpha])
  rcases h with (digit | ⟨low, high⟩) | ⟨low, high⟩
  · exact isNamePart_of_isDigit digit
  · refine part (Bool.or_eq_true_iff.2 (.inr ?_))
    have last : 'f' ≤ 'z' := by decide
    exact Bool.and_eq_true_iff.2 ⟨decide_eq_true low, decide_eq_true (Char.le_trans high last)⟩
  · refine part (Bool.or_eq_true_iff.2 (.inl ?_))
    have last : 'F' ≤ 'Z' := by decide
    exact decide_eq_true ⟨low, Char.le_trans high last⟩

theorem mayFollow_number (mem : d ∈ (number c cs).2) : MayFollow d := by
  rcases number_cases c cs with ⟨x, ds, rfl, mark, rfl, taken⟩ | ⟨-, taken⟩
  · rw [taken] at mem
    rcases List.mem_cons.1 mem with rfl | mem
    · rcases mark with rfl | rfl <;> exact .inl rfl
    · exact mayFollow_of_mem_takeWhile (fun _ => isNamePart_of_isHexDigit) mem
  · rw [taken] at mem
    rcases List.mem_append.1 mem with front | exp
    · rcases List.mem_append.1 front with whole | frac
      · exact mayFollow_digits whole
      · exact mayFollow_fraction frac
    · exact mayFollow_exponent exp

theorem mayFollow_lexeme? (h : lexeme? c cs = some (kind, more)) (mem : d ∈ more) :
    MayFollow d := by
  unfold lexeme? at h
  split at h
  · have taken : (number c cs).2 = more := congrArg Prod.snd (Option.some.inj h)
    rw [← taken] at mem
    exact mayFollow_number mem
  · split at h
    · cases h
      exact mayFollow_of_mem_takeWhile (fun _ => id) mem
    · obtain ⟨_, -, same⟩ := Option.map_eq_some_iff.1 h
      cases same
      cases mem

/-- A text that no token before it reaches into. -/
def Apart (rest : List Char) : Prop := ∀ d ∈ rest.head?, ¬MayFollow d

theorem prefix_of_apart (apart : Apart rest) (starts : more <+: cs ++ rest)
    (all : ∀ d ∈ more, MayFollow d) : more <+: cs := by
  rcases List.prefix_or_prefix_of_prefix starts (List.prefix_append cs rest) with
    inside | ⟨excess, rfl⟩
  · exact inside
  · cases excess with
    | nil => simp
    | cons d excess =>
      obtain ⟨_, rfl⟩ := (List.prefix_append_right_inj cs).1 starts
      exact absurd (all d (by simp)) (apart d rfl)

theorem isSome_lexeme? (c : Char) (cs ds : List Char) :
    (lexeme? c cs).isSome = (lexeme? c ds).isSome := by
  unfold lexeme?
  split
  · rfl
  · split
    · rfl
    · simp

/-- A token ends where something stands that it cannot reach into, just as it ends with the text. -/
theorem lexeme?_append (apart : Apart rest) : lexeme? c (cs ++ rest) = lexeme? c cs := by
  cases found : lexeme? c (cs ++ rest) with
  | none =>
    have none := isSome_lexeme? c cs (cs ++ rest)
    rw [found] at none
    exact (Option.isNone_iff_eq_none.1 (by simpa using none)).symm
  | some token =>
    have starts := (List.cons_prefix_cons.1 (inline_lexeme? found).starts).2
    exact (lexeme?_cut found
      (prefix_of_apart apart starts fun d mem => mayFollow_lexeme? found mem)).symm

/-! ## One line after the other -/

theorem apart_newline (cs : List Char) : Apart ('\n' :: cs) := by
  rintro d ⟨⟩
  decide

theorem startsComment_append (c : Char) (cs rest : List Char) :
    startsComment (c :: cs ++ '\n' :: rest) = startsComment (c :: cs) := by
  rw [Bool.eq_iff_iff, startsComment_iff, startsComment_iff, Segment.OpensComment,
    Segment.OpensComment]
  cases cs <;> simp [List.cons_prefix_cons]

theorem takeWhile_line (cs rest : List Char) :
    (cs ++ '\n' :: rest).takeWhile (· ≠ '\n') = cs.takeWhile (· ≠ '\n') := by
  rw [List.takeWhile_append]
  split
  · next all => rw [(List.takeWhile_prefix _).eq_of_length all]; simp
  · rfl

/-- Two texts with a line break between them: the second starts on a line of its own. -/
theorem scan_append (line column : Int) (a b : List Char) :
    scan line column (a ++ '\n' :: b) =
      let (ps, stop) := scan line column a
      let (qs, last) := scan (stop.1 + 1) 1 b
      (ps ++ .token ⟨.newline, "\n", stop.1, stop.2⟩ :: qs, last) := by
  fun_induction scan line column a with
  | case1 line column => rw [List.nil_append, scan, if_pos rfl]; rfl
  | case2 line column cs ps stop eq ih =>
    rw [eq] at ih
    rw [List.cons_append, scan, if_pos rfl, ih]
    rfl
  | case3 line column c cs solid blank ih =>
    rw [List.cons_append, scan, if_neg solid, if_pos blank, ih]
  | case4 line column cs _ _ ih =>
    rw [List.cons_append, scan, if_neg (by decide), if_neg (by decide), if_pos rfl, ih]
  | case5 line column c cs solid plain ret opens more ih =>
    have inside : more.length ≤ cs.length := (List.takeWhile_prefix _).length_le
    have opens' := (startsComment_append c cs b).trans opens
    rw [List.cons_append] at opens' ⊢
    rw [scan, if_neg solid, if_neg plain, if_neg ret, if_pos opens', takeWhile_line]
    dsimp only
    rw [List.drop_append_of_le_length inside, ih]
  | case6 line column c cs solid plain ret opens kind more found ps stop eq ih =>
    have inside : more.length ≤ cs.length :=
      (List.cons_prefix_cons.1 (inline_lexeme? found).starts).2.length_le
    rw [List.cons_append, scan_of_lexeme? ((lexeme?_append (apart_newline b)).trans found),
      List.drop_append_of_le_length inside, ih, eq]
    rfl
  | case7 line column c cs solid plain ret opens found ps stop eq ih =>
    have opens' : ¬startsComment (c :: (cs ++ '\n' :: b)) = true := by
      rw [← List.cons_append, startsComment_append]
      exact opens
    rw [List.cons_append, scan, if_neg solid, if_neg plain, if_neg ret, if_neg opens',
      (lexeme?_append (apart_newline b)).trans found]
    dsimp only
    rw [ih, eq]
    rfl

theorem countP_drop {text : List Char} (starts : text <+: cs) (inside : ∀ d ∈ text, d ≠ '\n') :
    (cs.drop text.length).countP (· = '\n') = cs.countP (· = '\n') := by
  obtain ⟨rest, rfl⟩ := starts
  have none : text.countP (· = '\n') = 0 := by simpa [List.countP_eq_zero] using inside
  rw [List.drop_left, List.countP_append, none, Nat.zero_add]

/-- A text ends as many lines further down as it has line breaks. -/
theorem line_scan (line column : Int) (cs : List Char) :
    (scan line column cs).2.1 = line + cs.countP (· = '\n') := by
  fun_induction scan line column cs with
  | case1 => simp
  | case2 line column cs ps stop eq ih =>
    rw [eq] at ih
    rw [List.countP_cons_of_pos (by simp), ih]
    omega
  | case3 line column c cs solid blank ih => rw [List.countP_cons_of_neg (by simpa using solid), ih]
  | case4 line column cs _ _ ih => rw [List.countP_cons_of_neg (by simp), ih]
  | case5 line column c cs solid plain ret opens more ih =>
    obtain ⟨-, inside, split, -⟩ := comment_takeWhile solid opens
    rw [ih, ← countP_drop ⟨_, split⟩ inside]
    rfl
  | case6 line column c cs solid plain ret opens kind more found ps stop eq ih =>
    obtain ⟨starts, columns⟩ := inline_lexeme? found
    rw [eq] at ih
    rw [ih, ← countP_drop starts fun d mem => (columns d mem).1]
    rfl
  | case7 line column c cs solid plain ret opens found ps stop eq ih =>
    rw [eq] at ih
    rw [List.countP_cons_of_neg (by simpa using solid), ih]

/-- Further down a text is scanned in the same way. -/
theorem scan_down (n line column : Int) (cs : List Char) :
    scan (line + n) column cs =
      let (ps, stop) := scan line column cs
      (ps.map (Piece.down n), stop.1 + n, stop.2) := by
  fun_induction scan line column cs with
  | case1 line column => rw [scan]; rfl
  | case2 line column cs ps stop eq ih =>
    have next : line + n + 1 = line + 1 + n := by omega
    rw [scan, if_pos rfl, next, ih, eq]
    rfl
  | case3 line column c cs solid blank ih => rw [scan, if_neg solid, if_pos blank, ih]
  | case4 line column cs _ _ ih =>
    rw [scan, if_neg (by decide), if_neg (by decide), if_pos rfl, ih]
  | case5 line column c cs solid plain ret opens more ih =>
    rw [scan, if_neg solid, if_neg plain, if_neg ret, if_pos opens, ih]
  | case6 line column c cs solid plain ret opens kind more found ps stop eq ih =>
    rw [scan_of_lexeme? found, ih, eq]
    rfl
  | case7 line column c cs solid plain ret opens found ps stop eq ih =>
    rw [scan, if_neg solid, if_neg plain, if_neg ret, if_neg opens, found]
    dsimp only
    rw [ih, eq]
    rfl

/-! ## Line breaks -/

/-- A line break leaves the scanner as the start of a text does. -/
theorem collapse_append {e : Token} (newline : e.kind = .newline) (after : Bool)
    (ts us : List Token) :
    collapse after (ts ++ e :: us) = collapse after (ts ++ [e]) ++ collapse false us := by
  induction ts generalizing after with
  | nil => cases after <;> simp [collapse, newline]
  | cons t ts ih =>
    rw [List.cons_append, List.cons_append, collapse, collapse, ih false, ih true]
    split
    · split
      · rfl
      · rfl
    · rfl

theorem collapse_down (n : Int) (after : Bool) (ts : List Token) :
    collapse after (ts.map (Token.down n)) = (collapse after ts).map (Token.down n) := by
  have kind (t : Token) : (t.down n).kind = t.kind := rfl
  fun_induction collapse after ts with
  | case1 => rfl
  | case2 t ts newline ih => simp [collapse, kind, newline, ih]
  | case3 after t ts newline none ih => simp [collapse, kind, newline, none, ih]
  | case4 after t ts other ih => simp [collapse, kind, other, ih]

end Scan

/-! ## Reading a text line by line -/

/-- What reading a source text gives, told from the pieces it is cut into. -/
theorem tokenize_eq_of_scan {source : List Char} {ps : List Piece} {line column : Int}
    (h : Scan.scan 1 1 source = (ps, line, column)) :
    tokenize source =
      { tokens := Scan.collapse false (ps.filterMap Piece.token? ++
          [⟨.newline, "\n", line, column⟩]) ++ [⟨.eof, "", line, column⟩]
        unknown := ps.filterMap Piece.unknown? } := by
  unfold tokenize
  rw [h]
  rfl

theorem sourceOfBytes_append (a b : List UInt8) :
    sourceOfBytes (a ++ 10 :: b) = sourceOfBytes a ++ '\n' :: sourceOfBytes b := by
  simp [sourceOfBytes]

theorem ofNat_eq_newline_iff (byte : UInt8) : Char.ofNat byte.toNat = '\n' ↔ byte = 10 := by
  constructor
  · intro same
    have valid : byte.toNat.isValidChar := .inl (byte.toNat_lt.trans (by decide))
    have code : byte.toNat = (Char.ofNat byte.toNat).toNat := by
      rw [Char.ofNat, dif_pos valid]
      rfl
    rw [same] at code
    exact UInt8.toNat_inj.1 code
  · rintro rfl
    rfl

theorem countP_sourceOfBytes (a : List UInt8) :
    (sourceOfBytes a).countP (· = '\n') = a.count 10 := by
  rw [sourceOfBytes, List.countP_map, List.count]
  refine List.countP_congr fun byte _ => ?_
  simpa using ofNat_eq_newline_iff byte

/-- A text is read line by line. Of two texts with a line break between them, the tokens are those
of the first without its end and then those of the second, as many lines further down as the first
has; and so are the unknown characters. -/
theorem tokenize_lines (a b : List UInt8) :
    ∃ front e, (tokenize (sourceOfBytes a)).tokens = front ++ [e] ∧ e.kind = .eof ∧
      tokenize (sourceOfBytes (a ++ 10 :: b)) =
        { tokens := front ++
            (tokenize (sourceOfBytes b)).tokens.map (Token.down (1 + a.count 10 : Nat))
          unknown := (tokenize (sourceOfBytes a)).unknown ++
            (tokenize (sourceOfBytes b)).unknown.map
              (UnknownChar.down (1 + a.count 10 : Nat)) } := by
  obtain ⟨ps, line, column, first⟩ : ∃ ps line column,
      Scan.scan 1 1 (sourceOfBytes a) = (ps, line, column) := ⟨_, _, _, rfl⟩
  obtain ⟨qs, line', column', second⟩ : ∃ qs line column,
      Scan.scan 1 1 (sourceOfBytes b) = (qs, line, column) := ⟨_, _, _, rfl⟩
  generalize lines : ((1 + a.count 10 : Nat) : Int) = n
  have lower : line + 1 = 1 + n := by
    have stop := Scan.line_scan 1 1 (sourceOfBytes a)
    rw [first, countP_sourceOfBytes] at stop
    dsimp only at stop
    omega
  have whole : Scan.scan 1 1 (sourceOfBytes (a ++ 10 :: b)) =
      (ps ++ .token ⟨.newline, "\n", line, column⟩ :: qs.map (Piece.down n), line' + n,
        column') := by
    rw [sourceOfBytes_append, Scan.scan_append, first]
    dsimp only
    rw [lower, Scan.scan_down, second]
  rw [tokenize_eq_of_scan whole, tokenize_eq_of_scan first, tokenize_eq_of_scan second]
  refine ⟨_, _, rfl, rfl, congrArg₂ Scanned.mk ?_ ?_⟩
  · rw [List.filterMap_append, List.filterMap_cons, filterMap_token?_down, List.append_assoc,
      List.map_append, ← Scan.collapse_down, List.map_append,
      ← List.append_assoc _ (Scan.collapse _ _)]
    exact congrArg (· ++ _) (Scan.collapse_append rfl false _ _)
  · rw [List.filterMap_append, List.filterMap_cons, filterMap_unknown?_down]
    rfl

end RegColor
