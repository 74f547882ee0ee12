import RegColor.Proofs.Accepted

/-!
# Reading a text token by token

`Scan.Scans after cs Q` says that the characters `cs` are bytes that hold tokens only, and that `Q`
holds of these tokens once line breaks are collapsed and the last line is closed. It is established
from the end of a text backwards, one token at a time: a name or a number ends where what follows it
cannot belong to a word (`Scan.Breaks`).

In the other direction, the tokens of any text have the form of their kind: a name is a name
(`Token.Lexed.isName`), and an integer starts with a digit, so it is not negative
(`Token.Lexed.read_nonneg`).
-/

namespace RegColor

/-! ## Decimal numbers -/

namespace Integer

theorem magnitude_append {base n m : Nat} {cs ds : List Char} (h : magnitude base n cs = .ok m) :
    magnitude base n (cs ++ ds) = magnitude base m ds := by
  fun_induction magnitude base n cs with
  | case1 => cases h; rfl
  | case2 n cs ih => rw [List.cons_append, magnitude, if_pos rfl, ih h]
  | case3 => cases h
  | case4 => cases h
  | case5 => cases h
  | case6 n c cs other d value small fits ih =>
    rw [List.cons_append, magnitude, if_neg other, value]
    dsimp only
    rw [if_neg small, if_neg fits, ih h]

theorem magnitude_digitChar {n d : Nat} (digit : d < 10) (h : n * 10 + d < Word.modulus) :
    magnitude 10 n [d.digitChar] = .ok (n * 10 + d) := by
  have plain : d.digitChar ≠ '_' ∧ Digits.value? d.digitChar = some d :=
    have all : ∀ k : Fin 10,
        k.val.digitChar ≠ '_' ∧ Digits.value? k.val.digitChar = some k.val := by
      decide
    all ⟨d, digit⟩
  rw [magnitude, if_neg plain.1, plain.2]
  dsimp only
  rw [if_neg (Nat.not_le.2 digit), if_neg (Nat.not_le.2 h), magnitude]

theorem magnitude_toDigits {n : Nat} (h : n < Word.modulus) :
    magnitude 10 0 (Nat.toDigits 10 n) = .ok n := by
  induction n using Nat.strongRecOn with
  | ind n ih =>
    rcases Nat.lt_or_ge n 10 with small | large
    · rw [Nat.toDigits_of_lt_base small, magnitude_digitChar small (by omega)]
      simp
    · have split : n / 10 * 10 + n % 10 = n := Nat.div_add_mod' n 10
      rw [Nat.toDigits_of_base_le (by decide) large,
        magnitude_append (ih (n / 10) (by omega) (by omega)),
        magnitude_digitChar (Nat.mod_lt n (by decide)) (by omega), split]

/-- A decimal number has no leading zero. -/
theorem toDigits_zero_cons {n : Nat} {cs : List Char} (h : Nat.toDigits 10 n = '0' :: cs) :
    n = 0 := by
  induction n using Nat.strongRecOn generalizing cs with
  | ind n ih =>
    rcases Nat.lt_or_ge n 10 with small | large
    · rw [Nat.toDigits_of_lt_base small] at h
      exact Nat.digitChar_eq_zero.1 (List.cons.inj h).1
    · rw [Nat.toDigits_of_base_le (by decide) large] at h
      obtain ⟨c, ds, digits⟩ :=
        List.exists_cons_of_ne_nil (Nat.toDigits_ne_nil (b := 10) (n := n / 10))
      rw [digits, List.cons_append] at h
      have zero := ih (n / 10) (by omega) (digits.trans (by rw [(List.cons.inj h).1]))
      omega

theorem sign_of_isDigit {c : Char} {cs : List Char} (h : c.isDigit = true) :
    sign (c :: cs) = (false, c :: cs) := by
  unfold sign
  split
  · next same => cases same; cases h
  · next same => cases same; cases h
  · rfl

theorem base_of_ne_zero {c : Char} {cs : List Char} (h : c ≠ '0') :
    base (c :: cs) = (10, c :: cs) := by
  unfold base
  split
  · next same => cases same; exact absurd rfl h
  · next same => cases same; exact absurd rfl h
  · rfl

/-- A number is read back from its decimal digits. -/
theorem read_toDigits {n : Nat} (h : (n : Int) < Word.bound) :
    read (String.ofList (Nat.toDigits 10 n)) = .ok (n : Int) := by
  have fits : Word.fits n = true := Word.fits_iff.2 ⟨by rw [Word.bound]; omega, h⟩
  obtain ⟨c, cs, digits⟩ := List.exists_cons_of_ne_nil (Nat.toDigits_ne_nil (b := 10) (n := n))
  have digit : c.isDigit = true :=
    Nat.isDigit_of_mem_toDigits (by decide) (by decide) (digits ▸ List.mem_cons_self ..)
  by_cases zero : n = 0
  · subst zero
    rfl
  · have nonzero : c ≠ '0' := by
      rintro rfl
      exact zero (toDigits_zero_cons digits)
    have plain : (c :: cs).contains '_' = false := by
      rw [← digits]
      simp
    have value : magnitude 10 0 (c :: cs) = .ok n := by
      rw [← digits]
      exact magnitude_toDigits (by rw [Word.bound] at h; rw [Word.modulus]; omega)
    have unsigned : readUnsigned (c :: cs) = .ok n := by
      rw [readUnsigned, base_of_ne_zero nonzero, value, plain]
      rfl
    rw [read, String.toList_ofList, digits, sign_of_isDigit digit, unsigned]
    dsimp only
    rw [signed]
    simp [fits]

/-- A literal that starts with a digit is not negative. -/
theorem read_nonneg {c : Char} {cs : List Char} {v : Int} (digit : c.isDigit = true)
    (h : read (String.ofList (c :: cs)) = .ok v) : 0 ≤ v ∧ v < Word.bound := by
  rw [read, String.toList_ofList, sign_of_isDigit digit] at h
  dsimp only at h
  split at h
  · cases h
  · next n _ =>
    simp only [signed, Bool.false_eq_true, if_false] at h
    split at h
    · next fits =>
      cases h
      exact ⟨Int.natCast_nonneg n, (Word.fits_iff.1 fits).2⟩
    · cases h

end Integer

/-! ## Bytes -/

theorem toList_byteArray (bytes : ByteArray) : bytes.toList = bytes.data.toList := by
  have loop (i : Nat) (before : List UInt8) :
      ByteArray.toList.loop bytes i before = before.reverse ++ bytes.data.toList.drop i := by
    fun_induction ByteArray.toList.loop bytes i before with
    | case1 i before lt ih =>
      have here : bytes.data.toList.drop i = bytes.get! i :: bytes.data.toList.drop (i + 1) := by
        rw [List.drop_eq_getElem_cons (by simpa using lt), Array.getElem_toList]
        exact congrArg (· :: _) (getElem!_pos bytes.data i lt).symm
      rw [ih, here, List.reverse_cons, List.append_assoc]
      rfl
    | case2 i before ge =>
      rw [List.drop_eq_nil_of_le (by simpa using ge), List.append_nil]
  rw [ByteArray.toList, loop 0 []]
  rfl

/-- A text of single bytes is what its bytes stand for. -/
theorem sourceOfBytes_toUTF8 {s : String} (ascii : ∀ c ∈ s.toList, c.toNat < 128) :
    sourceOfBytes s.toUTF8.toList = s.toList := by
  have char (c : Char) (mem : c ∈ s.toList) :
      (String.utf8EncodeChar c).map (fun b => Char.ofNat b.toNat) = [c] := by
    have small := ascii c mem
    rw [Char.toNat] at small
    rw [String.utf8EncodeChar.eq_1, if_pos (by omega), List.map_singleton, UInt8.toNat_ofNat',
      Nat.mod_eq_of_lt (by omega)]
    exact congrArg (· :: []) (Char.ofNat_toNat c)
  calc sourceOfBytes s.toUTF8.toList
      = s.toList.flatMap fun c => (String.utf8EncodeChar c).map (fun b => Char.ofNat b.toNat) := by
        rw [toList_byteArray, String.toUTF8, ← String.utf8Encode_toList, List.utf8Encode,
          List.toList_data_toByteArray, sourceOfBytes, List.map_flatMap]
    _ = s.toList.flatMap fun c => [c] := List.flatMap_congr char
    _ = s.toList := List.flatMap_singleton' _

namespace Scan

/-! ## Words -/

/-- What follows a word does not belong to it. -/
def Breaks (rest : List Char) : Prop := ∀ c ∈ rest.head?, isNamePart c = false

variable {c : Char} {cs more rest : List Char}

theorem isNamePart_of_isDigit (h : c.isDigit = true) : isNamePart c = true := by
  simp [isNamePart, h]

theorem isNamePart_of_isNameStart (h : isNameStart c = true) : isNamePart c = true := by
  simp [isNamePart, h]

theorem isAlpha_range (h : c.isAlpha = true) :
    65 ≤ c.toNat ∧ c.toNat ≤ 90 ∨ 97 ≤ c.toNat ∧ c.toNat ≤ 122 := by
  rcases Bool.or_eq_true_iff.1 h with upper | lower
  · exact .inl (of_decide_eq_true upper)
  · obtain ⟨low, high⟩ := Bool.and_eq_true_iff.1 lower
    exact .inr ⟨of_decide_eq_true low, of_decide_eq_true high⟩

theorem not_isDigit_of_isNameStart (h : isNameStart c = true) : c.isDigit = false := by
  simp only [isNameStart, Bool.or_eq_true, decide_eq_true_eq] at h
  rcases h with (alpha | rfl) | rfl
  · rw [Bool.eq_false_iff]
    intro digit
    have high : c.toNat ≤ 57 := (Char.isDigit_iff_toNat.1 digit).2
    have range := isAlpha_range alpha
    omega
  · rfl
  · rfl

theorem toNat_lt_of_isNamePart (h : isNamePart c = true) : c.toNat < 128 := by
  simp only [isNamePart, isNameStart, Bool.or_eq_true, decide_eq_true_eq] at h
  rcases h with (((alpha | rfl) | rfl) | digit) | rfl
  · have range := isAlpha_range alpha
    omega
  · decide
  · decide
  · have high : c.toNat ≤ 57 := (Char.isDigit_iff_toNat.1 digit).2
    omega
  · decide

/-- Reading on while a condition holds that ends a word stops at the word's end. -/
theorem takeWhile_word {p : Char → Bool} (all : ∀ d ∈ more, p d = true)
    (part : ∀ d, p d = true → isNamePart d = true) (breaks : Breaks rest) :
    (more ++ rest).takeWhile p = more := by
  rw [List.takeWhile_append_of_pos all]
  cases rest with
  | nil => simp
  | cons d rest =>
    have stops : p d ≠ true := fun h => by
      have := breaks d rfl
      rw [part d h] at this
      cases this
    rw [List.takeWhile_cons_of_neg stops, List.append_nil]

theorem lexeme?_word (start : isNameStart c = true) (parts : ∀ d ∈ more, isNamePart d = true)
    (breaks : Breaks rest) :
    lexeme? c (more ++ rest) = some (wordKind (String.ofList (c :: more)), more) := by
  rw [lexeme?, not_isDigit_of_isNameStart start, if_neg Bool.false_ne_true, if_pos start,
    takeWhile_word parts (fun _ => id) breaks]

theorem fraction_of_breaks (breaks : Breaks rest) : fraction rest = [] := by
  unfold fraction
  split
  · cases breaks '.' rfl
  · rfl

theorem exponent_of_breaks (breaks : Breaks rest) : exponent rest = [] := by
  unfold exponent
  split
  · split
    · next mark =>
      have part := breaks _ rfl
      rcases mark with rfl | rfl <;> cases part
    · rfl
  · rfl

theorem number_decimal (digits : ∀ d ∈ more, d.isDigit = true) (breaks : Breaks rest) :
    number c (more ++ rest) = (.int, more) := by
  -- Neither the digits nor what follows them start with a letter, so there is no base mark.
  have head (d : Char) (h : (more ++ rest).head? = some d) (part : isNamePart d = true) :
      d.isDigit = true := by
    cases more with
    | nil => cases (breaks d h).symm.trans part
    | cons d' more =>
      cases h
      exact digits _ (List.mem_cons_self ..)
  unfold number
  split
  · next same => cases head 'x' (by rw [same]; rfl) rfl
  · next same => cases head 'X' (by rw [same]; rfl) rfl
  · have whole : (more ++ rest).takeWhile Char.isDigit = more :=
      takeWhile_word digits (fun _ => isNamePart_of_isDigit) breaks
    simp [whole, fraction_of_breaks breaks, exponent_of_breaks breaks]

theorem lexeme?_decimal (digit : c.isDigit = true) (digits : ∀ d ∈ more, d.isDigit = true)
    (breaks : Breaks rest) : lexeme? c (more ++ rest) = some (.int, more) := by
  rw [lexeme?, if_pos digit, number_decimal digits breaks]

/-! ## Texts -/

/-- A token for which `p` holds, and then tokens for which `R` holds. -/
def First (p : Token → Prop) (R : List Token → Prop) (ts : List Token) : Prop :=
  ∃ t us, ts = t :: us ∧ p t ∧ R us

theorem First.imp {p q : Token → Prop} {R : List Token → Prop} {ts : List Token}
    (h : First p R ts) (weaker : ∀ t, p t → q t) : First q R ts := by
  obtain ⟨t, us, same, first, left⟩ := h
  exact ⟨t, us, same, weaker t first, left⟩

/-- The characters are bytes that hold tokens only, and `Q` holds of these with their line breaks
collapsed and the last line closed. A token came right before if `after` holds. -/
structure Scans (after : Bool) (cs : List Char) (Q : List Token → Prop) : Prop where
  ascii : ∀ c ∈ cs, c.toNat < 128
  tokens : ∀ line column, ∃ ts stop, scan line column cs = (ts.map .token, stop) ∧
    Q (collapse after (ts ++ [⟨.newline, "\n", stop.1, stop.2⟩]))

variable {after : Bool} {kind : TokenKind} {Q R : List Token → Prop}

theorem Scans.imp (h : Scans after cs R) (weaker : ∀ ts, R ts → Q ts) : Scans after cs Q := by
  refine ⟨h.ascii, fun line column => ?_⟩
  obtain ⟨ts, stop, scanned, holds⟩ := h.tokens line column
  exact ⟨ts, stop, scanned, weaker _ holds⟩

theorem scans_empty (h : Q []) : Scans false [] Q :=
  ⟨List.forall_mem_nil _, fun line column => ⟨[], (line, column), by rw [scan]; rfl, h⟩⟩

/-- The last line is closed if anything stands on it. -/
theorem scans_nil : Scans true [] (First (·.kind = .newline) (· = [])) :=
  ⟨List.forall_mem_nil _, fun _ _ => ⟨[], _, by rw [scan]; rfl, _, _, rfl, rfl, rfl⟩⟩

theorem Scans.blank (later : Scans after rest R) : Scans after (' ' :: rest) R := by
  refine ⟨List.forall_mem_cons.2 ⟨by decide, later.ascii⟩, fun line column => ?_⟩
  obtain ⟨ts, stop, scanned, holds⟩ := later.tokens line (column + 1)
  refine ⟨ts, stop, ?_, holds⟩
  rw [scan, if_neg (by decide), if_pos (.inl rfl), scanned]

theorem Scans.lineBreak (later : Scans false rest R) :
    Scans true ('\n' :: rest) (First (fun t => t.kind = .newline ∧ t.value = "\n") R) := by
  refine ⟨List.forall_mem_cons.2 ⟨by decide, later.ascii⟩, fun line column => ?_⟩
  obtain ⟨ts, stop, scanned, holds⟩ := later.tokens (line + 1) 1
  let t : Token := ⟨.newline, "\n", line, column⟩
  refine ⟨t :: ts, stop, ?_, t, _, rfl, ⟨rfl, rfl⟩, holds⟩
  rw [scan, if_pos rfl, scanned]
  rfl

theorem Scans.newline (later : Scans false rest R) :
    Scans true ('\n' :: rest) (First (·.kind = .newline) R) :=
  later.lineBreak.imp fun _ first => first.imp fun _ => And.left

/-- A lexeme is scanned as a token, since it starts neither like a blank nor like a comment. -/
theorem scan_of_lexeme? (h : lexeme? c cs = some (kind, more)) (line column : Int) :
    scan line column (c :: cs) =
      let (ps, stop) := scan line (column + 1 + more.length) (cs.drop more.length)
      (.token ⟨kind, String.ofList (c :: more), line, column⟩ :: ps, stop) := by
  have solid (d : Char) (none : lexeme? d cs = none) : c ≠ d := by
    rintro rfl
    cases h.symm.trans none
  have comment : startsComment (c :: cs) = false := by
    unfold startsComment
    split
    · next same => cases same; exact absurd rfl (solid '#' rfl)
    · next same => cases same; exact absurd rfl (solid '/' rfl)
    · rfl
  rw [scan, if_neg (solid '\n' rfl), if_neg (not_or.2 ⟨solid ' ' rfl, solid '\t' rfl⟩),
    if_neg (solid '\r' rfl), comment, if_neg Bool.false_ne_true, h]

theorem Scans.lexeme (h : lexeme? c (more ++ rest) = some (kind, more)) (solid : kind ≠ .newline)
    (ascii : ∀ d ∈ c :: more, d.toNat < 128) (later : Scans true rest R) :
    Scans after (c :: more ++ rest)
      (First (fun t => t.kind = kind ∧ t.value = String.ofList (c :: more)) R) := by
  refine ⟨List.forall_mem_append.2 ⟨ascii, later.ascii⟩, fun line column => ?_⟩
  obtain ⟨ts, stop, scanned, holds⟩ := later.tokens line (column + 1 + more.length)
  let t : Token := ⟨kind, String.ofList (c :: more), line, column⟩
  refine ⟨t :: ts, stop, ?_, t, _, ?_, ⟨rfl, rfl⟩, holds⟩
  · rw [List.cons_append, scan_of_lexeme? h, List.drop_left, scanned]
    rfl
  · rw [List.cons_append, collapse, if_neg solid]

theorem lexeme?_delimiter (h : delimiter? c = some kind) (rest : List Char) :
    lexeme? c ([] ++ rest) = some (kind, []) ∧ c.toNat < 128 := by
  unfold delimiter? at h
  split at h
  all_goals first | (cases h; exact ⟨rfl, by decide⟩) | cases h

theorem Scans.delimiter (h : delimiter? c = some kind) (later : Scans true rest R) :
    Scans after (c :: rest) (First (·.kind = kind) R) := by
  have found := lexeme?_delimiter h rest
  have solid : kind ≠ .newline := by
    rintro rfl
    have mem := delimiter?_mem h
    simp at mem
  have ascii : ∀ d ∈ [c], d.toNat < 128 := List.forall_mem_singleton.2 found.2
  exact (Scans.lexeme found.1 solid ascii later).imp fun _ first => first.imp fun _ => And.left

/-- A word that is a name. -/
def IsName (name : String) : Prop :=
  ∃ c more, name = String.ofList (c :: more) ∧ isNameStart c = true ∧
    (∀ d ∈ more, isNamePart d = true) ∧ wordKind name = .ident

theorem Scans.name {name : String} (h : IsName name) (breaks : Breaks rest)
    (later : Scans true rest R) :
    Scans after (name.toList ++ rest) (First (fun t => t.kind = .ident ∧ t.value = name) R) := by
  obtain ⟨c, more, rfl, start, parts, word⟩ := h
  have found := lexeme?_word start parts breaks
  rw [word] at found
  rw [String.toList_ofList]
  have ascii : ∀ d ∈ c :: more, d.toNat < 128 := List.forall_mem_cons.2
    ⟨toNat_lt_of_isNamePart (isNamePart_of_isNameStart start),
      fun d mem => toNat_lt_of_isNamePart (parts d mem)⟩
  exact .lexeme found nofun ascii later

theorem Scans.func (breaks : Breaks rest) (later : Scans true rest R) :
    Scans after ("func".toList ++ rest) (First (·.kind = .func) R) := by
  have parts : ∀ d ∈ ['f', 'u', 'n', 'c'], isNamePart d = true := List.all_eq_true.1 rfl
  have found : lexeme? 'f' (['u', 'n', 'c'] ++ rest) = some (.func, ['u', 'n', 'c']) :=
    lexeme?_word rfl (List.forall_mem_cons.1 parts).2 breaks
  have ascii (d : Char) (mem : d ∈ ['f', 'u', 'n', 'c']) : d.toNat < 128 :=
    toNat_lt_of_isNamePart (parts d mem)
  exact (Scans.lexeme found nofun ascii later).imp fun _ first => first.imp fun _ => And.left

theorem Scans.decimal (n : Nat) (breaks : Breaks rest) (later : Scans true rest R) :
    Scans after (Nat.toDigits 10 n ++ rest)
      (First (fun t => t.kind = .int ∧ t.value = String.ofList (Nat.toDigits 10 n)) R) := by
  have digits (d : Char) (mem : d ∈ Nat.toDigits 10 n) : d.isDigit = true :=
    Nat.isDigit_of_mem_toDigits (by decide) (by decide) mem
  obtain ⟨c, more, split⟩ := List.exists_cons_of_ne_nil (Nat.toDigits_ne_nil (b := 10) (n := n))
  rw [split] at digits ⊢
  obtain ⟨first, others⟩ := List.forall_mem_cons.1 digits
  have ascii (d : Char) (mem : d ∈ c :: more) : d.toNat < 128 :=
    toNat_lt_of_isNamePart (isNamePart_of_isDigit (digits d mem))
  exact .lexeme (lexeme?_decimal first others breaks) nofun ascii later

/-- The bytes of a text of tokens only are tokenized into these. -/
theorem tokenize_of_scans {text : String} (h : Scans false text.toList Q) :
    (tokenize (sourceOfBytes text.toUTF8.toList)).unknown = [] ∧
      ∃ ts e, (tokenize (sourceOfBytes text.toUTF8.toList)).tokens = ts ++ [e] ∧ e.kind = .eof ∧
        Q ts := by
  obtain ⟨ts, stop, scanned, holds⟩ := h.tokens 1 1
  rw [sourceOfBytes_toUTF8 h.ascii]
  unfold tokenize
  rw [scanned]
  refine ⟨by simp, _, _, rfl, rfl, ?_⟩
  rw [List.filterMap_map, show _ ∘ Piece.token = some from rfl, List.filterMap_some]
  exact holds

end Scan

/-! ## Tokens of a text -/

namespace Token

variable {t : Token}

theorem Lexed.isName (h : t.Lexed) (ident : t.kind = .ident) : Scan.IsName t.value := by
  rcases h with newline | ⟨c, cs, more, found, value⟩
  · cases newline.symm.trans ident
  · rw [ident] at found
    rcases Scan.lexeme?_cases found with ⟨-, number | number⟩ | ⟨start, rfl, word⟩ | delimiter
    · cases number
    · cases number
    · have parts : ∀ d ∈ cs.takeWhile Scan.isNamePart, Scan.isNamePart d = true :=
        List.all_eq_true.1 List.all_takeWhile
      exact ⟨c, _, value, start, parts, value ▸ word.symm⟩
    · have mem := Scan.delimiter?_mem delimiter
      simp at mem

theorem Lexed.read_nonneg (h : t.Lexed) (int : t.kind = .int) {v : Int}
    (read : Integer.read t.value = .ok v) : 0 ≤ v ∧ v < Word.bound := by
  rcases h with newline | ⟨c, cs, more, found, value⟩
  · cases newline.symm.trans int
  · rw [int] at found
    rw [value] at read
    rcases Scan.lexeme?_cases found with ⟨digit, -⟩ | ⟨-, -, word⟩ | delimiter
    · exact Integer.read_nonneg digit read
    · have mem := Scan.wordKind_mem (String.ofList (c :: more))
      rw [← word] at mem
      simp at mem
    · have mem := Scan.delimiter?_mem delimiter
      simp at mem

end Token

end RegColor
