import RegColor.Proofs.Lines

/-!
# Tokens with blanks between them

Tokens that are written one after the other, with a blank between any two, are read back as they
were. A token that was cut out of a text once is cut out of every text in which something stands
behind it that it cannot reach into (`Token.Rereads`). The line breaks of a text stand after other
tokens and close its last line, so none is lost and none is added (`Scan.Closed`).
-/

namespace RegColor

/-- What a token is, wherever it stands. -/
def Token.content (t : Token) : TokenKind × String := (t.kind, t.value)

/-- The text of tokens with a blank between any two. -/
def Token.spaced (ts : List Token) : String := " ".intercalate (ts.map Token.value)

/-- The tokens of a text without its end, written out. -/
def Scanned.printed (s : Scanned) : String := Token.spaced (s.tokens.filter (·.kind ≠ .eof))

/-! ## One token -/

/-- A token is a line break, or what the scanner makes of its characters if these are single bytes
and something stands behind them that no token reaches into. -/
def Token.Rereads (t : Token) : Prop :=
  t.content = (.newline, "\n") ∨ ∃ c more, t.value = String.ofList (c :: more) ∧
    t.kind ≠ .newline ∧ (∀ d ∈ c :: more, d.toNat < 128) ∧
    ∀ rest, Scan.Apart rest → Scan.lexeme? c (more ++ rest) = some (t.kind, more)

namespace Scan

variable {c : Char} {cs more rest : List Char} {kind : TokenKind} {after : Bool}

theorem lexeme?_self (h : lexeme? c cs = some (kind, more)) :
    lexeme? c more = some (kind, more) := by
  obtain ⟨left, rfl⟩ := (List.cons_prefix_cons.1 (inline_lexeme? h).starts).2
  exact lexeme?_cut h (List.prefix_refl more)

theorem toNat_lt_of_lexeme? (h : lexeme? c cs = some (kind, more)) : c.toNat < 128 := by
  rcases lexeme?_cases h with ⟨digit, -⟩ | ⟨start, -⟩ | delimiter
  · exact toNat_lt_of_isNamePart (isNamePart_of_isDigit digit)
  · exact toNat_lt_of_isNamePart (isNamePart_of_isNameStart start)
  · exact (lexeme?_delimiter delimiter []).2

theorem rereads_of_lexeme? (line column : Int) (h : lexeme? c cs = some (kind, more)) :
    Token.Rereads ⟨kind, String.ofList (c :: more), line, column⟩ := by
  refine .inr ⟨c, more, rfl, kind_ne_newline h, List.forall_mem_cons.2
    ⟨toNat_lt_of_lexeme? h, fun d mem => (mayFollow_lexeme? h mem).toNat_lt⟩, ?_⟩
  intro rest apart
  rw [lexeme?_append apart, lexeme?_self h]

/-! ## All tokens -/

/-- Line breaks stand only after other tokens, and one stands after the last of these. -/
def Closed : Bool → List Token → Prop
  | after, [] => after = false
  | after, t :: ts => if t.kind = .newline then after = true ∧ Closed false ts else Closed true ts

theorem closed_collapse {e : Token} (newline : e.kind = .newline) (after : Bool)
    (ts : List Token) : Closed after (collapse after (ts ++ [e])) := by
  induction ts generalizing after with
  | nil => cases after <;> simp [collapse, newline, Closed]
  | cons t ts ih =>
    rw [List.cons_append, collapse]
    split
    · next here =>
      cases after with
      | true => exact (if_pos here).mpr ⟨rfl, ih false⟩
      | false => exact ih false
    · next other => exact (if_neg other).mpr (ih true)

/-- What stands behind a token: a blank and the tokens that follow, if any do. -/
def behind : List Token → List Char
  | [] => []
  | t :: ts => ' ' :: (Token.spaced (t :: ts)).toList

theorem toList_spaced_cons (t : Token) (ts : List Token) :
    (Token.spaced (t :: ts)).toList = t.value.toList ++ behind ts := by
  cases ts with
  | nil => simp [Token.spaced, behind]
  | cons u ts => simp [Token.spaced, behind]

theorem apart_behind (ts : List Token) : Apart (behind ts) := by
  cases ts with
  | nil => rintro d ⟨⟩
  | cons t ts =>
    rintro d ⟨⟩
    decide

theorem scans_behind {ts : List Token} {Q : List Token → Prop}
    (h : Scans after (Token.spaced ts).toList Q) : Scans after (behind ts) Q := by
  cases ts with
  | nil => exact h
  | cons t ts => exact h.blank

/-- Tokens are read back from their text with blanks between them. -/
theorem scans_spaced {ts : List Token} (rereads : ∀ t ∈ ts, t.Rereads) (closed : Closed after ts) :
    Scans after (Token.spaced ts).toList fun us => us.map Token.content = ts.map Token.content := by
  induction ts generalizing after with
  | nil =>
    cases closed
    exact scans_empty rfl
  | cons t ts ih =>
    obtain ⟨first, others⟩ := List.forall_mem_cons.1 rereads
    have put {us : List Token} (h : First (fun u => u.kind = t.kind ∧ u.value = t.value)
        (fun us => us.map Token.content = ts.map Token.content) us) :
        us.map Token.content = (t :: ts).map Token.content := by
      obtain ⟨u, us, rfl, ⟨kind, value⟩, same⟩ := h
      rw [List.map_cons, List.map_cons, same, Token.content, Token.content, kind, value]
    rw [toList_spaced_cons]
    unfold Closed at closed
    rcases first with newline | ⟨c, more, value, solid, ascii, again⟩
    · obtain ⟨kind, value⟩ := Prod.mk.inj newline
      rw [if_pos kind] at closed
      obtain ⟨rfl, closed⟩ := closed
      rw [value]
      refine (scans_behind (ih others closed)).lineBreak.imp fun us h => put (h.imp ?_)
      exact fun u same => ⟨same.1.trans kind.symm, same.2.trans value.symm⟩
    · rw [if_neg solid] at closed
      rw [value, String.toList_ofList]
      refine (Scans.lexeme (again _ (apart_behind ts)) solid ascii
        (scans_behind (ih others closed))).imp fun us h => put (h.imp ?_)
      exact fun u same => ⟨same.1, same.2.trans value.symm⟩

end Scan

/-- The tokens of a text before its end can be read again, and close their lines. -/
theorem rereads_tokenize {source : List Char} {ts : List Token} {e : Token}
    (h : (tokenize source).tokens = ts ++ [e]) :
    (∀ t ∈ ts, t.Rereads) ∧ Scan.Closed false ts := by
  constructor
  · obtain ⟨ts', e', h', -, rereads⟩ := forall_token_of_tokenize (P := Token.Rereads)
      (fun _ _ => .inl rfl) Scan.rereads_of_lexeme? source
    obtain ⟨rfl, -⟩ := List.append_inj' (h.symm.trans h') rfl
    exact rereads
  · rw [tokenize_eq_of_scan rfl] at h
    obtain ⟨rfl, -⟩ := List.append_inj' h rfl
    exact Scan.closed_collapse rfl false _

/-- The end of a text has no characters. -/
theorem content_end {source : List Char} {ts : List Token} {e : Token}
    (h : (tokenize source).tokens = ts ++ [e]) : e.content = (.eof, "") := by
  rw [tokenize_eq_of_scan rfl] at h
  obtain ⟨-, same⟩ := List.append_inj' h rfl
  cases same
  rfl

/-- The tokens of a text, written out with a blank between any two and read again, are the same, and
no character is unknown. -/
theorem tokenize_printed (bytes : List UInt8) :
    (tokenize (sourceOfBytes (tokenize (sourceOfBytes bytes)).printed.toUTF8.toList)).unknown = [] ∧
      (tokenize (sourceOfBytes (tokenize (sourceOfBytes bytes)).printed.toUTF8.toList)).tokens.map
          Token.content =
        (tokenize (sourceOfBytes bytes)).tokens.map Token.content := by
  generalize sourceOfBytes bytes = source
  obtain ⟨ts, e, tokens, ends, inside⟩ := tokens_tokenize source
  obtain ⟨rereads, closed⟩ := rereads_tokenize tokens
  have printed : (tokenize source).printed = Token.spaced ts := by
    have kept : ts.filter (·.kind ≠ .eof) = ts :=
      List.filter_eq_self.2 fun t mem => decide_eq_true (inside t mem)
    rw [Scanned.printed, tokens, List.filter_append, kept]
    simp [ends]
  obtain ⟨unknown, us, e', again, -, same⟩ :=
    Scan.tokenize_of_scans (Scan.scans_spaced rereads closed)
  rw [printed]
  refine ⟨unknown, ?_⟩
  rw [tokens, again, List.map_append, List.map_append, same, List.map_singleton, List.map_singleton,
    content_end tokens, content_end again]

end RegColor
