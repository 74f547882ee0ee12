import RegColor.Item.Basic
import RegColor.Number.Integer
import RegColor.Number.Real

/-!
# From tokens to items

`Item.ofTokens` reads the items of a token sequence. The tokens after the first end token, and that
token itself, are not read; an end is also assumed after the last token.

After an error inside a line the reader goes on with the next line. Every reader returns the tokens
that are left; `length_line_lt` says that a line takes at least one token, and `length_function_le`
that a function gives none back, which is why reading ends.
-/

namespace RegColor

namespace Reader

/-- What a reader found, the items it met on the way, and the tokens that are left. -/
structure Step (α : Type) where
  value : α
  items : List Item
  rest : List Token

/-- Takes the next token if it has the given kind. -/
def accept? (kind : TokenKind) : List Token → Option (Token × List Token)
  | [] => none
  | t :: ts => if t.kind = kind then some (t, ts) else none

/-- Whether the next token has the given kind. -/
def nextIs (kind : TokenKind) : List Token → Bool
  | [] => false
  | t :: _ => t.kind = kind

theorem accept?_eq_some {kind : TokenKind} {ts rest : List Token} {t : Token}
    (h : accept? kind ts = some (t, rest)) : ts = t :: rest ∧ t.kind = kind := by
  cases ts with
  | nil => simp [accept?] at h
  | cons u us =>
    simp only [accept?] at h
    split at h
    · next hk => cases h; exact ⟨rfl, hk⟩
    · cases h

/-- Skips line breaks. -/
def skipNewlines (ts : List Token) : List Token := ts.dropWhile (·.kind = .newline)

/-- Skips to the start of the next line. -/
def nextLine (ts : List Token) : List Token := (ts.dropWhile (·.kind ≠ .newline)).tail

theorem length_skipNewlines_le (ts : List Token) : (skipNewlines ts).length ≤ ts.length :=
  (List.dropWhile_sublist _).length_le

theorem length_nextLine_le (ts : List Token) : (nextLine ts).length ≤ ts.length := by
  have := (List.dropWhile_sublist (l := ts) (·.kind ≠ .newline)).length_le
  rw [nextLine, List.length_tail]
  omega

theorem length_nextLine_lt {ts : List Token} (h : ts ≠ []) :
    (nextLine ts).length < ts.length := by
  cases ts with
  | nil => exact absurd rfl h
  | cons t ts =>
    rw [nextLine, List.dropWhile_cons]
    split
    · have := length_nextLine_le ts
      rw [nextLine] at this
      simp only [List.length_cons]
      omega
    · simp

section Readers

variable (stop : Token)

/-- The error that the next token is not what the grammar asks for. -/
def unexpected (what : Expected) (ts : List Token) : Item :=
  let t := ts.headD stop
  .error (.atToken t (.unexpected what t.kind t.value))

/-- Takes a token of the given kind, or reports that it is missing and takes nothing. -/
def expect (kind : TokenKind) (what : Expected) (ts : List Token) : Step Bool :=
  match accept? kind ts with
  | some (_, rest) => ⟨true, [], rest⟩
  | none => ⟨false, [unexpected stop what ts], ts⟩

theorem length_expect_le (kind : TokenKind) (what : Expected) (ts : List Token) :
    (expect stop kind what ts).rest.length ≤ ts.length := by
  unfold expect
  split
  · next h => obtain ⟨rfl, -⟩ := accept?_eq_some h; simp
  · exact Nat.le_refl _

/-! ## Types -/

/-- Reads the length and the closing bracket of an array type. -/
def arrayType (elem : ScalarType) (ts : List Token) : Step (Option DataType) :=
  match accept? .int ts with
  | none => ⟨none, [unexpected stop .arrayLength ts], ts⟩
  | some (t, ts) =>
    let bad : Step (Option DataType) := ⟨none, [.error (.atToken t (.badLength t.value))], ts⟩
    match Integer.read t.value with
    | .error _ => bad
    | .ok n =>
      if 0 < n then
        let close := expect stop .rbracket .closeBracket ts
        ⟨some (.array elem n), close.items, close.rest⟩
      else bad

/-- Reads a type: a name, or a name and a length in brackets. -/
def type (ts : List Token) : Step (Option DataType) :=
  match accept? .ident ts with
  | none => ⟨none, [unexpected stop .typeName ts], ts⟩
  | some (t, ts) =>
    match ScalarType.ofName? t.value with
    | none => ⟨none, [.error (.atToken t (.unknownType t.value))], ts⟩
    | some elem =>
      match accept? .lbracket ts with
      | none => ⟨some (.scalar elem), [], ts⟩
      | some (_, ts) => arrayType stop elem ts

theorem length_type_le (ts : List Token) : (type stop ts).rest.length ≤ ts.length := by
  unfold type
  split
  · exact Nat.le_refl _
  · next t rest h =>
    obtain ⟨rfl, -⟩ := accept?_eq_some h
    split
    · simp
    · next elem _ =>
      split
      · simp
      · next u rest' h' =>
        obtain ⟨rfl, -⟩ := accept?_eq_some h'
        unfold arrayType
        split
        · simp; omega
        · next v rest'' h'' =>
          obtain ⟨rfl, -⟩ := accept?_eq_some h''
          have := length_expect_le stop .rbracket .closeBracket rest''
          simp only [List.length_cons]
          split
          · simp; omega
          · split
            · simp; omega
            · simp; omega

/-- Reads a colon and a type, if there is a colon. -/
def typeAfterColon (ts : List Token) : Step (Option DataType) :=
  match accept? .colon ts with
  | none => ⟨none, [], ts⟩
  | some (_, ts) => type stop ts

theorem length_typeAfterColon_le (ts : List Token) :
    (typeAfterColon stop ts).rest.length ≤ ts.length := by
  unfold typeAfterColon
  split
  · exact Nat.le_refl _
  · next h =>
    obtain ⟨rfl, -⟩ := accept?_eq_some h
    have := length_type_le stop ‹_›
    simp only [List.length_cons]
    omega

/-- The type of a variable that is declared without one. -/
def defaultType : DataType := .scalar .int

/-! ## Parameters -/

/-- Reads parameters up to the closing parenthesis. -/
def paramList (ts : List Token) : Step Unit :=
  match _h : accept? .ident ts with
  | none => ⟨(), [unexpected stop .paramName ts], ts⟩
  | some (t, ts') =>
    let ty := typeAfterColon stop ts'
    let items := ty.items ++ [.param t (ty.value.getD defaultType)]
    match _h' : accept? .comma ty.rest with
    | some (_, rest) =>
      let more := paramList rest
      ⟨(), items ++ more.items, more.rest⟩
    | none =>
      let close := expect stop .rparen .closeParams ty.rest
      ⟨(), items ++ close.items, close.rest⟩
termination_by ts.length
decreasing_by
  obtain ⟨rfl, -⟩ := accept?_eq_some _h
  have := length_typeAfterColon_le stop ts'
  have h'' := (accept?_eq_some _h').1
  have : rest.length < (typeAfterColon stop ts').rest.length := by
    show rest.length < ty.rest.length
    rw [h'']; simp
  simp only [List.length_cons]
  omega

theorem length_paramList_le (ts : List Token) :
    (paramList stop ts).rest.length ≤ ts.length := by
  fun_induction paramList stop ts with
  | case1 => exact Nat.le_refl _
  | case2 ts t ts' h ty items u rest h' more ih =>
    obtain ⟨rfl, -⟩ := accept?_eq_some h
    have hr := (accept?_eq_some h').1
    have : ty.rest.length ≤ ts'.length := length_typeAfterColon_le stop ts'
    have : rest.length < ty.rest.length := by rw [hr]; simp
    have : more.rest.length ≤ rest.length := ih
    simp only [List.length_cons]
    omega
  | case3 ts t ts' h ty items h' close =>
    obtain ⟨rfl, -⟩ := accept?_eq_some h
    have : ty.rest.length ≤ ts'.length := length_typeAfterColon_le stop ts'
    have : close.rest.length ≤ ty.rest.length := length_expect_le ..
    simp only [List.length_cons]
    omega

/-- Reads the parameters of a function. -/
def params (ts : List Token) : Step Unit :=
  match accept? .lparen ts with
  | none => ⟨(), [unexpected stop .openParams ts], ts⟩
  | some (_, ts) =>
    match accept? .rparen ts with
    | some (_, rest) => ⟨(), [], rest⟩
    | none => paramList stop ts

theorem length_params_le (ts : List Token) : (params stop ts).rest.length ≤ ts.length := by
  unfold params
  split
  · exact Nat.le_refl _
  · next t ts h =>
    obtain ⟨rfl, -⟩ := accept?_eq_some h
    split
    · next h' => obtain ⟨rfl, -⟩ := accept?_eq_some h'; simp; omega
    · have := length_paramList_le stop ts
      simp only [List.length_cons]
      omega

/-! ## Lines -/

/-- Reads the names of a declaration. -/
def names (ts : List Token) : Step (Option (List Token)) :=
  match _h : accept? .ident ts with
  | none => ⟨none, [unexpected stop .variableName ts], ts⟩
  | some (t, ts') =>
    match _h' : accept? .comma ts' with
    | none => ⟨some [t], [], ts'⟩
    | some (_, rest) =>
      let more := names rest
      ⟨more.value.map (t :: ·), more.items, more.rest⟩
termination_by ts.length
decreasing_by
  obtain ⟨rfl, -⟩ := accept?_eq_some _h
  obtain ⟨rfl, -⟩ := accept?_eq_some _h'
  simp only [List.length_cons]
  omega

theorem length_names_le (ts : List Token) : (names stop ts).rest.length ≤ ts.length := by
  fun_induction names stop ts with
  | case1 => exact Nat.le_refl _
  | case2 ts t ts' h h' => obtain ⟨rfl, -⟩ := accept?_eq_some h; simp
  | case3 ts t ts' h u rest h' more ih =>
    obtain ⟨rfl, -⟩ := accept?_eq_some h
    obtain ⟨rfl, -⟩ := accept?_eq_some h'
    have : more.rest.length ≤ rest.length := ih
    simp only [List.length_cons]
    omega

/-- Reads a declaration after its keyword. The value tells whether it is sound. -/
def declaration (ts : List Token) : Step Bool :=
  let ns := names stop ts
  match ns.value with
  | none => ⟨false, ns.items, ns.rest⟩
  | some names =>
    if nextIs .colon ns.rest then
      let ty := typeAfterColon stop ns.rest
      match ty.value with
      | none => ⟨false, ns.items ++ ty.items, ty.rest⟩
      | some t => ⟨true, ns.items ++ ty.items ++ [.declare names t], ty.rest⟩
    else ⟨true, ns.items ++ [.declare names defaultType], ns.rest⟩

theorem length_declaration_le (ts : List Token) :
    (declaration stop ts).rest.length ≤ ts.length := by
  have hn := length_names_le stop ts
  have ht := length_typeAfterColon_le stop (names stop ts).rest
  unfold declaration
  simp only
  split
  · exact hn
  · split
    · split <;> simp <;> omega
    · exact hn

/-- A literal or a name, after its sign. -/
def operandValue (negative : Bool) (t : Token) : Except SyntaxFault Operand :=
  match t.kind with
  | .int =>
    match Integer.read t.value with
    | .error _ => .error (.badInteger t.value)
    | .ok v => .ok (.int (if negative then Word.wrap (-v) else v))
  | .float =>
    match Double.read t.value with
    | .error _ => .error (.badFloat t.value)
    | .ok x => .ok (.float (if negative then x.neg else x))
  | _ => if negative then .error .minusOnName else .ok (.name t.value)

/-- Whether a token can be an operand. -/
def isOperand (t : Token) : Bool := t.kind = .int || t.kind = .float || t.kind = .ident

/-- Reads an operand after its sign. -/
def signedOperand (negative : Bool) : List Token → Step (Option Operand)
  | [] => ⟨none, [unexpected stop .operand []], []⟩
  | t :: ts =>
    if isOperand t then
      match operandValue negative t with
      | .ok o => ⟨some o, [], ts⟩
      | .error e => ⟨none, [.error (.atToken t e)], ts⟩
    else ⟨none, [unexpected stop .operand (t :: ts)], t :: ts⟩

/-- Reads an operand. -/
def operand (ts : List Token) : Step (Option Operand) :=
  match accept? .minus ts with
  | some (_, rest) => signedOperand stop true rest
  | none => signedOperand stop false ts

theorem length_signedOperand_le (negative : Bool) (ts : List Token) :
    (signedOperand stop negative ts).rest.length ≤ ts.length := by
  unfold signedOperand
  split
  · exact Nat.le_refl _
  · split
    · split <;> simp
    · exact Nat.le_refl _

theorem length_signedOperand_lt {negative : Bool} {ts : List Token} {o : Operand}
    (h : (signedOperand stop negative ts).value = some o) :
    (signedOperand stop negative ts).rest.length < ts.length := by
  revert h
  unfold signedOperand
  split
  · intro h; cases h
  · split
    · split
      · simp
      · intro h; cases h
    · intro h; cases h

theorem length_operand_le (ts : List Token) : (operand stop ts).rest.length ≤ ts.length := by
  unfold operand
  split
  · next t rest h =>
    obtain ⟨rfl, -⟩ := accept?_eq_some h
    have := length_signedOperand_le stop true rest
    simp only [List.length_cons]
    omega
  · exact length_signedOperand_le stop false ts

theorem length_operand_lt {ts : List Token} {o : Operand}
    (h : (operand stop ts).value = some o) : (operand stop ts).rest.length < ts.length := by
  revert h
  unfold operand
  split
  · next t rest ht =>
    obtain ⟨rfl, -⟩ := accept?_eq_some ht
    intro h
    have := length_signedOperand_lt stop h
    simp only [List.length_cons]
    omega
  · exact length_signedOperand_lt stop

/-- Reads operands separated by commas: those before a fault, and whether there was none. -/
def operandList (ts : List Token) : Step (List Operand × Bool) :=
  let o := operand stop ts
  match _h : o.value with
  | none => ⟨([], false), o.items, o.rest⟩
  | some v =>
    match _h' : accept? .comma o.rest with
    | none => ⟨([v], true), [], o.rest⟩
    | some (_, rest) =>
      let more := operandList rest
      ⟨(v :: more.value.1, more.value.2), more.items, more.rest⟩
termination_by ts.length
decreasing_by
  have := length_operand_lt stop _h
  have : rest.length < (operand stop ts).rest.length := by
    show rest.length < o.rest.length
    rw [(accept?_eq_some _h').1]; simp
  omega

theorem length_operandList_le (ts : List Token) :
    (operandList stop ts).rest.length ≤ ts.length := by
  fun_induction operandList stop ts with
  | case1 ts o h => exact length_operand_le stop ts
  | case2 ts o v h h' => exact length_operand_le stop ts
  | case3 ts o v h u rest h' more ih =>
    have : o.rest.length ≤ ts.length := length_operand_le stop ts
    have : rest.length < o.rest.length := by rw [(accept?_eq_some h').1]; simp
    have : more.rest.length ≤ rest.length := ih
    simp only
    omega

/-- Whether an instruction ends here. -/
def atEnd : List Token → Bool
  | [] => true
  | t :: _ => t.kind = .newline || t.kind = .rbrace

/-- Reads an instruction whose operation is named by `t`. -/
def instruction (t : Token) (ts : List Token) : Step Bool :=
  match h : Opcode.ofName? t.value with
  | none => ⟨false, [.error (.atToken t (.unknownOpcode t.value))], ts⟩
  | some op =>
    have spelled := Opcode.mem_spelled_of_ofName? h
    if atEnd ts then ⟨true, [.instr op [] t.line spelled], ts⟩
    else
      let os := operandList stop ts
      if os.value.2 then ⟨true, os.items ++ [.instr op os.value.1 t.line spelled], os.rest⟩
      else ⟨false, .abandoned op os.value.1 :: os.items, os.rest⟩

theorem length_instruction_le (t : Token) (ts : List Token) :
    (instruction stop t ts).rest.length ≤ ts.length := by
  have := length_operandList_le stop ts
  unfold instruction
  split
  · exact Nat.le_refl _
  · split
    · exact Nat.le_refl _
    · simp only
      split <;> simp <;> omega

/-- Reads what a line says. The value tells whether it is sound. -/
def lineBody : List Token → Step Bool
  | [] => ⟨false, [unexpected stop .line []], []⟩
  | t :: ts =>
    if t.kind = .var then declaration stop ts
    else if t.kind = .ident then
      match accept? .colon ts with
      | some (_, rest) => ⟨true, [.label t], rest⟩
      | none => instruction stop t ts
    else ⟨false, [unexpected stop .line (t :: ts)], t :: ts⟩

theorem length_lineBody_le (ts : List Token) :
    (lineBody stop ts).rest.length ≤ ts.length := by
  unfold lineBody
  split
  · exact Nat.le_refl _
  · next t ts =>
    split
    · exact Nat.le_succ_of_le (length_declaration_le stop ts)
    · split
      · split
        · next h => obtain ⟨rfl, -⟩ := accept?_eq_some h; grind
        · exact Nat.le_succ_of_le (length_instruction_le stop t ts)
      · exact Nat.le_refl _

theorem length_lineBody_lt {ts : List Token} (h : (lineBody stop ts).value = true) :
    (lineBody stop ts).rest.length < ts.length := by
  revert h
  unfold lineBody
  split
  · intro h; cases h
  · next t ts =>
    split
    · exact fun _ => Nat.lt_succ_of_le (length_declaration_le stop ts)
    · split
      · split
        · next h => obtain ⟨rfl, -⟩ := accept?_eq_some h; intro _; grind
        · exact fun _ => Nat.lt_succ_of_le (length_instruction_le stop t ts)
      · intro h; cases h

/-- Reads a line. A faulty one is skipped to its end, and so is whatever follows a sound one on the
same line. -/
def line (ts : List Token) : Step Unit :=
  let body := lineBody stop ts
  if body.value then
    match accept? .newline body.rest with
    | some (_, rest) => ⟨(), body.items, rest⟩
    | none =>
      if atEnd body.rest then ⟨(), body.items, body.rest⟩
      else ⟨(), body.items ++ [unexpected stop .endOfLine body.rest], nextLine body.rest⟩
  else ⟨(), body.items, nextLine body.rest⟩

theorem length_line_lt {ts : List Token} (h : ts ≠ []) :
    (line stop ts).rest.length < ts.length := by
  have hb := length_lineBody_le stop ts
  have hlt : (lineBody stop ts).value = true → _ := length_lineBody_lt stop
  have hn := length_nextLine_le (lineBody stop ts).rest
  have hpos := List.length_pos_iff.2 h
  unfold line
  simp only
  split
  · next hv =>
    have hlt := hlt hv
    split
    · next ha =>
      rw [(accept?_eq_some ha).1] at hb
      simp at hb ⊢
      omega
    · split <;> simp <;> omega
  · by_cases he : (lineBody stop ts).rest = []
    · simp [he, nextLine, hpos]
    · exact Nat.lt_of_lt_of_le (length_nextLine_lt he) hb

/-- Reads lines up to a closing brace. -/
def lines (ts : List Token) : Step Unit :=
  match ts with
  | [] => ⟨(), [], []⟩
  | t :: ts =>
    if t.kind = .rbrace then ⟨(), [], t :: ts⟩
    else
      let first := line stop (t :: ts)
      let more := lines (skipNewlines first.rest)
      ⟨(), first.items ++ more.items, more.rest⟩
termination_by ts.length
decreasing_by
  have h₁ := length_line_lt stop (List.cons_ne_nil t ts)
  have h₂ := length_skipNewlines_le (line stop (t :: ts)).rest
  exact Nat.lt_of_le_of_lt h₂ h₁

theorem length_lines_le (ts : List Token) : (lines stop ts).rest.length ≤ ts.length := by
  fun_induction lines stop ts with
  | case1 => exact Nat.le_refl _
  | case2 => exact Nat.le_refl _
  | case3 t ts h first more ih =>
    have h₁ : first.rest.length < (t :: ts).length := length_line_lt stop (List.cons_ne_nil t ts)
    have h₂ := length_skipNewlines_le first.rest
    have h₃ : more.rest.length ≤ (skipNewlines first.rest).length := ih
    simp only [List.length_cons] at h₁ ⊢
    omega

/-! ## Functions -/

/-- Reads the result type of a function, if it has one. -/
def resultType (ts : List Token) : Step Unit :=
  let ty := typeAfterColon stop ts
  ⟨(), ty.items ++ (ty.value.map Item.returns).toList, ty.rest⟩

/-- Reads the opening brace of a body; without one, the rest of the line is skipped. -/
def openBody (ts : List Token) : Step Unit :=
  let brace := expect stop .lbrace .openBody ts
  ⟨(), brace.items, if brace.value then brace.rest else nextLine brace.rest⟩

/-- Reads a function after its keyword. -/
def function (ts : List Token) : Step Unit :=
  match accept? .ident ts with
  | none => ⟨(), [unexpected stop .functionName ts], nextLine ts⟩
  | some (name, ts) =>
    let ps := params stop ts
    let res := resultType stop ps.rest
    let brace := openBody stop res.rest
    let body := lines stop (skipNewlines brace.rest)
    let close := expect stop .rbrace .closeBody body.rest
    ⟨(), .function name :: (ps.items ++ res.items ++ brace.items ++ body.items ++ close.items),
      close.rest⟩

theorem length_openBody_le (ts : List Token) : (openBody stop ts).rest.length ≤ ts.length := by
  have h := length_expect_le stop .lbrace .openBody ts
  have hn := length_nextLine_le (expect stop .lbrace .openBody ts).rest
  unfold openBody
  simp only
  split <;> omega

theorem length_function_le (ts : List Token) : (function stop ts).rest.length ≤ ts.length := by
  unfold function
  split
  · exact length_nextLine_le ts
  · next name ts h =>
    obtain ⟨rfl, -⟩ := accept?_eq_some h
    have h₁ := length_params_le stop ts
    have h₂ : (resultType stop (params stop ts).rest).rest.length ≤ (params stop ts).rest.length :=
      length_typeAfterColon_le stop _
    have h₃ := length_openBody_le stop (resultType stop (params stop ts).rest).rest
    have h₄ := length_skipNewlines_le (openBody stop (resultType stop (params stop ts).rest).rest).rest
    have h₅ := length_lines_le stop
      (skipNewlines (openBody stop (resultType stop (params stop ts).rest).rest).rest)
    refine Nat.le_trans (length_expect_le ..) ?_
    simp only [List.length_cons]
    omega

/-- Reads functions up to the end. -/
def functions (ts : List Token) : List Item :=
  match ts with
  | [] => []
  | t :: ts =>
    if t.kind = .func then
      let f := function stop ts
      f.items ++ functions (skipNewlines f.rest)
    else
      unexpected stop .func (t :: ts) :: functions (skipNewlines (nextLine (t :: ts)))
termination_by ts.length
decreasing_by
  · have h₁ := length_function_le stop ts
    have h₂ := length_skipNewlines_le (function stop ts).rest
    exact Nat.lt_succ_of_le (Nat.le_trans h₂ h₁)
  · have h₁ := length_nextLine_lt (List.cons_ne_nil t ts)
    have h₂ := length_skipNewlines_le (nextLine (t :: ts))
    exact Nat.lt_of_le_of_lt h₂ h₁

end Readers

end Reader

namespace Item

/-- The end token of a sequence: the first one, or one without a place. -/
def endToken (tokens : List Token) : Token :=
  (tokens.find? (·.kind = .eof)).getD ⟨.eof, "", 0, 0⟩

/-- The items of a token sequence. -/
def ofTokens (tokens : List Token) : List Item :=
  Reader.functions (endToken tokens) (Reader.skipNewlines (tokens.takeWhile (·.kind ≠ .eof)))

end Item

end RegColor
