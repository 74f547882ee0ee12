import RegColor.Number.Real
import RegColor.Toml.Scan

/-!
# TOML documents

`Toml.read` reads a document as a table. A key may be set once and a table opened once; an inline
table cannot be changed after its closing brace. Why a document is no TOML is not told.
-/

namespace RegColor.Toml

/-- A value. An integer has 64 bits with a sign if they hold it, and is `unsigned` otherwise. A table
remembers whether it was written inline, and so does every element of an array of tables. -/
inductive Value where
  | string (s : String)
  | integer (n : Int)
  | unsigned (n : Nat)
  | float (x : Double)
  | boolean (b : Bool)
  | date (d : Date)
  | time (t : Time)
  | dateTime (d : Date) (t : Time)
  | instant (d : Date) (t : Time) (o : Offset)
  | array (items : List Value)
  | table (inlined : Bool) (fields : List (String × Value))
  | tables (elements : List (Bool × List (String × Value)))

/-- Keys and their values in the order of the document. -/
abbrev Table := List (String × Value)

/-- The name of the type of a value. -/
def Value.typeName : Value → String
  | string _ => "string"
  | integer _ => "int64"
  | unsigned _ => "uint64"
  | float _ => "float64"
  | boolean _ => "bool"
  | date _ => "toml.LocalDate"
  | time _ => "toml.LocalTime"
  | dateTime .. => "toml.LocalDateTime"
  | instant .. => "time.Time"
  | array _ => "[]interface \x7b\x7d"
  | table .. => "*toml.Tree"
  | tables _ => "[]*toml.Tree"

namespace Table

/-- Sets a key, keeping its position if it was there before. -/
def set (key : String) (v : Value) (t : Table) : Table :=
  if (t.lookup key).isSome then t.map (fun e => if e.1 = key then (key, v) else e)
  else t ++ [(key, v)]

/-- Changes the table at a path, creating tables that are missing; a created table is inline if the
one around it is. An array of tables stands for its last element. -/
def within (f : Bool → Table → Option Table) (inlined : Bool) (t : Table) :
    List String → Option Table
  | [] => f inlined t
  | key :: path =>
    match t.lookup key with
    | none => (within f inlined [] path).map (fun u => t.set key (.table inlined u))
    | some (.table inner u) => (within f inner u path).map (fun u => t.set key (.table inner u))
    | some (.tables elements) =>
      match elements.getLast? with
      | none => none
      | some (inner, u) =>
        (within f inner u path).map
          (fun u => t.set key (.tables (elements.dropLast ++ [(inner, u)])))
    | some _ => none

/-- Whether an inline table stands at a path. -/
def isInline (t : Table) : List String → Bool
  | [] => false
  | key :: path =>
    match t.lookup key with
    | some (.table inner u) => if path.isEmpty then inner else isInline u path
    | some (.tables elements) => elements.getLast?.any (fun e => isInline e.2 path)
    | _ => false

/-- Sets a key that is not there yet, in a table that is not inline. -/
def define (key : String) (v : Value) (inlined : Bool) (t : Table) : Option Table :=
  if inlined || (t.lookup key).isSome then none else some (t ++ [(key, v)])

/-- The value at a path that has a part. An array of tables stands for its last element. -/
def get? (t : Table) : List String → Option Value
  | [] => none
  | key :: path =>
    match t.lookup key with
    | none => none
    | some v =>
      if path.isEmpty then some v
      else
        match v with
        | .table _ u => get? u path
        | .tables elements => elements.getLast?.bind (fun e => get? e.2 path)
        | _ => none

/-- Sets the key at a path, whatever was there, creating tables that are missing. A value on the way
that is no table is passed by: the rest of the path starts beside it. -/
def put (v : Value) (t : Table) : List String → Table
  | [] => t
  | key :: path =>
    if path.isEmpty then t.set key v
    else
      match t.lookup key with
      | none => t.set key (.table false (put v [] path))
      | some (.table inner u) => t.set key (.table inner (put v u path))
      | some (.tables elements) =>
        let last := elements.getLastD (false, [])
        t.set key (.tables (elements.dropLast ++ [(last.1, put v last.2 path)]))
      | some _ => put v t path

end Table

/-! ## Numbers -/

/-- Whether every underscore has a digit before it and something after it. -/
def underscoresOk (hex : Bool) (digitBefore : Bool) : List Char → Bool
  | [] => true
  | c :: cs =>
    (c ≠ '_' || (digitBefore && !cs.isEmpty)) && underscoresOk hex (Digits.isDigit hex c) cs

/-- The base of an integer and its digits. An integer of three characters or more that starts with a
zero needs a base mark. -/
def integerBase? : List Char → Option (Nat × List Char)
  | '0' :: 'x' :: ds => some (16, ds)
  | '0' :: 'o' :: ds => some (8, ds)
  | '0' :: 'b' :: ds => some (2, ds)
  | '0' :: _ :: _ :: _ => none
  | ds => some (10, (Integer.sign ds).2)

/-- The value of an integer token. Only an integer without a sign may be `unsigned`. -/
def integerValue? (text : List Char) : Option Value := do
  let plain := text.filter (· ≠ '_')
  let (base, digits) ← integerBase? plain
  if !underscoresOk (base = 16) false text || digits.isEmpty then none
  else
    match Integer.magnitude base 0 digits with
    | .error _ => none
    | .ok n =>
      match Integer.signed (Integer.sign plain).1 n with
      | .ok v => some (.integer v)
      | .error _ => if plain.take 1 = ['+'] || plain.take 1 = ['-'] then none else some (.unsigned n)

/-- The value of a float token. -/
def floatValue? (text : List Char) : Option Double :=
  if text.getLast? = some 'n' then some .nan
  else if underscoresOk false false text then
    (Double.read (String.ofList (text.filter (· ≠ '_')))).toOption
  else none

/-! ## Values -/

/-- The value of an array: nothing but tables, and at least one, make an array of tables. -/
def Value.ofItems (items : List Value) : Value :=
  let element? : Value → Option (Bool × Table)
    | .table inlined u => some (inlined, u)
    | _ => none
  match items.mapM element? with
  | some (e :: es) => .tables (e :: es)
  | _ => .array items

mutual

/-- Reads a value. Every call takes a token, so `fuel` may be the number of tokens plus one. -/
def readValue : (fuel : Nat) → List Token → Option (Value × List Token)
  | 0, _ => none
  | fuel + 1, ts =>
    match ts with
    | .string s :: ts => some (.string s, ts)
    | .boolean b :: ts => some (.boolean b, ts)
    | .integer text :: ts => (integerValue? text).map (fun v => (v, ts))
    | .float text :: ts => (floatValue? text).map (fun x => (.float x, ts))
    | .date d :: .time t :: .offset o :: ts =>
      if d.isValid && t.isValid && o.isValid then some (.instant d t o, ts) else none
    | .date d :: .time t :: ts =>
      if d.isValid && t.isValid then some (.dateTime d t, ts) else none
    | .date d :: ts => if d.isValid then some (.date d, ts) else none
    | .time t :: ts => if t.isValid then some (.time t, ts) else none
    | .openBracket :: ts => (readItems fuel ts).map (fun (vs, ts) => (.ofItems vs, ts))
    | .openBrace :: ts => (readFields fuel none [] ts).map (fun (t, ts) => (.table true t, ts))
    | _ => none

/-- Reads the rest of an array; a comma may stand after the last item. -/
def readItems : (fuel : Nat) → List Token → Option (List Value × List Token)
  | 0, _ => none
  | fuel + 1, ts =>
    match ts with
    | .closeBracket :: ts => some ([], ts)
    | ts =>
      match readValue fuel ts with
      | none => none
      | some (v, .comma :: ts) => (readItems fuel ts).map (fun (vs, ts) => (v :: vs, ts))
      | some (v, .closeBracket :: ts) => some ([v], ts)
      | some _ => none

/-- Reads the rest of an inline table; `comma` tells whether the last thing read was a comma, if
anything was read. -/
def readFields : (fuel : Nat) → (comma : Option Bool) → Table → List Token →
    Option (Table × List Token)
  | 0, _, _, _ => none
  | fuel + 1, comma, t, ts =>
    match ts with
    | .closeBrace :: ts => if comma = some true then none else some (t, ts)
    | .comma :: ts => if comma = some true then none else readFields fuel (some true) t ts
    | .key text :: .equals :: ts =>
      if comma = some false then none
      else
        match keyParts? text, readValue fuel ts with
        | some path, some (v, ts) => readFields fuel (some false) (t.put v path) ts
        | _, _ => none
    | _ => none

end

/-! ## Statements -/

/-- The document read so far: its table, the path of the table that is open, and the headers seen,
as written. -/
structure Progress where
  table : Table := []
  current : List String := []
  headers : List (List Char) := []

namespace Progress

/-- Opens a table. -/
def openTable (p : Progress) (text : List Char) : Option Progress := do
  if text ∈ p.headers then none
  else
    let path ← keyParts? text
    let table ← p.table.within (fun _ t => some t) false path
    if table.isInline path then none
    else some { table, current := path, headers := text :: p.headers }

/-- Opens a new element of an array of tables; headers below the array may be used again. The array
may lie in an inline table. -/
def openElement (p : Progress) (text : List Char) : Option Progress := do
  let path ← keyParts? text
  let table := (p.table.within (fun _ t => some t) false path.dropLast).getD p.table
  let elements ←
    match table.get? path with
    | none => some []
    | some (.tables elements) => some elements
    | some _ => none
  let headers := p.headers.filter (fun h => !(text ++ ['.']).isPrefixOf h)
  let table := table.put (.tables (elements ++ [(false, [])])) path
  some { table, current := path, headers := text :: headers }

/-- Sets a key of the open table. -/
def assign (p : Progress) (text : List Char) (v : Value) : Option Progress := do
  let path ← keyParts? text
  let table ← p.table.within (Table.define (path.getLastD "") v) false (p.current ++ path.dropLast)
  some { p with table }

end Progress

/-- Reads the statements of a document. Every statement takes a token, so `fuel` may be the number
of tokens plus one. -/
def readStatements : (fuel : Nat) → Progress → List Token → Option Progress
  | 0, _, _ => none
  | fuel + 1, p, ts =>
    match ts with
    | [] => some p
    | .header text :: ts => (p.openTable text).bind (readStatements fuel · ts)
    | .elementHeader text :: ts => (p.openElement text).bind (readStatements fuel · ts)
    | .key text :: .equals :: ts =>
      match readValue (ts.length + 1) ts with
      | some (v, ts) => (p.assign text v).bind (readStatements fuel · ts)
      | none => none
    | _ => none

/-- Reads a document; `none` if it is not TOML. -/
def read (text : String) : Option Table := do
  let tokens ← scan text.toList
  let p ← readStatements (tokens.length + 1) {} tokens
  some p.table

end RegColor.Toml
