import ClauseLearning.Config

/-!
# Configuration texts

A configuration text holds a line `name = number` for each setting. There may be blank lines, comments that start with
a number sign, and spaces or tabs between the parts of a line. A name may stand in quotes.

* `ConfigText.number?` : integers, decimal or with a prefix for another base, numbers with a fraction or an exponent,
  and the special values `inf` and `nan`. Underscores may separate digits;
* `ConfigText.name?` : a name, bare or in quotes;
* `ConfigText.entry?` : a line;
* `ConfigUpdate.ofText?` : the update that a text describes, none for a text that is broken, that repeats a name, or
  whose settings are unknown or of the wrong kind.
-/

namespace ClauseLearning.ConfigText

/-- Spaces and tabs separate the parts of a line. -/
def isBlank (c : Char) : Bool := c == ' ' || c == '\t'

/-- The characters of bare names and of numbers. -/
def isWordChar (c : Char) : Bool := c.isAlphanum || c == '_' || c == '-'

/-! ## Numbers -/

/-- The value of a digit of a base. Letters of either case continue the digits after 9. -/
def digit? (base : Nat) (c : Char) : Option Nat :=
  let value? :=
    if '0' ≤ c ∧ c ≤ '9' then some (c.toNat - '0'.toNat)
    else if 'a' ≤ c ∧ c ≤ 'f' then some (c.toNat - 'a'.toNat + 10)
    else if 'A' ≤ c ∧ c ≤ 'F' then some (c.toNat - 'A'.toNat + 10)
    else none
  value?.filter (· < base)

/-- The digits of a run in which every underscore stands between two digits. -/
def separatedDigits? (base : Nat) : Bool → List Char → Option (List Nat)
  | afterDigit, [] => if afterDigit then some [] else none
  | afterDigit, c :: cs =>
    if c = '_' then if afterDigit then separatedDigits? base false cs else none
    else
      match digit? base c, separatedDigits? base true cs with
      | some d, some ds => some (d :: ds)
      | _, _ => none

/-- The digits at the beginning of a text, at least one, and the rest of the text. -/
def digits? (base : Nat) (cs : List Char) : Option (List Nat × List Char) :=
  let (run, rest) := cs.span fun c => c == '_' || (digit? base c).isSome
  (separatedDigits? base false run).map fun ds => (ds, rest)

/-- The same for decimal digits that do not start with a superfluous zero. -/
def plainDigits? (cs : List Char) : Option (List Nat × List Char) :=
  match digits? 10 cs with
  | some (0 :: _ :: _, _) => none
  | result => result

/-- The number that digits of a base stand for. -/
def ofDigits (base : Nat) (ds : List Nat) : Nat := ds.foldl (fun n d => n * base + d) 0

/-- Integers have 64 bits and a sign. -/
def integer? (n : Int) : Option Setting :=
  if Int64.minValue.toInt ≤ n ∧ n ≤ Int64.maxValue.toInt then some (.integer n) else none

/-- An integer of another base. -/
def prefixed? (base : Nat) (cs : List Char) : Option (Setting × List Char) :=
  match digits? base cs with
  | some (ds, rest) => (integer? (ofDigits base ds)).map fun n => (n, rest)
  | none => none

/-- The digits of a fraction, none without a point. -/
def fraction? : List Char → Option (Option (List Nat) × List Char)
  | '.' :: cs => (digits? 10 cs).map fun (ds, rest) => (some ds, rest)
  | cs => some (none, cs)

/-- An exponent, none without its letter. -/
def exponent? : List Char → Option (Option Int × List Char)
  | c :: cs =>
    if c = 'e' ∨ c = 'E' then
      let (sign, cs) : Int × List Char :=
        match cs with
        | '+' :: cs => (1, cs)
        | '-' :: cs => (-1, cs)
        | cs => (1, cs)
      (digits? 10 cs).map fun (ds, rest) => (some (sign * ofDigits 10 ds), rest)
    else some (none, c :: cs)
  | [] => some (none, [])

/-- A decimal number after its sign: an integer unless it has a fraction or an exponent. -/
def unsigned? (negative : Bool) (cs : List Char) : Option (Setting × List Char) := do
  let (whole, cs) ← plainDigits? cs
  let (fraction, cs) ← fraction? cs
  let (exponent, cs) ← exponent? cs
  if fraction.isNone && exponent.isNone then
    let n : Int := ofDigits 10 whole
    return (← integer? (if negative then -n else n), cs)
  else
    let places := fraction.getD []
    let d : Decimal := ⟨negative, ofDigits 10 (whole ++ places), exponent.getD 0 - places.length⟩
    if d.fitsDouble then return (.decimal d, cs) else none

/-- Infinity of single precision. -/
def infinity : Float32 := Float32.ofBits 0x7f800000

/-- A value that is not a number. -/
def notANumber : Float32 := Float32.ofBits 0x7fc00000

/-- A number at the beginning of a text, and the rest of the text. -/
def number? (cs : List Char) : Option (Setting × List Char) :=
  let cs := if cs.head? = some '+' then cs.tail else cs
  match cs with
  | '0' :: 'x' :: cs => prefixed? 16 cs
  | '0' :: 'o' :: cs => prefixed? 8 cs
  | '0' :: 'b' :: cs => prefixed? 2 cs
  | 'i' :: 'n' :: 'f' :: cs => some (.special infinity, cs)
  | 'n' :: 'a' :: 'n' :: cs => some (.special notANumber, cs)
  | '-' :: 'i' :: 'n' :: 'f' :: cs => some (.special (-infinity), cs)
  | '-' :: 'n' :: 'a' :: 'n' :: cs => some (.special notANumber, cs)
  | '-' :: cs => unsigned? true cs
  | cs => unsigned? false cs

/-! ## Names -/

/-- The character of a hexadecimal number of `length` digits, and the rest of the text. -/
def codePoint? (length : Nat) (cs : List Char) : Option (Char × List Char) := do
  let ds ← (cs.take length).mapM (digit? 16)
  let n := ofDigits 16 ds
  if ds.length = length ∧ n.isValidChar then return (Char.ofNat n, cs.drop length) else none

/-- The characters up to a closing quote, and the rest of the text. The only escapes are those of characters by their
numbers, since no other can be part of the name of a setting. The text has no more characters than `fuel`. -/
def quotedName? : Nat → List Char → Option (List Char × List Char)
  | 0, _ => none
  | fuel + 1, cs =>
    match cs with
    | [] => none
    | '"' :: rest => some ([], rest)
    | '\\' :: 'u' :: rest => do
      let (c, rest) ← codePoint? 4 rest
      let (name, rest) ← quotedName? fuel rest
      return (c :: name, rest)
    | '\\' :: 'U' :: rest => do
      let (c, rest) ← codePoint? 8 rest
      let (name, rest) ← quotedName? fuel rest
      return (c :: name, rest)
    | '\\' :: _ => none
    | c :: rest => do
      let (name, rest) ← quotedName? fuel rest
      return (c :: name, rest)

/-- A name at the beginning of a text, and the rest of the text. -/
def name? : List Char → Option (String × List Char)
  | '"' :: cs => (quotedName? (cs.length + 1) cs).map fun (name, rest) => (String.ofList name, rest)
  | '\'' :: cs =>
    match cs.span (· != '\'') with
    | (name, _ :: rest) => some (String.ofList name, rest)
    | (_, []) => none
  | cs =>
    let (name, rest) := cs.span isWordChar
    if name.isEmpty then none else some (String.ofList name, rest)

/-! ## Lines -/

/-- Whether nothing follows but blanks and perhaps a comment. Comments hold no control characters but tabs. -/
def atEnd (cs : List Char) : Bool :=
  match cs.dropWhile isBlank with
  | [] => true
  | '#' :: comment => comment.all fun c => c == '\t' || ' ' ≤ c
  | _ => false

/-- The name and the number in a line, none for a line without them, and no result for a broken one. -/
def entry? (line : List Char) : Option (Option (String × Setting)) := do
  if atEnd line then return none
  let (name, rest) ← name? (line.dropWhile isBlank)
  match rest.dropWhile isBlank with
  | '=' :: rest =>
    let (value, rest) ← number? (rest.dropWhile isBlank)
    if atEnd rest then return some (name, value) else none
  | _ => none

/-- The lines of a text. A line feed ends a line, also after a carriage return. -/
def lines : List Char → List (List Char)
  | [] => [[]]
  | '\n' :: cs => [] :: lines cs
  | '\r' :: '\n' :: cs => [] :: lines cs
  | c :: cs =>
    match lines cs with
    | line :: rest => (c :: line) :: rest
    | [] => [[c]]

/-- The names and numbers in the lines of a text. A byte order mark may precede them. -/
def entries? (text : String) : Option (List (String × Setting)) :=
  let cs := text.toList
  let cs := if cs.head? = some '\ufeff' then cs.tail else cs
  ((lines cs).mapM entry?).map (List.filterMap id)

/-- Puts settings into an update in turn. -/
def setAll? (u : ConfigUpdate) : List (String × Setting) → Option ConfigUpdate
  | [] => some u
  | (name, value) :: rest => (u.set? name value).bind fun u => setAll? u rest

end ConfigText

/-- The update that a configuration text describes. -/
def ConfigUpdate.ofText? (text : String) : Option ConfigUpdate :=
  match ConfigText.entries? text with
  | some entries => if (entries.map Prod.fst).Nodup then ConfigText.setAll? {} entries else none
  | none => none

end ClauseLearning
