import ClauseLearning.Text.Pattern

/-!
# Patterns from text

The written form of patterns: a character stands for itself, `.` for any character, `[...]` for one of a set, `(...)`
groups, `|` separates alternatives, and `*`, `+`, `?` and a count in braces repeat what stands in front of them. `^` and
`$` stand for the ends of the text, and a backslash gives a character its other meaning.

* `Pattern.alternatives?` : the pattern at the beginning of a text, and the rest of the text;
* `Pattern.ofText?` : the pattern that a text stands for, none for a text that is broken. Flags, named groups, sets
  within sets and characters by number or by property are not part of the form.
-/

namespace ClauseLearning.Pattern

/-! ## Characters and sets -/

/-- The classes with a letter of their own. A capital letter stands for what the class leaves out. -/
def lettered? : Char → Option (CharacterClass × Bool)
  | 'd' => some (.digit, true)
  | 'D' => some (.digit, false)
  | 'w' => some (.word, true)
  | 'W' => some (.word, false)
  | 's' => some (.whiteSpace, true)
  | 'S' => some (.whiteSpace, false)
  | _ => none

/-- The places with a letter of their own. -/
def letteredPlace? : Char → Option Place
  | 'A' => some .start
  | 'z' => some .finish
  | 'b' => some .wordEdge
  | 'B' => some .noWordEdge
  | _ => none

/-- The character that an escape stands for. Punctuation stands for itself. -/
def escapedCharacter? (c : Char) : Option Char :=
  match c with
  | 'a' => some '\x07'
  | 'f' => some '\x0c'
  | 't' => some '\t'
  | 'n' => some '\n'
  | 'r' => some '\r'
  | 'v' => some '\x0b'
  | _ => if c.toNat < 128 && !c.isAlphanum && c != '<' && c != '>' then some c else none

/-- An element of a set: a character, or a class with a letter of its own. -/
inductive Element
  | character (c : Char)
  | shorthand (k : CharacterClass × Bool)

/-- The element at the beginning of a text. A bracket would open a set within the set. -/
def element? : List Char → Option (Element × List Char)
  | '\\' :: c :: cs =>
    match lettered? c with
    | some k => some (.shorthand k, cs)
    | none => (escapedCharacter? c).map fun c => (.character c, cs)
  | '[' :: _ => none
  | '\\' :: [] | [] => none
  | c :: cs => some (.character c, cs)

/-- Whether a dash in front of a text makes a range. At the end of a set, and in front of another dash, it does not. -/
def makesRange : List Char → Bool
  | '-' :: ']' :: _ | '-' :: '-' :: _ => false
  | '-' :: _ => true
  | _ => false

/-- The element or the range of characters at the beginning of a text. Only characters bound a range. -/
def classItem? (cs : List Char) : Option ((CharacterClass × Bool) × List Char) := do
  let (e, cs) ← element? cs
  if makesRange cs then
    match e, ← element? cs.tail with
    | .character low, (.character high, rest) => if low ≤ high then return ((.range low high, true), rest) else none
    | _, _ => none
  else
    match e with
    | .character c => return ((.range c c, true), cs)
    | .shorthand k => return (k, cs)

/-- Whether two characters combine sets, which no set of this form does. -/
def combinesSets : List Char → Bool
  | '&' :: '&' :: _ | '-' :: '-' :: _ | '~' :: '~' :: _ => true
  | _ => false

/-- The classes up to a closing bracket. The text has no more characters than `fuel`. -/
def classItems? : Nat → List Char → Option (List (CharacterClass × Bool) × List Char)
  | 0, _ => none
  | fuel + 1, cs =>
    match cs with
    | ']' :: rest => some ([], rest)
    | cs =>
      if combinesSets cs then none
      else do
        let (k, rest) ← classItem? cs
        let (ks, rest) ← classItems? fuel rest
        return (k :: ks, rest)

/-- The set after an opening bracket. Dashes and a closing bracket in front stand for themselves. -/
def set? (cs : List Char) : Option (CharacterSet × List Char) := do
  let negated := cs.head? == some '^'
  let cs := if negated then cs.tail else cs
  let (dashes, cs) := cs.span (· == '-')
  let bracket := dashes.isEmpty && cs.head? == some ']'
  let cs := if bracket then cs.tail else cs
  let (ks, rest) ← classItems? (cs.length + 1) cs
  let front := dashes ++ if bracket then [']'] else []
  return (⟨front.map (fun c => (.range c c, true)) ++ ks, negated⟩, rest)

/-! ## Repetitions -/

/-- The number at the beginning of a text, with white space around it or not. It has 32 bits. -/
def bound? (cs : List Char) : Option (Nat × List Char) :=
  let (digits, rest) := (cs.dropWhile isWhiteSpace).span Char.isDigit
  let n := digits.foldl (fun n d => n * 10 + (d.toNat - '0'.toNat)) 0
  if digits.isEmpty || UInt32.size ≤ n then none else some (n, rest.dropWhile isWhiteSpace)

/-- A count after its opening brace: the least number of rounds, and the most unless there is no bound. -/
def count? (cs : List Char) : Option ((Nat × Option Nat) × List Char) := do
  let (least, cs) ← bound? cs
  match cs with
  | '\x7d' :: rest => return ((least, some least), rest)
  | ',' :: '\x7d' :: rest => return ((least, none), rest)
  | ',' :: cs =>
    match ← bound? cs with
    | (most, '\x7d' :: rest) => if least ≤ most then return ((least, some most), rest) else none
    | _ => none
  | _ => none

/-- A text after a question mark that asks for few rounds. It does not change what occurs. -/
def afterLazy (cs : List Char) : List Char := if cs.head? = some '?' then cs.tail else cs

/-- A pattern with the repetitions behind it. The text has fewer characters than `fuel`. -/
def repetitions? : Nat → Pattern → List Char → Option (Pattern × List Char)
  | 0, _, _ => none
  | fuel + 1, p, cs =>
    match cs with
    | '*' :: rest => repetitions? fuel (.repeated p 0 none) (afterLazy rest)
    | '+' :: rest => repetitions? fuel (.repeated p 1 none) (afterLazy rest)
    | '?' :: rest => repetitions? fuel (.repeated p 0 (some 1)) (afterLazy rest)
    | '\x7b' :: rest => do
      let ((least, most), rest) ← count? rest
      repetitions? fuel (.repeated p least most) (afterLazy rest)
    | cs => some (p, cs)

/-! ## Patterns -/

/-- The text of a group after its opening parenthesis, where a question mark and a colon may follow. -/
def groupText? : List Char → Option (List Char)
  | '?' :: ':' :: cs => some cs
  | '?' :: _ => none
  | cs => some cs

/-- A pattern of one piece other than a group. -/
def piece? : List Char → Option (Pattern × List Char)
  | '.' :: cs => some (.character .anyOfLine, cs)
  | '^' :: cs => some (.place .start, cs)
  | '$' :: cs => some (.place .finish, cs)
  | '[' :: cs => (set? cs).map fun (s, rest) => (.character s, rest)
  | '\\' :: c :: cs =>
    match lettered? c, letteredPlace? c with
    | some k, _ => some (.character ⟨[k], false⟩, cs)
    | none, some p => some (.place p, cs)
    | none, none => (escapedCharacter? c).map fun c => (.character (.single c), cs)
  | [] | '\\' :: [] | '*' :: _ | '+' :: _ | '?' :: _ | '\x7b' :: _ => none
  | c :: cs => some (.character (.single c), cs)

mutual

/-- The alternatives at the beginning of a text, up to its end or to a closing parenthesis. -/
def alternatives? (fuel : Nat) (cs : List Char) : Option (Pattern × List Char) :=
  match fuel with
  | 0 => none
  | fuel + 1 => do
    let (p, rest) ← sequence? fuel cs
    match rest with
    | '|' :: rest =>
      let (q, rest) ← alternatives? fuel rest
      return (.either p q, rest)
    | rest => return (p, rest)

/-- The pieces at the beginning of a text, with their repetitions. -/
def sequence? (fuel : Nat) (cs : List Char) : Option (Pattern × List Char) :=
  match fuel with
  | 0 => none
  | fuel + 1 =>
    match cs with
    | [] | ')' :: _ | '|' :: _ => some (.empty, cs)
    | cs => do
      let (p, rest) ← group? fuel cs
      let (p, rest) ← repetitions? (rest.length + 1) p rest
      let (q, rest) ← sequence? fuel rest
      return (.sequence p q, rest)

/-- The group or other piece at the beginning of a text. -/
def group? (fuel : Nat) (cs : List Char) : Option (Pattern × List Char) :=
  match fuel with
  | 0 => none
  | fuel + 1 =>
    match cs with
    | '(' :: cs => do
      let cs ← groupText? cs
      match ← alternatives? fuel cs with
      | (p, ')' :: rest) => return (p, rest)
      | _ => none
    | cs => piece? cs

end

/-- The pattern that a text stands for. Each character takes at most three levels of the reading. -/
def ofText? (cs : List Char) : Option Pattern :=
  match alternatives? (3 * cs.length + 3) cs with
  | some (p, []) => some p
  | _ => none

end ClauseLearning.Pattern
