import ClauseLearning.Text.WhiteSpace

/-!
# Patterns

A pattern is a regular expression. It matches pieces of a text.

* `CharacterSet` : the characters that may stand at a place;
* `Pattern.ends` : where the pieces that match a pattern and start at a place can end;
* `Pattern.occursIn` : whether some piece of a text matches.
-/

namespace ClauseLearning

/-- Some characters: a range, the digits, the characters of words, or white space. Digits and words are those of
ASCII. -/
inductive CharacterClass
  | range (low high : Char)
  | digit
  | word
  | whiteSpace
deriving DecidableEq

namespace CharacterClass

def isWordCharacter (c : Char) : Bool := c.isAlphanum || c == '_'

def contains (c : Char) : CharacterClass → Bool
  | range low high => low ≤ c ∧ c ≤ high
  | digit => c.isDigit
  | word => isWordCharacter c
  | whiteSpace => isWhiteSpace c

end CharacterClass

/-- The characters of some classes, where each class counts as it is or by what it leaves out. If `negated`, all other
characters. -/
structure CharacterSet where
  classes : List (CharacterClass × Bool)
  negated : Bool := false
deriving DecidableEq

namespace CharacterSet

def contains (s : CharacterSet) (c : Char) : Bool :=
  (s.classes.any fun (k, inside) => k.contains c == inside) != s.negated

/-- The set of one character. -/
def single (c : Char) : CharacterSet := ⟨[(.range c c, true)], false⟩

/-- All characters but the end of a line. -/
def anyOfLine : CharacterSet := ⟨[(.range '\n' '\n', true)], true⟩

end CharacterSet

/-- A place between characters: the start of the text, its end, the edge of a word, and anything but such an edge. -/
inductive Place
  | start
  | finish
  | wordEdge
  | noWordEdge
deriving DecidableEq

namespace Place

/-- Whether the character with a number is part of a word. -/
def isWordAt (text : Array Char) (i : Nat) : Bool := (text[i]?.map CharacterClass.isWordCharacter).getD false

/-- Whether the place in front of the character with number `i` is an edge of a word. -/
def isWordEdge (text : Array Char) (i : Nat) : Bool := (i != 0 && isWordAt text (i - 1)) != isWordAt text i

def holdsAt (text : Array Char) (i : Nat) : Place → Bool
  | start => i == 0
  | finish => i == text.size
  | wordEdge => isWordEdge text i
  | noWordEdge => !isWordEdge text i

end Place

/-- A regular expression. A repetition has a least number of rounds, and a most unless there is no bound. -/
inductive Pattern
  | empty
  | character (set : CharacterSet)
  | place (place : Place)
  | sequence (first second : Pattern)
  | either (first second : Pattern)
  | repeated (inner : Pattern) (least : Nat) (most : Option Nat)

namespace Pattern

/-- Where `rounds` applications of `step` lead from some places. -/
def exactly (step : Nat → List Nat) : Nat → List Nat → List Nat
  | 0, places => places
  | rounds + 1, places => exactly step rounds (places.flatMap step).eraseDups

/-- Where up to `rounds` applications of `step` lead from some places. -/
def upTo (step : Nat → List Nat) : Nat → List Nat → List Nat
  | 0, places => places
  | rounds + 1, places => upTo step rounds (places ++ places.flatMap step).eraseDups

/-- Where the pieces of a text that match a pattern and start at a place can end. A text of `n` characters has `n + 1`
places, and each step stays or goes forward, so more than `n + 1` rounds lead nowhere else. -/
def ends (text : Array Char) : Pattern → Nat → List Nat
  | empty, i => [i]
  | character set, i => if (text[i]?.map set.contains).getD false then [i + 1] else []
  | place p, i => if p.holdsAt text i then [i] else []
  | sequence p q, i => ((ends text p i).flatMap (ends text q)).eraseDups
  | either p q, i => (ends text p i ++ ends text q i).eraseDups
  | repeated p least most, i =>
    let enough := text.size + 1
    let more := (most.map fun m => min (m - least) enough).getD enough
    upTo (ends text p) more (exactly (ends text p) (min least enough) [i])

/-- Whether some piece of a text matches. -/
def occursIn (p : Pattern) (text : String) : Bool :=
  let text := text.toList.toArray
  (List.range (text.size + 1)).any fun i => !(ends text p i).isEmpty

end Pattern

end ClauseLearning
