import ClauseLearning.Event
import ClauseLearning.Text.Pattern.Reading

/-!
# Filters of messages

A filter says which messages are shown. It has rules, parted by commas, and after a slash a pattern that the text of a
message has to contain. The rule `LEVEL` gives the level of detail of all messages, `NAME=LEVEL` that of messages whose
source starts with `NAME`, and `NAME` lets everything from there through.

* `MessageFilter.rule?` : the rule that a text makes, if it makes one;
* `MessageFilter.ofText` : the filter of a text. Texts that make no rule are passed over;
* `MessageFilter.limit` : the level of detail for a source. Of the rules for it the longest name counts, then the last;
* `MessageFilter.shows` : whether a message is shown.
-/

namespace ClauseLearning

/-- Which messages are shown. -/
structure MessageFilter where
  rules : List (String × Detail) := []
  pattern : Option Pattern := none

namespace MessageFilter

/-- The rule that a text makes: the beginning of the sources it is about, and a level of detail. The equals sign parts
them. -/
def rule? (text : String) : Option (String × Detail) :=
  match text.splitOn "=" with
  | [""] => none
  | [name] =>
    match Detail.ofName? name with
    | some limit => some ("", limit)
    | none => some (name, .trace)
  | [name, level] =>
    let level := String.ofList (trimmed level.toList)
    if level = "" then some (name, .trace) else (Detail.ofName? level).map fun limit => (name, limit)
  | _ => none

/-- The rules of a text, in order. -/
def readRules (text : String) : List (String × Detail) := (text.splitOn ",").filterMap rule?

/-- The filter of a text. A pattern that is broken is left out, and a text with more than one slash is no filter. -/
def ofText (text : String) : MessageFilter :=
  match text.splitOn "/" with
  | [text] => ⟨readRules text, none⟩
  | [text, pattern] => ⟨readRules text, Pattern.ofText? pattern.toList⟩
  | _ => {}

/-- The rule that counts for a source, out of one so far and those that follow. -/
def select (source : String) : String × Detail → List (String × Detail) → String × Detail
  | best, [] => best
  | best, rule :: rest =>
    if rule.1.toList.isPrefixOf source.toList && best.1.length ≤ rule.1.length then select source rule rest
    else select source best rest

/-- The level of detail for a source. Without a rule it is that of information. -/
def limit (f : MessageFilter) (source : String) : Detail := (select source ("", .info) f.rules).2

/-- Whether a message of a source is shown. -/
def shows (f : MessageFilter) (source : String) (detail : Detail) (text : String) : Bool :=
  (f.limit source).shows detail && f.pattern.all fun p => p.occursIn text

end MessageFilter

end ClauseLearning
