/-! Quoted literals: how a text is written as one, and where the literals of a text stand.
A literal begins at a quote, ends at the next quote of the same kind, and a backslash inside it
takes the character after it along. -/
namespace PullQuery.Text

def isQuote (c : Char) : Bool := c == '"' || c == '\''

/-- Inside double quotes a backslash stands before every double quote and backslash. -/
def escapeQuoted : List Char → List Char
  | [] => []
  | c :: rest =>
    if c = '"' || c = '\\' then '\\' :: c :: escapeQuoted rest else c :: escapeQuoted rest

def asLiteral (cs : List Char) : List Char := '"' :: escapeQuoted cs ++ ['"']

inductive QuoteState where
  | outside
  | inside (quote : Char)
  | escaped (quote : Char)
  deriving DecidableEq

namespace QuoteState

def next : QuoteState → Char → QuoteState
  | outside, c => if isQuote c then inside c else outside
  | inside quote, c =>
    if c = '\\' then escaped quote else if c = quote then outside else inside quote
  | escaped quote, _ => inside quote

def after (state : QuoteState) (cs : List Char) : QuoteState := cs.foldl next state

end QuoteState

/-- Offsets of the first character and of the one after the last. -/
structure Span where
  start : Nat
  stop : Nat
  deriving DecidableEq, Repr

namespace Span

def holds (span : Span) (offset : Nat) : Bool := span.start ≤ offset && offset < span.stop

end Span

/-- The spans that end in a text at `offset`, where an open literal began at `opened`. -/
def spansFrom (offset opened : Nat) : QuoteState → List Char → List Span
  | .outside, [] => []
  | .inside _, [] | .escaped _, [] => [⟨opened, offset⟩]
  | .outside, c :: rest =>
    spansFrom (offset + 1) offset (QuoteState.outside.next c) rest
  | .inside quote, c :: rest =>
    if (QuoteState.inside quote).next c = .outside then
      ⟨opened, offset + 1⟩ :: spansFrom (offset + 1) opened .outside rest
    else spansFrom (offset + 1) opened ((QuoteState.inside quote).next c) rest
  | .escaped quote, _ :: rest => spansFrom (offset + 1) opened (.inside quote) rest

/-- The literals of a text, quotes included. One that is not closed runs to the end. -/
def literalSpans (cs : List Char) : List Span := spansFrom 0 0 .outside cs

end PullQuery.Text
