/-
# Readers of JSON text

A reader takes characters from the front of a text.  It tells what came of it and what is left,
also when it fails: a list or an object whose content is at fault is still closed, and a fault
without a place receives the place that the reader has reached by then.
-/
import ConfigRegistry.Json.Fault

namespace ConfigRegistry.Json

/-- What a reader made of a text: an answer or a fault, and what is left. -/
structure Reading (α : Type) where
  outcome : Except Fault α
  rest : List Char

/-- A reader of values from the front of a text. -/
def Reader (α : Type) : Type := List Char → Reading α

namespace Reader

variable {α β : Type}

/-- Reads nothing. -/
protected def pure (a : α) : Reader α := fun s => ⟨.ok a, s⟩

/-- Reads one thing after another and stops at the first fault. -/
protected def bind (r : Reader α) (f : α → Reader β) : Reader β := fun s =>
  match r s with
  | ⟨.ok a, rest⟩ => f a rest
  | ⟨.error e, rest⟩ => ⟨.error e, rest⟩

instance : Monad Reader where
  pure := Reader.pure
  bind := Reader.bind

/-- Fails with a breach of the grammar, `ahead` bytes past what has been taken. -/
def breach (b : Breach) (ahead : Nat) : Reader α := fun s =>
  ⟨.error ⟨.breach b, some ⟨s, ahead⟩⟩, s⟩

/-- Fails because a value does not fit, at a place yet to be told. -/
def mismatch (m : Mismatch) : Reader α := fun s => ⟨.error ⟨.mismatch m, none⟩, s⟩

/-- Gives a fault that has no place yet the place reached. -/
def settle (r : Reader α) : Reader α := fun s =>
  match r s with
  | ⟨.error ⟨cause, none⟩, rest⟩ => ⟨.error ⟨cause, some ⟨rest, 0⟩⟩, rest⟩
  | other => other

/-- Reads a content and then, even if that failed, what closes it; the first fault counts. -/
def closedBy (r : Reader α) (close : Reader Unit) : Reader α := fun s =>
  match r s with
  | ⟨.ok a, rest⟩ =>
    match close rest with
    | ⟨.ok (), rest⟩ => ⟨.ok a, rest⟩
    | ⟨.error e, rest⟩ => ⟨.error e, rest⟩
  | ⟨.error e, rest⟩ => ⟨.error e, (close rest).rest⟩

/-- The next character, left where it is. -/
def peek : Reader (Option Char) := fun s => ⟨.ok s.head?, s⟩

/-- Takes the next character. -/
def skip : Reader Unit := fun s => ⟨.ok (), s.tail⟩

/-- The blanks of JSON. -/
def isBlank (c : Char) : Bool := c == ' ' || c == '\n' || c == '\t' || c == '\r'

/-- Takes blanks and looks at the character after them. -/
def peekToken : Reader (Option Char) := fun s =>
  let rest := s.dropWhile isBlank
  ⟨.ok rest.head?, rest⟩

/-- Takes the rest of a keyword, of which the first letter has been taken.  A wrong character is
taken, too, as far as its first byte. -/
def keyword : List Char → Reader Unit
  | [] => Reader.pure ()
  | expected :: more => fun s =>
    match s with
    | [] => breach .endInValue 0 s
    | c :: rest => if c == expected then keyword more rest else breach .identifierExpected 1 s

/-- Runs a reader of the content of a list or object one level deeper; at the last level nothing
may be nested any more. -/
def nested (depth : Nat) (r : Nat → Reader α) : Reader α :=
  if depth ≤ 1 then breach .tooDeep 1 else r (depth - 1)

/-- The nesting that a whole text may have. -/
def depthLimit : Nat := 128

/-- Reads a whole text: one value, and nothing but blanks around it. -/
def whole (r : Reader α) : Reader α := do
  let a ← r
  match ← peekToken with
  | none => pure a
  | some _ => breach .trailingCharacters 1

/-- The answer of a reader on a whole text. -/
def run (r : Reader α) (text : String) : Except Fault α :=
  (r.whole text.toList).outcome

end Reader

end ConfigRegistry.Json
