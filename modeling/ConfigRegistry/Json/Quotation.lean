/-
# Reading JSON strings

The body of a string is read one written character at a time: a character that stands for
itself, an escape of a single letter, or an escape of four hexadecimal digits, two of which make
one character when they are a leading and a trailing surrogate.
-/
import ConfigRegistry.Json.Reader

namespace ConfigRegistry.Json

/-- The value of a hexadecimal digit of either case. -/
def hexValue (c : Char) : Option Nat :=
  if c.isDigit then some (c.toNat - '0'.toNat)
  else if 'a' ≤ c && c ≤ 'f' then some (c.toNat - 'a'.toNat + 10)
  else if 'A' ≤ c && c ≤ 'F' then some (c.toNat - 'A'.toNat + 10)
  else none

/-- A fault at a place that is known. -/
def Fault.at (b : Breach) (rest : List Char) (ahead : Nat) : Fault :=
  ⟨.breach b, some ⟨rest, ahead⟩⟩

/-- A value read from the front of `s`, and what is left, no longer than `s`. -/
abbrev Taken (α : Type) (s : List Char) : Type := α × { r : List Char // r.length ≤ s.length }

/-- Reads four hexadecimal digits as one number.  The four digits are taken as four bytes before
any of them is looked at. -/
def hexQuad (s : List Char) : Except Fault (Taken Nat s) :=
  match s with
  | a :: b :: c :: d :: rest =>
    match hexValue a, hexValue b, hexValue c, hexValue d with
    | some a, some b, some c, some d =>
      .ok (((a * 16 + b) * 16 + c) * 16 + d, ⟨rest, by simp; omega⟩)
    | _, _, _, _ => .error (Fault.at .badEscape s 4)
  | _ =>
    if s.foldl (fun n c => n + c.utf8Size) 0 < 4 then .error (Fault.at .endInString [] 0)
    else .error (Fault.at .badEscape s 4)

/-- Whether a number is a leading surrogate. -/
def isLeadingSurrogate (n : Nat) : Bool := 0xD800 ≤ n && n ≤ 0xDBFF

/-- Whether a number is a trailing surrogate. -/
def isTrailingSurrogate (n : Nat) : Bool := 0xDC00 ≤ n && n ≤ 0xDFFF

/-- The character that a pair of surrogates stands for. -/
def joinSurrogates (lead trail : Nat) : Char :=
  Char.ofNat (0x10000 + (lead - 0xD800) * 0x400 + (trail - 0xDC00))

/-- Reads the digits of a numeric escape, and the second escape of a surrogate pair. -/
def unicodeEscape (s : List Char) : Except Fault (Taken Char s) := do
  let (n, ⟨rest, h⟩) ← hexQuad s
  if isTrailingSurrogate n then .error (Fault.at .loneSurrogate rest 0)
  else if !isLeadingSurrogate n then .ok (Char.ofNat n, ⟨rest, h⟩)
  else
    match h' : rest with
    | [] => .error (Fault.at .endInString [] 0)
    | '\\' :: [] => .error (Fault.at .endInString [] 0)
    | '\\' :: 'u' :: rest₂ =>
      let (m, ⟨rest₃, h₃⟩) ← hexQuad rest₂
      if isTrailingSurrogate m then
        .ok (joinSurrogates n m, ⟨rest₃, by rw [h'] at h; simp at h; omega⟩)
      else .error (Fault.at .loneSurrogate rest₃ 0)
    | '\\' :: rest₂ => .error (Fault.at .unfinishedSurrogatePair rest₂ 1)
    | _ => .error (Fault.at .unfinishedSurrogatePair rest 1)

/-- Reads an escape, of which the backslash has been taken. -/
def escape (s : List Char) : Except Fault (Taken Char s) :=
  match s with
  | [] => .error (Fault.at .endInString [] 0)
  | c :: rest =>
    let as (d : Char) : Except Fault (Taken Char (c :: rest)) := .ok (d, ⟨rest, by simp⟩)
    match c with
    | '"' => as '"'
    | '\\' => as '\\'
    | '/' => as '/'
    | 'b' => as '\x08'
    | 'f' => as '\x0c'
    | 'n' => as '\n'
    | 'r' => as '\r'
    | 't' => as '\t'
    | 'u' => (unicodeEscape rest).map fun (d, ⟨r, h⟩) => (d, ⟨r, by simp; omega⟩)
    | _ => .error (Fault.at .badEscape (c :: rest) 1)

/-- The characters of a string up to and including the closing quote, of which `done` have been
read, the last one first. -/
def stringBody (done : List Char) (s : List Char) : Reading String :=
  match s with
  | [] => ⟨.error (Fault.at .endInString [] 0), []⟩
  | '"' :: rest => ⟨.ok (String.ofList done.reverse), rest⟩
  | '\\' :: rest =>
    match escape rest with
    | .ok (c, ⟨rest', _⟩) => stringBody (c :: done) rest'
    | .error e => ⟨.error e, rest⟩
  | c :: rest =>
    if c.toNat < 0x20 then ⟨.error (Fault.at .controlCharacter (c :: rest) 1), rest⟩
    else stringBody (c :: done) rest
termination_by s.length
decreasing_by
  · simp; omega
  · simp

/-- Reads a string whose opening quote has been taken. -/
def Reader.stringBody : Reader String := Json.stringBody []

end ConfigRegistry.Json
