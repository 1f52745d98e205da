import Lineage.Text.Spans

/-!
# Characters as bytes

A character is written as one to four bytes. The characters of a span are
written as a few sequences of spans of bytes: one sequence for each part of the
span in which every byte ranges over a span of its own.
-/

namespace Lineage.Text

/-- A sequence of spans of bytes. -/
abbrev ByteSpans := List Span

/-- The bytes of the character with code point `n`. -/
def bytesOfCode (n : Nat) : List Nat :=
  let further (k : Nat) : Nat := 0x80 + n / k % 64
  if n < 0x80 then [n]
  else if n < 0x800 then [0xC0 + n / 64, further 1]
  else if n < 0x10000 then [0xE0 + n / 4096, further 64, further 1]
  else [0xF0 + n / 262144, further 4096, further 64, further 1]

/-- Where a span is cut so that its characters have one length and its last bytes
    range over all that there are, unless those before them are the same: the
    first code point after the cut. -/
def cut? (first last : Nat) : Option Nat :=
  match [0x80, 0x800, 0x10000].find? fun n => first < n && n ≤ last with
  | some n => some n
  | none =>
    if last < 0x80 then none
    else [64, 4096, 262144].findSome? fun block =>
      if first / block = last / block then none
      else if first % block ≠ 0 then some ((first / block + 1) * block)
      else if last % block ≠ block - 1 then some (last / block * block)
      else none

/-- The characters of a span as sequences, in ascending order. No span is cut more
    often than `fuel`. -/
def sequencesOf : Nat → Nat → Nat → List ByteSpans
  | 0, _, _ => []
  | fuel + 1, first, last =>
    match cut? first last with
    | some n => sequencesOf fuel first (n - 1) ++ sequencesOf fuel n last
    | none => [(bytesOfCode first).zip (bytesOfCode last)]

namespace Spans

/-- The spans without surrogates. -/
def withoutSurrogates (t : Spans) : List Span :=
  t.toList.flatMap fun (first, last) =>
    [(first, min last (surrogates.1 - 1)), (max first (surrogates.2 + 1), last)].filter fun s =>
      s.1 ≤ s.2

/-- The characters of the set as sequences, in ascending order. A span is cut three
    times by lengths and twice for each byte but the first. -/
def byteSequences (t : Spans) : List ByteSpans :=
  t.withoutSurrogates.flatMap fun (first, last) => sequencesOf 16 first last

end Spans

end Lineage.Text
