import Lineage.Pattern.Expr
import Lineage.Text.Hex

/-!
# Reading patterns: the cursor

A reader of patterns consumes text from a cursor, which also knows the flags in
force and the names of the groups read so far. It fails without saying why.
-/

namespace Lineage.Pattern

/-- The flags of a pattern. -/
structure Flags where
  /-- `i`: letters match in either case. -/
  ignoreCase : Bool := false
  /-- `m`: `^` and `$` match at the ends of lines. -/
  multiLine : Bool := false
  /-- `s`: the dot matches the end of a line. -/
  dotAll : Bool := false
  /-- `U`: repetitions are lazy unless marked greedy. -/
  swapGreed : Bool := false
  /-- `u`: the classes hold the characters of all scripts. -/
  allScripts : Bool := true
  /-- `R`: a carriage return ends a line as well. -/
  returns : Bool := false
  /-- `x`: white space and comments are skipped. -/
  verbose : Bool := false
deriving Repr, DecidableEq

/-- Where a reader stands. -/
structure Cursor where
  /-- The text that is left. -/
  rest : List Char
  flags : Flags
  /-- The names of the groups so far. -/
  names : List (List Char)

/-- A reader of part of a pattern. -/
abbrev Reader := StateT Cursor Option

namespace Reader

/-- The text that is left. -/
def rest : Reader (List Char) := return (← get).rest

/-- Leaves the given text. -/
def leave (s : List Char) : Reader Unit := modify fun c => { c with rest := s }

/-- The flags in force. -/
def flags : Reader Flags := return (← get).flags

/-- Puts flags in force. -/
def setFlags (flags : Flags) : Reader Unit := modify fun c => { c with flags }

/-- The text after white space and comments, each of which lasts to the end of
    its line. -/
def afterBlank (comment : Bool) : List Char → List Char
  | [] => []
  | c :: s =>
    if comment then afterBlank (c != '\n') s
    else if Text.isBlank c then afterBlank false s
    else if c = '#' then afterBlank true s
    else c :: s

/-- Skips white space and comments, if they are skipped at all. -/
def skipBlank : Reader Unit := do
  if (← flags).verbose then leave (afterBlank false (← rest))

/-- Leaves the given text, and skips blanks; something has to be left. -/
def leaveMore (s : List Char) : Reader Unit := do
  leave s
  skipBlank
  if (← rest).isEmpty then failure

/-- The next character but one, or, where blanks are skipped, the one after the
    blanks that follow the next. A comment counts as far as its mark here. -/
def peekBlank : Reader (Option Char) := do
  let s := (← rest).tail
  if (← flags).verbose then
    match s.dropWhile Text.isBlank with
    | '#' :: s => return (s.dropWhile Text.isBlank).head?
    | s => return s.head?
  else return s.head?

/-! ### Numbers -/

/-- The code point in exactly `count` hexadecimal digits, after `value`. -/
def hexDigits : Nat → Nat → Reader Nat
  | 0, value => return value
  | count + 1, value => do
    let c :: s ← rest | failure
    let some d := Text.hexDigit? c | failure
    if count = 0 then do
      leave s
      skipBlank
    else leaveMore s
    hexDigits count (value * 16 + d)

/-- The hexadecimal digits up to a closing brace. -/
def hexUntilBrace : Nat → Option Nat → Reader Nat
  | 0, _ => failure
  | fuel + 1, value => do
    match (← rest) with
    | '}' :: s =>
      let some n := value | failure
      leave s
      skipBlank
      return n
    | c :: s =>
      let some d := Text.hexDigit? c | failure
      leaveMore s
      hexUntilBrace fuel (some ((value.getD 0) * 16 + d))
    | [] => failure

/-- The decimal digits of a count; blanks between them are skipped. -/
def countDigits : Nat → List Char → Reader (List Char)
  | 0, _ => failure
  | fuel + 1, read => do
    match (← rest) with
    | c :: s =>
      if c.isDigit then do
        leave s
        skipBlank
        countDigits fuel (c :: read)
      else return read.reverse
    | [] => return read.reverse

/-- A count with white space around it; none if there is no digit. It must fit
    32 bits. -/
def count? : Reader (Option Nat) := do
  leave ((← rest).dropWhile Text.isBlank)
  let digits ← countDigits ((← rest).length + 1) []
  leave ((← rest).dropWhile Text.isBlank)
  if digits.isEmpty then return none
  let n := Nat.ofDigitChars 10 digits 0
  if n < 4294967296 then return some n else failure

end Reader

end Lineage.Pattern
